import FleetRunner.Js.TextOrder

/-!
# Numbers padded with zeros

Texts go by their units, so numbers in texts are ordered as numbers only when
all of them have the same length. Padding with zeros in front gives them one,
and changes no value.
-/

namespace FleetRunner

/-- `String(n).padStart(width, "0")` -/
def padded (width n : Nat) : List Char :=
  List.replicate (width - (Nat.toDigits 10 n).length) '0' ++ Nat.toDigits 10 n

theorem value_padded (width n : Nat) : Nat.ofDigitChars 10 (padded width n) 0 = n := by
  rw [padded, Nat.ofDigitChars_append, Nat.ofDigitChars_replicate_zero, Nat.mul_zero,
    Nat.ofDigitChars_toDigits (by decide) (by decide)]

theorem padded_injective (width : Nat) : Function.Injective (padded width) := by
  intro i j h
  rw [← value_padded width i, h, value_padded]

theorem isDigit_of_mem_padded {width n : Nat} {c : Char} (h : c ∈ padded width n) :
    c.isDigit = true := by
  rcases List.mem_append.mp h with h | h
  · rw [List.eq_of_mem_replicate h]
    decide
  · exact Nat.isDigit_of_mem_toDigits (by decide) (by decide) h

theorem padded_ne_nil (width n : Nat) : padded width n ≠ [] := by
  intro h
  have hempty : Nat.toDigits 10 n = [] := (List.append_eq_nil_iff.mp h).2
  have hpos := Nat.length_toDigits_pos (b := 10) (n := n)
  rw [hempty] at hpos
  exact Nat.lt_irrefl 0 hpos

theorem length_padded {width n : Nat} (h : (Nat.toDigits 10 n).length ≤ width) :
    (padded width n).length = width := by
  simp only [padded, List.length_append, List.length_replicate]
  omega

/-- The smaller number has no more digits. -/
theorem length_toDigits_mono {i n : Nat} (h : i ≤ n) :
    (Nat.toDigits 10 i).length ≤ (Nat.toDigits 10 n).length := by
  rw [Nat.length_toDigits_le_iff (by decide) Nat.length_toDigits_pos]
  apply Nat.lt_of_le_of_lt h
  exact (Nat.length_toDigits_le_iff (by decide) Nat.length_toDigits_pos).mp le_rfl

theorem digit_units {c : Char} (h : c.isDigit = true) :
    codeUnits c = [c.toNat] ∧ '0'.toNat ≤ c.toNat ∧ c.toNat - '0'.toNat < 10 := by
  have hrange : 48 ≤ c.toNat ∧ c.toNat ≤ 57 := Char.isDigit_iff_toNat.mp h
  have hzero : '0'.toNat = 48 := rfl
  refine ⟨if_pos (by omega), by omega, by omega⟩

theorem value_lt {cs : List Char} (h : ∀ c ∈ cs, c.isDigit = true) :
    Nat.ofDigitChars 10 cs 0 < 10 ^ cs.length := by
  induction cs with
  | nil => simp
  | cons c cs ih =>
      obtain ⟨-, -, hc⟩ := digit_units (h c List.mem_cons_self)
      have hrest := ih fun d hd => h d (List.mem_cons_of_mem c hd)
      rw [Nat.ofDigitChars_cons, Nat.ofDigitChars_eq_ofDigitChars_zero, Nat.mul_zero, Nat.zero_add,
        List.length_cons, Nat.pow_succ]
      have hscaled := Nat.mul_le_mul_left (10 ^ cs.length) hc
      rw [Nat.mul_succ] at hscaled
      omega

/-- Digits of one length stand in the order of their values. -/
theorem unitsLe_of_value_lt {as bs : List Char} (us vs : List Nat)
    (has : ∀ c ∈ as, c.isDigit = true) (hbs : ∀ c ∈ bs, c.isDigit = true)
    (hlength : as.length = bs.length)
    (hvalue : Nat.ofDigitChars 10 as 0 < Nat.ofDigitChars 10 bs 0) :
    unitsLe (as.flatMap codeUnits ++ us) (bs.flatMap codeUnits ++ vs) = true := by
  induction as generalizing bs with
  | nil =>
      rw [List.length_eq_zero_iff.mp hlength.symm] at hvalue
      exact absurd hvalue (Nat.lt_irrefl _)
  | cons a as ih =>
      cases bs with
      | nil => cases hlength
      | cons b bs =>
          obtain ⟨haunits, ha, -⟩ := digit_units (has a List.mem_cons_self)
          obtain ⟨hbunits, hb, -⟩ := digit_units (hbs b List.mem_cons_self)
          have has' : ∀ c ∈ as, c.isDigit = true := fun c hc => has c (List.mem_cons_of_mem a hc)
          have hbs' : ∀ c ∈ bs, c.isDigit = true := fun c hc => hbs c (List.mem_cons_of_mem b hc)
          have hrest : as.length = bs.length := Nat.succ.inj hlength
          rw [Nat.ofDigitChars_cons, Nat.ofDigitChars_eq_ofDigitChars_zero, Nat.ofDigitChars_cons,
            Nat.ofDigitChars_eq_ofDigitChars_zero (l := bs), hrest, Nat.mul_zero, Nat.zero_add,
            Nat.zero_add] at hvalue
          have hsmall := value_lt hbs'
          simp only [List.flatMap_cons, haunits, hbunits, List.cons_append, List.nil_append,
            unitsLe, Bool.or_eq_true, Bool.and_eq_true, decide_eq_true_eq]
          rcases Nat.lt_trichotomy a.toNat b.toNat with hlt | heq | hgt
          · exact Or.inl hlt
          · rw [heq] at hvalue
            exact Or.inr ⟨heq, ih has' hbs' hrest (by omega)⟩
          · have hmore : b.toNat - '0'.toNat + 1 ≤ a.toNat - '0'.toNat := by omega
            have hscaled := Nat.mul_le_mul_left (10 ^ bs.length) hmore
            rw [Nat.mul_succ] at hscaled
            omega

end FleetRunner
