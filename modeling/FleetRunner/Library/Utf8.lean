import Mathlib.Data.Nat.Notation
import Mathlib.Data.List.Basic

/-!
# Decoding UTF-8

A decoder that never fails: where the bytes are not the encoding of a character,
the longest start of one is replaced by U+FFFD. It reads byte by byte, and between
two bytes it is either between characters or has one pending.

A text that is cut and decoded in pieces is the same text where no cut is inside a
character; a cut inside one leaves more replacement characters than there were.
-/

namespace FleetRunner.Library.Utf8

def replacement : Char := Char.ofNat 0xfffd

/-- A character that has begun: how many bytes it still needs, what the next may be, and the bits
so far. -/
structure Pending where
  needed : Nat
  lower : Nat
  upper : Nat
  bits : Nat
  low : 0x80 ≤ lower
  high : upper ≤ 0xbf

/-- The byte continues the character. -/
def Pending.takes (p : Pending) (b : UInt8) : Bool :=
  decide (p.lower ≤ b.toNat) && decide (b.toNat ≤ p.upper)

/-- A byte between characters. -/
def lead (b : Nat) : List Char × Option Pending :=
  if b < 0x80 then ([Char.ofNat b], none)
  else if 0xc2 ≤ b ∧ b ≤ 0xdf then
    ([], some ⟨1, 0x80, 0xbf, b - 0xc0, by decide, by decide⟩)
  else if 0xe0 ≤ b ∧ b ≤ 0xef then
    ([], some ⟨2, if b = 0xe0 then 0xa0 else 0x80, if b = 0xed then 0x9f else 0xbf, b - 0xe0,
      by split <;> decide, by split <;> decide⟩)
  else if 0xf0 ≤ b ∧ b ≤ 0xf4 then
    ([], some ⟨3, if b = 0xf0 then 0x90 else 0x80, if b = 0xf4 then 0x8f else 0xbf, b - 0xf0,
      by split <;> decide, by split <;> decide⟩)
  else ([replacement], none)

/-- What a byte gives, and what is pending after it. -/
def step : Option Pending → UInt8 → List Char × Option Pending
  | none, b => lead b.toNat
  | some p, b =>
    if p.takes b then
      let bits := 64 * p.bits + (b.toNat - 0x80)
      if p.needed ≤ 1 then ([Char.ofNat bits], none)
      else ([], some ⟨p.needed - 1, 0x80, 0xbf, bits, by decide, by decide⟩)
    else (replacement :: (lead b.toNat).1, (lead b.toNat).2)

def decodeFrom : Option Pending → List UInt8 → List Char
  | pending, [] => if pending.isSome then [replacement] else []
  | pending, b :: bs => (step pending b).1 ++ decodeFrom (step pending b).2 bs

/-- The text of the bytes. -/
def decode (bytes : List UInt8) : List Char := decodeFrom none bytes

example : decode [0xe2, 0x82, 0xac, 0xe2, 0x82, 0x41] = ['€', replacement, 'A'] := by decide

/-- What is pending after the bytes. -/
def after (pending : Option Pending) (bytes : List UInt8) : Option Pending :=
  bytes.foldl (fun p b => (step p b).2) pending

/-- A character is pending where the bytes are cut, and the next byte continues it. -/
def Torn (xs ys : List UInt8) : Prop :=
  ((after none xs).any fun p => ys.head?.any p.takes) = true

instance (xs ys : List UInt8) : Decidable (Torn xs ys) := inferInstanceAs (Decidable (_ = true))

variable {p : Pending} {b : UInt8}

theorem step_of_takes (h : p.takes b = true) : step none b = ([replacement], none) := by
  have hlow := p.low
  have hhigh := p.high
  simp only [Pending.takes, Bool.and_eq_true, decide_eq_true_eq] at h
  change lead b.toNat = _
  rw [lead, if_neg (by omega), if_neg (by omega), if_neg (by omega), if_neg (by omega)]

theorem step_of_not_takes (h : p.takes b = false) :
    step (some p) b = (replacement :: (step none b).1, (step none b).2) := by
  have hnot : ¬ p.takes b = true := by rw [h]; decide
  exact if_neg hnot

theorem decodeFrom_cons (pending : Option Pending) (b : UInt8) (bs : List UInt8) :
    decodeFrom pending (b :: bs) =
      (step pending b).1 ++ decodeFrom (step pending b).2 bs := rfl

/-- A byte that continues the pending character ends it or leaves one pending. -/
theorem decodeFrom_of_takes (h : p.takes b = true) (bs : List UInt8) :
    (∃ c, decodeFrom (some p) (b :: bs) = c :: decode bs) ∨
      ∃ p', decodeFrom (some p) (b :: bs) = decodeFrom (some p') bs := by
  rw [decodeFrom_cons, step, if_pos h]
  by_cases hneeded : p.needed ≤ 1
  · exact Or.inl ⟨_, by rw [if_pos hneeded]; rfl⟩
  · exact Or.inr ⟨_, by rw [if_neg hneeded]; rfl⟩

/-- A byte that no pending character takes is read as if it stood first. -/
theorem decodeFrom_cons_of_not_takes (h : p.takes b = false) (bs : List UInt8) :
    decodeFrom (some p) (b :: bs) = replacement :: decodeFrom none (b :: bs) := by
  rw [decodeFrom_cons, step_of_not_takes h, decodeFrom_cons]
  rfl

/-- Decoding what follows a pending character on its own gives at least as many replacements, and
more where the character goes on. -/
theorem count_decodeFrom_pending (p : Pending) (ys : List UInt8) :
    (decodeFrom (some p) ys).count replacement ≤ 1 + (decode ys).count replacement ∧
      (ys.head?.any p.takes = true →
        (decodeFrom (some p) ys).count replacement < 1 + (decode ys).count replacement) := by
  induction ys generalizing p with
  | nil => exact ⟨Nat.le_refl 1, fun h => by cases h⟩
  | cons b ys ih =>
    cases h : p.takes b with
    | false =>
      rw [decodeFrom_cons_of_not_takes h, List.count_cons_self, ← decode]
      refine ⟨by omega, fun htakes => ?_⟩
      rw [List.head?_cons, Option.any_some, h] at htakes
      cases htakes
    | true =>
      have hsplit : (decode (b :: ys)).count replacement = 1 + (decode ys).count replacement := by
        rw [decode, decodeFrom_cons, step_of_takes h, List.count_append, ← decode]
        rfl
      have hless : (decodeFrom (some p) (b :: ys)).count replacement <
          1 + (decode (b :: ys)).count replacement := by
        rw [hsplit]
        rcases decodeFrom_of_takes h ys with ⟨c, hends⟩ | ⟨p', hgoes⟩
        · have hone : [c].count replacement ≤ 1 := List.count_le_length
          rw [hends, ← List.singleton_append, List.count_append]
          omega
        · have hrest := (ih p').1
          rw [hgoes]
          omega
      exact ⟨Nat.le_of_lt hless, fun _ => hless⟩

theorem decodeFrom_append (pending : Option Pending) (xs ys : List UInt8) :
    ∃ text, decodeFrom pending (xs ++ ys) = text ++ decodeFrom (after pending xs) ys ∧
      decodeFrom pending xs = text ++ decodeFrom (after pending xs) [] := by
  induction xs generalizing pending with
  | nil => exact ⟨[], rfl, rfl⟩
  | cons b xs ih =>
    obtain ⟨text, happend, halone⟩ := ih (step pending b).2
    refine ⟨(step pending b).1 ++ text, ?_, ?_⟩
    · rw [List.cons_append, decodeFrom_cons, happend, List.append_assoc]
      rfl
    · rw [decodeFrom_cons, halone, List.append_assoc]
      rfl

/-- A text that is not cut inside a character is the texts of its pieces. -/
theorem decode_append {xs ys : List UInt8} (h : ¬ Torn xs ys) :
    decode (xs ++ ys) = decode xs ++ decode ys := by
  obtain ⟨text, happend, halone⟩ := decodeFrom_append none xs ys
  rw [decode, decode, happend, halone, List.append_assoc]
  congr 1
  cases hafter : after none xs with
  | none => rfl
  | some p =>
    cases ys with
    | nil => simp [decodeFrom, decode]
    | cons b ys =>
      have hb : p.takes b = false := by
        rw [Torn, hafter] at h
        simpa using h
      rw [decodeFrom_cons_of_not_takes hb]
      rfl

theorem count_decode_append (xs ys : List UInt8) :
    (decode (xs ++ ys)).count replacement ≤
        (decode xs).count replacement + (decode ys).count replacement ∧
      (Torn xs ys → (decode (xs ++ ys)).count replacement <
        (decode xs).count replacement + (decode ys).count replacement) := by
  by_cases htorn : Torn xs ys
  · obtain ⟨text, happend, halone⟩ := decodeFrom_append none xs ys
    obtain ⟨p, hafter, hhead⟩ : ∃ p, after none xs = some p ∧ ys.head?.any p.takes = true := by
      unfold Torn at htorn
      cases hp : after none xs with
      | none => rw [hp] at htorn; cases htorn
      | some p => exact ⟨p, rfl, by rw [hp] at htorn; exact htorn⟩
    have hless := (count_decodeFrom_pending p ys).2 hhead
    have hxs : (decode xs).count replacement = text.count replacement + 1 := by
      rw [decode, halone, hafter, List.count_append]
      rfl
    have hall : (decode (xs ++ ys)).count replacement <
        (decode xs).count replacement + (decode ys).count replacement := by
      rw [hxs, decode, happend, hafter, List.count_append]
      omega
    exact ⟨Nat.le_of_lt hall, fun _ => hall⟩
  · rw [decode_append htorn, List.count_append]
    exact ⟨Nat.le_refl _, fun h => absurd h htorn⟩

theorem after_append (pending : Option Pending) (xs ys : List UInt8) :
    after pending (xs ++ ys) = after (after pending xs) ys := List.foldl_append

/-- After a cut that is not inside a character, what is pending does not depend on what came
before. -/
theorem after_of_not_torn {xs ys : List UInt8} {b : UInt8} (h : ¬ Torn xs (b :: ys)) :
    after none (xs ++ b :: ys) = after none (b :: ys) := by
  rw [after_append]
  cases hafter : after none xs with
  | none => rfl
  | some p =>
    have hb : p.takes b = false := by
      rw [Torn, hafter] at h
      simpa using h
    change after (step (some p) b).2 ys = after (step none b).2 ys
    rw [step_of_not_takes hb]

/-! ## Text in pieces -/

/-- No piece but the last ends inside a character. -/
def Whole (pieces : List (List UInt8)) : Prop :=
  ∀ before later, pieces = before ++ later → ¬ Torn before.flatten later.flatten

theorem not_torn_nil (ys : List UInt8) : ¬ Torn [] ys := Bool.false_ne_true

theorem whole_nil : Whole [] := by
  intro before later hsplit
  rw [(List.append_eq_nil_iff.mp hsplit.symm).1]
  exact not_torn_nil _

/-- Past a cut that is not inside a character, the next cuts do not see what is before it. -/
theorem torn_append {c : List UInt8} {before later : List (List UInt8)}
    (hc : ¬ Torn c (before ++ later).flatten) (hbefore : before ≠ [])
    (hne : ∀ d ∈ before, d ≠ []) :
    Torn (c ++ before.flatten) later.flatten ↔ Torn before.flatten later.flatten := by
  obtain ⟨d, ds, rfl⟩ := List.exists_cons_of_ne_nil hbefore
  obtain ⟨b, bs, rfl⟩ := List.exists_cons_of_ne_nil (hne d List.mem_cons_self)
  have hsame : after none (c ++ ((b :: bs) :: ds).flatten) = after none ((b :: bs) :: ds).flatten :=
    after_of_not_torn hc
  unfold Torn
  rw [hsame]

theorem whole_cons {c : List UInt8} {cs : List (List UInt8)} (hcs : ∀ d ∈ cs, d ≠ []) :
    Whole (c :: cs) ↔ ¬ Torn c cs.flatten ∧ Whole cs := by
  have hone : [c].flatten = c := by simp
  constructor
  · intro hwhole
    have hc : ¬ Torn c cs.flatten := by
      have hfirst := hwhole [c] cs rfl
      rwa [hone] at hfirst
    refine ⟨hc, fun before later hsplit => ?_⟩
    by_cases hbefore : before = []
    · rw [hbefore]
      exact not_torn_nil _
    · have hall := hwhole (c :: before) later (by rw [hsplit]; rfl)
      rw [hsplit] at hc
      rwa [List.flatten_cons, torn_append hc hbefore fun d hd =>
        hcs d (hsplit ▸ List.mem_append_left _ hd)] at hall
  · rintro ⟨hc, hwhole⟩ before later hsplit
    cases before with
    | nil => exact not_torn_nil _
    | cons c' before =>
      obtain ⟨rfl, hrest⟩ := List.cons.inj hsplit
      by_cases hbefore : before = []
      · subst hbefore
        have hlater : cs = later := hrest
        rwa [hone, ← hlater]
      · rw [hrest] at hc
        rw [List.flatten_cons, torn_append hc hbefore fun d hd =>
          hcs d (hrest ▸ List.mem_append_left _ hd)]
        exact hwhole before later hrest

/-- Pieces decoded one by one give the text of the whole where none ends inside a character; and
more replacements where one does. -/
theorem decode_pieces (pieces : List (List UInt8)) (hne : ∀ c ∈ pieces, c ≠ []) :
    (Whole pieces → (pieces.map decode).flatten = decode pieces.flatten) ∧
    (decode pieces.flatten).count replacement ≤ (pieces.map decode).flatten.count replacement ∧
    (¬ Whole pieces → (decode pieces.flatten).count replacement <
      (pieces.map decode).flatten.count replacement) := by
  induction pieces with
  | nil => exact ⟨fun _ => rfl, Nat.le_refl _, fun h => absurd whole_nil h⟩
  | cons c cs ih =>
    have hcs : ∀ d ∈ cs, d ≠ [] := fun d hd => hne d (List.mem_cons_of_mem _ hd)
    obtain ⟨hsame, hle, hless⟩ := ih hcs
    obtain ⟨hcle, hcless⟩ := count_decode_append c cs.flatten
    rw [whole_cons hcs, List.map_cons, List.flatten_cons, List.flatten_cons, List.count_append]
    refine ⟨fun hwhole => ?_, by omega, fun htorn => ?_⟩
    · rw [hsame hwhole.2, decode_append hwhole.1]
    · by_cases hc : Torn c cs.flatten
      · have := hcless hc
        omega
      · have := hless fun hwhole => htorn ⟨hc, hwhole⟩
        omega

end FleetRunner.Library.Utf8
