import FleetRunner.Js.Text
import Mathlib.Order.Defs.Unbundled

/-!
# The order of texts

Sorting without a comparison goes by UTF-16 units. It orders all texts: two that
stand on the same place have the same units and so the same characters.
-/

namespace FleetRunner

theorem unitsLe_total (as bs : List Nat) : unitsLe as bs = true ∨ unitsLe bs as = true := by
  induction as generalizing bs with
  | nil => exact Or.inl rfl
  | cons a as ih =>
      cases bs with
      | nil => exact Or.inr rfl
      | cons b bs =>
          simp only [unitsLe, Bool.or_eq_true, Bool.and_eq_true, decide_eq_true_eq]
          rcases Nat.lt_trichotomy a b with h | rfl | h
          · exact Or.inl (Or.inl h)
          · simpa using ih bs
          · exact Or.inr (Or.inl h)

theorem unitsLe_trans {as bs cs : List Nat} (hab : unitsLe as bs = true)
    (hbc : unitsLe bs cs = true) : unitsLe as cs = true := by
  induction as generalizing bs cs with
  | nil => rfl
  | cons a as ih =>
      cases bs with
      | nil => cases hab
      | cons b bs =>
          cases cs with
          | nil => cases hbc
          | cons c cs =>
              simp only [unitsLe, Bool.or_eq_true, Bool.and_eq_true, decide_eq_true_eq] at hab hbc ⊢
              rcases hab with hab | ⟨rfl, hab⟩
              · rcases hbc with hbc | ⟨rfl, -⟩
                · exact Or.inl (Nat.lt_trans hab hbc)
                · exact Or.inl hab
              · rcases hbc with hbc | ⟨rfl, hbc⟩
                · exact Or.inl hbc
                · exact Or.inr ⟨rfl, ih hab hbc⟩

theorem unitsLe_antisymm {as bs : List Nat} (hab : unitsLe as bs = true)
    (hba : unitsLe bs as = true) : as = bs := by
  induction as generalizing bs with
  | nil =>
      cases bs with
      | nil => rfl
      | cons b bs => cases hba
  | cons a as ih =>
      cases bs with
      | nil => cases hab
      | cons b bs =>
          simp only [unitsLe, Bool.or_eq_true, Bool.and_eq_true, decide_eq_true_eq] at hab hba
          have hhead : a = b := by omega
          subst hhead
          rw [ih (by simpa using hab) (by simpa using hba)]

/-- A surrogate is no character, so the first unit tells how many belong to it. -/
theorem toNat_not_surrogate (c : Char) : c.toNat < 0xd800 ∨ 0xdfff < c.toNat ∧ c.toNat < 0x110000 :=
  c.valid

theorem codeUnits_append_inj {c d : Char} {us vs : List Nat}
    (h : codeUnits c ++ us = codeUnits d ++ vs) : c = d ∧ us = vs := by
  have hc := toNat_not_surrogate c
  have hd := toNat_not_surrogate d
  simp only [codeUnits] at h
  split at h
  · split at h
    · simp only [List.cons_append, List.nil_append, List.cons.injEq] at h
      exact ⟨Char.toNat_inj.mp h.1, h.2⟩
    · simp only [List.cons_append, List.nil_append, List.cons.injEq] at h
      omega
  · split at h
    · simp only [List.cons_append, List.nil_append, List.cons.injEq] at h
      omega
    · simp only [List.cons_append, List.nil_append, List.cons.injEq] at h
      exact ⟨Char.toNat_inj.mp (by omega), h.2.2⟩

theorem codeUnits_ne_nil (c : Char) : codeUnits c ≠ [] := by
  rw [codeUnits]
  split <;> simp

theorem flatMap_codeUnits_inj {cs ds : List Char}
    (h : cs.flatMap codeUnits = ds.flatMap codeUnits) : cs = ds := by
  induction cs generalizing ds with
  | nil =>
      cases ds with
      | nil => rfl
      | cons d ds => simp [codeUnits_ne_nil] at h
  | cons c cs ih =>
      cases ds with
      | nil => simp [codeUnits_ne_nil] at h
      | cons d ds =>
          rw [List.flatMap_cons, List.flatMap_cons] at h
          obtain ⟨rfl, hrest⟩ := codeUnits_append_inj h
          rw [ih hrest]

instance : Std.Total jsTextLe := ⟨fun _ _ => unitsLe_total _ _⟩

instance : IsTrans String jsTextLe := ⟨fun _ _ _ => unitsLe_trans⟩

instance : Std.Antisymm jsTextLe :=
  ⟨fun _ _ hst hts => String.toList_inj.mp (flatMap_codeUnits_inj (unitsLe_antisymm hst hts))⟩

end FleetRunner
