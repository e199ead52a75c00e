import Mathlib.Data.Nat.Notation

/-!
# Characters by their codes

Lower case of a letter outside ASCII is the letter itself here.
-/

namespace FleetRunner

theorem char_eq_iff {c d : Char} : c = d ↔ c.toNat = d.toNat :=
  ⟨fun h => h ▸ rfl, fun h => Char.ext (UInt32.toNat_inj.mp h)⟩

theorem toNat_toLower (c : Char) :
    c.toLower.toNat = if 65 ≤ c.toNat ∧ c.toNat ≤ 90 then c.toNat + 32 else c.toNat := by
  have hupper : (c.val ≥ 'A'.val ∧ c.val ≤ 'Z'.val) ↔ 65 ≤ c.toNat ∧ c.toNat ≤ 90 := by
    simp only [ge_iff_le, UInt32.le_iff_toNat_le]
    exact Iff.rfl
  unfold Char.toLower
  split
  · next h =>
    have hbound := hupper.mp h
    rw [if_pos hbound]
    change (c.val + ('a'.val - 'A'.val)).toNat = c.toNat + 32
    rw [UInt32.toNat_add]
    exact Nat.mod_eq_of_lt (by change c.toNat + 32 < 4294967296; omega)
  · next hneither => rw [if_neg (mt hupper.mpr hneither)]

/-- Only letters change, so what is not one is the lower case of itself alone. -/
theorem toLower_eq_iff {c d : Char} (hd : ¬ (97 ≤ d.toNat ∧ d.toNat ≤ 122))
    (hupper : ¬ (65 ≤ d.toNat ∧ d.toNat ≤ 90)) : c.toLower = d ↔ c = d := by
  have hlower := toNat_toLower c
  rw [char_eq_iff, char_eq_iff (c := c)]
  split at hlower <;> omega

end FleetRunner
