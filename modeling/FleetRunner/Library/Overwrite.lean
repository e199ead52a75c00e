import Mathlib.Data.List.Basic

/-!
# Writing over a part of an array

`overwrite k xs b` is `b` with the elements of `xs` in the places from `k` on.
A loop that writes one element after the other comes to it.
-/

namespace FleetRunner.Library

variable {α : Type*} {n : Nat}

def overwrite (k : Nat) (xs : List α) (b : Vector α n) : Vector α n :=
  .ofFn fun i => if i.val < k then b.get i else xs[i.val - k]?.getD (b.get i)

theorem getElem_overwrite {k i : Nat} (hi : i < n) (xs : List α) (b : Vector α n) :
    (overwrite k xs b)[i] = if i < k then b[i] else xs[i - k]?.getD b[i] := by
  rw [overwrite, Vector.getElem_ofFn]
  rfl

theorem overwrite_nil (k : Nat) (b : Vector α n) : overwrite k [] b = b := by
  apply Vector.ext
  intro i hi
  simp [getElem_overwrite]

/-- The first element, and then the rest behind it. -/
theorem overwrite_cons {k : Nat} (hk : k < n) (x : α) (xs : List α) (b : Vector α n) :
    overwrite k (x :: xs) b = overwrite (k + 1) xs (b.set k x) := by
  apply Vector.ext
  intro i hi
  simp only [getElem_overwrite]
  rcases Nat.lt_trichotomy i k with hlt | rfl | hgt
  · rw [if_pos hlt, if_pos (by omega), Vector.getElem_set_ne _ _ (by omega)]
  · rw [if_neg (by omega), if_pos (by omega), Nat.sub_self, Vector.getElem_set_self]
    rfl
  · have hsub : i - k = i - (k + 1) + 1 := by omega
    rw [if_neg (by omega), if_neg (by omega), hsub, List.getElem?_cons_succ,
      Vector.getElem_set_ne _ _ (by omega)]

/-- Behind the elements nothing is written. -/
theorem getElem_overwrite_of_le {k i : Nat} {xs : List α} (hi : i < n) (h : k + xs.length ≤ i)
    (b : Vector α n) : (overwrite k xs b)[i] = b[i] := by
  rw [getElem_overwrite, if_neg (by omega), List.getElem?_eq_none (by omega), Option.getD_none]

/-- In front stand the elements. -/
theorem take_overwrite {xs : List α} (h : xs.length ≤ n) (b : Vector α n) :
    (overwrite 0 xs b).toList.take xs.length = xs := by
  apply List.ext_getElem
  · simp [h]
  · intro i hi hlt
    simp [getElem_overwrite, hlt]

end FleetRunner.Library
