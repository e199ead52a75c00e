import Mathlib.Data.List.Sort

/-!
# Sorting by a comparison

A stable sort leaves entries that compare equal in the order they came. So the
sorted list depends on that order exactly through its ties: without a tie it is
determined by the entries alone, and two arrangements of a tie are told apart.
-/

namespace FleetRunner.Library

variable {α κ : Type*}

/-- Without ties the order the entries came in is not seen. -/
theorem insertionSort_eq_of_perm {r : α → α → Prop} [DecidableRel r] [Std.Total r] [IsTrans α r]
    {xs ys : List α} (h : xs.Perm ys) (hanti : ∀ a ∈ xs, ∀ b ∈ xs, r a b → r b a → a = b) :
    xs.insertionSort r = ys.insertionSort r := by
  have hperm : (xs.insertionSort r).Perm (ys.insertionSort r) :=
    (List.perm_insertionSort r xs).trans (h.trans (List.perm_insertionSort r ys).symm)
  refine hperm.eq_of_pairwise ?_ (List.pairwise_insertionSort r xs)
    (List.pairwise_insertionSort r ys)
  intro a b ha hb
  rw [List.mem_insertionSort] at ha hb
  exact hanti a ha b (h.mem_iff.mpr hb)

/-- A list without repetition has two entries in one order only. -/
theorem eq_of_pair_sublists {xs : List α} {a b : α} (hnodup : xs.Nodup)
    (hab : List.Sublist [a, b] xs) (hba : List.Sublist [b, a] xs) : a = b := by
  induction xs with
  | nil => cases hab
  | cons x rest ih =>
      obtain ⟨hx, hrest⟩ := List.nodup_cons.mp hnodup
      cases hab with
      | cons _ hab =>
          cases hba with
          | cons _ hba => exact ih hrest hab hba
          | cons_cons _ hba => exact absurd (hab.subset (by simp)) hx
      | cons_cons _ hab =>
          cases hba with
          | cons _ hba => exact absurd (hba.subset (by simp)) hx
          | cons_cons _ hba => rfl

section Comparison

variable (cmp : α → α → Ordering)

/-- `a` does not come after `b`. -/
def NotAfter (a b : α) : Prop := (cmp a b).isLE = true

instance : DecidableRel (NotAfter cmp) := fun _ _ => inferInstanceAs (Decidable (_ = true))

/-- `xs.sort(cmp)` -/
def sortBy (xs : List α) : List α := xs.insertionSort (NotAfter cmp)

theorem perm_sortBy (xs : List α) : (sortBy cmp xs).Perm xs := List.perm_insertionSort _ xs

@[simp] theorem mem_sortBy {xs : List α} {a : α} : a ∈ sortBy cmp xs ↔ a ∈ xs :=
  List.mem_insertionSort _

variable {cmp}

theorem pair_sublist_sortBy {xs : List α} {a b : α} (htie : cmp a b = .eq)
    (h : List.Sublist [a, b] xs) : List.Sublist [a, b] (sortBy cmp xs) := by
  apply List.pair_sublist_insertionSort _ h
  simp [NotAfter, htie]

/-- Two entries that came in either order and are sorted the same do not tie. -/
theorem key_eq_of_tie {key : α → κ} {xs ys : List α} {a b a' b' : α}
    (ha : key a' = key a) (hb : key b' = key b)
    (hx : List.Sublist [a, b] xs) (hy : List.Sublist [b', a'] ys)
    (hab : cmp a b = .eq) (hba : cmp b' a' = .eq) (hnodup : ((sortBy cmp xs).map key).Nodup)
    (hsame : (sortBy cmp xs).map key = (sortBy cmp ys).map key) : key a = key b := by
  have hfirst : List.Sublist [key a, key b] ((sortBy cmp xs).map key) :=
    (pair_sublist_sortBy hab hx).map key
  have hsecond : List.Sublist [key b, key a] ((sortBy cmp xs).map key) := by
    rw [hsame, ← ha, ← hb]
    exact (pair_sublist_sortBy hba hy).map key
  exact eq_of_pair_sublists hnodup hfirst hsecond

variable [Std.TransCmp cmp]

instance : Std.Total (NotAfter cmp) where
  total a b := by
    have hswap : cmp b a = (cmp a b).swap := Std.OrientedCmp.eq_swap
    rw [NotAfter, NotAfter, hswap]
    cases cmp a b <;> simp

instance : IsTrans α (NotAfter cmp) where
  trans _ _ _ := Std.TransCmp.isLE_trans

/-- A comparison of what `f` makes of the entries. -/
theorem transCmp_comap (cmp : α → α → Ordering) [Std.TransCmp cmp] {β : Type*} (f : β → α) :
    Std.TransCmp fun a b => cmp (f a) (f b) where
  eq_swap := Std.OrientedCmp.eq_swap
  isLE_trans := Std.TransCmp.isLE_trans

/-- Without ties the order the entries came in is not seen. -/
theorem sortBy_eq_of_perm {xs ys : List α} (h : xs.Perm ys)
    (htie : ∀ a ∈ xs, ∀ b ∈ xs, cmp a b = .eq → a = b) : sortBy cmp xs = sortBy cmp ys := by
  apply insertionSort_eq_of_perm h
  intro a ha b hb hab hba
  apply htie a ha b hb
  exact Std.OrientedCmp.isLE_antisymm hab hba

end Comparison

end FleetRunner.Library
