import Mathlib.Data.List.Basic

/-!
# Positions of the elements of a kind

`List.findIdxs` lists where the elements of a kind stand. The rules below say
what becomes of that list when elements are changed in place, and what stands
around the `k`th of a kind.
-/

namespace FleetRunner.Library

variable {α : Type*} {p : α → Bool} {f : α → α}

/-- Changing the first of a kind into another takes its position off. -/
theorem findIdxs_modify_head (hf : ∀ x, p (f x) = false) {xs : List α} {i : Nat} {rest : List Nat}
    (h : xs.findIdxs p = i :: rest) : (xs.modify i f).findIdxs p = rest := by
  induction xs generalizing i rest with
  | nil => cases h
  | cons x xs ih =>
      rw [List.findIdxs_cons] at h
      by_cases hx : p x = true
      · rw [if_pos hx] at h
        obtain ⟨rfl, rfl⟩ : 0 = i ∧ xs.findIdxs p 1 = rest := by simpa using h
        simp [List.findIdxs_cons, hf]
      · rw [if_neg hx, List.findIdxs_start] at h
        obtain ⟨j, later, hxs, rfl, rfl⟩ := List.map_eq_cons_iff.mp h
        rw [List.modify_succ_cons, List.findIdxs_cons, if_neg hx, List.findIdxs_start, ih hxs]

theorem findIdxs_foldl_modify (hf : ∀ x, p (f x) = false) (k : Nat) (xs : List α) :
    (((xs.findIdxs p).take k).foldl (fun ys i => ys.modify i f) xs).findIdxs p =
      (xs.findIdxs p).drop k := by
  induction k generalizing xs with
  | zero => rfl
  | succ k ih =>
      cases hxs : xs.findIdxs p with
      | nil => simp [hxs]
      | cons i rest =>
          have hhead := findIdxs_modify_head hf hxs
          rw [List.take_succ_cons, List.foldl_cons, List.drop_succ_cons, ← hhead]
          exact ih _

/-- The element at the `k`th position of a kind, and what stands around it. -/
theorem split_at_findIdxs {xs : List α} {k i : Nat} (h : (xs.findIdxs p)[k]? = some i) :
    ∃ before x after, xs = before ++ x :: after ∧ p x = true ∧ before.length = i ∧
      before.countP p = k := by
  induction xs generalizing k i with
  | nil => simp at h
  | cons x xs ih =>
      rw [List.findIdxs_cons] at h
      by_cases hx : p x = true
      · rw [if_pos hx] at h
        cases k with
        | zero => exact ⟨[], x, xs, rfl, hx, by simpa using h, rfl⟩
        | succ k =>
            rw [List.getElem?_cons_succ, List.findIdxs_start, List.getElem?_map,
              Option.map_eq_some_iff] at h
            obtain ⟨j, hj, rfl⟩ := h
            obtain ⟨before, y, after, rfl, hy, rfl, hcount⟩ := ih hj
            exact ⟨x :: before, y, after, rfl, hy, rfl, by simp [hx, hcount]⟩
      · rw [if_neg hx, List.findIdxs_start, List.getElem?_map, Option.map_eq_some_iff] at h
        obtain ⟨j, hj, rfl⟩ := h
        obtain ⟨before, y, after, rfl, hy, rfl, hcount⟩ := ih hj
        exact ⟨x :: before, y, after, rfl, hy, rfl, by simp [hx, hcount]⟩

/-- Changing elements is not seen through what the change keeps. -/
theorem map_foldl_modify {β : Type*} {g : α → β} (hg : ∀ x, g (f x) = g x) (is : List Nat)
    (xs : List α) : (is.foldl (fun ys i => ys.modify i f) xs).map g = xs.map g := by
  induction is generalizing xs with
  | nil => rfl
  | cons i rest ih =>
      rw [List.foldl_cons, ih]
      apply List.ext_getElem?
      intro j
      rw [List.getElem?_map, List.getElem?_map, List.getElem?_modify]
      cases xs[j]? with
      | none => rfl
      | some x => by_cases hj : i = j <;> simp [hj, hg]

theorem forall_foldl_modify {P : α → Prop} (hf : ∀ x, P (f x)) (is : List Nat) {xs : List α}
    (h : ∀ x ∈ xs, P x) : ∀ x ∈ is.foldl (fun ys i => ys.modify i f) xs, P x := by
  induction is generalizing xs with
  | nil => exact h
  | cons i rest ih =>
      apply ih
      intro x hx
      obtain ⟨j, hj⟩ := List.mem_iff_getElem?.mp hx
      rw [List.getElem?_modify, Option.map_eq_map, Option.map_eq_some_iff] at hj
      obtain ⟨y, hy, rfl⟩ := hj
      split
      · exact hf y
      · exact h y (List.mem_of_getElem? hy)

end FleetRunner.Library
