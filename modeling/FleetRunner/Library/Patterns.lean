import Mathlib.Data.List.Forall2

/-!
# Conditions met in order

`InOrder ps xs` says that a list has entries that meet the conditions `ps`, in
this order and with anything in between.
-/

namespace FleetRunner.Library

variable {α : Type*}

def InOrder (ps : List (α → Prop)) (xs : List α) : Prop :=
  ∃ ys, ys.Sublist xs ∧ List.Forall₂ (fun p y => p y) ps ys

@[simp] theorem inOrder_nil (xs : List α) : InOrder [] xs :=
  ⟨[], List.nil_sublist xs, .nil⟩

@[simp] theorem not_inOrder_cons_nil (p : α → Prop) (ps : List (α → Prop)) :
    ¬InOrder (p :: ps) [] := by
  rintro ⟨ys, hys, hall⟩
  obtain rfl := List.sublist_nil.mp hys
  cases hall

/-- The first condition is met at the head, or the head is passed over. -/
theorem inOrder_cons {p : α → Prop} {ps : List (α → Prop)} {x : α} {xs : List α} :
    InOrder (p :: ps) (x :: xs) ↔ InOrder (p :: ps) xs ∨ p x ∧ InOrder ps xs := by
  constructor
  · rintro ⟨ys, hys, hall⟩
    cases hall with
    | @cons _ y _ ys hp hrest =>
        cases hys with
        | cons _ h => exact Or.inl ⟨y :: ys, h, .cons hp hrest⟩
        | cons_cons _ h => exact Or.inr ⟨hp, ys, h, hrest⟩
  · rintro (⟨ys, hys, hall⟩ | ⟨hp, ys, hys, hall⟩)
    · exact ⟨ys, hys.cons x, hall⟩
    · exact ⟨x :: ys, hys.cons_cons x, .cons hp hall⟩

/-- Without its first condition a pattern is met by more lists. -/
theorem InOrder.tail {p : α → Prop} {ps : List (α → Prop)} {xs : List α}
    (h : InOrder (p :: ps) xs) : InOrder ps xs := by
  obtain ⟨ys, hys, hall⟩ := h
  cases hall with
  | cons _ hrest => exact ⟨_, (List.sublist_cons_self _ _).trans hys, hrest⟩

end FleetRunner.Library
