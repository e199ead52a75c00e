import Mathlib.Data.List.Infix

/-!
# The pieces of a split list

What stands between the separators: each piece is a part of the list and holds no
separator, and the first one is where the list begins.
-/

namespace FleetRunner.Library

variable {α : Type}

/-- The first piece of a split text is where it begins, and all pieces are in it. -/
theorem splitOnP_pieces (p : α → Bool) (xs : List α) :
    (∀ ys ∈ (xs.splitOnP p).head?, ys <+: xs) ∧ ∀ ys ∈ xs.splitOnP p, ys <:+: xs := by
  induction xs with
  | nil => simp
  | cons x rest ih =>
    rw [List.splitOnP_cons_eq_if_modifyHead]
    split
    · refine ⟨by simp, fun ys hys => ?_⟩
      rcases List.mem_cons.mp hys with rfl | hmem
      · exact (List.nil_prefix).isInfix
      · exact (ih.2 ys hmem).trans (List.suffix_cons x rest).isInfix
    · obtain ⟨hd, tl, hsplit⟩ := List.exists_cons_of_ne_nil (List.splitOnP_ne_nil p rest)
      rw [hsplit] at ih ⊢
      have hhead : x :: hd <+: x :: rest := List.cons_prefix_cons.mpr ⟨rfl, ih.1 hd rfl⟩
      refine ⟨by simpa using hhead, fun ys hys => ?_⟩
      rcases List.mem_cons.mp hys with rfl | hmem
      · exact hhead.isInfix
      · exact (ih.2 ys (List.mem_cons_of_mem hd hmem)).trans (List.suffix_cons x rest).isInfix

theorem isInfix_of_mem_splitOn [BEq α] {sep : α} {xs ys : List α} (h : ys ∈ xs.splitOn sep) :
    ys <:+: xs :=
  (splitOnP_pieces (· == sep) xs).2 ys h

theorem not_mem_of_mem_splitOn [BEq α] [LawfulBEq α] {sep : α} {xs ys : List α}
    (h : ys ∈ xs.splitOn sep) : sep ∉ ys := by
  induction xs generalizing ys with
  | nil => simp_all
  | cons x rest ih =>
    rw [List.splitOn_cons_eq_if_modifyHead] at h
    split at h
    · rcases List.mem_cons.mp h with rfl | hmem
      · exact List.not_mem_nil
      · exact ih hmem
    · next hx =>
      obtain ⟨hd, tl, hsplit⟩ := List.exists_cons_of_ne_nil (List.splitOn_ne_nil sep rest)
      rw [hsplit] at h ih
      rcases List.mem_cons.mp h with rfl | hmem
      · rw [beq_iff_eq] at hx
        exact List.not_mem_cons_of_ne_of_not_mem (Ne.symm hx) (ih List.mem_cons_self)
      · exact ih (List.mem_cons_of_mem hd hmem)

end FleetRunner.Library
