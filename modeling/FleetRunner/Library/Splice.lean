import Mathlib.Data.List.Infix

/-!
# Splicing a mark into a text

`text.split(sep).join(mark)`: the text is cut at the occurrences of a separator,
found from left to right, and joined again around a mark. What cannot share
characters with the mark occurs in the new text only if it occurred in the old
one, and the separator not at all.
-/

namespace FleetRunner.Library

variable {α : Type} [DecidableEq α]

/-- Cut at the occurrences of `sep`; `skip` entries belong to the one found last. -/
def splitAtAll (sep : List α) : Nat → List α → List (List α)
  | _, [] => [[]]
  | skip + 1, _ :: rest => splitAtAll sep skip rest
  | 0, c :: rest =>
    if sep.isPrefixOf (c :: rest) then [] :: splitAtAll sep (sep.length - 1) rest
    else (splitAtAll sep 0 rest).modifyHead (c :: ·)

/-- `text.split(sep).join(mark)` -/
def splice (sep mark text : List α) : List α := mark.intercalate (splitAtAll sep 0 text)

section Pieces

variable {sep : List α}

theorem splitAtAll_ne_nil (sep : List α) (skip : Nat) (text : List α) :
    splitAtAll sep skip text ≠ [] := by
  fun_induction splitAtAll sep skip text with
  | case1 => simp
  | case2 skip c rest ih => exact ih
  | case3 => simp
  | case4 c rest hno ih => simpa using ih

/-- The first piece is where the text begins, and every piece is a part of it. -/
theorem splitAtAll_parts (skip : Nat) (text : List α) :
    (∀ p ∈ (splitAtAll sep skip text).head?, p <+: text.drop skip) ∧
      ∀ p ∈ splitAtAll sep skip text, p <:+: text := by
  fun_induction splitAtAll sep skip text with
  | case1 => simp
  | case2 skip c rest ih =>
      refine ⟨ih.1, ?_⟩
      intro p hp
      exact (ih.2 p hp).trans (List.suffix_cons c rest).isInfix
  | case3 c rest hyes ih =>
      refine ⟨by simp, ?_⟩
      intro p hp
      rcases List.mem_cons.mp hp with rfl | hp
      · exact List.nil_infix
      · exact (ih.2 p hp).trans (List.suffix_cons c rest).isInfix
  | case4 c rest hno ih =>
      obtain ⟨first, more, hsplit⟩ := List.exists_cons_of_ne_nil (splitAtAll_ne_nil sep 0 rest)
      rw [hsplit] at ih ⊢
      have hfirst : c :: first <+: c :: rest := (List.prefix_cons_inj c).mpr (ih.1 first rfl)
      refine ⟨by simpa using hfirst, ?_⟩
      intro p hp
      rcases List.mem_cons.mp hp with rfl | hp
      · exact hfirst.isInfix
      · exact (ih.2 p (List.mem_cons_of_mem _ hp)).trans (List.suffix_cons c rest).isInfix

/-- No piece holds the separator. -/
theorem not_infix_of_mem_splitAtAll (hsep : sep ≠ []) (skip : Nat) (text : List α) :
    ∀ p ∈ splitAtAll sep skip text, ¬sep <:+: p := by
  fun_induction splitAtAll sep skip text with
  | case1 =>
      intro p hp
      rw [List.mem_singleton.mp hp, List.infix_nil]
      exact hsep
  | case2 skip c rest ih => exact ih
  | case3 c rest hyes ih =>
      intro p hp
      rcases List.mem_cons.mp hp with rfl | hp
      · rw [List.infix_nil]
        exact hsep
      · exact ih p hp
  | case4 c rest hno ih =>
      obtain ⟨first, more, hsplit⟩ := List.exists_cons_of_ne_nil (splitAtAll_ne_nil sep 0 rest)
      have hbegin : first <+: rest := (splitAtAll_parts 0 rest).1 first (by rw [hsplit]; rfl)
      rw [hsplit] at ih ⊢
      intro p hp
      rcases List.mem_cons.mp hp with rfl | hp
      · rw [List.infix_cons_iff, not_or]
        refine ⟨?_, ih first List.mem_cons_self⟩
        intro hpre
        apply hno
        rw [List.isPrefixOf_iff_prefix]
        exact hpre.trans ((List.prefix_cons_inj c).mpr hbegin)
      · exact ih p (List.mem_cons_of_mem _ hp)

/-- Where the separator does not occur, nothing is cut. -/
theorem splitAtAll_of_not_infix {text : List α} (h : ¬sep <:+: text) :
    splitAtAll sep 0 text = [text] := by
  induction text with
  | nil => rfl
  | cons c rest ih =>
      rw [List.infix_cons_iff, not_or] at h
      have hno : ¬sep.isPrefixOf (c :: rest) = true := by
        rw [List.isPrefixOf_iff_prefix]
        exact h.1
      rw [splitAtAll, if_neg hno, ih h.2]
      rfl

/-- Where it does, there are two pieces at least. -/
theorem two_le_length_splitAtAll {text : List α} (hsep : sep ≠ []) (h : sep <:+: text) :
    2 ≤ (splitAtAll sep 0 text).length := by
  induction text with
  | nil => exact absurd (List.infix_nil.mp h) hsep
  | cons c rest ih =>
      rw [splitAtAll]
      split
      · have hne := splitAtAll_ne_nil sep (sep.length - 1) rest
        have hpos := List.length_pos_iff.mpr hne
        rw [List.length_cons]
        omega
      · rename_i hno
        rw [List.length_modifyHead]
        apply ih
        rcases List.infix_cons_iff.mp h with hpre | hrest
        · exact absurd (List.isPrefixOf_iff_prefix.mpr hpre) hno
        · exact hrest

end Pieces

/-! ## What the new text holds -/

section Splice

variable {sep mark s text : List α}

/-- Some of what `s` is could be read off the mark. -/
def Overlaps (s mark : List α) : Prop :=
  s <:+: mark ∨ mark <:+: s ∨ (∃ u, u ≠ [] ∧ u <:+ mark ∧ u <+: s) ∨
    ∃ u, u ≠ [] ∧ u <+: mark ∧ u <:+ s

omit [DecidableEq α] in
/-- An occurrence in two texts on end lies in one of them, or goes across. -/
theorem infix_append_cases {xs ys : List α} (h : s <:+: xs ++ ys) :
    s <:+: xs ∨ s <:+: ys ∨ ∃ u v, u ≠ [] ∧ v ≠ [] ∧ s = u ++ v ∧ u <:+ xs ∧ v <+: ys := by
  obtain ⟨a, b, hab⟩ := h
  rw [List.append_assoc, List.append_eq_append_iff] at hab
  rcases hab with ⟨u, rfl, hu⟩ | ⟨c, rfl, rfl⟩
  · rcases List.append_eq_append_iff.mp hu with ⟨c, rfl, rfl⟩ | ⟨v, rfl, rfl⟩
    · exact Or.inl ⟨a, c, by simp⟩
    · by_cases hu : u = []
      · subst hu
        exact Or.inr (Or.inl ⟨[], b, by simp⟩)
      · by_cases hv : v = []
        · subst hv
          exact Or.inl ⟨a, [], by simp⟩
        · exact Or.inr (Or.inr ⟨u, v, hu, hv, rfl, ⟨a, rfl⟩, ⟨b, rfl⟩⟩)
  · exact Or.inr (Or.inl ⟨c, b, by simp⟩)

omit [DecidableEq α] in
/-- An occurrence that does not overlap the mark lies before it or behind it. -/
theorem infix_around_mark (h : ¬Overlaps s mark) {before behind : List α}
    (hs : s <:+: before ++ (mark ++ behind)) : s <:+: before ∨ s <:+: behind := by
  rcases infix_append_cases hs with hs | hs | ⟨u, v, -, hv, rfl, hu, hpre⟩
  · exact Or.inl hs
  · rcases infix_append_cases hs with hs | hs | ⟨u, v, hu, -, rfl, hsuf, -⟩
    · exact absurd (Or.inl hs) h
    · exact Or.inr hs
    · exact absurd (Or.inr (Or.inr (Or.inl ⟨u, hu, hsuf, List.prefix_append u v⟩))) h
  · exfalso
    apply h
    obtain ⟨b, hb⟩ := hpre
    rcases List.append_eq_append_iff.mp hb with ⟨c, rfl, -⟩ | ⟨c, rfl, -⟩
    · exact Or.inr (Or.inr (Or.inr ⟨v, hv, List.prefix_append v c, List.suffix_append u v⟩))
    · exact Or.inr (Or.inl ⟨u, c, by simp⟩)

omit [DecidableEq α] in
/-- What occurs in no piece and does not overlap the mark does not occur around it. -/
theorem not_infix_intercalate (h : ¬Overlaps s mark) {pieces : List (List α)}
    (hpieces : ∀ p ∈ pieces, ¬s <:+: p) (hs : s ≠ []) : ¬s <:+: mark.intercalate pieces := by
  induction pieces with
  | nil =>
      rw [List.intercalate_nil, List.infix_nil]
      exact hs
  | cons p rest ih =>
      have hp := hpieces p List.mem_cons_self
      have hrest := ih fun q hq => hpieces q (List.mem_cons_of_mem p hq)
      cases rest with
      | nil =>
          rw [List.intercalate_singleton]
          exact hp
      | cons q rest =>
          rw [List.intercalate_cons_cons, List.append_assoc]
          intro hin
          rcases infix_around_mark h hin with hin | hin
          · exact hp hin
          · exact hrest hin

/-- The separator is gone from the new text. -/
theorem not_infix_splice_self (h : ¬Overlaps s mark) (hs : s ≠ []) (text : List α) :
    ¬s <:+: splice s mark text :=
  not_infix_intercalate h (not_infix_of_mem_splitAtAll hs 0 text) hs

/-- Nothing that does not overlap the mark is new in the new text. -/
theorem not_infix_splice (h : ¬Overlaps s mark) (hs : s ≠ []) (htext : ¬s <:+: text) :
    ¬s <:+: splice sep mark text := by
  refine not_infix_intercalate h ?_ hs
  intro p hp hin
  exact htext (hin.trans ((splitAtAll_parts 0 text).2 p hp))

theorem splice_of_not_part (h : ¬sep <:+: text) : splice sep mark text = text := by
  rw [splice, splitAtAll_of_not_infix h, List.intercalate_singleton]

/-- Where the separator occurs, the mark occurs in the new text. -/
theorem mark_infix_splice (hsep : sep ≠ []) (h : sep <:+: text) :
    mark <:+: splice sep mark text := by
  have htwo := two_le_length_splitAtAll hsep h
  obtain ⟨p, more, hsplit⟩ := List.exists_cons_of_ne_nil (splitAtAll_ne_nil sep 0 text)
  rw [hsplit, List.length_cons] at htwo
  have hmore : more ≠ [] := List.length_pos_iff.mp (by omega)
  obtain ⟨q, rest, rfl⟩ := List.exists_cons_of_ne_nil hmore
  rw [splice, hsplit, List.intercalate_cons_cons]
  exact List.infix_append p mark _

/-- What is part of the mark stays in the text. -/
theorem infix_splice_of_mark (hsep : sep ≠ []) (hs : s <:+: mark) (htext : s <:+: text) :
    s <:+: splice sep mark text := by
  by_cases h : sep <:+: text
  · exact hs.trans (mark_infix_splice hsep h)
  · rw [splice_of_not_part h]
    exact htext

end Splice

end FleetRunner.Library
