import FleetRunner.Library.Replace

/-!
# All matches

`s.matchAll(/…/g)` for a pattern given by its match at the head of a text: how long
it is and what it captures. A text is read piece by piece when each piece is one
match or has none that starts in it. The same holds of the first match, and of a text
in which each match is written anew.
-/

namespace FleetRunner.Library

variable {α β : Type*} {find : List Char → Option (Nat × α)}

/-- The matches from left to right; `skip` characters belong to the one found last. -/
def matchAll (find : List Char → Option (Nat × α)) : Nat → List Char → List α
  | _, [] => []
  | skip + 1, _ :: rest => matchAll find skip rest
  | 0, c :: rest =>
    match find (c :: rest) with
    | some (n, a) => a :: matchAll find (n - 1) rest
    | none => matchAll find 0 rest

theorem matchAll_skip (u rest : List Char) :
    matchAll find u.length (u ++ rest) = matchAll find 0 rest := by
  induction u with
  | nil => rfl
  | cons c u ih => exact ih

/-- A piece that is one match. -/
theorem matchAll_match {u rest : List Char} {a : α} (hu : u ≠ [])
    (h : find (u ++ rest) = some (u.length, a)) :
    matchAll find 0 (u ++ rest) = a :: matchAll find 0 rest := by
  obtain ⟨c, u, rfl⟩ := List.exists_cons_of_ne_nil hu
  rw [List.cons_append] at h ⊢
  rw [matchAll, h]
  exact congrArg (List.cons a) (matchAll_skip u rest)

theorem matchAll_cons_none {c : Char} {rest : List Char} (h : find (c :: rest) = none) :
    matchAll find 0 (c :: rest) = matchAll find 0 rest := by
  rw [matchAll, h]

/-- A piece in which no match starts. -/
theorem matchAll_none {u rest : List Char}
    (h : ∀ t, t ≠ [] → t <:+ u → find (t ++ rest) = none) :
    matchAll find 0 (u ++ rest) = matchAll find 0 rest := by
  induction u with
  | nil => rfl
  | cons c u ih =>
    have hhead := h (c :: u) (List.cons_ne_nil c u) List.suffix_rfl
    rw [List.cons_append] at hhead ⊢
    rw [matchAll_cons_none hhead]
    exact ih fun t ht hsuffix => h t ht (hsuffix.trans (List.suffix_cons c u))

/-- Where a match starts with a character, none starts in a text without it. -/
theorem matchAll_of_not_mem {first : Char} (h : ∀ c cs, c ≠ first → find (c :: cs) = none)
    {u : List Char} (hu : first ∉ u) (rest : List Char) :
    matchAll find 0 (u ++ rest) = matchAll find 0 rest := by
  refine matchAll_none fun t ht hsuffix => ?_
  obtain ⟨c, t, rfl⟩ := List.exists_cons_of_ne_nil ht
  exact h c _ fun hc => hu (hc ▸ hsuffix.subset List.mem_cons_self)

/-! ## The first match -/

/-- `re.exec(text)`, for a pattern that may look at the character before it -/
def firstMatch (find : Option Char → List Char → Option β) : Option Char → List Char → Option β
  | _, [] => none
  | prev, c :: rest => (find prev (c :: rest)).or (firstMatch find (some c) rest)

section

variable {find : Option Char → List Char → Option β}

theorem firstMatch_match {prev : Option Char} {text : List Char} {b : β} (htext : text ≠ [])
    (h : find prev text = some b) : firstMatch find prev text = some b := by
  obtain ⟨c, rest, rfl⟩ := List.exists_cons_of_ne_nil htext
  rw [firstMatch, h, Option.some_or]

/-- A piece in which no match starts. -/
theorem firstMatch_none {u rest : List Char} (prev : Option Char)
    (h : ∀ v t, t ≠ [] → u = v ++ t → find (v.getLast?.or prev) (t ++ rest) = none) :
    firstMatch find prev (u ++ rest) = firstMatch find (u.getLast?.or prev) rest := by
  induction u generalizing prev with
  | nil => rfl
  | cons c u ih =>
    have hhead := h [] (c :: u) (List.cons_ne_nil c u) rfl
    have hlast : ∀ v : List Char, (c :: v).getLast?.or prev = v.getLast?.or (some c) := by
      intro v
      rw [List.getLast?_cons]
      cases v.getLast? <;> rfl
    rw [List.cons_append] at hhead ⊢
    rw [firstMatch, List.getLast?_nil, Option.none_or] at *
    rw [hhead, Option.none_or, hlast]
    refine ih (some c) fun v t ht hsplit => ?_
    rw [← hlast]
    exact h (c :: v) t ht (congrArg (List.cons c) hsplit)

theorem firstMatch_eq_none {prev : Option Char} {text : List Char}
    (h : firstMatch find prev text = none) {v t : List Char} (ht : t ≠ [])
    (hsplit : text = v ++ t) :
    find (v.getLast?.or prev) t = none := by
  induction text generalizing prev v with
  | nil => exact absurd (List.append_eq_nil_iff.mp hsplit.symm).2 ht
  | cons c text ih =>
    rw [firstMatch, Option.or_eq_none_iff] at h
    cases v with
    | nil =>
      rw [List.nil_append] at hsplit
      subst hsplit
      exact h.1
    | cons d v =>
      obtain ⟨rfl, hrest⟩ := List.cons.inj hsplit
      have hmore := ih h.2 hrest
      rw [List.getLast?_cons]
      cases hlast : v.getLast? <;> rw [hlast] at hmore <;> exact hmore

/-- A match that is kept is the first one of those that are kept, when it is the first of all. -/
theorem firstMatch_filter {p : β → Bool} (prev : Option Char) (text : List Char)
    (h : ∀ b ∈ firstMatch find prev text, p b = true) :
    firstMatch (fun prev cs => (find prev cs).filter p) prev text = firstMatch find prev text := by
  induction text generalizing prev with
  | nil => rfl
  | cons c rest ih =>
    rw [firstMatch] at h ⊢
    rw [firstMatch]
    cases hfind : find prev (c :: rest) with
    | none =>
      rw [hfind, Option.none_or] at h
      rw [Option.filter_none, Option.none_or, Option.none_or]
      exact ih (some c) h
    | some b =>
      rw [hfind, Option.some_or] at h
      rw [Option.filter_some_pos (h b rfl), Option.some_or, Option.some_or]

/-- What of a text stands before the first place of another. -/
def before? (pat : List Char) : List Char → Option (List Char)
  | [] => if pat.isEmpty then some [] else none
  | c :: rest =>
    if pat.isPrefixOf (c :: rest) then some [] else (before? pat rest).map (c :: ·)

theorem before?_append {pat u rest : List Char}
    (h : ∀ t, t ≠ [] → t <:+ u → ¬ pat <+: t ++ (pat ++ rest)) :
    before? pat (u ++ (pat ++ rest)) = some u := by
  induction u with
  | nil =>
    have hhere : pat.isPrefixOf (pat ++ rest) = true :=
      List.isPrefixOf_iff_prefix.mpr (List.prefix_append pat rest)
    rw [List.nil_append]
    cases htext : pat ++ rest with
    | nil => rw [(List.append_eq_nil_iff.mp htext).1, before?, List.isEmpty_nil, if_pos rfl]
    | cons c text =>
      rw [htext] at hhere
      rw [before?, if_pos hhere]
  | cons c u ih =>
    have hhead := h (c :: u) (List.cons_ne_nil c u) List.suffix_rfl
    rw [← List.isPrefixOf_iff_prefix, List.cons_append] at hhead
    rw [List.cons_append, before?, if_neg hhead,
      ih fun t ht hsuffix => h t ht (hsuffix.trans (List.suffix_cons c u)), Option.map_some]

/-- A text that starts with a character it does not have again does not start in front of
itself. -/
theorem before?_of_not_infix {a : Char} {q u : List Char} (hq : a ∉ q) (hu : ¬ (a :: q) <:+: u)
    (rest : List Char) : before? (a :: q) (u ++ (a :: q ++ rest)) = some u := by
  refine before?_append fun t ht hsuffix hpre => ?_
  rcases List.prefix_or_prefix_of_prefix hpre (List.prefix_append t _) with hin | ⟨s, hs⟩
  · exact hu (hin.isInfix.trans hsuffix.isInfix)
  · obtain ⟨c, t, rfl⟩ := List.exists_cons_of_ne_nil ht
    rw [List.cons_append] at hs
    obtain ⟨rfl, rfl⟩ := List.cons.inj hs
    rw [List.cons_append, List.cons_append, List.cons_prefix_cons, List.append_assoc,
      List.prefix_append_right_inj] at hpre
    cases s with
    | nil => exact hu ((List.append_nil t).symm ▸ hsuffix.isInfix)
    | cons d s =>
      rw [List.cons_append, List.cons_prefix_cons] at hpre
      exact hq (List.mem_append_right t (hpre.2.1 ▸ List.mem_cons_self))

end

/-! ## Matches written anew -/

/-- `s.replace(/…/g, (m) => …)`: what is put for each match, or `none` when writing it throws -/
def rewriteAll (find : List Char → Option (Nat × Option (List Char))) :
    Nat → List Char → Option (List Char)
  | _, [] => some []
  | skip + 1, _ :: rest => rewriteAll find skip rest
  | 0, c :: rest =>
    match find (c :: rest) with
    | some (n, out) => out.bind fun put => (rewriteAll find (n - 1) rest).map (put ++ ·)
    | none => (rewriteAll find 0 rest).map (c :: ·)

section

variable {find : List Char → Option (Nat × Option (List Char))}

theorem rewriteAll_skip (u rest : List Char) :
    rewriteAll find u.length (u ++ rest) = rewriteAll find 0 rest := by
  induction u with
  | nil => rfl
  | cons c u ih => exact ih

theorem rewriteAll_match {u put rest : List Char} (hu : u ≠ [])
    (h : find (u ++ rest) = some (u.length, some put)) :
    rewriteAll find 0 (u ++ rest) = (rewriteAll find 0 rest).map (put ++ ·) := by
  obtain ⟨c, u, rfl⟩ := List.exists_cons_of_ne_nil hu
  rw [List.cons_append] at h ⊢
  rw [rewriteAll, h]
  exact congrArg (Option.map (put ++ ·)) (rewriteAll_skip u rest)

theorem rewriteAll_none {u rest : List Char}
    (h : ∀ t, t ≠ [] → t <:+ u → find (t ++ rest) = none) :
    rewriteAll find 0 (u ++ rest) = (rewriteAll find 0 rest).map (u ++ ·) := by
  induction u with
  | nil => simp
  | cons c u ih =>
    have hhead := h (c :: u) (List.cons_ne_nil c u) List.suffix_rfl
    rw [List.cons_append] at hhead ⊢
    rw [rewriteAll, hhead, ih fun t ht hsuffix => h t ht (hsuffix.trans (List.suffix_cons c u)),
      Option.map_map]
    rfl

/-- In front of what follows, a code is one match, or has none that starts in it. -/
def Rewritten (find : List Char → Option (Nat × Option (List Char)))
    (code code' following : List Char) : Prop :=
  (code ≠ [] ∧ find (code ++ following) = some (code.length, some code')) ∨
    (code' = code ∧ ∀ t, t ≠ [] → t <:+ code → find (t ++ following) = none)

theorem rewriteAll_codes {code code' : β → List Char} (xs : List β)
    (h : ∀ x rest, x :: rest <:+ xs → Rewritten find (code x) (code' x) (rest.flatMap code)) :
    rewriteAll find 0 (xs.flatMap code) = some (xs.flatMap code') := by
  induction xs with
  | nil => rfl
  | cons x xs ih =>
    have hrest := ih fun y rest hsuffix => h y rest (hsuffix.trans (List.suffix_cons x xs))
    rw [List.flatMap_cons, List.flatMap_cons]
    rcases h x xs List.suffix_rfl with ⟨hne, hmatch⟩ | ⟨hsame, hnone⟩
    · rw [rewriteAll_match hne hmatch, hrest, Option.map_some]
    · rw [rewriteAll_none hnone, hrest, hsame, Option.map_some]

end

/-! ## A text for another -/

/-- A text that is looked for itself, at the head of another. -/
def findText (pat : List Char) (_ : Option Char) (cs : List Char) : Nat :=
  if pat.isPrefixOf cs then pat.length else 0

/-- `s.replace(/pat/g, put)` for a pattern that stands for itself -/
def replaceText (pat put cs : List Char) : List Char := replaceAll (findText pat) put 0 none cs

variable {pat put : List Char}

theorem replaceText_match (hpat : pat ≠ []) (rest : List Char) :
    replaceText pat put (pat ++ rest) = put ++ replaceText pat put rest := by
  obtain ⟨c, p, rfl⟩ := List.exists_cons_of_ne_nil hpat
  have hfound : findText (c :: p) none (c :: (p ++ rest)) = p.length + 1 :=
    if_pos (List.isPrefixOf_iff_prefix.mpr (List.prefix_append (c :: p) rest))
  rw [replaceText, List.cons_append, replaceAll, hfound]
  simp only
  rw [replaceAll_skip, replaceAll_prev (fun _ _ => rfl), replaceText]

theorem replaceText_cons {c : Char} {rest : List Char} (h : ¬ pat <+: c :: rest) :
    replaceText pat put (c :: rest) = c :: replaceText pat put rest := by
  rw [← List.isPrefixOf_iff_prefix] at h
  have hnone : findText pat none (c :: rest) = 0 := if_neg h
  rw [replaceText, replaceAll, hnone]
  simp only
  rw [replaceAll_prev (fun _ _ => rfl), replaceText]

theorem replaceText_none {u rest : List Char}
    (h : ∀ t, t ≠ [] → t <:+ u → ¬ pat <+: t ++ rest) :
    replaceText pat put (u ++ rest) = u ++ replaceText pat put rest := by
  induction u with
  | nil => rfl
  | cons c u ih =>
    have hhead := h (c :: u) (List.cons_ne_nil c u) List.suffix_rfl
    rw [List.cons_append] at hhead ⊢
    rw [replaceText_cons hhead, List.cons_append,
      ih fun t ht hsuffix => h t ht (hsuffix.trans (List.suffix_cons c u))]

/-- A code is the replaced text itself, or has no match that starts in it. -/
def Recoded (pat put code code' : List Char) : Prop :=
  (code = pat ∧ code' = put) ∨
    (code' = code ∧ ∀ rest t, t ≠ [] → t <:+ code → ¬ pat <+: t ++ rest)

/-- A text of codes is rewritten code by code. -/
theorem replaceText_codes (hpat : pat ≠ []) {code code' : β → List Char} (xs : List β)
    (h : ∀ x ∈ xs, Recoded pat put (code x) (code' x)) :
    replaceText pat put (xs.flatMap code) = xs.flatMap code' := by
  induction xs with
  | nil => rfl
  | cons x xs ih =>
    have hrest := ih fun y hy => h y (List.mem_cons_of_mem x hy)
    rw [List.flatMap_cons, List.flatMap_cons]
    rcases h x List.mem_cons_self with ⟨hcode, hcode'⟩ | ⟨hcode', hnone⟩
    · rw [hcode, hcode', replaceText_match hpat, hrest]
    · rw [hcode', replaceText_none (hnone _), hrest]

/-- A code whose first character is the pattern's is left as it is when it is another one. -/
theorem recoded_of_other {a : Char} {p ds : List Char} (hds : a ∉ ds)
    (h : ∀ rest, ¬ p <+: ds ++ rest) : Recoded (a :: p) put (a :: ds) (a :: ds) := by
  refine Or.inr ⟨rfl, fun rest t ht hsuffix => ?_⟩
  rcases List.suffix_cons_iff.mp hsuffix with rfl | hsuffix
  · rw [List.cons_append, List.cons_prefix_cons]
    exact fun hpre => h rest hpre.2
  · obtain ⟨c, t, rfl⟩ := List.exists_cons_of_ne_nil ht
    rw [List.cons_append, List.cons_prefix_cons]
    rintro ⟨rfl, -⟩
    exact hds (hsuffix.subset List.mem_cons_self)

theorem recoded_of_not_mem {a : Char} {p code : List Char} (h : a ∉ code) :
    Recoded (a :: p) put code code := by
  refine Or.inr ⟨rfl, fun rest t ht hsuffix => ?_⟩
  obtain ⟨c, t, rfl⟩ := List.exists_cons_of_ne_nil ht
  rw [List.cons_append, List.cons_prefix_cons]
  rintro ⟨rfl, -⟩
  exact h (hsuffix.subset List.mem_cons_self)

end FleetRunner.Library
