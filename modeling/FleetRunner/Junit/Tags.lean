import FleetRunner.Junit.Decoding

/-!
# What is read of a tag

The expressions end a tag at its first `>` and find an attribute where its name, an
equals sign and a double quote stand one after the other. Of a tag without a `>` in
its attributes that is the tag as it is, and of an attribute that is written so, and
in front of which nothing else looks like it, the attribute's own value.
-/

namespace FleetRunner.Junit

open Library Library.Xml

/-! ## Elements -/

/-- What a tag is read as: what stands in front of its first `>`. -/
theorem takeWhile_tag {u : List Char} (hu : '>' ∉ u) (rest : List Char) :
    (u ++ ('>' :: rest)).takeWhile (· ≠ '>') = u := by
  have hall : ∀ c ∈ u, decide (c ≠ '>') = true := fun c hc =>
    decide_eq_true fun heq => hu (heq ▸ hc)
  rw [List.takeWhile_append_of_pos hall, List.takeWhile_cons, if_neg (by simp), List.append_nil]

theorem isPrefixOf_append (u rest : List Char) : u.isPrefixOf (u ++ rest) = true :=
  List.isPrefixOf_iff_prefix.mpr (List.prefix_append u rest)

/-- The tag of an element is read as a tag of its name. -/
theorem tagAt_print {e : Element} (h : '>' ∉ e.tag.inner) (rest : List Char) :
    tagAt e.tag.name (e.print ++ rest) = some e.tagText := by
  have hdrop : (e.print ++ rest).drop (e.tag.name.length + 1) =
      e.tagText ++ ('>' :: (e.behind ++ rest)) := by
    rw [Element.print_append, List.drop_succ_cons, List.drop_left]
  have hprefix : ('<' :: e.tag.name).isPrefixOf (e.print ++ rest) = true := by
    rw [Element.print_append]
    exact isPrefixOf_append ('<' :: e.tag.name) _
  simp only [tagAt, hdrop, takeWhile_tag (Element.not_mem_tagText h), hprefix,
    Element.head?_tagText]
  rw [if_neg]
  simp

/-- The closing tag is written without blanks, and what looks like it is nowhere before it. -/
def closes (e : Element) : Bool :=
  match e.inside with
  | none => true
  | some (body, gap) =>
    gap.isEmpty && decide (¬ ('<' :: '/' :: (e.tag.name ++ ['>'])) <:+: body.print)

/-- An element is read as it is written. -/
theorem elementAt_print {e : Element} (htag : '>' ∉ e.tag.inner) (hcloses : closes e = true)
    (rest : List Char) : elementAt e.tag.name (e.print ++ rest) =
      some (e.print.length, (e.tag.inner, e.inside.map fun p => p.1.print)) := by
  have hdrop : (e.print ++ rest).drop (e.tag.name.length + e.tagText.length + 2) =
      e.behind ++ rest := by
    have htext : e.print ++ rest =
        '<' :: (e.tag.name ++ (e.tagText ++ ['>'])) ++ (e.behind ++ rest) := by
      rw [e.print_append]
      simp
    rw [htext]
    refine List.drop_left' ?_
    simp only [List.length_cons, List.length_append, List.length_nil]
    omega
  rw [elementAt, tagAt_print htag]
  simp only [Option.bind_eq_bind, Option.bind_some, hdrop]
  obtain ⟨t, inside⟩ := e
  cases inside with
  | none =>
    rw [Element.tagText, if_pos List.getLast?_concat, List.dropLast_concat]
    simp only [Element.print, Tag.alone, Option.map_none, List.length_cons, List.length_append,
      List.length_nil, Option.some.injEq, Prod.mk.injEq, and_true]
    omega
  | some p =>
    obtain ⟨body, gap⟩ := p
    rw [closes, Bool.and_eq_true, decide_eq_true_eq, List.isEmpty_iff] at hcloses
    obtain ⟨rfl, hbody⟩ := hcloses
    have hend : Element.behind ⟨t, some (body, [])⟩ ++ rest =
        body.print ++ ('<' :: '/' :: (t.name ++ ['>']) ++ rest) := by
      simp [Element.behind, closing]
    have hfirst : '<' ∉ '/' :: (t.name ++ ['>']) := by
      simp [not_mem_name t.isName (c := '<') (by decide)]
    rw [Element.tagText, if_neg t.getLast?_inner, hend, before?_of_not_infix hfirst hbody,
      Option.map_some]
    simp only [Element.print, Tag.opening, closing, Option.map_some, List.length_cons,
      List.length_append, List.length_nil, Option.some.injEq, Prod.mk.injEq, and_true]
    omega

/-- Where no tag of the name starts, none is read. -/
theorem tagAt_none {name cs : List Char} (h : startsTag name cs = false) :
    tagAt name cs = none := by
  rw [startsTag, Bool.and_eq_false_imp] at h
  rw [tagAt]
  by_cases hprefix : ('<' :: name).isPrefixOf cs = true
  · have hhead := h hprefix
    rw [Bool.not_eq_false'] at hhead
    exact if_pos (Or.inr (Or.inl hhead))
  · exact if_pos (Or.inl hprefix)

theorem elementAt_none {name cs : List Char} (h : startsTag name cs = false) :
    elementAt name cs = none := by
  rw [elementAt, tagAt_none h]
  rfl

/-! ## Attributes -/

/-- `\bname="` -/
def placeAt (name : List Char) (prev : Option Char) (cs : List Char) : Option Unit :=
  if boundary prev cs.head? ∧ (name ++ ['=', '"']).isPrefixOf cs then some () else none

/-- The text has what looks like the attribute. -/
def placed (name u : List Char) : Bool := (firstMatch (placeAt name) none u).isSome

/-- In front of the attribute of that name nothing looks like it, and it does itself. -/
def legible (name : List Char) : List Attribute → Bool
  | [] => true
  | a :: as =>
    if a.name = name then a.left.isEmpty && a.right.isEmpty && decide (a.quote = '"')
    else !placed name a.print && legible name as

theorem valueAt_none {name cs : List Char} (h : ¬ (name ++ ['=', '"']) <+: cs)
    (prev : Option Char) : valueAt name prev cs = none := by
  rw [← List.isPrefixOf_iff_prefix] at h
  rw [valueAt]
  exact if_neg fun hall => h hall.2.1

/-- Nothing looks like the attribute in a text without quotes, when what stands behind it does not
go on so. -/
theorem not_prefix_of_not_mem {name u more : List Char} (hu : '"' ∉ u)
    (hmore : ∀ c ∈ more.head?, c ∉ name ++ ['=', '"']) {t : List Char} (hsuffix : t <:+ u) :
    ¬ (name ++ ['=', '"']) <+: t ++ more := by
  intro hpre
  have hquote : '"' ∉ t := fun hin => hu (hsuffix.subset hin)
  rcases List.prefix_or_prefix_of_prefix hpre (List.prefix_append t more) with hin | ⟨s, hs⟩
  · exact hquote (hin.subset (by simp))
  · rw [← hs, List.prefix_append_right_inj] at hpre
    cases s with
    | nil =>
      rw [List.append_nil] at hs
      exact hquote (hs ▸ by simp)
    | cons c s =>
      obtain ⟨rest, rfl⟩ := hpre
      exact hmore c rfl (hs ▸ List.mem_append_right t List.mem_cons_self)

theorem firstMatch_valueAt_skip {name u more : List Char} (hu : '"' ∉ u)
    (hmore : ∀ c ∈ more.head?, c ∉ name ++ ['=', '"']) (prev : Option Char) :
    firstMatch (valueAt name) prev (u ++ more) =
      firstMatch (valueAt name) (u.getLast?.or prev) more :=
  firstMatch_none prev fun v _ _ hsplit =>
    valueAt_none (not_prefix_of_not_mem hu hmore ⟨v, hsplit.symm⟩) _

theorem firstMatch_valueAt_none {name u : List Char} (hu : '"' ∉ u) (prev : Option Char) :
    firstMatch (valueAt name) prev u = none := by
  have hempty : ∀ c ∈ ([] : List Char).head?, c ∉ name ++ ['=', '"'] := by simp
  have h := firstMatch_valueAt_skip hu hempty prev
  rw [List.append_nil] at h
  rw [h, firstMatch]

section

variable {name : List Char} (hname : isName name = true)
  (hhead : name.head?.any isWordChar = true)

include hname

/-- Nothing that looks like the attribute starts in another one. -/
theorem valueAt_other {a : Attribute} (h : placed name a.print = false) {prev : Option Char}
    {v t : List Char} (ht : t ≠ []) (hsplit : a.print = v ++ t) (more : List Char) :
    valueAt name (v.getLast?.or prev) (t ++ more) = none := by
  by_contra hread
  rw [← ne_eq, Option.ne_none_iff_isSome, valueAt] at hread
  split at hread
  · next hall =>
    obtain ⟨hbound, hpre, -⟩ := hall
    rw [List.isPrefixOf_iff_prefix] at hpre
    have hlast : t.getLast? = some a.quote := by
      rw [← Attribute.getLast?_print, hsplit, List.getLast?_append_of_ne_nil _ ht]
    have hin : (name ++ ['=', '"']) <+: t := by
      rcases List.prefix_or_prefix_of_prefix hpre (List.prefix_append t more) with hin | ⟨s, hs⟩
      · exact hin
      · cases s with
        | nil => exact ⟨[], by rw [← hs, List.append_nil, List.append_nil]⟩
        | cons c s =>
          have hquote : a.quote ∈ name ++ ['='] := by
            have hproper : t <+: name ++ ['='] := by
              have hwhole : name ++ ['='] <+: name ++ ['=', '"'] := ⟨['"'], by simp⟩
              refine List.prefix_of_prefix_length_le ⟨_, hs⟩ hwhole ?_
              have hlength := congrArg List.length hs
              simp only [List.length_append, List.length_cons, List.length_nil] at hlength ⊢
              omega
            exact hproper.subset (List.mem_of_getLast? hlast)
          rcases List.mem_append.mp hquote with hin | hin
          · refine absurd hin (not_mem_name hname ?_)
            rcases a.isQuote with h | h <;> rw [h] <;> decide
          · rw [List.mem_singleton] at hin
            rcases a.isQuote with h | h <;> rw [h] at hin <;> exact absurd hin (by decide)
    have hprev : v.getLast?.or prev = v.getLast?.or none := by
      cases v with
      | nil =>
        obtain ⟨g, gap, hgap⟩ := List.exists_cons_of_ne_nil a.gap_ne
        rw [List.nil_append] at hsplit
        obtain ⟨n, ns, hcons⟩ := List.exists_cons_of_ne_nil
          (show name ≠ [] by rintro rfl; cases hname)
        rw [← hsplit, Attribute.print, hgap, hcons, List.cons_append, List.cons_append,
          List.cons_prefix_cons] at hin
        have hblank := List.all_eq_true.mp a.gap_blank g (hgap ▸ List.mem_cons_self)
        have hn : n ∉ name := not_mem_name hname (by rw [hin.1, isNameChar, hblank]; rfl)
        exact absurd (hcons ▸ List.mem_cons_self) hn
      | cons c v =>
        rw [List.getLast?_cons]
        rfl
    have hmark := firstMatch_eq_none (Option.not_isSome_iff_eq_none.mp (by
      rw [Bool.not_eq_true]; exact h)) ht hsplit
    have hheads : (t ++ more).head? = t.head? := List.head?_append_of_ne_nil t ht
    rw [hprev, hheads] at hbound
    rw [placeAt, if_pos ⟨hbound, List.isPrefixOf_iff_prefix.mpr hin⟩] at hmark
    cases hmark
  · cases hread

include hhead

/-- The attribute that looks as it should is read. -/
theorem firstMatch_valueAt_self {a : Attribute} (ha : a.name = name) (hleft : a.left = [])
    (hright : a.right = []) (hquote : a.quote = '"') (prev : Option Char) (more : List Char) :
    firstMatch (valueAt name) prev (a.print ++ more) = some (a.value.flatMap Piece.print) := by
  have hblank : ∀ c ∈ a.gap, isBlankChar c = true := List.all_eq_true.mp a.gap_blank
  have hgapQuote : '"' ∉ a.gap := fun hin => absurd (hblank '"' hin) (by decide)
  have htext : a.print ++ more =
      a.gap ++ (name ++ ['=', '"'] ++ (a.value.flatMap Piece.print ++ ('"' :: more))) := by
    simp [Attribute.print, ha, hleft, hright, hquote]
  have hvalueQuote : '"' ∉ a.value.flatMap Piece.print := by
    intro hin
    obtain ⟨p, hp, hin⟩ := List.mem_flatMap.mp hin
    exact Piece.not_mem_print (List.all_eq_true.mp a.avoids p hp) (by simp [hquote]) (by decide)
      (by decide) hin
  obtain ⟨n, ns, hcons⟩ := List.exists_cons_of_ne_nil (show name ≠ [] by rintro rfl; cases hname)
  have hword : isWordChar n = true := by
    rw [hcons] at hhead
    exact hhead
  rw [htext, firstMatch_none prev]
  · refine firstMatch_match (by simp) ?_
    have hlast : (a.gap.getLast?.or prev).any isWordChar = false := by
      cases hgap : a.gap.getLast? with
      | none => exact absurd (List.getLast?_eq_none_iff.mp hgap) a.gap_ne
      | some c => exact isWordChar_of_blank (hblank c (List.mem_of_getLast? hgap))
    have hbound : boundary (a.gap.getLast?.or prev)
        (name ++ ['=', '"'] ++ (a.value.flatMap Piece.print ++ ('"' :: more))).head? = true := by
      rw [boundary, hlast, hcons]
      simp [hword]
    have hdrop : (name ++ ['=', '"'] ++ (a.value.flatMap Piece.print ++ ('"' :: more))).drop
        (name.length + 2) = a.value.flatMap Piece.print ++ ('"' :: more) :=
      List.drop_left' (by simp)
    have hall : ∀ c ∈ a.value.flatMap Piece.print, decide (c ≠ '"') = true := fun c hc =>
      decide_eq_true fun heq => hvalueQuote (heq ▸ hc)
    have htake : (a.value.flatMap Piece.print ++ ('"' :: more)).takeWhile (· ≠ '"') =
        a.value.flatMap Piece.print := by
      rw [List.takeWhile_append_of_pos hall, List.takeWhile_cons, if_neg (by simp), List.append_nil]
    simp only [valueAt, hdrop, htake]
    rw [if_pos ⟨hbound, isPrefixOf_append _ _, by simp⟩]
  · intro v t ht hsplit
    refine valueAt_none (fun hpre => ?_) _
    obtain ⟨c, t, rfl⟩ := List.exists_cons_of_ne_nil ht
    rw [hcons, List.cons_append, List.cons_append, List.cons_prefix_cons] at hpre
    have hc := hblank c (hsplit ▸ List.mem_append_right v List.mem_cons_self)
    rw [← hpre.1] at hc
    rw [isWordChar_of_blank hc] at hword
    cases hword

/-- The value of an attribute that can be read is read. -/
theorem firstMatch_valueAt {as : List Attribute} (h : legible name as = true) (prev : Option Char)
    {post : List Char} (hpost : '"' ∉ post) :
    firstMatch (valueAt name) prev (as.flatMap Attribute.print ++ post) =
      (as.find? fun a => decide (a.name = name)).map fun a => a.value.flatMap Piece.print := by
  induction as generalizing prev with
  | nil => exact firstMatch_valueAt_none hpost prev
  | cons a as ih =>
    rw [List.flatMap_cons, List.append_assoc, List.find?_cons]
    rw [legible] at h
    split at h
    · next ha =>
      simp only [Bool.and_eq_true, List.isEmpty_iff, decide_eq_true_eq] at h
      simp only [ha, decide_true]
      exact firstMatch_valueAt_self hname hhead ha h.1.1 h.1.2 h.2 prev _
    · next ha =>
      rw [Bool.and_eq_true, Bool.not_eq_true'] at h
      simp only [ha, decide_false]
      rw [firstMatch_none prev fun v t ht hsplit => valueAt_other hname h.1 ht hsplit _]
      exact ih h.2 _

/-- It is decoded to what it says. -/
theorem attr_tag {t : Tag} (h : legible name t.attributes = true)
    (hread : ∀ a ∈ t.attribute? name, onePass a.value = true) (pre post : List Char)
    (hpre : firstMatch (valueAt name) none (pre ++ (t.inner ++ post)) =
      firstMatch (valueAt name) pre.getLast? (t.inner ++ post)) (hpost : '"' ∉ post) :
    attr (pre ++ (t.inner ++ post)) name = some (t.value? name) := by
  have htail : '"' ∉ t.tail ++ post := by
    intro hin
    rcases List.mem_append.mp hin with hblank | hin
    · exact absurd (List.all_eq_true.mp t.tail_blank _ hblank) (by decide)
    · exact hpost hin
  rw [attr, hpre, Tag.inner, List.append_assoc, firstMatch_valueAt hname hhead h _ htail,
    Tag.value?]
  have hfound : (t.attributes.find? fun a => decide (a.name = name)) = t.attribute? name := rfl
  rw [hfound]
  cases ha : t.attribute? name with
  | none => rfl
  | some a =>
    have havoids : a.value.all (Piece.avoids ['<', '&']) = true := by
      rw [List.all_eq_true]
      intro p hp
      have hall := List.all_eq_true.mp a.avoids p hp
      cases p with
      | raw c =>
        simp only [Piece.avoids, Bool.not_eq_true', List.contains_eq_mem, decide_eq_false_iff_not]
          at hall ⊢
        exact fun hin => hall (by simp_all)
      | named e | numeric n => rfl
    simp only [Option.map_some, decode_pieces havoids (hread a (by rw [ha]; rfl))]

end

end FleetRunner.Junit
