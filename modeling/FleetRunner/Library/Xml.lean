import FleetRunner.Library.Matches
import FleetRunner.Library.Regex
import Mathlib.Data.List.Infix
import Mathlib.Data.Nat.Notation

/-!
# XML documents

A document as it is written: tags with their attributes, and between them characters
of which each may be written in several ways, CDATA sections, and asides such as
comments. A document is cut at the elements one looks for, the outermost ones, into
these and the pieces of text between them.

## Implementation notes

Names may have more characters here than the standard allows, and asides may hold
anything. The elements of a document are a first one, what is in it, and those behind
it, so that there is one type to do induction on.
-/

namespace FleetRunner.Library.Xml

/-! ## Characters -/

/-- The five entities that need no declaration. -/
inductive Entity where
  | quot
  | apos
  | lt
  | gt
  | amp
  deriving DecidableEq

/-- The name between the ampersand and the semicolon. -/
def Entity.name : Entity → List Char
  | .quot => "quot".toList
  | .apos => "apos".toList
  | .lt => "lt".toList
  | .gt => "gt".toList
  | .amp => "amp".toList

/-- The character it stands for. -/
def Entity.char : Entity → Char
  | .quot => '"'
  | .apos => '\''
  | .lt => '<'
  | .gt => '>'
  | .amp => '&'

/-- The base of a character reference. -/
inductive Base where
  | ten
  | sixteen
  deriving DecidableEq

def Base.radix : Base → Nat
  | .ten => 10
  | .sixteen => 16

/-- What a reference of the base has behind its `&#`. -/
def Base.mark : Base → List Char
  | .ten => []
  | .sixteen => ['x']

def Base.isDigit : Base → Char → Bool
  | .ten, c => c.isDigit
  | .sixteen, c => c.isDigit || decide (c.toLower ∈ ['a', 'b', 'c', 'd', 'e', 'f'])

/-- The number that these digits spell. -/
def Base.value (b : Base) (digits : List Char) : Nat :=
  digits.foldl
    (fun n c => b.radix * n + (if c.isDigit then c.toNat - 48 else c.toLower.toNat - 87)) 0

/-- The digits of a character's code. -/
structure Numeral where
  base : Base
  digits : List Char
  nonempty : digits ≠ []
  isDigit : digits.all base.isDigit = true
  valid : (base.value digits).isValidChar

/-- The character a reference names. -/
def Numeral.char (n : Numeral) : Char := Char.ofNat (n.base.value n.digits)

/-- A character as it is written. -/
inductive Piece where
  | raw (c : Char)
  | named (e : Entity)
  | numeric (n : Numeral)

/-- A character as it is written. -/
def Piece.print : Piece → List Char
  | .raw c => [c]
  | .named e => '&' :: (e.name ++ [';'])
  | .numeric n => '&' :: '#' :: (n.base.mark ++ n.digits ++ [';'])

/-- The character that is meant. -/
def Piece.char : Piece → Char
  | .raw c => c
  | .named e => e.char
  | .numeric n => n.char

/-- The piece does not stand for itself where that has a meaning of its own. -/
def Piece.avoids (special : List Char) : Piece → Bool
  | .raw c => !special.contains c
  | .named _ | .numeric _ => true

/-- What a text says. -/
def said (ps : List Piece) : List Char := ps.map Piece.char

/-! ## Tags -/

def isBlankChar (c : Char) : Bool := c = ' ' || c = '\t' || c = '\n' || c = '\r'

def isBlank (cs : List Char) : Bool := cs.all isBlankChar

/-- A character that a name may have. -/
def isNameChar (c : Char) : Bool :=
  !isBlankChar c && !(['<', '>', '&', '"', '\'', '/', '=']).contains c

def isName (cs : List Char) : Bool := !cs.isEmpty && cs.all isNameChar

structure Attribute where
  /-- the blanks in front of it -/
  gap : List Char
  name : List Char
  /-- the blanks round the sign -/
  left : List Char
  right : List Char
  quote : Char
  value : List Piece
  gap_ne : gap ≠ []
  gap_blank : isBlank gap = true
  isName : isName name = true
  left_blank : isBlank left = true
  right_blank : isBlank right = true
  isQuote : quote = '"' ∨ quote = '\''
  avoids : value.all (Piece.avoids ['<', '&', quote]) = true

/-- An attribute with its quotes, as it is written. -/
def Attribute.print (a : Attribute) : List Char :=
  a.gap ++ (a.name ++ (a.left ++ ('=' :: (a.right ++
    (a.quote :: (a.value.flatMap Piece.print ++ [a.quote]))))))

/-- A tag, with its attributes and the blanks in it. -/
structure Tag where
  name : List Char
  attributes : List Attribute
  /-- the blanks at its end -/
  tail : List Char
  isName : isName name = true
  tail_blank : isBlank tail = true

/-- What stands between the name and the end. -/
def Tag.inner (t : Tag) : List Char := t.attributes.flatMap Attribute.print ++ t.tail

/-- The tag in front of a body. -/
def Tag.opening (t : Tag) : List Char := '<' :: (t.name ++ (t.inner ++ ['>']))

/-- The tag of an element without a body. -/
def Tag.alone (t : Tag) : List Char := '<' :: (t.name ++ (t.inner ++ ['/', '>']))

/-- The tag behind a body. -/
def closing (name gap : List Char) : List Char := '<' :: '/' :: (name ++ (gap ++ ['>']))

/-- The first attribute of a name. -/
def Tag.attribute? (t : Tag) (name : List Char) : Option Attribute :=
  t.attributes.find? fun a => decide (a.name = name)

/-- What the tag says under a name. -/
def Tag.value? (t : Tag) (name : List Char) : Option (List Char) :=
  (t.attribute? name).map fun a => said a.value

/-! ## Contents -/

/-- What a text is made of. -/
inductive Span where
  | piece (p : Piece) (h : p.avoids ['<', '&'] = true)
  | cdata (cs : List Char) (h : ¬ "]]>".toList <:+: cs)

/-- A stretch of text as it is written. -/
def Span.print : Span → List Char
  | .piece p _ => p.print
  | .cdata cs _ => "<![CDATA[".toList ++ (cs ++ "]]>".toList)

@[simp] theorem Span.print_piece (p : Piece) (h : p.avoids ['<', '&'] = true) :
    (Span.piece p h).print = p.print := rfl

@[simp] theorem Span.print_cdata (cs : List Char) (h : ¬ "]]>".toList <:+: cs) :
    (Span.cdata cs h).print = "<![CDATA[".toList ++ (cs ++ "]]>".toList) := rfl

/-- The characters of a CDATA section stand for themselves. -/
def Span.pieces : Span → List Piece
  | .piece p _ => [p]
  | .cdata cs _ => cs.map .raw

/-- What stands aside of the elements. -/
inductive Mark where
  | comment
  | instruction
  | declaration

/-- How it begins. -/
def Mark.opens : Mark → List Char
  | .comment => "<!--".toList
  | .instruction => "<?".toList
  | .declaration => "<!".toList

/-- How it ends. -/
def Mark.closes : Mark → List Char
  | .comment => "-->".toList
  | .instruction => "?>".toList
  | .declaration => ">".toList

structure Aside where
  mark : Mark
  text : List Char

/-- It as it is written. -/
def Aside.print (a : Aside) : List Char := a.mark.opens ++ (a.text ++ a.mark.closes)

inductive Content where
  | nil
  | span (s : Span) (rest : Content)
  | aside (a : Aside) (rest : Content)
  | empty (t : Tag) (rest : Content)
  | element (t : Tag) (body : Content) (gap : List Char) (h : isBlank gap = true) (rest : Content)

/-- All that is inside an element, as it is written. -/
def Content.print : Content → List Char
  | .nil => []
  | .span s rest => s.print ++ rest.print
  | .aside a rest => a.print ++ rest.print
  | .empty t rest => t.alone ++ rest.print
  | .element t body gap _ rest => t.opening ++ (body.print ++ (closing t.name gap ++ rest.print))

/-- An element with its tag: what is in it and the blanks of its closing tag, when it has one. -/
structure Element where
  tag : Tag
  inside : Option (Content × List Char)

/-- An element as it is written. -/
def Element.print (e : Element) : List Char :=
  match e.inside with
  | none => e.tag.alone
  | some (body, gap) => e.tag.opening ++ (body.print ++ closing e.tag.name gap)

/-- What is inside, if anything. -/
def Element.body (e : Element) : Content := (e.inside.map Prod.fst).getD .nil

namespace Content

/-- The text, in elements too. -/
def spans : Content → List Span
  | .nil => []
  | .span s rest => s :: rest.spans
  | .aside _ rest | .empty _ rest => rest.spans
  | .element _ body _ _ rest => body.spans ++ rest.spans

/-- There is nothing but text. -/
def isText : Content → Bool
  | .nil => true
  | .span _ rest => rest.isText
  | .aside .. | .empty .. | .element .. => false

/-- The elements that are in no other. -/
def children : Content → List Element
  | .nil => []
  | .span _ rest | .aside _ rest => rest.children
  | .empty t rest => ⟨t, none⟩ :: rest.children
  | .element t body gap _ rest => ⟨t, some (body, gap)⟩ :: rest.children

/-- All elements, in the order of their tags. -/
def everything : Content → List Element
  | .nil => []
  | .span _ rest | .aside _ rest => rest.everything
  | .empty t rest => ⟨t, none⟩ :: rest.everything
  | .element t body gap _ rest => ⟨t, some (body, gap)⟩ :: (body.everything ++ rest.everything)

end Content

/-! ## Documents cut at elements -/

/-- A wanted element, or what stands between two. -/
inductive Segment where
  | other (u : List Char)
  | element (e : Element)

def Segment.print : Segment → List Char
  | .other u => u
  | .element e => e.print

def Segment.other? : Segment → Option (List Char)
  | .other u => some u
  | .element _ => none

def Segment.element? : Segment → Option Element
  | .other _ => none
  | .element e => some e

namespace Content

variable (wanted : Tag → Bool)

/-- The outermost elements one looks for, and the texts between them. -/
def segments : Content → List Segment
  | .nil => []
  | .span s rest => .other s.print :: rest.segments
  | .aside a rest => .other a.print :: rest.segments
  | .empty t rest =>
    (if wanted t then .element ⟨t, none⟩ else .other t.alone) :: rest.segments
  | .element t body gap _ rest =>
    if wanted t then .element ⟨t, some (body, gap)⟩ :: rest.segments
    else .other t.opening :: (body.segments ++ .other (closing t.name gap) :: rest.segments)

/-- The wanted elements of a content. -/
def elements (c : Content) : List Element := (c.segments wanted).filterMap Segment.element?

/-- The texts outside of the elements. -/
def outside (c : Content) : List (List Char) := (c.segments wanted).filterMap Segment.other?

/-- The texts in front of the first one. -/
def leading (c : Content) : List (List Char) :=
  ((c.segments wanted).takeWhile fun s => s.other?.isSome).filterMap Segment.other?

theorem print_segments (c : Content) : (c.segments wanted).flatMap Segment.print = c.print := by
  induction c with
  | nil => rfl
  | span s rest ih | aside a rest ih =>
    rw [segments, List.flatMap_cons, ih]
    rfl
  | empty t rest ih =>
    rw [segments, List.flatMap_cons, ih]
    split <;> rfl
  | element t body gap h rest ihbody ihrest =>
    rw [segments]
    split
    · rw [List.flatMap_cons, ihrest, Segment.print, Element.print, print, List.append_assoc,
        List.append_assoc]
    · rw [List.flatMap_cons, List.flatMap_append, List.flatMap_cons, ihbody, ihrest]
      rfl

variable {wanted}

theorem elements_empty (t : Tag) (rest : Content) : (Content.empty t rest).elements wanted =
    if wanted t then ⟨t, none⟩ :: rest.elements wanted else rest.elements wanted := by
  rw [elements, segments]
  split <;> rfl

theorem elements_element (t : Tag) (body : Content) (gap : List Char) (h : isBlank gap = true)
    (rest : Content) : (Content.element t body gap h rest).elements wanted =
      if wanted t then ⟨t, some (body, gap)⟩ :: rest.elements wanted
      else body.elements wanted ++ rest.elements wanted := by
  rw [elements, segments]
  split
  · rfl
  · rw [List.filterMap_cons, List.filterMap_append, List.filterMap_cons]
    rfl

theorem wanted_of_mem {c : Content} {e : Element} (h : e ∈ c.elements wanted) :
    wanted e.tag = true ∧ e ∈ c.everything := by
  induction c with
  | nil => cases h
  | span s rest ih | aside a rest ih => exact ih h
  | empty t rest ih =>
    rw [elements_empty] at h
    split at h
    · next ht =>
      rcases List.mem_cons.mp h with rfl | hrest
      · exact ⟨ht, List.mem_cons_self⟩
      · exact (ih hrest).imp_right (List.mem_cons_of_mem _)
    · exact (ih h).imp_right (List.mem_cons_of_mem _)
  | element t body gap hgap rest ihbody ihrest =>
    rw [elements_element] at h
    split at h
    · next ht =>
      rcases List.mem_cons.mp h with rfl | hrest
      · exact ⟨ht, List.mem_cons_self⟩
      · exact (ihrest hrest).imp_right fun hin =>
          List.mem_cons_of_mem _ (List.mem_append_right _ hin)
    · rcases List.mem_append.mp h with hbody | hrest
      · exact (ihbody hbody).imp_right fun hin =>
          List.mem_cons_of_mem _ (List.mem_append_left _ hin)
      · exact (ihrest hrest).imp_right fun hin =>
          List.mem_cons_of_mem _ (List.mem_append_right _ hin)

theorem elements_ne_nil {c : Content} {e : Element} (h : e ∈ c.everything)
    (he : wanted e.tag = true) : c.elements wanted ≠ [] := by
  induction c with
  | nil => cases h
  | span s rest ih | aside a rest ih => exact ih h
  | empty t rest ih =>
    rw [elements_empty]
    split
    · exact List.cons_ne_nil _ _
    · next ht =>
      rcases List.mem_cons.mp h with rfl | hrest
      · exact absurd he ht
      · exact ih hrest
  | element t body gap hgap rest ihbody ihrest =>
    rw [elements_element]
    split
    · exact List.cons_ne_nil _ _
    · next ht =>
      rcases List.mem_cons.mp h with rfl | hmore
      · exact absurd he ht
      · rcases List.mem_append.mp hmore with hbody | hrest
        · exact List.append_ne_nil_of_left_ne_nil (ihbody hbody) _
        · exact List.append_ne_nil_of_right_ne_nil _ (ihrest hrest)

/-- What one looks for in an element is found in the document, when the element is in nothing else
that one looks for. -/
theorem elements_sublist {other : Tag → Bool} (hother : ∀ t, wanted t = true → other t = false)
    {c : Content} (hin : ∀ k ∈ c.elements other, ∀ e ∈ k.body.everything, wanted e.tag = false)
    {e : Element} (he : e ∈ c.elements wanted) :
    (e.body.elements other).Sublist (c.elements other) := by
  induction c with
  | nil => cases he
  | span s rest ih | aside a rest ih => exact ih hin he
  | empty t rest ih =>
    rw [elements_empty] at he hin ⊢
    have hrest : (rest.elements other).Sublist
        (if other t then ⟨t, none⟩ :: rest.elements other else rest.elements other) := by
      split
      · exact List.sublist_cons_self _ _
      · exact List.Sublist.refl _
    have hmore := ih fun k hk => hin k (hrest.subset hk)
    split at he
    · rcases List.mem_cons.mp he with rfl | he
      · exact List.nil_sublist _
      · exact (hmore he).trans hrest
    · exact (hmore he).trans hrest
  | element t body gap hgap rest ihbody ihrest =>
    rw [elements_element] at he hin ⊢
    have hrest : (rest.elements other).Sublist (if other t then
        ⟨t, some (body, gap)⟩ :: rest.elements other
        else body.elements other ++ rest.elements other) := by
      split
      · exact List.sublist_cons_self _ _
      · exact List.sublist_append_right _ _
    have hmore := ihrest fun k hk => hin k (hrest.subset hk)
    split at he
    · next ht =>
      rcases List.mem_cons.mp he with rfl | he
      · rw [if_neg (by simp [hother t ht])]
        exact List.sublist_append_left _ _
      · exact (hmore he).trans hrest
    · rcases List.mem_append.mp he with he | he
      · have hwanted := wanted_of_mem he
        by_cases ht : other t = true
        · rw [if_pos ht] at hin
          have hno := hin _ List.mem_cons_self e hwanted.2
          rw [hwanted.1] at hno
          cases hno
        · rw [if_neg ht] at hin ⊢
          exact (ihbody (fun k hk => hin k (List.mem_append_left _ hk)) he).trans
            (List.sublist_append_left _ _)
      · exact (hmore he).trans hrest

/-- An element takes at least a character. -/
theorem length_everything_le (c : Content) : c.everything.length ≤ c.print.length := by
  induction c with
  | nil => exact Nat.le_refl _
  | span s rest ih | aside a rest ih =>
    rw [print, List.length_append]
    exact Nat.le_trans ih (Nat.le_add_left _ _)
  | empty t rest ih =>
    rw [everything, print, Tag.alone, List.length_cons, List.length_append, List.length_cons]
    omega
  | element t body gap h rest ihbody ihrest =>
    rw [everything, print, Tag.opening]
    simp only [List.length_cons, List.length_append]
    omega

theorem length_elements_le (c : Content) : (c.elements wanted).length ≤ c.everything.length := by
  induction c with
  | nil => exact Nat.le_refl _
  | span s rest ih | aside a rest ih => exact ih
  | empty t rest ih =>
    rw [elements_empty, everything]
    split <;> simp only [List.length_cons] <;> omega
  | element t body gap h rest ihbody ihrest =>
    rw [elements_element, everything]
    split <;> simp only [List.length_cons, List.length_append] <;> omega

theorem length_body_le {c : Content} {e : Element} (h : e ∈ c.everything) :
    e.body.everything.length ≤ c.everything.length := by
  induction c with
  | nil => cases h
  | span s rest ih | aside a rest ih => exact ih h
  | empty t rest ih =>
    rcases List.mem_cons.mp h with rfl | hrest
    · exact Nat.zero_le _
    · exact Nat.le_succ_of_le (ih hrest)
  | element t body gap hgap rest ihbody ihrest =>
    rw [everything, List.length_cons, List.length_append]
    rcases List.mem_cons.mp h with rfl | hmore
    · change body.everything.length ≤ _
      omega
    · rcases List.mem_append.mp hmore with hbody | hrest
      · have hle := ihbody hbody
        omega
      · have hle := ihrest hrest
        omega

end Content

/-! ## Where tags start -/

/-- A tag of the name starts the text. -/
def startsTag (name t : List Char) : Bool :=
  ('<' :: name).isPrefixOf t && !(t.drop (name.length + 1)).head?.any isWordChar

/-- A tag of the name starts in the text. -/
def shows (name u : List Char) : Bool := u.tails.any (startsTag name)

/-- A tag that starts in the text ends in it. -/
def Sealed (u : List Char) : Prop := '<' ∉ u ∨ u.getLast? = some '>'

theorem startsTag_iff {name t : List Char} : startsTag name t = true ↔
    ∃ rest, t = '<' :: (name ++ rest) ∧ rest.head?.any isWordChar = false := by
  rw [startsTag, Bool.and_eq_true, List.isPrefixOf_iff_prefix, Bool.not_eq_true']
  constructor
  · rintro ⟨⟨rest, rfl⟩, hhead⟩
    refine ⟨rest, rfl, ?_⟩
    rwa [← List.length_cons, List.drop_left] at hhead
  · rintro ⟨rest, rfl, hhead⟩
    refine ⟨⟨rest, rfl⟩, ?_⟩
    rwa [List.drop_succ_cons, List.drop_left]

theorem Sealed.suffix {u t : List Char} (h : Sealed u) (ht : t ≠ []) (hsuffix : t <:+ u) :
    Sealed t := by
  obtain ⟨v, rfl⟩ := hsuffix
  refine h.imp (fun hnone hin => hnone (List.mem_append_right v hin)) fun hlast => ?_
  rwa [List.getLast?_append_of_ne_nil _ ht] at hlast

/-- What stands behind a sealed text is not needed for a tag to start in it. -/
theorem startsTag_append {name t : List Char} (hname : '>' ∉ name) (ht : Sealed t) (hne : t ≠ [])
    {rest : List Char} (h : startsTag name (t ++ rest) = true) :
    '>' ∈ t ∧ startsTag name t = true := by
  obtain ⟨more, htext, hhead⟩ := startsTag_iff.mp h
  obtain ⟨c, t, rfl⟩ := List.exists_cons_of_ne_nil hne
  obtain ⟨rfl, htail⟩ := List.cons.inj htext
  have hlast := ht.resolve_left (absurd List.mem_cons_self)
  have hin : '>' ∈ '<' :: t := List.mem_of_getLast? hlast
  have hmem : '>' ∈ t := (List.mem_cons.mp hin).resolve_left (by decide)
  rcases List.append_eq_append_iff.mp htail with ⟨s, hs, -⟩ | ⟨s, rfl, rfl⟩
  · exact absurd (hs ▸ List.mem_append_left s hmem) hname
  · refine ⟨hin, startsTag_iff.mpr ⟨s, rfl, ?_⟩⟩
    cases s with
    | nil =>
      rw [List.append_nil] at hmem
      exact absurd hmem hname
    | cons d s => exact hhead

/-- Where no tag of the name is shown, none starts. -/
theorem startsTag_of_shows {name u t : List Char} (hname : '>' ∉ name) (hu : Sealed u)
    (hshow : shows name u = false) (ht : t ≠ []) (hsuffix : t <:+ u) (rest : List Char) :
    startsTag name (t ++ rest) = false := by
  by_contra hstart
  rw [Bool.not_eq_false] at hstart
  have hhere := (startsTag_append hname (hu.suffix ht hsuffix) ht hstart).2
  rw [shows, List.any_eq_false] at hshow
  exact hshow t ((List.mem_tails t u).mpr hsuffix) hhere

theorem not_mem_of_all {p : Char → Bool} {cs : List Char} (h : cs.all p = true) {c : Char}
    (hc : p c = false) : c ∉ cs := by
  intro hin
  rw [List.all_eq_true.mp h c hin] at hc
  cases hc

theorem Numeral.not_mem (n : Numeral) {c : Char} (h : n.base.isDigit c = false) : c ∉ n.digits :=
  not_mem_of_all n.isDigit h

theorem Piece.not_mem_print {p : Piece} {special : List Char} (h : p.avoids special = true)
    {c : Char} (hc : c ∈ special) (hname : c ∉ '&' :: '#' :: 'x' :: ';' :: "quotapsltgmp".toList)
    (hdigit : Base.isDigit .sixteen c = false) : c ∉ p.print := by
  cases p with
  | raw d =>
    intro hin
    rw [List.mem_singleton.mp hin] at hc
    simp [avoids, hc] at h
  | named e =>
    intro hin
    refine hname ?_
    cases e <;> revert hin <;> simp [print, Entity.name] <;> tauto
  | numeric n =>
    have hten : n.base.isDigit c = false := by
      cases hbase : n.base with
      | ten => exact (Bool.or_eq_false_iff.mp hdigit).1
      | sixteen => exact hdigit
    have hmark : c ∉ n.base.mark := by
      cases n.base with
      | ten => exact List.not_mem_nil
      | sixteen => exact fun hin => hname (by simp_all [Base.mark])
    intro hin
    simp only [print, List.mem_cons, List.mem_append, List.not_mem_nil, or_false] at hin
    rcases hin with rfl | rfl | (hin | hin) | rfl
    · exact hname (by simp)
    · exact hname (by simp)
    · exact hmark hin
    · exact n.not_mem hten hin
    · exact hname (by simp)

theorem Piece.sealed {p : Piece} (h : p.avoids ['<', '&'] = true) : Sealed p.print :=
  Or.inl (Piece.not_mem_print h List.mem_cons_self (by decide) (by decide))

theorem sealed_cdata (cs : List Char) : Sealed ("<![CDATA[".toList ++ (cs ++ "]]>".toList)) := by
  refine Or.inr ?_
  rw [List.getLast?_append_of_ne_nil _ (by simp), List.getLast?_append_of_ne_nil _ (by simp)]
  rfl

theorem Span.sealed : (s : Span) → Sealed s.print
  | .piece _ h => Piece.sealed h
  | .cdata cs _ => sealed_cdata cs

theorem sealed_of_last (u : List Char) : Sealed (u ++ ['>']) :=
  Or.inr List.getLast?_concat

theorem Aside.sealed (a : Aside) : Sealed a.print := by
  have hcloses : a.mark.closes ≠ [] ∧ a.mark.closes.getLast? = some '>' := by
    cases a.mark <;> exact ⟨by decide, rfl⟩
  refine Or.inr ?_
  rw [print, List.getLast?_append_of_ne_nil _ (by simp [hcloses.1]),
    List.getLast?_append_of_ne_nil _ hcloses.1, hcloses.2]

theorem Tag.sealed_opening (t : Tag) : Sealed t.opening := by
  have h := sealed_of_last ('<' :: (t.name ++ t.inner))
  rwa [List.cons_append, List.append_assoc] at h

theorem Tag.sealed_alone (t : Tag) : Sealed t.alone := by
  have h := sealed_of_last ('<' :: (t.name ++ (t.inner ++ ['/'])))
  rwa [List.cons_append, List.append_assoc, List.append_assoc] at h

theorem sealed_closing (name gap : List Char) : Sealed (closing name gap) := by
  have h := sealed_of_last ('<' :: '/' :: (name ++ gap))
  rwa [List.cons_append, List.cons_append, List.append_assoc] at h

namespace Content

variable {wanted : Tag → Bool}

theorem sealed_of_mem {c : Content} {u : List Char} (h : .other u ∈ c.segments wanted) :
    Sealed u := by
  induction c with
  | nil => cases h
  | span s rest ih =>
    rcases List.mem_cons.mp h with heq | hrest
    · cases heq
      exact s.sealed
    · exact ih hrest
  | aside a rest ih =>
    rcases List.mem_cons.mp h with heq | hrest
    · cases heq
      exact a.sealed
    · exact ih hrest
  | empty t rest ih =>
    rcases List.mem_cons.mp h with heq | hrest
    · split at heq
      · cases heq
      · cases heq
        exact t.sealed_alone
    · exact ih hrest
  | element t body gap hgap rest ihbody ihrest =>
    rw [segments] at h
    split at h
    · exact ihrest ((List.mem_cons.mp h).resolve_left (by simp))
    · rcases List.mem_cons.mp h with heq | hmore
      · cases heq
        exact t.sealed_opening
      · rcases List.mem_append.mp hmore with hbody | hmore
        · exact ihbody hbody
        · rcases List.mem_cons.mp hmore with heq | hrest
          · cases heq
            exact sealed_closing t.name gap
          · exact ihrest hrest

theorem mem_outside {c : Content} {u : List Char} :
    u ∈ c.outside wanted ↔ .other u ∈ c.segments wanted := by
  rw [outside, List.mem_filterMap]
  constructor
  · rintro ⟨s | e, hs, heq⟩
    · cases heq
      exact hs
    · cases heq
  · intro h
    exact ⟨_, h, rfl⟩

end Content

/-! ## The text of a tag -/

theorem isWordChar_of_blank {c : Char} (h : isBlankChar c = true) : isWordChar c = false := by
  simp only [isBlankChar, Bool.or_eq_true, decide_eq_true_eq] at h
  rcases h with ((rfl | rfl) | rfl) | rfl <;> decide

/-- A name or an end starts what stands behind a tag's name. -/
theorem Tag.head?_inner (t : Tag) : ∀ c ∈ t.inner.head?, isBlankChar c = true := by
  intro c hc
  rw [Tag.inner] at hc
  cases hattributes : t.attributes with
  | nil =>
    rw [hattributes, List.flatMap_nil, List.nil_append] at hc
    exact List.all_eq_true.mp t.tail_blank c (List.mem_of_mem_head? hc)
  | cons a as =>
    obtain ⟨g, gap, hgap⟩ := List.exists_cons_of_ne_nil a.gap_ne
    rw [hattributes, List.flatMap_cons, Attribute.print, hgap] at hc
    obtain rfl : g = c := Option.some.inj hc
    exact List.all_eq_true.mp a.gap_blank g (hgap ▸ List.mem_cons_self)

theorem Attribute.getLast?_print (a : Attribute) : a.print.getLast? = some a.quote := by
  have hsplit : a.print = (a.gap ++ (a.name ++ (a.left ++ ('=' :: (a.right ++
      (a.quote :: a.value.flatMap Piece.print)))))) ++ [a.quote] := by simp [Attribute.print]
  rw [hsplit, List.getLast?_concat]

/-- No slash of its own ends a tag. -/
theorem Tag.getLast?_inner (t : Tag) : t.inner.getLast? ≠ some '/' := by
  have hblank : ∀ cs : List Char, isBlank cs = true → cs.getLast? ≠ some '/' := by
    intro cs hcs hlast
    have hslash := List.all_eq_true.mp hcs _ (List.mem_of_getLast? hlast)
    revert hslash
    decide
  intro hlast
  rw [Tag.inner, List.getLast?_append, Option.or_eq_some_iff] at hlast
  rcases hlast with htail | ⟨-, hattributes⟩
  · exact hblank t.tail t.tail_blank htail
  · cases hlist : t.attributes.getLast? with
    | none =>
      rw [List.getLast?_eq_none_iff.mp hlist] at hattributes
      cases hattributes
    | some a =>
      obtain ⟨as, hsplit⟩ := List.getLast?_eq_some_iff.mp hlist
      rw [hsplit, List.flatMap_append, List.flatMap_singleton, List.getLast?_append,
        Attribute.getLast?_print, Option.some_or, Option.some.injEq] at hattributes
      rcases a.isQuote with hquote | hquote <;> rw [hquote] at hattributes <;>
        exact absurd hattributes (by decide)

theorem not_mem_name {cs : List Char} (h : isName cs = true) {c : Char}
    (hc : isNameChar c = false) : c ∉ cs := by
  rw [isName, Bool.and_eq_true] at h
  exact not_mem_of_all h.2 hc

theorem Tag.head?_text (t : Tag) (u rest : List Char)
    (hu : ∀ c ∈ (u ++ rest).head?, isWordChar c = false) :
    (t.inner ++ (u ++ rest)).head?.any isWordChar = false := by
  cases hinner : t.inner with
  | nil =>
    rw [List.nil_append]
    cases hhead : (u ++ rest).head? with
    | none => rfl
    | some c => exact hu c hhead
  | cons c cs => exact isWordChar_of_blank (t.head?_inner c (by rw [hinner]; rfl))

/-- What of the tag stands in front of its `>`. -/
def Element.tagText (e : Element) : List Char :=
  match e.inside with
  | none => e.tag.inner ++ ['/']
  | some _ => e.tag.inner

/-- What of the element stands behind its tag. -/
def Element.behind (e : Element) : List Char :=
  match e.inside with
  | none => []
  | some (body, gap) => body.print ++ closing e.tag.name gap

theorem Element.print_append (e : Element) (rest : List Char) : e.print ++ rest =
    '<' :: (e.tag.name ++ (e.tagText ++ ('>' :: (e.behind ++ rest)))) := by
  obtain ⟨t, inside⟩ := e
  cases inside with
  | none => simp [Element.print, Element.tagText, Element.behind, Tag.alone]
  | some p => simp [Element.print, Element.tagText, Element.behind, Tag.opening]

theorem Element.not_mem_tagText {e : Element} (h : '>' ∉ e.tag.inner) : '>' ∉ e.tagText := by
  unfold Element.tagText
  split
  · simp [h]
  · exact h

/-- The head of what stands behind a tag's name. -/
theorem Element.head?_tagText (e : Element) (rest : List Char) :
    (e.tagText ++ ('>' :: rest)).head?.any isWordChar = false := by
  unfold Element.tagText
  split
  · rw [List.append_assoc]
    exact e.tag.head?_text ['/'] ('>' :: rest) (by simp; decide)
  · exact e.tag.head?_text ['>'] rest (by simp; decide)

/-- No tag has two names. -/
theorem startsTag_other {e : Element} {name : List Char} (hword : name.all isWordChar = true)
    (hself : e.tag.name.all isWordChar = true) (hne : e.tag.name ≠ name) (rest : List Char) :
    startsTag name (e.print ++ rest) = false := by
  by_contra hstart
  rw [Bool.not_eq_false, startsTag_iff, Element.print_append] at hstart
  obtain ⟨more, htext, hhead⟩ := hstart
  have hown := e.head?_tagText (e.behind ++ rest)
  rcases List.append_eq_append_iff.mp (List.cons.inj htext).2 with ⟨s, hs, hmore⟩ | ⟨s, hs, hmore⟩
  · cases s with
    | nil => exact hne (by rw [hs, List.append_nil])
    | cons c s =>
      rw [hmore] at hown
      have hc := List.all_eq_true.mp hword c (hs ▸ List.mem_append_right _ List.mem_cons_self)
      rw [List.cons_append, List.head?_cons, Option.any_some, hc] at hown
      cases hown
  · cases s with
    | nil => exact hne (by rw [hs, List.append_nil])
    | cons c s =>
      rw [hmore] at hhead
      have hc := List.all_eq_true.mp hself c (hs ▸ List.mem_append_right _ List.mem_cons_self)
      rw [List.cons_append, List.head?_cons, Option.any_some, hc] at hhead
      cases hhead

/-! ## Reading a document -/

section

variable {α : Type*} {wanted : Tag → Bool} {find : List Char → Option (Nat × α)}

/-- A document is read element by element when nothing starts outside of them. -/
theorem matchAll_content {c : Content} {read : Element → α}
    (houtside : ∀ u ∈ c.outside wanted, ∀ t, t ≠ [] → t <:+ u → ∀ rest, find (t ++ rest) = none)
    (hread : ∀ e ∈ c.elements wanted, ∀ rest,
      find (e.print ++ rest) = some (e.print.length, read e)) :
    matchAll find 0 c.print = (c.elements wanted).map read := by
  rw [← c.print_segments wanted]
  rw [Content.outside] at houtside
  rw [Content.elements] at hread ⊢
  generalize c.segments wanted = segs at houtside hread ⊢
  induction segs with
  | nil => rfl
  | cons s segs ih =>
    rw [List.flatMap_cons]
    cases s with
    | other u =>
      have hu := houtside u List.mem_cons_self
      rw [Segment.print, matchAll_none fun t ht hsuffix => hu t ht hsuffix _]
      exact ih (fun v hv => houtside v (List.mem_cons_of_mem u hv)) hread
    | element e =>
      have hne : e.print ≠ [] := by
        rw [Element.print]
        split <;> exact List.cons_ne_nil _ _
      rw [Segment.print, matchAll_match hne (hread e List.mem_cons_self _)]
      exact congrArg (read e :: ·)
        (ih houtside fun e' he' => hread e' (List.mem_cons_of_mem e he'))

end

section

variable {α : Type*} {wanted : Tag → Bool} {find : List Char → Option α}

/-- The first match is the first element when nothing starts in front of it. -/
theorem firstMatch_content {c : Content} {read : Element → α} (prev : Option Char)
    (hleading : ∀ u ∈ c.leading wanted, ∀ t, t ≠ [] → t <:+ u → ∀ rest, find (t ++ rest) = none)
    (hread : ∀ e ∈ (c.elements wanted).head?, ∀ rest, find (e.print ++ rest) = some (read e)) :
    firstMatch (fun _ => find) prev c.print = (c.elements wanted).head?.map read := by
  rw [← c.print_segments wanted]
  rw [Content.leading] at hleading
  rw [Content.elements] at hread ⊢
  generalize c.segments wanted = segs at hleading hread ⊢
  induction segs generalizing prev with
  | nil => rfl
  | cons s segs ih =>
    rw [List.flatMap_cons]
    cases s with
    | other u =>
      have hu := hleading u List.mem_cons_self
      rw [Segment.print, firstMatch_none prev fun v t ht hsplit => hu t ht ⟨v, hsplit.symm⟩ _]
      exact ih _ (fun v hv => hleading v (List.mem_cons_of_mem u hv)) hread
    | element e =>
      have hne : e.print ≠ [] := by
        rw [Element.print]
        split <;> exact List.cons_ne_nil _ _
      exact firstMatch_match (by simp [Segment.print, hne]) (hread e rfl _)

end

end FleetRunner.Library.Xml
