import FleetRunner.A11y.Findings
import FleetRunner.Js.Text
import FleetRunner.Library.Backtrack
import FleetRunner.Library.Matches
import Mathlib.Data.List.Infix

/-!
# The Android tree (`a11y-tree.ts`)

`uiautomator` prints the tree as XML. It is read tag by tag: an opening tag is a
node at the depth that the tags before it leave, and its strings are the attributes
with the entities undone. Below the reader stands the printer, and what of a printed
tree is read back.

## Implementation notes

The expressions of the tags and of the attributes are read at the head of a text; a
`>` ends a tag and a quote ends a value, so that nothing is tried twice there.
-/

namespace FleetRunner.A11y.Uiautomator

open Library

/-! ## The reader -/

def isNameChar (c : Char) : Bool := isWordChar c || c = ':' || c = '-'

/-- `([\w:-]+)="([^"]*)"` at the head of a text -/
def attrAt (cs : List Char) : Option (Nat × (String × String)) :=
  let name := cs.takeWhile isNameChar
  match cs.drop name.length with
  | '=' :: '"' :: rest =>
    let value := rest.takeWhile (· ≠ '"')
    if name ≠ [] ∧ value.length < rest.length then
      some (name.length + value.length + 3, (String.ofList name, String.ofList value))
    else none
  | _ => none

/-- The attributes of a tag, in order. -/
def attrs (tag : List Char) : List (String × String) := matchAll attrAt 0 tag

/-- `out[name]`: the last one of the name. -/
def attr? (as : List (String × String)) (name : String) : Option String :=
  (as.reverse.find? fun a => decide (a.1 = name)).map Prod.snd

/-- `&name;` -/
def entity (name : String) : List Char := '&' :: (name.toList ++ [';'])

/-- The entities as the characters they stand for, the ampersand last. -/
def unescapeChars (cs : List Char) : List Char :=
  replaceText (entity "amp") ['&'] (replaceText (entity "gt") ['>']
    (replaceText (entity "lt") ['<'] (replaceText (entity "apos") ['\'']
      (replaceText (entity "quot") ['"'] cs))))

def unescapeXml (s : String) : String := String.ofList (unescapeChars s.toList)

/-- `Number` of a `-?\d+` -/
def intOf : List Char → Rat
  | '-' :: digits => -((Js.digits? digits).getD 0 : Nat)
  | digits => ((Js.digits? digits).getD 0 : Nat)

/-- `\[(-?\d+),(-?\d+)\]\[(-?\d+),(-?\d+)\]` -/
def boundsRe : Backtrack.Re :=
  let number : Backtrack.Re := .group (.seq (.opt (.lit ['-'])) (.many1 Char.isDigit))
  .all [.lit ['['], number, .lit [','], number, .lit [']', '['], number, .lit [','], number,
    .lit [']']]

/-- The rectangle that the bounds spell. -/
def parseBoundsRect (s : Option String) : Option Explore.Leash.Rect :=
  match (boundsRe.search none (s.getD "").toList).map fun m => m.2.groups.map intOf with
  | some [x1, y1, x2, y2] => some ⟨x1, y1, x2 - x1, y2 - y1⟩
  | _ => none

/-- A tag of a node. -/
inductive Tag where
  | opened (attributes : List Char) (empty : Bool)
  | closed

/-- `<node\b([^>]*?)(\/?)>|<\/node>` at the head of a text -/
def tagAt (cs : List Char) : Option (Nat × Tag) :=
  if "</node>".toList.isPrefixOf cs then some (7, .closed)
  else if "<node".toList.isPrefixOf cs then
    let rest := cs.drop 5
    let body := rest.takeWhile (· ≠ '>')
    if rest.head?.any isWordChar ∨ body.length = rest.length then none
    else if body.getLast? = some '/' then some (body.length + 6, .opened body.dropLast true)
    else some (body.length + 6, .opened body false)
  else none

/-- A node of the tree as it is read. -/
structure Seen extends judged : A11y.Node where
  focused : Bool
  scrollable : Bool
  checked : Bool

/-- The node of a tag's attributes. -/
def nodeOf (as : List (String × String)) (depth : Nat) : Seen where
  cls := (attr? as "class").getD ""
  text := unescapeXml ((attr? as "text").getD "")
  label := unescapeXml ((attr? as "content-desc").getD "")
  id := (attr? as "resource-id").getD ""
  value := ""
  tappable := decide (attr? as "clickable" = some "true" ∨ attr? as "checkable" = some "true")
  enabled := decide (attr? as "enabled" ≠ some "false")
  bounds := parseBoundsRect (attr? as "bounds")
  depth := depth
  focused := decide (attr? as "focused" = some "true")
  scrollable := decide (attr? as "scrollable" = some "true")
  checked := decide (attr? as "checked" = some "true")

/-- The loop over the tags. -/
def nodesOf : Nat → List Tag → List Seen
  | _, [] => []
  | depth, .closed :: rest => nodesOf (depth - 1) rest
  | depth, .opened tag empty :: rest =>
    nodeOf (attrs tag) depth :: nodesOf (if empty then depth else depth + 1) rest

/-- What a dump reads as. -/
structure Dump where
  nodes : List Seen
  problem : Option String

/-- `/<hierarchy\b/.test(text)` -/
def hasHierarchy (text : List Char) : Bool :=
  text.tails.any fun t =>
    "<hierarchy".toList.isPrefixOf t && !(t.drop 10).head?.any isWordChar

/-- Reads a dump, or says what is wrong with it. -/
def parseUiautomatorDump (xml : List Char) : Dump :=
  let text := xml.filter (· ≠ '\r')
  if text.all isJsSpace then ⟨[], some "uiautomator printed nothing"⟩
  else if !hasHierarchy text then
    ⟨[], some ("no <hierarchy> in the dump (" ++
      jsSlice (String.ofList ((jsTrim (String.ofList text)).toList.takeWhile (· ≠ '\n'))) 140 ++
      ")")⟩
  else
    let nodes := nodesOf 0 (matchAll tagAt 0 text)
    if nodes.isEmpty then ⟨nodes, some "the dump has a <hierarchy> but no nodes"⟩ else ⟨nodes, none⟩

/-! ## The printer -/

def isControl (c : Char) : Bool := c.toNat < 32 || (127 ≤ c.toNat && c.toNat < 160)

def entityName? : Char → Option String
  | '&' => some "amp"
  | '<' => some "lt"
  | '>' => some "gt"
  | '"' => some "quot"
  | _ => none

def reference (c : Char) : List Char := '&' :: '#' :: (toString c.toNat).toList ++ [';']

/-- A character as a dump has it. -/
def escapeChar (c : Char) : List Char :=
  match entityName? c with
  | some name => entity name
  | none => if isControl c then reference c else [c]

def escape (s : String) : List Char := s.toList.flatMap escapeChar

/-- What a node says of itself in words. -/
structure Words where
  text : String
  contentDesc : String
  resourceId : String
  cls : String
  deriving DecidableEq

/-- What is dumped of a widget. -/
structure Widget extends Words where
  index : Nat
  pkg : String
  checkable : Bool
  checked : Bool
  clickable : Bool
  enabled : Bool
  focusable : Bool
  focused : Bool
  scrollable : Bool
  longClickable : Bool
  password : Bool
  selected : Bool
  bounds : Int × Int × Int × Int

def boundsText (b : Int × Int × Int × Int) : String :=
  "[" ++ toString b.1 ++ "," ++ toString b.2.1 ++ "][" ++ toString b.2.2.1 ++ "," ++
    toString b.2.2.2 ++ "]"

/-- The attributes of a node, in their order. -/
def Widget.attributes (w : Widget) : List (String × String) :=
  [("index", toString w.index), ("text", w.text), ("resource-id", w.resourceId), ("class", w.cls),
    ("package", w.pkg), ("content-desc", w.contentDesc), ("checkable", boolText w.checkable),
    ("checked", boolText w.checked), ("clickable", boolText w.clickable),
    ("enabled", boolText w.enabled), ("focusable", boolText w.focusable),
    ("focused", boolText w.focused), ("scrollable", boolText w.scrollable),
    ("long-clickable", boolText w.longClickable), ("password", boolText w.password),
    ("selected", boolText w.selected), ("bounds", boundsText w.bounds)]

def printAttribute (a : String × String) : List Char :=
  ' ' :: a.1.toList ++ '=' :: '"' :: escape a.2 ++ ['"']

def Widget.printed (w : Widget) : List Char := w.attributes.flatMap printAttribute

/-- The nodes at a place: the first one, those under it, and those after it. -/
inductive Forest where
  | empty
  | node (w : Widget) (under next : Forest)

namespace Forest

def print : Forest → List Char
  | .empty => []
  | .node w .empty next => "<node".toList ++ w.printed ++ " />".toList ++ next.print
  | .node w under next =>
    "<node".toList ++ w.printed ++ '>' :: under.print ++ "</node>".toList ++ next.print

/-- The nodes in document order, with their depths. -/
def listed (depth : Nat) : Forest → List (Widget × Nat)
  | .empty => []
  | .node w under next => (w, depth) :: under.listed (depth + 1) ++ next.listed depth

end Forest

def header (rotation : Nat) : List Char :=
  '<' :: "?xml version='1.0' encoding='UTF-8' standalone='yes' ?>".toList ++
    '<' :: "hierarchy rotation=\"".toList ++ (toString rotation).toList ++ "\">".toList

/-- A dump of these widgets. -/
def printDump (rotation : Nat) (t : Forest) : List Char :=
  header rotation ++ t.print ++ "</hierarchy>".toList

/-! ## What is read back -/

/-- What was found of a node: its words, and how deep it is. -/
def Seen.words (n : Seen) : Words × Nat := (⟨n.text, n.label, n.id, n.cls⟩, n.depth)

/-- What is read of a dump are the words of its widgets, each at its depth. -/
def ReadBack (rotation : Nat) (t : Forest) : Prop :=
  (parseUiautomatorDump (printDump rotation t)).nodes.map Seen.words =
    (t.listed 0).map fun p => (p.1.toWords, p.2)

/-- No control characters; and in the names of the resource and of the class nothing that has to be
escaped. -/
structure Words.Plain (w : Words) : Prop where
  text : ∀ c ∈ w.text.toList, isControl c = false
  contentDesc : ∀ c ∈ w.contentDesc.toList, isControl c = false
  resourceId : ∀ c ∈ w.resourceId.toList, escapeChar c = [c]
  cls : ∀ c ∈ w.cls.toList, escapeChar c = [c]

/-! ## Codes -/

theorem entityName?_cases {c : Char} {name : String} (h : entityName? c = some name) :
    (c = '&' ∧ name = "amp") ∨ (c = '<' ∧ name = "lt") ∨ (c = '>' ∧ name = "gt") ∨
      (c = '"' ∧ name = "quot") := by
  unfold entityName? at h
  split at h
  · exact .inl ⟨rfl, (Option.some.inj h).symm⟩
  · exact .inr (.inl ⟨rfl, (Option.some.inj h).symm⟩)
  · exact .inr (.inr (.inl ⟨rfl, (Option.some.inj h).symm⟩))
  · exact .inr (.inr (.inr ⟨rfl, (Option.some.inj h).symm⟩))
  · cases h

theorem isDigit_of_mem_text {n : Nat} {d : Char} (h : d ∈ (toString n).toList) :
    d.isDigit = true := by
  have hdigits : (toString n).toList = Nat.toDigits 10 n := Nat.toList_repr
  rw [hdigits] at h
  exact Nat.isDigit_of_mem_toDigits (by decide) (by decide) h

theorem plain_of_isDigit {c : Char} (h : c.isDigit = true) :
    isControl c = false ∧ entityName? c = none := by
  have hrange : 48 ≤ c.toNat ∧ c.toNat ≤ 57 := Char.isDigit_iff_toNat.mp h
  refine ⟨by simp only [isControl, Bool.or_eq_false_iff, Bool.and_eq_false_iff,
    decide_eq_false_iff_not]; omega, ?_⟩
  cases hentity : entityName? c with
  | none => rfl
  | some e =>
    rcases entityName?_cases hentity with ⟨rfl, -⟩ | ⟨rfl, -⟩ | ⟨rfl, -⟩ | ⟨rfl, -⟩ <;>
      exact absurd h (by decide)

theorem plain_entity {c : Char} {name : String} (h : entityName? c = some name) :
    (entity name).all (fun d => !isControl d && (d == '&' || (entityName? d).isNone)) = true := by
  rcases entityName?_cases h with ⟨-, rfl⟩ | ⟨-, rfl⟩ | ⟨-, rfl⟩ | ⟨-, rfl⟩ <;> decide

/-- Nothing of an escaped text is a control character, and only `&` has a name. -/
theorem plain_of_mem_escapeChar {c d : Char} (h : d ∈ escapeChar c) :
    isControl d = false ∧ (d = '&' ∨ entityName? d = none) := by
  unfold escapeChar at h
  split at h
  · next name hentity => simpa using List.all_eq_true.mp (plain_entity hentity) d h
  · next hentity =>
    split at h
    · rcases List.mem_cons.mp h with rfl | h
      · decide
      · rcases List.mem_cons.mp h with rfl | h
        · decide
        · rcases List.mem_append.mp h with h | h
          · exact (plain_of_isDigit (isDigit_of_mem_text h)).imp_right .inr
          · rw [List.mem_singleton.mp h]
            decide
    · next hcontrol =>
      rw [List.mem_singleton.mp h]
      exact ⟨by simpa using hcontrol, .inr hentity⟩

theorem not_mem_escape {c : Char} (h : isControl c = true ∨ (c ≠ '&' ∧ (entityName? c).isSome))
    (s : String) : c ∉ escape s := by
  intro hmem
  obtain ⟨d, -, hc⟩ := List.mem_flatMap.mp hmem
  obtain ⟨hcontrol, hentity⟩ := plain_of_mem_escapeChar hc
  rcases h with h | ⟨hne, hsome⟩
  · rw [hcontrol] at h
    cases h
  · rw [hentity.resolve_left hne] at hsome
    cases hsome

/-! ## Attributes -/

def IsAttrName (name : String) : Prop :=
  name.toList ≠ [] ∧ ∀ c ∈ name.toList, isNameChar c = true

theorem attrAt_none {c : Char} (hc : isNameChar c = false) (hne : c ≠ '=') (cs : List Char) :
    attrAt (c :: cs) = none := by
  simp only [attrAt, List.takeWhile_cons, hc, Bool.false_eq_true, if_false, List.length_nil,
    List.drop_zero]
  split
  · next heq => exact absurd (List.cons.inj heq).1 hne
  · rfl

theorem attrAt_printed {name : String} (hname : IsAttrName name) (value : String)
    (rest : List Char) :
    attrAt (name.toList ++ '=' :: '"' :: (escape value ++ '"' :: rest)) =
      some (name.toList.length + (escape value).length + 3,
        (name, String.ofList (escape value))) := by
  have hquote : '"' ∉ escape value := not_mem_escape (.inr ⟨by decide, rfl⟩) value
  have hrun : (name.toList ++ '=' :: '"' :: (escape value ++ '"' :: rest)).takeWhile isNameChar =
      name.toList := by
    rw [List.takeWhile_append_of_pos hname.2]
    simp [isNameChar, isWordChar]
  have hvalue : (escape value ++ '"' :: rest).takeWhile (· ≠ '"') = escape value := by
    rw [List.takeWhile_append_of_pos fun c hc => by
      simpa using ne_of_mem_of_not_mem hc hquote]
    simp
  have hshort : (escape value).length < (escape value ++ '"' :: rest).length := by simp
  simp only [attrAt, hrun, List.drop_left, hvalue, hname.1, hshort, ne_eq, not_false_eq_true,
    and_self, if_true, String.ofList_toList]

/-- What is read of an attribute. -/
def readAttribute (a : String × String) : String × String := (a.1, String.ofList (escape a.2))

theorem attrs_printed {as : List (String × String)} (h : ∀ a ∈ as, IsAttrName a.1)
    (rest : List Char) :
    attrs (as.flatMap printAttribute ++ rest) = as.map readAttribute ++ attrs rest := by
  induction as with
  | nil => rfl
  | cons a as ih =>
    have ha := h a List.mem_cons_self
    have htext : (a :: as).flatMap printAttribute ++ rest =
        [' '] ++ (a.1.toList ++ '=' :: '"' :: (escape a.2 ++ ['"']) ++
          (as.flatMap printAttribute ++ rest)) := by
      simp [printAttribute]
    have hmatch : attrAt (a.1.toList ++ '=' :: '"' :: (escape a.2 ++ ['"']) ++
        (as.flatMap printAttribute ++ rest)) =
          some ((a.1.toList ++ '=' :: '"' :: (escape a.2 ++ ['"'])).length, readAttribute a) := by
      have hat := attrAt_printed ha a.2 (as.flatMap printAttribute ++ rest)
      simp only [List.append_assoc, List.cons_append, List.nil_append] at hat ⊢
      rw [hat]
      simp only [List.length_append, List.length_cons, List.length_nil, readAttribute]
      congr 2
    rw [attrs, htext, List.singleton_append, matchAll_cons_none (attrAt_none (by decide)
      (by decide) _), matchAll_match (by simp) hmatch, List.map_cons, List.cons_append]
    exact congrArg (List.cons _) (ih fun b hb => h b (List.mem_cons_of_mem a hb))

/-! ## Tags -/

theorem tagAt_of_ne (c : Char) (cs : List Char) (hc : c ≠ '<') : tagAt (c :: cs) = none := by
  have hopened : "<node".toList.isPrefixOf (c :: cs) = false := by
    simp [List.isPrefixOf, Ne.symm hc]
  have hclosed : "</node>".toList.isPrefixOf (c :: cs) = false := by
    simp [List.isPrefixOf, Ne.symm hc]
  rw [tagAt, hopened, hclosed]
  rfl

theorem tagAt_closed (rest : List Char) :
    tagAt ("</node>".toList ++ rest) = some (7, .closed) := by
  rw [tagAt, if_pos (List.isPrefixOf_iff_prefix.mpr (List.prefix_append _ rest))]

theorem tagAt_opened {body : List Char} (hgt : '>' ∉ body)
    (hword : body.head?.any isWordChar = false) (rest : List Char) :
    tagAt ("<node".toList ++ (body ++ '>' :: rest)) = some (body.length + 6,
      if body.getLast? = some '/' then .opened body.dropLast true else .opened body false) := by
  have hopened : "<node".toList.isPrefixOf ("<node".toList ++ (body ++ '>' :: rest)) = true :=
    List.isPrefixOf_iff_prefix.mpr (List.prefix_append _ _)
  have hclosed : "</node>".toList.isPrefixOf ("<node".toList ++ (body ++ '>' :: rest)) = false := by
    simp [List.isPrefixOf]
  have hrest : ("<node".toList ++ (body ++ '>' :: rest)).drop 5 = body ++ '>' :: rest := rfl
  have hbody : (body ++ '>' :: rest).takeWhile (· ≠ '>') = body := by
    rw [List.takeWhile_append_of_pos fun c hc => by simpa using ne_of_mem_of_not_mem hc hgt]
    simp
  have hgoes : ¬ ((body ++ '>' :: rest).head?.any isWordChar = true ∨
      body.length = (body ++ '>' :: rest).length) := by
    rintro (h | h)
    · cases body with
      | nil =>
        rw [List.nil_append, List.head?_cons] at h
        exact absurd h (by decide)
      | cons c body =>
        rw [List.cons_append, List.head?_cons] at h
        rw [List.head?_cons, h] at hword
        cases hword
    · simp at h
  rw [tagAt, hclosed, hopened]
  simp only [hrest, hbody, if_neg hgoes, Bool.false_eq_true, if_false, if_true]
  split <;> rfl

theorem attributes_names (w : Widget) : ∀ a ∈ w.attributes, IsAttrName a.1 := by
  unfold Widget.attributes
  simp only [List.forall_mem_cons, List.not_mem_nil, false_implies, implies_true, and_true]
  refine ⟨?_, ?_, ?_, ?_, ?_, ?_, ?_, ?_, ?_, ?_, ?_, ?_, ?_, ?_, ?_, ?_, ?_⟩ <;>
    exact ⟨by simp, List.all_eq_true.mp (by decide)⟩

/-- What is read of a node's attributes. -/
def Widget.read (w : Widget) : List (String × String) := w.attributes.map readAttribute

theorem not_mem_printed {c : Char} (hcode : isControl c = true ∨ (c ≠ '&' ∧ (entityName? c).isSome))
    (hname : isNameChar c = false) (hmark : c ≠ ' ' ∧ c ≠ '=' ∧ c ≠ '"') (w : Widget) :
    c ∉ w.printed := by
  intro hmem
  obtain ⟨a, ha, hc⟩ := List.mem_flatMap.mp hmem
  simp only [printAttribute, List.mem_cons, List.mem_append, List.not_mem_nil, or_false, hmark,
    false_or] at hc
  rcases hc with hc | hc
  · rw [(attributes_names w a ha).2 c hc] at hname
    cases hname
  · exact not_mem_escape hcode a.2 hc

theorem head?_printed (w : Widget) : w.printed.head? = some ' ' := by
  simp [Widget.printed, Widget.attributes, printAttribute]

theorem getLast?_printed (w : Widget) : w.printed.getLast? = some '"' := by
  have hne : w.attributes ≠ [] := List.cons_ne_nil _ _
  rw [Widget.printed, ← List.dropLast_concat_getLast hne, List.flatMap_append,
    List.flatMap_singleton, printAttribute, ← List.append_assoc, List.getLast?_concat]

/-- The tags of a printed forest. -/
def Forest.tags : Forest → List Tag
  | .empty => []
  | .node w .empty next => .opened (w.printed ++ [' ']) true :: next.tags
  | .node w under next => .opened w.printed false :: under.tags ++ .closed :: next.tags

theorem matchAll_print (t : Forest) (rest : List Char) :
    matchAll tagAt 0 (t.print ++ rest) = t.tags ++ matchAll tagAt 0 rest := by
  have hgt : ∀ w : Widget, '>' ∉ w.printed := fun w =>
    not_mem_printed (.inr ⟨by decide, rfl⟩) (by decide) (by decide) w
  have hword : ∀ (w : Widget) (more : List Char),
      (w.printed ++ more).head?.any isWordChar = false := fun w more => by
    rw [List.head?_append, head?_printed]
    rfl
  induction t using Forest.print.induct generalizing rest with
  | case1 => rfl
  | case2 w next ih =>
    have htext : (Forest.node w .empty next).print ++ rest =
        ("<node".toList ++ ((w.printed ++ " /".toList) ++ ['>'])) ++ (next.print ++ rest) := by
      simp [Forest.print]
    have hbody : '>' ∉ w.printed ++ " /".toList := by simp [hgt]
    have htag := tagAt_opened hbody (hword w _) (next.print ++ rest)
    rw [if_pos (by simp)] at htag
    rw [htext, matchAll_match (by simp) (a := .opened (w.printed ++ [' ']) true), ih]
    · rfl
    · simpa using htag
  | case3 w under next hunder ihunder ihnext =>
    have hprint : (Forest.node w under next).print = "<node".toList ++ w.printed ++
        '>' :: under.print ++ "</node>".toList ++ next.print := by
      rw [Forest.print]
      exact hunder
    have htags : (Forest.node w under next).tags = .opened w.printed false :: under.tags ++
        .closed :: next.tags := by
      rw [Forest.tags]
      exact hunder
    have htext : (Forest.node w under next).print ++ rest =
        ("<node".toList ++ (w.printed ++ ['>'])) ++ (under.print ++ ("</node>".toList ++
          (next.print ++ rest))) := by
      rw [hprint]
      simp
    have htag := tagAt_opened (hgt w)
      (by simpa using hword w []) (under.print ++ ("</node>".toList ++ (next.print ++ rest)))
    rw [if_neg (by rw [getLast?_printed]; decide)] at htag
    rw [htext, matchAll_match (by simp) (a := .opened w.printed false), ihunder,
      matchAll_match (by simp) (tagAt_closed _), ihnext, htags]
    · simp
    · simpa using htag

/-! ## The nodes -/

/-- What is read of a node. -/
def seen (p : Widget × Nat) : Seen := nodeOf p.1.read p.2

theorem attrs_opened (w : Widget) :
    attrs w.printed = w.read ∧ attrs (w.printed ++ [' ']) = w.read := by
  have hprinted := attrs_printed (attributes_names w)
  refine ⟨?_, ?_⟩
  · have hplain := hprinted []
    have hnone : attrs [] = [] := rfl
    rwa [hnone, List.append_nil, List.append_nil] at hplain
  · have hblank := hprinted [' ']
    have hnone : attrs [' '] = [] := rfl
    rwa [hnone, List.append_nil] at hblank

theorem nodesOf_tags (t : Forest) (depth : Nat) (ts : List Tag) :
    nodesOf depth (t.tags ++ ts) = (t.listed depth).map seen ++ nodesOf depth ts := by
  induction t using Forest.print.induct generalizing depth ts with
  | case1 => rfl
  | case2 w next ih =>
    simp only [Forest.tags, List.cons_append, nodesOf, (attrs_opened w).2, if_true, ih,
      Forest.listed, List.map_cons, List.nil_append]
    rfl
  | case3 w under next hunder ihunder ihnext =>
    have htags : (Forest.node w under next).tags = .opened w.printed false :: under.tags ++
        .closed :: next.tags := by
      rw [Forest.tags]
      exact hunder
    simp only [htags, List.cons_append, List.append_assoc, nodesOf, (attrs_opened w).1,
      Bool.false_eq_true, if_false, ihunder, ihnext, Forest.listed, List.map_cons, List.map_append,
      Nat.add_sub_cancel]
    rfl

/-! ## The dump -/

theorem tagAt_other {cs : List Char} (hnode : cs.head? ≠ some 'n') (hslash : cs.head? ≠ some '/') :
    tagAt ('<' :: cs) = none := by
  cases cs with
  | nil => rfl
  | cons c cs =>
    have hc : 'n' ≠ c ∧ '/' ≠ c := by simpa [eq_comm] using And.intro hnode hslash
    have hopened : "<node".toList.isPrefixOf ('<' :: c :: cs) = false := by
      simp [List.isPrefixOf, hc]
    have hclosed : "</node>".toList.isPrefixOf ('<' :: c :: cs) = false := by
      simp [List.isPrefixOf, hc]
    rw [tagAt, hopened, hclosed]
    rfl

theorem not_mem_digits {c : Char} (hc : c.isDigit = false) (n : Nat) : c ∉ Nat.toDigits 10 n := by
  intro hmem
  rw [Nat.isDigit_of_mem_toDigits (by decide) (by decide) hmem] at hc
  cases hc

/-- The header has two tags, and neither is a node's. -/
theorem matchAll_header (rotation : Nat) (rest : List Char) :
    matchAll tagAt 0 (header rotation ++ rest) = matchAll tagAt 0 rest := by
  have hdigits := not_mem_digits (by decide : '<'.isDigit = false) rotation
  simp only [header, List.append_assoc, List.cons_append]
  rw [matchAll_cons_none (tagAt_other (by simp) (by simp)),
    matchAll_of_not_mem tagAt_of_ne (by decide),
    matchAll_cons_none (tagAt_other (by simp) (by simp)),
    matchAll_of_not_mem tagAt_of_ne (by decide),
    matchAll_of_not_mem tagAt_of_ne (by simpa using hdigits),
    matchAll_of_not_mem tagAt_of_ne (by decide)]

theorem not_mem_print {c : Char} (hc : isControl c = true) (hname : isNameChar c = false)
    (hmark : c ≠ ' ' ∧ c ≠ '=' ∧ c ≠ '"') (hframe : c ∉ "</node>".toList) (t : Forest) :
    c ∉ t.print := by
  have hprinted : ∀ w : Widget, c ∉ w.printed := not_mem_printed (.inl hc) hname hmark
  have hopened : c ∉ "<node".toList := fun hmem => hframe (by simp_all)
  induction t using Forest.print.induct with
  | case1 => exact List.not_mem_nil
  | case2 w next ih =>
    simp_all [Forest.print]
  | case3 w under next hunder ihunder ihnext =>
    rw [Forest.print]
    · simp_all
    · exact hunder

theorem filter_printDump (rotation : Nat) (t : Forest) :
    (printDump rotation t).filter (· ≠ '\r') = printDump rotation t := by
  have hprint := not_mem_print (by decide : isControl '\r' = true) (by decide) (by decide)
    (by simp) t
  have hdigits := not_mem_digits (by decide : '\r'.isDigit = false) rotation
  have hnone : '\r' ∉ printDump rotation t := by
    simp [printDump, header, hprint, hdigits]
  exact List.filter_eq_self.mpr fun c hc => by simpa using ne_of_mem_of_not_mem hc hnone

theorem hasHierarchy_printDump (rotation : Nat) (t : Forest) :
    hasHierarchy (printDump rotation t) = true := by
  have hopening : '<' :: "hierarchy rotation=\"".toList =
      "<hierarchy".toList ++ ' ' :: "rotation=\"".toList := by decide
  refine List.any_eq_true.mpr ⟨"<hierarchy".toList ++ (' ' :: "rotation=\"".toList ++
    ((toString rotation).toList ++ "\">".toList ++ t.print ++ "</hierarchy>".toList)),
      (List.mem_tails _ _).mpr
        ⟨'<' :: "?xml version='1.0' encoding='UTF-8' standalone='yes' ?>".toList, ?_⟩, ?_⟩
  · rw [← List.append_assoc "<hierarchy".toList, ← hopening]
    simp only [printDump, header, List.append_assoc, List.cons_append]
  · have hrest : ∀ cs : List Char, ("<hierarchy".toList ++ cs).drop "<hierarchy".toList.length = cs :=
      fun _ => List.drop_left
    rw [Bool.and_eq_true, List.isPrefixOf_iff_prefix]
    refine ⟨List.prefix_append _ _, ?_⟩
    change (!(List.drop "<hierarchy".toList.length _).head?.any isWordChar) = true
    rw [hrest, List.cons_append, List.head?_cons]
    decide

/-- The nodes of a printed tree are read in document order, each at its depth. -/
theorem nodes_printDump (rotation : Nat) (t : Forest) :
    (parseUiautomatorDump (printDump rotation t)).nodes = (t.listed 0).map seen := by
  have hblank : (printDump rotation t).all isJsSpace = false := by
    rw [← Bool.not_eq_true, List.all_eq_true]
    intro hall
    exact absurd (hall '<' (by simp [printDump, header])) (by decide)
  have htags : matchAll tagAt 0 (printDump rotation t) = t.tags := by
    have hend : matchAll tagAt 0 "</hierarchy>".toList = [] := by decide
    rw [printDump, List.append_assoc, matchAll_header, matchAll_print, hend, List.append_nil]
  have hnodes : nodesOf 0 t.tags = (t.listed 0).map seen := by
    have hall := nodesOf_tags t 0 []
    rwa [List.append_nil, nodesOf, List.append_nil] at hall
  simp only [parseUiautomatorDump, filter_printDump, hblank, hasHierarchy_printDump, htags, hnodes,
    Bool.false_eq_true, if_false, Bool.not_true]
  split <;> rfl

/-! ## Entities undone -/

/-- How a character stands once these are undone. -/
def coded (done : List Char) (c : Char) : List Char := if c ∈ done then [c] else escapeChar c

theorem entity_clash {name name' : String}
    (h : ∃ c c', entityName? c = some name ∧ entityName? c' = some name' ∧ c ≠ c')
    (rest : List Char) : ¬ name.toList ++ [';'] <+: name'.toList ++ [';'] ++ rest := by
  obtain ⟨c, c', hc, hc', hne⟩ := h
  rcases entityName?_cases hc with ⟨rfl, rfl⟩ | ⟨rfl, rfl⟩ | ⟨rfl, rfl⟩ | ⟨rfl, rfl⟩ <;>
    rcases entityName?_cases hc' with ⟨rfl, rfl⟩ | ⟨rfl, rfl⟩ | ⟨rfl, rfl⟩ | ⟨rfl, rfl⟩ <;>
    first
    | exact absurd rfl hne
    | simp

theorem recoded_entity {a c : Char} {name : String} {done : List Char}
    (ha : entityName? a = some name) (hne : a ∉ done) (hamp : '&' ∉ done) :
    Recoded (entity name) [a] (coded done c) (coded (a :: done) c) := by
  by_cases hca : c = a
  · subst hca
    left
    simp [coded, hne, escapeChar, ha]
  · have hsame : coded (a :: done) c = coded done c := by simp [coded, hca]
    rw [hsame]
    by_cases hdone : c ∈ done
    · have hc : c ≠ '&' := fun hc => hamp (hc ▸ hdone)
      rw [coded, if_pos hdone]
      exact recoded_of_not_mem (by simpa using hc.symm)
    · rw [coded, if_neg hdone, escapeChar]
      split
      · next name' hc =>
        refine recoded_of_other ?_ (entity_clash ⟨a, c, ha, hc, Ne.symm hca⟩)
        rcases entityName?_cases hc with ⟨-, rfl⟩ | ⟨-, rfl⟩ | ⟨-, rfl⟩ | ⟨-, rfl⟩ <;> decide
      · next hnone =>
        split
        · refine recoded_of_other (by simp [not_mem_digits]) fun rest => ?_
          rcases entityName?_cases ha with ⟨-, rfl⟩ | ⟨-, rfl⟩ | ⟨-, rfl⟩ | ⟨-, rfl⟩ <;> simp
        · refine recoded_of_not_mem ?_
          rw [List.mem_singleton]
          rintro rfl
          cases hnone

/-- An apostrophe is never written as an entity. -/
theorem recoded_apos (done : List Char) (hamp : '&' ∉ done) (c : Char) :
    Recoded (entity "apos") ['\''] (coded done c) (coded done c) := by
  by_cases hdone : c ∈ done
  · have hc : c ≠ '&' := fun hc => hamp (hc ▸ hdone)
    rw [coded, if_pos hdone]
    exact recoded_of_not_mem (by simpa using hc.symm)
  · rw [coded, if_neg hdone, escapeChar]
    split
    · next name hc =>
      rcases entityName?_cases hc with ⟨-, rfl⟩ | ⟨-, rfl⟩ | ⟨-, rfl⟩ | ⟨-, rfl⟩ <;>
        exact recoded_of_other (by decide) (by simp)
    · next hnone =>
      split
      · exact recoded_of_other (by simp [not_mem_digits]) (by simp)
      · refine recoded_of_not_mem ?_
        rw [List.mem_singleton]
        rintro rfl
        cases hnone

/-- What is left of an escaped character once the entities are undone. -/
def kept (c : Char) : List Char := if isControl c then reference c else [c]

theorem coded_all (c : Char) : coded ['&', '>', '<', '"'] c = kept c := by
  unfold coded kept
  split
  · next hc =>
    have hplain : isControl c = false := by
      simp only [List.mem_cons, List.not_mem_nil, or_false] at hc
      rcases hc with rfl | rfl | rfl | rfl <;> decide
    rw [hplain, if_neg (by decide)]
  · next hc =>
    have hnone : entityName? c = none := by
      cases hname : entityName? c with
      | none => rfl
      | some name =>
        rcases entityName?_cases hname with ⟨rfl, -⟩ | ⟨rfl, -⟩ | ⟨rfl, -⟩ | ⟨rfl, -⟩ <;>
          exact absurd (by decide) hc
    rw [escapeChar, hnone]

theorem unescapeChars_escape (s : String) : unescapeChars (escape s) = s.toList.flatMap kept := by
  have hstage : ∀ {a : Char} {name : String} {done : List Char}, entityName? a = some name →
      a ∉ done → '&' ∉ done → replaceText (entity name) [a] (s.toList.flatMap (coded done)) =
        s.toList.flatMap (coded (a :: done)) := fun ha hne hamp =>
    replaceText_codes (List.cons_ne_nil _ _) _ fun _ _ => recoded_entity ha hne hamp
  have hapos : replaceText (entity "apos") ['\''] (s.toList.flatMap (coded ['"'])) =
      s.toList.flatMap (coded ['"']) :=
    replaceText_codes (List.cons_ne_nil _ _) _ fun c _ => recoded_apos _ (by decide) c
  have hstart : escape s = s.toList.flatMap (coded []) := rfl
  rw [unescapeChars, hstart, hstage rfl (by decide) (by decide), hapos,
    hstage rfl (by decide) (by decide), hstage rfl (by decide) (by decide),
    hstage rfl (by decide) (by decide)]
  exact List.flatMap_congr fun c _ => coded_all c

/-! ## Texts that stand for themselves -/

theorem length_le_flatMap {code : Char → List Char} (h : ∀ c, code c ≠ []) (cs : List Char) :
    cs.length ≤ (cs.flatMap code).length := by
  induction cs with
  | nil => exact Nat.le_refl _
  | cons c cs ih =>
    have hc := List.length_pos_iff.mpr (h c)
    rw [List.flatMap_cons, List.length_append, List.length_cons]
    omega

/-- With codes that are longer than what they stand for, only a text without such codes is its own
code. -/
theorem flatMap_eq_self_iff {code : Char → List Char} (h : ∀ c, code c = [c] ∨ 1 < (code c).length)
    (cs : List Char) : cs.flatMap code = cs ↔ ∀ c ∈ cs, code c = [c] := by
  have hne : ∀ c, code c ≠ [] := fun c hnil => by
    rcases h c with hc | hc
    · rw [hnil] at hc
      cases hc
    · rw [hnil] at hc
      exact absurd hc (by decide)
  induction cs with
  | nil => simp
  | cons c cs ih =>
    rw [List.flatMap_cons, List.forall_mem_cons]
    rcases h c with hc | hc
    · rw [hc, List.singleton_append, List.cons_inj_right, and_iff_right rfl]
      exact ih
    · have hlong : code c ++ cs.flatMap code ≠ c :: cs := fun heq => by
        have hlength := congrArg List.length heq
        have hle := length_le_flatMap hne cs
        rw [List.length_append, List.length_cons] at hlength
        omega
      refine iff_of_false hlong fun hself => ?_
      rw [hself.1] at hc
      exact absurd hc (by simp)

theorem length_reference (c : Char) : 1 < (reference c).length := by
  simp [reference]

theorem kept_cases (c : Char) : kept c = [c] ∨ 1 < (kept c).length := by
  unfold kept
  split
  · exact .inr (length_reference c)
  · exact .inl rfl

theorem escapeChar_cases (c : Char) : escapeChar c = [c] ∨ 1 < (escapeChar c).length := by
  unfold escapeChar
  split
  · exact .inr (by simp [entity])
  · exact kept_cases c

theorem kept_eq_iff (c : Char) : kept c = [c] ↔ isControl c = false := by
  unfold kept
  split
  · next hc =>
    refine iff_of_false (fun heq => ?_) (by simp [hc])
    have hlong := length_reference c
    rw [heq] at hlong
    exact absurd hlong (by simp)
  · next hc => exact iff_of_true rfl (by simpa using hc)

theorem unescapeXml_escape (s : String) :
    unescapeXml (String.ofList (escape s)) = s ↔ ∀ c ∈ s.toList, isControl c = false := by
  rw [unescapeXml, String.toList_ofList, unescapeChars_escape, ← String.toList_inj,
    String.toList_ofList, flatMap_eq_self_iff kept_cases]
  simp only [kept_eq_iff]

theorem escape_eq_iff (s : String) :
    String.ofList (escape s) = s ↔ ∀ c ∈ s.toList, escapeChar c = [c] := by
  rw [← String.toList_inj, String.toList_ofList, escape, flatMap_eq_self_iff escapeChar_cases]

/-! ## Words -/

/-- A node is read back when its words are plain. -/
theorem words_seen (p : Widget × Nat) :
    (seen p).words = (p.1.toWords, p.2) ↔ p.1.Plain := by
  obtain ⟨w, depth⟩ := p
  have hwords : (seen (w, depth)).words = (⟨unescapeXml (String.ofList (escape w.text)),
      unescapeXml (String.ofList (escape w.contentDesc)), String.ofList (escape w.resourceId),
      String.ofList (escape w.cls)⟩, depth) := by
    simp [seen, Seen.words, nodeOf, Widget.read, Widget.attributes, attr?, readAttribute]
  rw [hwords, Prod.mk.injEq, and_iff_left rfl]
  constructor
  · intro heq
    have htext := congrArg Words.text heq
    have hdesc := congrArg Words.contentDesc heq
    have hid := congrArg Words.resourceId heq
    have hcls := congrArg Words.cls heq
    exact ⟨(unescapeXml_escape _).mp htext, (unescapeXml_escape _).mp hdesc,
      (escape_eq_iff _).mp hid, (escape_eq_iff _).mp hcls⟩
  · rintro ⟨htext, hdesc, hid, hcls⟩
    rw [(unescapeXml_escape _).mpr htext, (unescapeXml_escape _).mpr hdesc,
      (escape_eq_iff _).mpr hid, (escape_eq_iff _).mpr hcls]

/-- A printed tree is read back exactly when the words of all its nodes are plain. -/
theorem readBack_iff (rotation : Nat) (t : Forest) :
    ReadBack rotation t ↔ ∀ p ∈ t.listed 0, p.1.Plain := by
  rw [ReadBack, nodes_printDump, List.map_map, List.map_inj_left]
  exact forall₂_congr fun p _ => words_seen p

/-! ## A line that ends -/

def button (text : String) : Widget where
  text := text
  contentDesc := ""
  resourceId := ""
  cls := "android.widget.Button"
  index := 0
  pkg := "app"
  checkable := false
  checked := false
  clickable := true
  enabled := true
  focusable := true
  focused := false
  scrollable := false
  longClickable := false
  password := false
  selected := false
  bounds := (0, 0, 100, 50)

/-- A text of two lines is read with the reference that stands between them. -/
theorem readBack_fails : ¬ ∀ rotation t, ReadBack rotation t := by
  intro hall
  have hback := hall 0 (.node (button "Sign\nin") .empty .empty)
  rw [ReadBack, nodes_printDump, List.map_map, List.map_inj_left] at hback
  have hplain := (words_seen _).mp (hback (button "Sign\nin", 0) (by simp [Forest.listed]))
  exact absurd (hplain.text '\n' (by decide)) (by decide)

end FleetRunner.A11y.Uiautomator
