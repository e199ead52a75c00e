import FleetRunner.Junit.Tags
import Mathlib.Data.Rat.Cast.Order

/-!
# What is counted of a report

A report is a document with its testcases in testsuites, which say how many there are.
Where it is written as the expressions expect, the failures are read one by one, with
their names and messages. The counts are those of one suite: for `parseJunit` the first
`testsuite`, for `junitCounts` the first one of either kind that has counts.
-/

namespace FleetRunner.Junit

open Library Library.Xml

/-! ## What a report says -/

def isCase (t : Tag) : Bool := decide (t.name = "testcase".toList)

def isProblem (t : Tag) : Bool := decide (t.name = "failure".toList ∨ t.name = "error".toList)

def isSuite (t : Tag) : Bool := decide (t.name = "testsuite".toList)

def isSuites (t : Tag) : Bool := decide (t.name = "testsuites".toList)

def cases (c : Content) : List Element := c.elements isCase

/-- The first failure or error of a testcase. -/
def problem? (k : Element) : Option Element := k.body.children.find? fun e => isProblem e.tag

def failing (k : Element) : Bool := (problem? k).isSome

def failedIn (c : Content) : Nat := (cases c).countP failing

def passedIn (c : Content) : Nat := (cases c).countP fun k => !failing k

/-- What stands in a failure, without the blanks round it. -/
def textOf (p : Element) : List Char := said ((trimmed p.body.spans).flatMap Span.pieces)

def messageAttribute (p : Element) : List Char := (p.tag.value? "message".toList).getD []

def typeAttribute (p : Element) : List Char := (p.tag.value? "type".toList).getD []

/-- The text of a failure, its message, its type or its name: the first one that is not empty. -/
def messageOf (p : Element) : List Char :=
  if textOf p ≠ [] then textOf p
  else if messageAttribute p ≠ [] then messageAttribute p
  else if typeAttribute p ≠ [] then typeAttribute p else p.tag.name

def nameOf (k : Element) : List Char :=
  ((k.tag.value? "name".toList).or (k.tag.value? "id".toList)).getD "test".toList

def failure? (k : Element) : Option JunitFailure :=
  (problem? k).map fun p => ⟨nameOf k, trim (messageOf p)⟩

/-- One entry per failing testcase, in the order of the document. -/
def failuresIn (c : Content) : List JunitFailure := (cases c).filterMap failure?

/-- The number an attribute writes, if it is there. -/
def count? (t : Tag) (name : List Char) : Option Nat := (t.value? name).map (digitsValue 10)

def countNames : List (List Char) := ["tests".toList, "failures".toList, "errors".toList]

/-- The count attributes of a suite are numbers, and match what is in it. -/
structure CountsMatch (e : Element) : Prop where
  digits : ∀ name ∈ countNames, ∀ v ∈ e.tag.value? name, v ≠ [] ∧ v.all Char.isDigit = true
  tests : ∀ n ∈ count? e.tag "tests".toList, n = (cases e.body).length
  failed : (count? e.tag "tests".toList).isSome → (count? e.tag "failures".toList).getD 0 +
    (count? e.tag "errors".toList).getD 0 = failedIn e.body

/-- A suite that says how many testcases it has. -/
def isCounted (t : Tag) : Bool := (isSuite t || isSuites t) && (t.attribute? "tests".toList).isSome

/-- A JUnit report. No text of the engine has more than `2 ^ 53 - 1` units. -/
structure Report where
  content : Content
  fits : content.print.length < 2 ^ 53
  suite : ((content.elements isSuite).head?).isSome
  counted : ∀ e ∈ content.everything, isSuite e.tag = true → isCounted e.tag = true
  countsMatch : ∀ e ∈ content.everything, isSuite e.tag = true ∨ isSuites e.tag = true →
    CountsMatch e
  apart : ∀ k ∈ cases content, ∀ e ∈ k.body.everything,
    isSuite e.tag = false ∧ isSuites e.tag = false

namespace Report

variable (r : Report)

/-- What is in the first of the suites one looks for. -/
def first (wanted : Tag → Bool) : Content :=
  ((r.content.elements wanted).head?.map Element.body).getD .nil

/-- What is in the first `testsuite`. -/
def firstSuite : Content := r.first isSuite

/-- What is in the first `testsuite` or `testsuites` with counts. -/
def firstCounted : Content := r.first isCounted

end Report

/-! ## How it is written -/

/-- An attribute that is there can be read, and is decoded to what it says. -/
def AttributeReads (t : Tag) (name : List Char) : Prop :=
  legible name t.attributes = true ∧ ∀ a ∈ t.attribute? name, onePass a.value = true

/-- A failure or an error as the expressions read it. -/
structure ProblemReads (p : Element) : Prop where
  tag : '>' ∉ p.tag.inner
  closes : closes p = true
  isText : p.body.isText = true
  text : onePass ((trimmed p.body.spans).flatMap Span.pieces) = true
  message : textOf p = [] → AttributeReads p.tag "message".toList
  type : textOf p = [] → messageAttribute p = [] → AttributeReads p.tag "type".toList

/-- A testcase as the expressions read it. -/
structure CaseReads (k : Element) : Prop where
  tag : '>' ∉ k.tag.inner
  closes : closes k = true
  before : ∀ u ∈ k.body.leading isProblem,
    shows "failure".toList u = false ∧ shows "error".toList u = false
  child : (k.body.elements isProblem).head? = problem? k
  problem : ∀ p ∈ problem? k, ProblemReads p
  name : failing k = true → AttributeReads k.tag "name".toList
  id : failing k = true → k.tag.value? "name".toList = none → AttributeReads k.tag "id".toList

/-- The tag of a suite as the expressions read it. -/
structure SuiteReads (e : Element) : Prop where
  tag : '>' ∉ e.tag.inner
  legible : ∀ name ∈ countNames, legible name e.tag.attributes = true

def isRaw : Piece → Bool
  | .raw _ => true
  | .named _ | .numeric _ => false

/-- The counts of a suite are written in digits. -/
def Digits (e : Element) : Prop :=
  ∀ name ∈ countNames, ∀ a ∈ e.tag.attribute? name, a.value.all isRaw = true

/-- What looks like a tag with counts stands in the text. -/
def showsCounts (u : List Char) : Bool :=
  u.tails.any fun t => ["testsuite".toList, "testsuites".toList].any fun name =>
    startsTag name t &&
      placed "tests".toList ((t.drop (name.length + 1)).takeWhile (· ≠ '>'))

/-- A report as the expressions read it. -/
structure Report.Reads (r : Report) : Prop where
  outside : ∀ u ∈ r.content.outside isCase, shows "testcase".toList u = false
  cases : ∀ k ∈ cases r.content, CaseReads k
  before : ∀ u ∈ r.content.leading isSuite, shows "testsuite".toList u = false
  suite : ∀ e ∈ (r.content.elements isSuite).head?, SuiteReads e
  beforeCounted : ∀ u ∈ r.content.leading isCounted, showsCounts u = false
  counted : ∀ e ∈ (r.content.elements isCounted).head?, SuiteReads e ∧ Digits e

/-! ## The failures -/

theorem not_gt {name : List Char} (h : name.all isWordChar = true) : '>' ∉ name :=
  not_mem_of_all h (by decide)

/-- Nothing is read where no tag of the name is shown. -/
theorem elementAt_of_shows {name u t : List Char} (hname : name.all isWordChar = true)
    (hu : Sealed u) (hshow : shows name u = false) (ht : t ≠ []) (hsuffix : t <:+ u)
    (rest : List Char) : elementAt name (t ++ rest) = none :=
  elementAt_none (startsTag_of_shows (not_gt hname) hu hshow ht hsuffix rest)

theorem sealed_of_leading {wanted : Tag → Bool} {c : Content} {u : List Char}
    (h : u ∈ c.leading wanted) : Sealed u := by
  rw [Content.leading, List.mem_filterMap] at h
  obtain ⟨s, hs, heq⟩ := h
  cases s with
  | other v =>
    cases heq
    exact Content.sealed_of_mem ((List.takeWhile_prefix _).subset hs)
  | element e => cases heq

/-- What is read of a testcase: its attributes, and what is in it. -/
def readCase (k : Element) : List Char × Option (List Char) :=
  (k.tag.inner, k.inside.map fun p => p.1.print)

theorem matchAll_cases {c : Content}
    (houtside : ∀ u ∈ c.outside isCase, shows "testcase".toList u = false)
    (hcases : ∀ k ∈ cases c, CaseReads k) :
    matchAll testcaseAt 0 c.print = (cases c).map readCase := by
  refine matchAll_content (fun u hu t ht hsuffix rest => ?_) fun k hk rest => ?_
  · exact elementAt_of_shows (by decide) (Content.sealed_of_mem (Content.mem_outside.mp hu))
      (houtside u hu) ht hsuffix rest
  · have hname : k.tag.name = "testcase".toList := of_decide_eq_true (Content.wanted_of_mem hk).1
    have hreads := hcases k hk
    rw [testcaseAt, ← hname]
    exact elementAt_print hreads.tag hreads.closes rest

/-- What is read of a failure or an error. -/
def found (p : Element) : Found := ⟨p.tag.name, p.tag.inner, p.inside.map fun q => q.1.print⟩

theorem problemAt_print {p : Element} (hp : isProblem p.tag = true) (h : ProblemReads p)
    (rest : List Char) : problemAt (p.print ++ rest) = some (found p) := by
  have hread := elementAt_print h.tag h.closes rest
  rcases of_decide_eq_true hp with hname | hname
  · rw [hname] at hread
    simp only [problemAt, hread, Option.map_some, Option.some_or, found, hname]
  · have hother : elementAt "failure".toList (p.print ++ rest) = none :=
      elementAt_none (startsTag_other (by decide) (by rw [hname]; decide) (by rw [hname]; decide)
        rest)
    rw [hname] at hread
    simp only [problemAt, hread, hother, Option.map_some, Option.map_none, Option.none_or, found,
      hname]

theorem print_body (k : Element) : (k.inside.map fun p => p.1.print).getD [] = k.body.print := by
  obtain ⟨t, inside⟩ := k
  cases inside <;> rfl

theorem firstMatch_problem {k : Element} (h : CaseReads k) :
    firstMatch (fun _ => problemAt) none k.body.print = (problem? k).map found := by
  rw [← h.child]
  refine firstMatch_content none (fun u hu t ht hsuffix rest => ?_) fun p hp rest => ?_
  · have hshows := h.before u hu
    have hsealed := sealed_of_leading hu
    simp only [problemAt, elementAt_of_shows (by decide) hsealed hshows.1 ht hsuffix,
      elementAt_of_shows (by decide) hsealed hshows.2 ht hsuffix, Option.map_none, Option.or_none]
  · have hin := Content.wanted_of_mem (List.mem_of_mem_head? hp)
    rw [h.child] at hp
    exact problemAt_print hin.1 (h.problem p hp) rest

theorem attr_reads {t : Tag} {name : List Char} (hname : Xml.isName name = true)
    (hhead : name.head?.any isWordChar = true) (h : AttributeReads t name) :
    attr t.inner name = some (t.value? name) := by
  have hread := attr_tag hname hhead h.1 h.2 [] [] (by simp) List.not_mem_nil
  rwa [List.nil_append, List.append_nil] at hread

theorem print_of_isText {c : Content} (h : c.isText = true) :
    c.print = c.spans.flatMap Span.print := by
  induction c with
  | nil => rfl
  | span s rest ih =>
    rw [Content.print, ih h, Content.spans, List.flatMap_cons]
  | aside a rest | empty t rest | element t body gap hgap rest => cases h

/-- The text of a failure is decoded to what it says. -/
theorem decode_text {p : Element} (h : ProblemReads p) :
    decode (trim (((found p).text).getD [])) = some (textOf p) := by
  rw [found, print_body, print_of_isText h.isText, trim_spans, decode_spans h.text]
  rfl

theorem messageText_found {p : Element} (h : ProblemReads p) :
    messageText (found p) = some (messageOf p) := by
  have hget : ∀ {o : Option (List Char)}, o.getD [] ≠ [] → o = some (o.getD []) := by
    intro o ho
    cases o with
    | none => exact absurd rfl ho
    | some value => rfl
  rw [messageText, decode_text h, messageOf]
  simp only [Option.bind_eq_bind, Option.bind_some]
  by_cases htext : textOf p = []
  · have hmessage := attr_reads (by decide) (by decide) (h.message htext)
    rw [if_neg (not_not.mpr htext), if_neg (not_not.mpr htext)]
    have hsame : (p.tag.value? "message".toList).getD [] = messageAttribute p := rfl
    change (attr p.tag.inner "message".toList).bind _ = _
    rw [hmessage, Option.bind_some, hsame]
    by_cases hattribute : messageAttribute p = []
    · have htype := attr_reads (by decide) (by decide) (h.type htext hattribute)
      rw [if_neg (not_not.mpr hattribute), if_neg (not_not.mpr hattribute)]
      have hsame : (p.tag.value? "type".toList).getD [] = typeAttribute p := rfl
      change (attr p.tag.inner "type".toList).bind _ = _
      rw [htype, Option.bind_some, hsame]
      by_cases hkind : typeAttribute p = []
      · rw [if_neg (not_not.mpr hkind), if_neg (not_not.mpr hkind)]
        rfl
      · rw [if_pos hkind, if_pos hkind]
        exact hget hkind
    · rw [if_pos hattribute, if_pos hattribute]
      exact hget hattribute
  · rw [if_pos htext, if_pos htext]

theorem nameText_case {k : Element} (h : CaseReads k) (hfailing : failing k = true) :
    nameText k.tag.inner = some (nameOf k) := by
  rw [nameText, attr_reads (by decide) (by decide) (h.name hfailing), nameOf]
  simp only [Option.bind_eq_bind, Option.bind_some]
  cases hvalue : k.tag.value? "name".toList with
  | some name => rfl
  | none =>
    rw [attr_reads (by decide) (by decide) (h.id hfailing hvalue)]
    rfl

/-- A failing testcase is pushed with its name and its message. -/
theorem failureOf_case {k p : Element} (h : CaseReads k) (hp : problem? k = some p) :
    failureOf k.tag.inner (found p) = some ⟨nameOf k, trim (messageOf p)⟩ := by
  have hfailing : failing k = true := by
    rw [failing, hp]
    rfl
  rw [failureOf, messageText_found (h.problem p hp), nameText_case h hfailing]
  rfl

theorem failuresOf_content {c : Content}
    (houtside : ∀ u ∈ c.outside isCase, shows "testcase".toList u = false)
    (hcases : ∀ k ∈ cases c, CaseReads k) : failuresOf c.print = some (failuresIn c) := by
  rw [failuresOf, matchAll_cases houtside hcases, failuresIn]
  clear houtside
  generalize cases c = ks at hcases ⊢
  induction ks with
  | nil => rfl
  | cons k ks ih =>
    have hk := hcases k List.mem_cons_self
    have hrest := ih fun k' hk' => hcases k' (List.mem_cons_of_mem k hk')
    have hbody : firstMatch (fun _ => problemAt) none ((readCase k).2.getD []) =
        (problem? k).map found := by
      rw [readCase, print_body]
      exact firstMatch_problem hk
    rw [List.map_cons, List.filterMap_cons, List.filterMap_cons, hbody, failure?]
    cases hp : problem? k with
    | none => exact hrest
    | some p =>
      rw [Option.map_some, Option.map_some, Option.map_some, List.mapM_cons]
      rw [show (readCase k).1 = k.tag.inner from rfl, failureOf_case hk hp]
      simp only [Option.bind_eq_bind, Option.bind_some, hrest]
      rfl

end FleetRunner.Junit
