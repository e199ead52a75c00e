import FleetRunner.Js.Parse
import FleetRunner.Library.Matches
import FleetRunner.Library.Regex
import Mathlib.Data.List.DropRight

/-!
# Reading a JUnit report (`junit.ts`, `junitCounts` of the TV loop)

The expressions of the two readers, each by its match at a place of a text, and what
the readers make of the matches. `String.fromCodePoint` throws past the last code
point, and with it everything that decodes; here that is `none`.

## Implementation notes

A `[^>]*` is read up to the next `>`, a `[^"]*` up to the next quote and a `\d+` as far
as there are digits: a longer or shorter match would not be followed by what the
expressions ask for. Half of a surrogate pair is the replacement character.
-/

namespace FleetRunner.Junit

open Library

structure JunitFailure where
  name : List Char
  message : List Char
  deriving DecidableEq

structure JunitSummary where
  passed : JsNum
  failed : JsNum
  failures : List JunitFailure
  deriving DecidableEq

/-! ## Decoding -/

/-- `<!\[CDATA\[([\s\S]*?)\]\]>`, for its group -/
def cdataAt (cs : List Char) : Option (Nat × Option (List Char)) :=
  if "<![CDATA[".toList.isPrefixOf cs then
    (before? "]]>".toList (cs.drop 9)).map fun group => (group.length + 12, some group)
  else none

def entities : List (List Char × Char) :=
  [("quot".toList, '"'), ("apos".toList, '\''), ("lt".toList, '<'), ("gt".toList, '>'),
    ("amp".toList, '&')]

/-- `&(quot|apos|lt|gt|amp);`, for the character -/
def entityAt (cs : List Char) : Option (Nat × Option (List Char)) :=
  (entities.find? fun e => ('&' :: (e.1 ++ [';'])).isPrefixOf cs).map fun e =>
    (e.1.length + 2, some [e.2])

/-- `String.fromCodePoint(n)` -/
def fromCodePoint (n : Nat) : Option (List Char) :=
  if n ≤ 0x10ffff then some [JsonText.charOf n] else none

/-- `([…]+);`, for the character of the digits -/
def digitsAt (radix : Nat) (isDigit : Char → Bool) (cs : List Char) :
    Option (Nat × Option (List Char)) :=
  let digits := cs.takeWhile isDigit
  if digits ≠ [] ∧ (cs.drop digits.length).head? = some ';' then
    some (digits.length + 1, fromCodePoint (digitsValue radix digits))
  else none

/-- `&#(\d+);` -/
def decimalAt : List Char → Option (Nat × Option (List Char))
  | '&' :: '#' :: rest => (digitsAt 10 Char.isDigit rest).map fun m => (m.1 + 2, m.2)
  | _ => none

/-- `&#x([0-9a-f]+);`, without regard to the case -/
def hexAt : List Char → Option (Nat × Option (List Char))
  | '&' :: '#' :: x :: rest =>
    if x = 'x' ∨ x = 'X' then (digitsAt 16 isHexText rest).map fun m => (m.1 + 3, m.2) else none
  | _ => none

def decode (s : List Char) : Option (List Char) := do
  let s ← rewriteAll cdataAt 0 s
  let s ← rewriteAll entityAt 0 s
  let s ← rewriteAll decimalAt 0 s
  rewriteAll hexAt 0 s

/-- `s.trim()` -/
def trim (cs : List Char) : List Char := (cs.dropWhile isJsSpace).rdropWhile isJsSpace

/-! ## Attributes -/

/-- `\bname="([^"]*)"`, for its group -/
def valueAt (name : List Char) (prev : Option Char) (cs : List Char) : Option (List Char) :=
  let rest := cs.drop (name.length + 2)
  let value := rest.takeWhile (· ≠ '"')
  if boundary prev cs.head? ∧ (name ++ ['=', '"']).isPrefixOf cs ∧ value.length < rest.length then
    some value
  else none

/-- `attr(tag, name)`: a decoded value, if there is one. -/
def attr (tag name : List Char) : Option (Option (List Char)) :=
  match firstMatch (valueAt name) none tag with
  | none => some none
  | some value => (decode value).map some

/-! ## Elements -/

/-- `<name\b[^>]*>`, for what stands between the name and the end -/
def tagAt (name cs : List Char) : Option (List Char) :=
  let rest := cs.drop (name.length + 1)
  let tag := rest.takeWhile (· ≠ '>')
  if ¬ ('<' :: name).isPrefixOf cs ∨ rest.head?.any isWordChar ∨ tag.length = rest.length then none
  else some tag

def wholeTag (name tag : List Char) : List Char := '<' :: (name ++ (tag ++ ['>']))

/-- `<name\b([^>]*?)(?:\/>|>([\s\S]*?)<\/name>)`, for its groups -/
def elementAt (name cs : List Char) : Option (Nat × (List Char × Option (List Char))) := do
  let tag ← tagAt name cs
  if tag.getLast? = some '/' then some (name.length + tag.length + 2, (tag.dropLast, none))
  else
    (before? ('<' :: '/' :: (name ++ ['>'])) (cs.drop (name.length + tag.length + 2))).map
      fun body => (2 * name.length + tag.length + body.length + 5, (tag, some body))

def testcaseAt : List Char → Option (Nat × (List Char × Option (List Char))) :=
  elementAt "testcase".toList

/-- The groups of the expression for a failure or an error. -/
structure Found where
  name : List Char
  tag : List Char
  text : Option (List Char)

/-- `<(failure|error)\b([^>]*?)(?:\/>|>([\s\S]*?)<\/\1>)` -/
def problemAt (cs : List Char) : Option Found :=
  let named (name : List Char) : Option Found :=
    (elementAt name cs).map fun m => ⟨name, m.2.1, m.2.2⟩
  (named "failure".toList).or (named "error".toList)

/-! ## Counts and failures -/

/-- `text || attr(f[2], "message") || attr(f[2], "type") || f[1]` -/
def messageText (f : Found) : Option (List Char) := do
  let text ← decode (trim (f.text.getD []))
  if text ≠ [] then some text
  else do
    let message ← attr f.tag "message".toList
    if message.getD [] ≠ [] then message
    else do
      let type ← attr f.tag "type".toList
      if type.getD [] ≠ [] then type else some f.name

/-- `attr(tc[1], "name") ?? attr(tc[1], "id") ?? "test"` -/
def nameText (tag : List Char) : Option (List Char) := do
  match ← attr tag "name".toList with
  | some name => some name
  | none => do
    let id ← attr tag "id".toList
    some (id.getD "test".toList)

/-- What is pushed for a testcase of that tag. -/
def failureOf (tag : List Char) (f : Found) : Option JunitFailure := do
  let message ← messageText f
  let name ← nameText tag
  some ⟨name, trim message⟩

def failuresOf (xml : List Char) : Option (List JunitFailure) :=
  ((matchAll testcaseAt 0 xml).filterMap fun tc =>
    (firstMatch (fun _ => problemAt) none (tc.2.getD [])).map fun f => (tc.1, f)).mapM
      fun p => failureOf p.1 p.2

/-- `a + b` on numbers -/
def add : JsNum → JsNum → JsNum
  | .fin a, .fin b => .fin (a + b)
  | .inf a, .inf b => if a = b then .inf a else .nan
  | .inf a, .fin _ | .fin _, .inf a => .inf a
  | _, _ => .nan

def neg : JsNum → JsNum
  | .fin a => .fin (-a)
  | .inf a => .inf !a
  | .nan => .nan

/-- `a - b` on numbers -/
def sub (a b : JsNum) : JsNum := add a (neg b)

/-- `Math.max(a, b)` -/
def max (a b : JsNum) : JsNum :=
  if a = .nan ∨ b = .nan then .nan else if a.lt b then b else a

/-- `Number(attr(tag, name) ?? 0)`, which is also `Number(attr(tag, name))` -/
def numberAttr (tag name : List Char) : Option JsNum :=
  (attr tag name).map fun value => value.elim (.fin 0) fun v => numberOf (String.ofList v)

/-- The first `testsuite`, or else the first `testsuites`. -/
def suiteTag (xml : List Char) : Option (List Char) :=
  let first (name : List Char) : Option (List Char) :=
    (firstMatch (fun _ => tagAt name) none xml).map (wholeTag name)
  (first "testsuite".toList).or (first "testsuites".toList)

def parseJunit (xml : List Char) : Option JunitSummary := do
  let failures ← failuresOf xml
  let suite := suiteTag xml
  let tests ← numberAttr (suite.getD []) "tests".toList
  match suite, tests with
  | some suite, .fin tests => do
    let failed := add (← numberAttr suite "failures".toList) (← numberAttr suite "errors".toList)
    some ⟨max (.fin 0) (sub (.fin tests) failed), max failed (.fin failures.length), failures⟩
  | _, _ => some ⟨.fin 0, .fin (if failures = [] then 1 else failures.length), failures⟩

/-! ## `junitCounts` -/

/-- `\bname="(\d+)"`, for its group -/
def countAt (name : List Char) (prev : Option Char) (cs : List Char) : Option (List Char) :=
  (valueAt name prev cs).filter fun value => !value.isEmpty && value.all Char.isDigit

/-- `<name\b[^>]*?\btests="(\d+)"[^>]*>`, for the match and its group -/
def countedTagAt (name cs : List Char) : Option (List Char × List Char) := do
  let tag ← tagAt name cs
  let tests ← firstMatch (countAt "tests".toList) name.getLast? tag
  some (wholeTag name tag, tests)

/-- `<testsuites?\b…`: the longer name is tried first. -/
def suitesAt (cs : List Char) : Option (List Char × List Char) :=
  (countedTagAt "testsuites".toList cs).or (countedTagAt "testsuite".toList cs)

structure Counts where
  passed : JsNum
  failed : JsNum
  deriving DecidableEq

def junitCounts (xml : List Char) : Counts :=
  match firstMatch (fun _ => suitesAt) none xml with
  | none => ⟨.fin 0, .fin 1⟩
  | some (tag, tests) =>
    let count (name : List Char) : JsNum :=
      ((firstMatch (countAt name) none tag).map fun v => numberOf (String.ofList v)).getD (.fin 0)
    let failed := add (count "failures".toList) (count "errors".toList)
    ⟨max (.fin 0) (sub (numberOf (String.ofList tests)) failed), failed⟩

end FleetRunner.Junit
