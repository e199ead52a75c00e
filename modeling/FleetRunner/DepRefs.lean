import FleetRunner.Js.Value

/-!
# Dependency references (`mutations.ts`)

A spec may name a value a dependency will produce: `jobs.<id>.artifact` or
`jobs.<id>.metrics.<key>` between a dollar brace and a closing one. The id is
matched as short as possible, and the suffix is what ends it, so an id that
contains dots still resolves. References are found in the JSON text when a spec
is checked and filled in string by string when a job is promoted.
-/

namespace FleetRunner

structure DepRef where
  raw : String
  job_id : String
  field : String

def openBrace : Char := Char.ofNat 0x7b

def closeBrace : Char := Char.ofNat 0x7d

/-- What `.` does not match in a regular expression. -/
def isLineEnd (c : Char) : Bool :=
  c = '\n' || c = '\r' || c.toNat = 0x2028 || c.toNat = 0x2029

/-- The suffix `.artifact` or `.metrics.<key>` with its closing brace. -/
def refSuffix? (cs : List Char) : Option (String × List Char) :=
  let artifact := ".artifact".toList ++ [closeBrace]
  let metrics := ".metrics.".toList
  if artifact.isPrefixOf cs then some ("artifact", cs.drop artifact.length)
  else if metrics.isPrefixOf cs then
    let inKey := fun c => c ≠ closeBrace && c ≠ '.'
    let rest := cs.drop metrics.length
    match rest.takeWhile inKey, rest.dropWhile inKey with
    | [], _ => none
    | _, [] => none
    | key, c :: after =>
        if c = closeBrace then some ("metrics." ++ String.ofList key, after) else none
  else none

/-- Extend the id one character at a time until the suffix matches, and, for a
whole string, until it matches at the end. -/
def refId? (whole : Bool) (id : List Char) : List Char → Option (String × String × List Char)
  | [] => none
  | c :: cs =>
    if isLineEnd c then none
    else
      match refSuffix? cs with
      | some (field, after) =>
          if whole && !after.isEmpty then refId? whole (id ++ [c]) cs
          else some (String.ofList (id ++ [c]), field, after)
      | none => refId? whole (id ++ [c]) cs

/-- The reference that starts here, and the text after it. -/
def refAt? (whole : Bool) (cs : List Char) : Option (DepRef × List Char) :=
  let start := '$' :: openBrace :: "jobs.".toList
  if start.isPrefixOf cs then
    (refId? whole [] (cs.drop start.length)).map fun (id, field, after) =>
      ({ raw := String.ofList (cs.take (cs.length - after.length)), job_id := id, field }, after)
  else none

/-- A text as its plain characters and its references, left to right. -/
def segments : Nat → List Char → List (Char ⊕ DepRef)
  | 0, _ => []
  | _ + 1, [] => []
  | n + 1, c :: cs =>
    match refAt? false (c :: cs) with
    | some (ref, after) => .inr ref :: segments n after
    | none => .inl c :: segments n cs

/-- Every dependency reference in a blob of spec JSON. -/
def depRefs (specJson : List Char) : List DepRef :=
  (segments specJson.length specJson).filterMap Sum.getRight?

section Substitution

variable (js : Js) (resolve : String → String → Except String Json)

def unresolvedText (ref : DepRef) (why : String) : String := ref.raw ++ " (" ++ why ++ ")"

/-- `String(value)` inside a longer text. A metric is a number or a string;
only an object that overrides `toString` has none. -/
def interpolated (v : Json) : String :=
  match v.text js with
  | .ok t => t
  | .error _ => ""

def fillSegment : Char ⊕ DepRef → String × List String
  | .inl c => (String.singleton c, [])
  | .inr ref =>
    match resolve ref.job_id ref.field with
    | .ok v => (interpolated js v, [])
    | .error why => (ref.raw, [unresolvedText ref why])

/-- A reference that is the whole string keeps the value's type; one inside a
longer string is interpolated as text. -/
def fillRefs (s : String) : Json × List String :=
  match refAt? true s.toList with
  | some (ref, _) =>
    match resolve ref.job_id ref.field with
    | .ok v => (v, [])
    | .error why => (.str s, [unresolvedText ref why])
  | none =>
    let parts := (segments s.toList.length s.toList).map (fillSegment js resolve)
    (.str (String.join (parts.map Prod.fst)), parts.flatMap Prod.snd)

mutual

/-- The spec with its references filled, and those that could not be. -/
def substituteDepRefs : Json → Json × List String
  | .str s => fillRefs js resolve s
  | .arr xs => let r := substituteElems xs; (.arr r.1, r.2)
  | .obj fs => let r := substituteFields fs; (.obj r.1, r.2)
  | v => (v, [])

def substituteElems : List Json → List Json × List String
  | [] => ([], [])
  | x :: rest =>
    let r := substituteDepRefs x
    let rs := substituteElems rest
    (r.1 :: rs.1, r.2 ++ rs.2)

def substituteFields : List (String × Json) → List (String × Json) × List String
  | [] => ([], [])
  | (k, v) :: rest =>
    let r := substituteDepRefs v
    let rs := substituteFields rest
    ((k, r.1) :: rs.1, r.2 ++ rs.2)

end

end Substitution

end FleetRunner
