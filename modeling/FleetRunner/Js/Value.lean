import Mathlib.Data.Rat.Init

/-!
# The values the programs pass around

Both the collector and the executor keep descriptors, specs, beacons and result
rows as JSON. `Json` is what `JSON.parse` returns; `Val` adds what only a
running program can hold (`undefined`, a number that is not finite, a member
inherited from `Object.prototype`).

## Implementation notes

A finite number is kept as its exact value. How a number prints, how a string
reads as one, and regular expressions belong to the engine and not to this
repository: they are the fields of `Js`, and every statement holds for any
choice of them.
-/

namespace FleetRunner

/-- What `JSON.parse` returns. Objects keep their keys in order. -/
inductive Json where
  | null
  | bool (b : Bool)
  | num (q : Rat)
  | str (s : String)
  | arr (elems : List Json)
  | obj (fields : List (String × Json))

/-- The own properties of an object, in order. -/
abbrev Fields := List (String × Json)

/-- A number: finite, infinite or none. -/
inductive JsNum where
  | fin (q : Rat)
  | inf (negative : Bool)
  | nan
  deriving DecidableEq

/-- The engine: number and string conversions, regular expressions, what
`Object.prototype` supplies, and the clock's local hour. -/
structure Js where
  /-- `String(n)` for a finite number -/
  showNum : Rat → String
  /-- `Number(s)` for a string -/
  parseNum : String → JsNum
  /-- `s.toLowerCase()` -/
  lower : String → String
  /-- `new RegExp(source, "i").test(s)`, `none` when the source is refused -/
  regexTest : String → String → Option Bool
  /-- how an inherited member prints, when `Object.prototype` has it -/
  inherited : String → Option String
  /-- `new Date(ms).getHours()` -/
  localHour : Nat → Nat

/-- What a statement may throw: the engine's `TypeError`, or an `Error` the
source constructs itself. -/
inductive JsError where
  | typeError
  | error (message : String)
  deriving DecidableEq

/-- A value, as expressions see it. -/
inductive Val where
  | undef
  | null
  | bool (b : Bool)
  | num (n : JsNum)
  | str (s : String)
  | arr (elems : List Json)
  | obj (fields : Fields)
  | native (text : String)

/-- A JSON value as a value. -/
def Json.toVal : Json → Val
  | .null => .null
  | .bool b => .bool b
  | .num q => .num (.fin q)
  | .str s => .str s
  | .arr xs => .arr xs
  | .obj fs => .obj fs

/-! ## Objects -/

namespace Fields

def get? (o : Fields) (k : String) : Option Json :=
  (o.find? fun p => decide (p.1 = k)).map Prod.snd

/-- Assignment keeps the position of a key that is already there. -/
def set : Fields → String → Json → Fields
  | [], k, v => [(k, v)]
  | (j, w) :: rest, k, v => if j = k then (k, v) :: rest else (j, w) :: set rest k v

/-- `{ ...a, ...b }` -/
def merge (a b : Fields) : Fields := b.foldl (fun o p => set o p.1 p.2) a

@[simp] theorem get?_nil (k : String) : get? [] k = none := rfl

theorem get?_cons (j k : String) (v : Json) (o : Fields) :
    get? ((j, v) :: o) k = if j = k then some v else get? o k := by
  by_cases h : j = k <;> simp [get?, h]

@[simp] theorem get?_set_self (o : Fields) (k : String) (v : Json) :
    get? (set o k v) k = some v := by
  induction o with
  | nil => simp [set, get?_cons]
  | cons p rest ih =>
      obtain ⟨j, w⟩ := p
      by_cases h : j = k <;> simp [set, h, get?_cons, ih]

theorem get?_set_of_ne (o : Fields) {j k : String} (hne : j ≠ k) (v : Json) :
    get? (set o k v) j = get? o j := by
  induction o with
  | nil => simp [set, get?_cons, hne.symm]
  | cons p rest ih =>
      obtain ⟨i, w⟩ := p
      by_cases h : i = k
      · simp [set, h, get?_cons, hne.symm]
      · simp only [set, if_neg h, get?_cons, ih]

theorem get?_eq_none {o : Fields} {k : String} (h : ∀ p ∈ o, p.1 ≠ k) : get? o k = none := by
  simpa [get?] using h

/-- Dropping other keys is not seen by a read. -/
theorem get?_filter (o : Fields) (keep : String → Bool) {k : String} (hk : keep k = true) :
    get? (o.filter fun p => keep p.1) k = get? o k := by
  induction o with
  | nil => rfl
  | cons p rest ih =>
      obtain ⟨j, v⟩ := p
      by_cases hj : j = k
      · subst hj
        simp [hk, get?_cons]
      · by_cases hkeep : keep j = true <;> simp [hkeep, get?_cons, hj, ih]

end Fields

namespace Json

/-- `v?.k` -/
def prop (v : Json) (k : String) : Option Json :=
  match v with
  | .obj fs => Fields.get? fs k
  | _ => none

/-- The keys an object spread copies: an array's are its indices. -/
def spread : Json → Fields
  | .obj fs => fs
  | .arr xs => xs.zipIdx.map fun p => (toString p.2, p.1)
  | .str s => s.toList.zipIdx.map fun p => (toString p.2, .str (String.singleton p.1))
  | _ => []

/-- Is the value taken for true? -/
def truthy : Json → Bool
  | .null => false
  | .bool b => b
  | .num q => q ≠ 0
  | .str s => s ≠ ""
  | .arr _ => true
  | .obj _ => true

/-- `v === s` for a string `s` -/
def isStr (v : Json) (s : String) : Bool :=
  match v with
  | .str t => t = s
  | _ => false

def isTrue : Json → Bool
  | .bool true => true
  | _ => false

def isFalse : Json → Bool
  | .bool false => true
  | _ => false

def asStr? : Json → Option String
  | .str s => some s
  | _ => none

def asNum? : Json → Option Rat
  | .num q => some q
  | _ => none

/-- `Number.isInteger(v)`, with the integer -/
def asInt? : Json → Option Int
  | .num q => if q.den = 1 then some q.num else none
  | _ => none

/-- An array whose entries are all strings, as those strings. -/
def asStrings? : Json → Option (List String)
  | .arr xs => xs.mapM asStr?
  | _ => none

@[simp] theorem isStr_str (s t : String) : isStr (.str s) t = decide (s = t) := rfl

theorem isStr_eq_true {v : Json} {s : String} : v.isStr s = true ↔ v = .str s := by
  cases v <;> simp [isStr]

@[simp] theorem prop_obj (fs : Fields) (k : String) : prop (.obj fs) k = Fields.get? fs k := rfl

/-- The text of an index. -/
def isIndex (k : String) : Bool := k.toList.all Char.isDigit

theorem isIndex_repr (n : Nat) : isIndex n.repr = true := by
  rw [isIndex, Nat.toList_repr, List.all_eq_true]
  intro c hc
  exact Nat.isDigit_of_mem_toDigits (by decide) (by decide) hc

/-- A spread copies every property that is not an index under its own name. -/
theorem get?_spread (v : Json) {k : String} (hk : isIndex k = false) :
    Fields.get? v.spread k = v.prop k := by
  have hne : ∀ n : Nat, toString n ≠ k := by
    rintro n rfl
    simp [isIndex_repr] at hk
  cases v with
  | obj fs => rfl
  | arr xs =>
      refine Fields.get?_eq_none fun p hp => ?_
      obtain ⟨q, -, rfl⟩ := List.mem_map.mp hp
      exact hne q.2
  | str s =>
      refine Fields.get?_eq_none fun p hp => ?_
      obtain ⟨q, -, rfl⟩ := List.mem_map.mp hp
      exact hne q.2
  | _ => rfl

end Json

/-- `v?.k` where `v` may itself be absent -/
def optProp (v : Option Json) (k : String) : Option Json := v.bind fun w => w.prop k

/-- `v ?? fallback` -/
def nullish (v : Option Json) (fallback : Json) : Json :=
  match v with
  | none => fallback
  | some .null => fallback
  | some w => w

/-- A condition reads an absent value as false. -/
def optTruthy (v : Option Json) : Bool := v.elim false Json.truthy

@[simp] theorem optTruthy_none : optTruthy none = false := rfl

@[simp] theorem optTruthy_some (v : Json) : optTruthy (some v) = v.truthy := rfl

/-! ## Conversions -/

section Conversions

variable (js : Js)

def boolText (b : Bool) : String := if b then "true" else "false"

/-- An object is printed by `toString`; one that carries its own, which JSON
can only make uncallable, has no string. -/
def objText (fs : Fields) : Except JsError String :=
  if (Fields.get? fs "toString").isSome then .error .typeError else .ok "[object Object]"

mutual

/-- `String(v)` -/
def Json.text : Json → Except JsError String
  | .null => .ok "null"
  | .bool b => .ok (boolText b)
  | .num q => .ok (js.showNum q)
  | .str s => .ok s
  | .arr xs => do .ok (",".intercalate (← elemTexts xs))
  | .obj fs => objText fs

/-- `null` entries print as nothing inside a joined array. -/
def elemTexts : List Json → Except JsError (List String)
  | [] => .ok []
  | .null :: rest => do .ok ("" :: (← elemTexts rest))
  | x :: rest => do .ok ((← Json.text x) :: (← elemTexts rest))

end

/-- `xs.join(",")` -/
def joinElems (xs : List Json) : Except JsError String := do
  .ok (",".intercalate (← elemTexts js xs))

/-- A number as text. -/
def JsNum.text : JsNum → String
  | .fin q => js.showNum q
  | .inf false => "Infinity"
  | .inf true => "-Infinity"
  | .nan => "NaN"

/-- `String(v)` -/
def Val.text : Val → Except JsError String
  | .undef => .ok "undefined"
  | .null => .ok "null"
  | .bool b => .ok (boolText b)
  | .num n => .ok (n.text js)
  | .str s => .ok s
  | .arr xs => joinElems js xs
  | .obj fs => objText fs
  | .native t => .ok t

/-- `Number(v)` -/
def Val.number : Val → Except JsError JsNum
  | .undef => .ok .nan
  | .null => .ok (.fin 0)
  | .bool b => .ok (.fin (if b then 1 else 0))
  | .num n => .ok n
  | .str s => .ok (js.parseNum s)
  | .arr xs => do .ok (js.parseNum (← joinElems js xs))
  | .obj fs => do let _ ← objText fs; .ok .nan
  | .native _ => .ok .nan

/-- A property that may be missing, as a value. -/
def optVal (v : Option Json) : Val := v.elim .undef Json.toVal

end Conversions

/-- `<` on numbers: false as soon as one side is `NaN`. -/
def JsNum.lt : JsNum → JsNum → Bool
  | .fin a, .fin b => decide (a < b)
  | .fin _, .inf neg => !neg
  | .inf neg, .fin _ => neg
  | .inf a, .inf b => a && !b
  | _, _ => false

/-- `<=` on numbers -/
def JsNum.le : JsNum → JsNum → Bool
  | .fin a, .fin b => decide (a ≤ b)
  | .fin _, .inf neg => !neg
  | .inf neg, .fin _ => neg
  | .inf a, .inf b => a || !b
  | _, _ => false

/-- White space as `\s` and `trim` know it. -/
def isJsSpace (c : Char) : Bool :=
  let n := c.toNat
  (9 ≤ n && n ≤ 13) || n = 0x20 || n = 0xa0 || n = 0x1680 || (0x2000 ≤ n && n ≤ 0x200a) ||
    n = 0x2028 || n = 0x2029 || n = 0x202f || n = 0x205f || n = 0x3000 || n = 0xfeff

/-- Does `needle` occur in `hay`? -/
def charsInclude : List Char → List Char → Bool
  | [], needle => needle.isEmpty
  | c :: rest, needle => needle.isPrefixOf (c :: rest) || charsInclude rest needle

/-- `hay.includes(needle)` on strings -/
def strIncludes (hay needle : String) : Bool := charsInclude hay.toList needle.toList

/-- `v.includes(w)`: by value on an array's strings, by text on a string. Any
other receiver has no such method. -/
def Json.includes (v : Json) (w : String) : Except JsError Bool :=
  match v with
  | .arr xs => .ok (xs.any fun x => x.isStr w)
  | .str s => .ok (strIncludes s w)
  | _ => .error .typeError

/-! ## JSON text -/

def hexDigit (n : Nat) : Char := if n < 10 then Char.ofNat (48 + n) else Char.ofNat (87 + n)

/-- A character of a JSON text. -/
def escapeChar (c : Char) : List Char :=
  match c with
  | '"' => ['\\', '"']
  | '\\' => ['\\', '\\']
  | '\n' => ['\\', 'n']
  | '\r' => ['\\', 'r']
  | '\t' => ['\\', 't']
  | c =>
      if c.toNat = 8 then ['\\', 'b']
      else if c.toNat = 12 then ['\\', 'f']
      else if c.toNat < 32 then ['\\', 'u', '0', '0', hexDigit (c.toNat / 16), hexDigit (c.toNat % 16)]
      else [c]

/-- A string as `JSON.stringify` quotes it. -/
def quoted (s : String) : List Char := '"' :: s.toList.flatMap escapeChar ++ ['"']

section Stringify

variable (js : Js)

mutual

/-- `JSON.stringify(v)`, as its characters -/
def Json.chars : Json → List Char
  | .null => "null".toList
  | .bool b => (boolText b).toList
  | .num q => (js.showNum q).toList
  | .str s => quoted s
  | .arr xs => '[' :: elemChars xs ++ [']']
  | .obj fs => Char.ofNat 123 :: fieldChars fs ++ [Char.ofNat 125]

def elemChars : List Json → List Char
  | [] => []
  | [x] => Json.chars x
  | x :: y :: rest => Json.chars x ++ ',' :: elemChars (y :: rest)

def fieldChars : List (String × Json) → List Char
  | [] => []
  | [(k, v)] => quoted k ++ ':' :: Json.chars v
  | (k, v) :: p :: rest => quoted k ++ ':' :: Json.chars v ++ ',' :: fieldChars (p :: rest)

end

/-- `JSON.stringify`, without spaces. -/
def Json.stringify (v : Json) : String := String.ofList (v.chars js)

end Stringify

/-! ## A plain engine

Enough of an engine to run the programs on small inputs: whole numbers, ASCII
case, patterns without operators, a clock in UTC. -/

namespace Js

/-- The number that decimal digits spell. -/
def digits? (cs : List Char) : Option Nat :=
  cs.foldl (fun acc c =>
    if '0' ≤ c ∧ c ≤ '9' then acc.map fun n => 10 * n + (c.toNat - '0'.toNat) else none) (some 0)

def wholeNumber (s : String) : JsNum :=
  match digits? s.toList with
  | some n => .fin n
  | none => .nan

def lowerAscii (s : String) : String := String.ofList (s.toList.map Char.toLower)

/-- An engine that reads and prints whole numbers. -/
def plain : Js where
  showNum q := toString q.num
  parseNum := wholeNumber
  lower := lowerAscii
  regexTest source text := some (strIncludes (lowerAscii text) (lowerAscii source))
  inherited _ := none
  localHour ms := ms / 3600000 % 24

end Js

end FleetRunner
