import FleetRunner.Js.Value
import Mathlib.Data.List.Infix

/-!
# Objects, arrays and what they inherit

A value that came from JSON is a tree of plain objects and arrays. A key reads a
property of its own, or else what `Object.prototype` and `Array.prototype` have under
it. Reading and replacing along a path follow the laws of a lens where the path stays
in the tree.

## Implementation notes

Objects are read by their keys, whose order is not that of the engine. The members that
a prototype has are known by name. A number may be infinite, as `JSON.parse` makes one
that is too large; `JSON.stringify` writes `null` for it.
-/

namespace FleetRunner.Objects

inductive Value where
  | null
  | bool (b : Bool)
  | num (n : JsNum)
  | str (s : String)
  | arr (elems : List Value)
  | obj (props : List (String × Value))

abbrev Props := List (String × Value)

/-- Induction over a tree: an array's elements and an object's values come first. -/
@[elab_as_elim]
theorem Value.tree {P : Value → Prop} (null : P .null) (bool : ∀ b, P (.bool b))
    (num : ∀ n, P (.num n)) (str : ∀ s, P (.str s))
    (arr : ∀ xs, (∀ x ∈ xs, P x) → P (.arr xs))
    (obj : ∀ ps : Props, (∀ p ∈ ps, P p.2) → P (.obj ps)) (v : Value) : P v :=
  @Value.rec P (fun xs => ∀ x ∈ xs, P x) (fun ps => ∀ p ∈ ps, P p.2) (fun p => P p.2)
    null bool num str arr obj (List.forall_mem_nil _)
    (fun _ _ hx hxs => List.forall_mem_cons.mpr ⟨hx, hxs⟩) (List.forall_mem_nil _)
    (fun _ _ hp hps => List.forall_mem_cons.mpr ⟨hp, hps⟩) (fun _ _ hv => hv) v

inductive Proto where
  | object
  | array
  deriving DecidableEq

/-- What an expression yields: besides values there are the prototypes and their functions. -/
inductive Ref where
  | undef
  | own (v : Value)
  | proto (p : Proto)
  | native (p : Proto) (name : String)

/-! ## Members -/

def objectMembers : List String :=
  ["constructor", "__defineGetter__", "__defineSetter__", "hasOwnProperty", "__lookupGetter__",
    "__lookupSetter__", "isPrototypeOf", "propertyIsEnumerable", "toString", "valueOf",
    "toLocaleString"]

def arrayMembers : List String :=
  ["at", "concat", "copyWithin", "fill", "find", "findIndex", "findLast", "findLastIndex",
    "lastIndexOf", "pop", "push", "reverse", "shift", "unshift", "slice", "sort", "splice",
    "includes", "indexOf", "join", "keys", "entries", "values", "forEach", "filter", "flat",
    "flatMap", "map", "every", "some", "reduce", "reduceRight", "toReversed", "toSorted",
    "toSpliced", "toLocaleString", "toString", "with", "constructor"]

/-- `Array.prototype` is an array without elements, and has `Object.prototype` above it. -/
def Proto.member : Proto → String → Option Ref
  | .object, k =>
    if k = "__proto__" then some (.own .null)
    else if k ∈ objectMembers then some (.native .object k) else none
  | .array, k =>
    if k = "length" then some (.own (.num (.fin 0)))
    else if k = "__proto__" then some (.proto .object)
    else if k ∈ arrayMembers then some (.native .array k)
    else if k ∈ objectMembers then some (.native .object k) else none

/-- The index below `n` that a key is the text of. -/
def index? (n : Nat) (k : String) : Option Nat :=
  (List.range n).find? fun i => decide (toString i = k)

/-- A property of the value's own that holds a value: an array has its elements. -/
def Value.child : Value → String → Option Value
  | .obj ps, k => ps.lookup k
  | .arr xs, k => (index? xs.length k).bind fun i => xs[i]?
  | _, _ => none

/-- What stands under a key that is no such property. -/
def Value.builtin : Value → String → Option Ref
  | .obj _, k => if k = "__proto__" then some (.proto .object) else Proto.object.member k
  | .arr xs, k =>
    if k = "length" then some (.own (.num (.fin xs.length)))
    else if k = "__proto__" then some (.proto .array) else Proto.array.member k
  | _, _ => none

/-- `k in node`, and what is there -/
def Ref.member : Ref → String → Option Ref
  | .own v, k => ((v.child k).map .own).or (v.builtin k)
  | .proto p, k => p.member k
  | _, _ => none

/-- `typeof node === "object" && node !== null` -/
def Ref.isObject : Ref → Bool
  | .own (.obj _) | .own (.arr _) | .proto _ => true
  | _ => false

/-- Key by key; a key of nothing reads nothing. -/
def Ref.read : Ref → List String → Ref
  | node, [] => node
  | node, k :: rest => ((node.member k).getD .undef).read rest

/-! ## Assignments -/

/-- The value under a key, in the key's place where it has one. -/
def setProp : Props → String → Value → Props
  | [], k, v => [(k, v)]
  | (j, w) :: rest, k, v => if j = k then (k, v) :: rest else (j, w) :: setProp rest k v

/-- `v[k] = w` for an element of an array and for a property. -/
def Value.put : Value → String → Value → Value
  | .obj ps, k, w => .obj (setProp ps k w)
  | .arr xs, k, w =>
    match index? xs.length k with
    | some i => .arr (xs.set i w)
    | none => .arr xs
  | v, _, _ => v

/-- What a length may be set to. -/
def arrayLength? : Value → Option Nat
  | .num (.fin q) => if q.den = 1 ∧ 0 ≤ q.num ∧ q.num < 4294967296 then some q.num.toNat else none
  | _ => none

/-- The elements of an array whose length is set, as JSON writes them: a hole is a `null`. -/
def resized (xs : List Value) (n : Nat) : List Value :=
  xs.take n ++ List.replicate (n - xs.length) .null

def setLength (v : Value) (xs : List Value) : Except JsError Value :=
  match arrayLength? v with
  | some n => .ok (.arr (resized xs n))
  | none => .error (.error "Invalid array length")

/-- `node[k] = v`, as far as JSON has it: what goes to a prototype, or to a name of an array that is
no index, is not written. -/
def Ref.assign (node : Ref) (k : String) (v : Value) : Except JsError Ref :=
  match node with
  | .own (.obj ps) =>
    if (ps.lookup k).isSome ∨ k ≠ "__proto__" then .ok (.own (.obj (setProp ps k v)))
    else .ok node
  | .own (.arr xs) =>
    if (index? xs.length k).isSome then .ok (.own ((Value.arr xs).put k v))
    else if k = "length" then (setLength v xs).map .own
    else .ok node
  | .proto .array => if k = "length" then (setLength v []).map fun _ => node else .ok node
  | _ => .ok node

/-! ## What JSON keeps -/

mutual

/-- `JSON.parse(JSON.stringify(v))` -/
def Value.written : Value → Value
  | .num (.fin q) => .num (.fin q)
  | .num _ => .null
  | .arr xs => .arr (writtenElems xs)
  | .obj ps => .obj (writtenProps ps)
  | .null => .null
  | .bool b => .bool b
  | .str s => .str s

def writtenElems : List Value → List Value
  | [] => []
  | x :: xs => x.written :: writtenElems xs

def writtenProps : List (String × Value) → List (String × Value)
  | [] => []
  | (k, v) :: ps => (k, v.written) :: writtenProps ps

end

/-- No number in it is infinite. -/
inductive Value.Finite : Value → Prop where
  | null : Finite .null
  | bool (b : Bool) : Finite (.bool b)
  | num (q : Rat) : Finite (.num (.fin q))
  | str (s : String) : Finite (.str s)
  | arr (xs : List Value) (h : ∀ x ∈ xs, Finite x) : Finite (.arr xs)
  | obj (ps : List (String × Value)) (h : ∀ p ∈ ps, Finite p.2) : Finite (.obj ps)

theorem writtenElems_eq (xs : List Value) : writtenElems xs = xs.map Value.written := by
  induction xs with
  | nil => rfl
  | cons x xs ih => rw [writtenElems, ih, List.map_cons]

theorem writtenProps_eq (ps : Props) :
    writtenProps ps = ps.map fun p => (p.1, p.2.written) := by
  induction ps with
  | nil => rfl
  | cons p ps ih => rw [writtenProps, ih, List.map_cons]

theorem written_arr (xs : List Value) : (Value.arr xs).written = .arr (xs.map Value.written) := by
  rw [Value.written, writtenElems_eq]

theorem written_obj (ps : Props) :
    (Value.obj ps).written = .obj (ps.map fun p => (p.1, p.2.written)) := by
  rw [Value.written, writtenProps_eq]

theorem map_eq_self_iff {α : Type} {f : α → α} {xs : List α} :
    xs.map f = xs ↔ ∀ x ∈ xs, f x = x := by
  have hinj : xs.map f = xs.map id ↔ ∀ x ∈ xs, f x = id x := List.map_inj_left
  rwa [List.map_id] at hinj

/-- What is written is the value itself exactly where it is finite. -/
theorem written_eq_self_iff (v : Value) : v.written = v ↔ v.Finite := by
  induction v using Value.tree with
  | null => exact iff_of_true rfl .null
  | bool b => exact iff_of_true rfl (.bool b)
  | str s => exact iff_of_true rfl (.str s)
  | num n =>
    cases n with
    | fin q => exact iff_of_true rfl (.num q)
    | inf neg => exact iff_of_false nofun nofun
    | nan => exact iff_of_false nofun nofun
  | arr xs ih =>
    have hall : xs.map Value.written = xs ↔ ∀ x ∈ xs, x.Finite := by
      rw [map_eq_self_iff]
      exact forall₂_congr ih
    rw [written_arr, Value.arr.injEq, hall]
    exact ⟨.arr xs, fun | .arr _ h => h⟩
  | obj ps ih =>
    have hall : (ps.map fun p => (p.1, p.2.written)) = ps ↔ ∀ p ∈ ps, p.2.Finite := by
      rw [map_eq_self_iff]
      refine forall₂_congr fun p hp => ?_
      rw [← ih p hp, Prod.ext_iff]
      exact and_iff_right rfl
    rw [written_obj, Value.obj.injEq, hall]
    exact ⟨.obj ps, fun | .obj _ h => h⟩

theorem finite_written (v : Value) : v.written.Finite := by
  induction v using Value.tree with
  | null => exact .null
  | bool b => exact .bool b
  | str s => exact .str s
  | num n =>
    cases n with
    | fin q => exact .num q
    | inf neg => exact .null
    | nan => exact .null
  | arr xs ih =>
    rw [written_arr]
    exact .arr _ (List.forall_mem_map.mpr ih)
  | obj ps ih =>
    rw [written_obj]
    exact .obj _ (List.forall_mem_map.mpr ih)

theorem written_written (v : Value) : v.written.written = v.written :=
  (written_eq_self_iff _).mpr (finite_written v)

/-! ## Children -/

section Children

variable {v w : Value} {j k : String}

theorem toString_injective {i j : Nat} (h : toString i = toString j) : i = j := by
  have hdigits : Nat.toDigits 10 i = Nat.toDigits 10 j :=
    Nat.toList_repr.symm.trans ((congrArg String.toList h).trans Nat.toList_repr)
  calc
    i = Nat.ofDigitChars 10 (Nat.toDigits 10 i) 0 :=
      (Nat.ofDigitChars_toDigits (by decide) (by decide)).symm
    _ = Nat.ofDigitChars 10 (Nat.toDigits 10 j) 0 := by rw [hdigits]
    _ = j := Nat.ofDigitChars_toDigits (by decide) (by decide)

theorem index?_eq_some {n i : Nat} : index? n k = some i ↔ i < n ∧ toString i = k := by
  constructor
  · intro h
    rw [index?] at h
    have htext := List.find?_some h
    exact ⟨List.mem_range.mp (List.mem_of_find?_eq_some h), of_decide_eq_true htext⟩
  · rintro ⟨hi, rfl⟩
    cases hfind : index? n (toString i) with
    | none =>
      rw [index?, List.find?_eq_none] at hfind
      exact absurd (decide_eq_true rfl) (hfind i (List.mem_range.mpr hi))
    | some i' =>
      rw [index?] at hfind
      have htext := List.find?_some hfind
      rw [toString_injective (of_decide_eq_true htext)]

theorem lookup_setProp_self (ps : Props) (k : String) (w : Value) :
    (setProp ps k w).lookup k = some w := by
  induction ps with
  | nil => exact List.lookup_cons_self
  | cons p rest ih =>
    obtain ⟨i, u⟩ := p
    rw [setProp]
    split
    · exact List.lookup_cons_self
    · next hne => rw [List.lookup_cons, beq_false_of_ne (Ne.symm hne), ih]

theorem lookup_setProp_of_ne (ps : Props) (hne : j ≠ k) (w : Value) :
    (setProp ps k w).lookup j = ps.lookup j := by
  induction ps with
  | nil => rw [setProp, List.lookup_cons, beq_false_of_ne hne]
  | cons p rest ih =>
    obtain ⟨i, u⟩ := p
    rw [setProp]
    split
    · next heq => rw [List.lookup_cons, List.lookup_cons, heq, beq_false_of_ne hne]
    · rw [List.lookup_cons, List.lookup_cons, ih]

theorem setProp_self {ps : Props} (h : ps.lookup k = some w) : setProp ps k w = ps := by
  induction ps with
  | nil => cases h
  | cons p rest ih =>
    obtain ⟨i, u⟩ := p
    rw [setProp]
    split
    · next heq =>
      rw [heq, List.lookup_cons_self, Option.some.injEq] at h
      rw [h, heq]
    · next hne =>
      rw [List.lookup_cons, beq_false_of_ne (Ne.symm hne)] at h
      rw [ih h]

theorem lookup_map {α β : Type} (f : α → β) (ps : List (String × α)) (k : String) :
    (ps.map fun p => (p.1, f p.2)).lookup k = (ps.lookup k).map f := by
  induction ps with
  | nil => rfl
  | cons p rest ih =>
    rw [List.map_cons, List.lookup_cons, List.lookup_cons, ih]
    cases k == p.1 <;> rfl

theorem setProp_map_written (ps : Props) (k : String) (w : Value) :
    (setProp ps k w).map (fun p => (p.1, p.2.written)) =
      setProp (ps.map fun p => (p.1, p.2.written)) k w.written := by
  induction ps with
  | nil => rfl
  | cons p rest ih =>
    obtain ⟨i, u⟩ := p
    rw [setProp, List.map_cons, setProp]
    split
    · rfl
    · rw [List.map_cons, ih]

/-- An object takes every key but the one that is its prototype's; an array has its indices. -/
def Value.Takes (v : Value) (k : String) : Prop :=
  (v.child k).isSome = true ∨ (∃ ps, v = .obj ps) ∧ k ≠ "__proto__"

theorem child_put_self (h : v.Takes k) (w : Value) : (v.put k w).child k = some w := by
  cases v with
  | obj ps => exact lookup_setProp_self ps k w
  | arr xs =>
    rcases h with h | ⟨⟨ps, hps⟩, -⟩
    · obtain ⟨u, hu⟩ := Option.isSome_iff_exists.mp h
      obtain ⟨i, hi, -⟩ := Option.bind_eq_some_iff.mp hu
      have hlt := (index?_eq_some.mp hi).1
      rw [Value.put, hi]
      change (index? (xs.set i w).length k).bind _ = _
      rw [List.length_set, hi, Option.bind_some, List.getElem?_set_self hlt]
    · cases hps
  | _ =>
    rcases h with h | ⟨⟨ps, hps⟩, -⟩
    · cases h
    · cases hps

theorem child_put_of_ne (v : Value) (hne : j ≠ k) (w : Value) :
    (v.put k w).child j = v.child j := by
  cases v with
  | obj ps => exact lookup_setProp_of_ne ps hne w
  | arr xs =>
    rw [Value.put]
    split
    · next i hi =>
      change (index? (xs.set i w).length j).bind _ = (index? xs.length j).bind _
      rw [List.length_set]
      cases hj : index? xs.length j with
      | none => rfl
      | some i' =>
        have hdiff : i ≠ i' := by
          rintro rfl
          exact hne ((index?_eq_some.mp hj).2.symm.trans (index?_eq_some.mp hi).2)
        rw [Option.bind_some, Option.bind_some, List.getElem?_set_ne hdiff]
    · rfl
  | _ => rfl

theorem builtin_put (v : Value) (k : String) (w : Value) (j : String) :
    (v.put k w).builtin j = v.builtin j := by
  cases v with
  | arr xs =>
    rw [Value.put]
    split
    · simp only [Value.builtin, List.length_set]
    · rfl
  | _ => rfl

theorem put_self (h : v.child k = some w) : v.put k w = v := by
  cases v with
  | obj ps => exact congrArg Value.obj (setProp_self h)
  | arr xs =>
    obtain ⟨i, hi, hget⟩ := Option.bind_eq_some_iff.mp h
    rw [Value.put, hi]
    refine congrArg Value.arr (List.ext_getElem? fun n => ?_)
    rw [List.getElem?_set]
    split
    · next heq => rw [← heq, hget, if_pos (index?_eq_some.mp hi).1]
    · rfl
  | _ => cases h

theorem child_written (v : Value) (k : String) :
    v.written.child k = (v.child k).map Value.written := by
  cases v with
  | obj ps =>
    rw [written_obj]
    exact lookup_map Value.written ps k
  | arr xs =>
    rw [written_arr]
    change (index? (xs.map Value.written).length k).bind _ = ((index? xs.length k).bind _).map _
    rw [List.length_map]
    cases index? xs.length k with
    | none => rfl
    | some i => rw [Option.bind_some, Option.bind_some, List.getElem?_map]
  | num n => cases n <;> rfl
  | _ => rfl

theorem builtin_written (v : Value) (k : String) : v.written.builtin k = v.builtin k := by
  cases v with
  | obj ps =>
    rw [written_obj]
    rfl
  | arr xs =>
    rw [written_arr]
    simp only [Value.builtin, List.length_map]
  | num n => cases n <;> rfl
  | _ => rfl

theorem written_put (v : Value) (k : String) (w : Value) :
    (v.put k w).written = v.written.put k w.written := by
  cases v with
  | obj ps =>
    rw [written_obj]
    change (Value.obj (setProp ps k w)).written = .obj (setProp _ k w.written)
    rw [written_obj, setProp_map_written]
  | arr xs =>
    rw [written_arr, Value.put, Value.put, List.length_map]
    split
    · rw [written_arr, List.map_set]
    · rw [written_arr]
  | num n => cases n <;> rfl
  | _ => rfl

end Children

/-! ## Paths in a tree -/

/-- The value at a path of children. -/
def Value.at? : Value → List String → Option Value
  | v, [] => some v
  | v, k :: rest => (v.child k).bind fun w => w.at? rest

/-- The tree with another value at the path. -/
def Value.setIn : Value → List String → Value → Value
  | _, [], w => w
  | v, k :: rest, w =>
    match v.child k with
    | some u => v.put k (u.setIn rest w)
    | none => v.put k w

/-- The path leads through children to a key that the last of them takes. -/
def Value.Lands : Value → List String → Prop
  | _, [] => True
  | v, k :: rest =>
    (∃ u, v.child k = some u ∧ u.Lands rest) ∨
      v.child k = none ∧ rest = [] ∧ (∃ ps, v = .obj ps) ∧ k ≠ "__proto__"

/-- Neither path goes on from the other. -/
def Independent (p q : List String) : Prop := ¬ p <+: q ∧ ¬ q <+: p

def Ref.written : Ref → Ref
  | .own v => .own v.written
  | r => r

section Paths

variable {v w u : Value} {p q : List String}

theorem read_append (node : Ref) (p q : List String) :
    node.read (p ++ q) = (node.read p).read q := by
  induction p generalizing node with
  | nil => rfl
  | cons k rest ih => exact ih _

theorem read_child {k : String} {rest : List String} (h : v.child k = some u) :
    (Ref.own v).read (k :: rest) = (Ref.own u).read rest := by
  rw [Ref.read, Ref.member, h]
  rfl

theorem read_builtin {k : String} {rest : List String} (h : v.child k = none) :
    (Ref.own v).read (k :: rest) = ((v.builtin k).getD .undef).read rest := by
  rw [Ref.read, Ref.member, h]
  rfl

theorem read_of_at? (h : v.at? p = some w) : (Ref.own v).read p = .own w := by
  induction p generalizing v with
  | nil => exact congrArg Ref.own (Option.some.inj h)
  | cons k rest ih =>
    obtain ⟨u, hu, hrest⟩ := Option.bind_eq_some_iff.mp h
    rw [read_child hu]
    exact ih hrest

theorem lands_of_at? (h : v.at? p = some w) : v.Lands p := by
  induction p generalizing v with
  | nil => trivial
  | cons k rest ih =>
    obtain ⟨u, hu, hrest⟩ := Option.bind_eq_some_iff.mp h
    exact Or.inl ⟨u, hu, ih hrest⟩

theorem takes_of_lands {k : String} {rest : List String} (h : v.Lands (k :: rest)) :
    v.Takes k := by
  rcases h with ⟨u, hu, -⟩ | ⟨-, -, hobj, hk⟩
  · exact Or.inl (Option.isSome_iff_exists.mpr ⟨u, hu⟩)
  · exact Or.inr ⟨hobj, hk⟩

theorem setIn_child {k : String} {rest : List String} (h : v.child k = some u) (w : Value) :
    v.setIn (k :: rest) w = v.put k (u.setIn rest w) := by
  rw [Value.setIn, h]

theorem setIn_new {k : String} {rest : List String} (h : v.child k = none) (w : Value) :
    v.setIn (k :: rest) w = v.put k w := by
  rw [Value.setIn, h]

theorem at?_setIn (h : v.Lands p) (w : Value) : (v.setIn p w).at? p = some w := by
  induction p generalizing v with
  | nil => rfl
  | cons k rest ih =>
    have hput := child_put_self (takes_of_lands h)
    rcases h with ⟨u, hu, hrest⟩ | ⟨hnone, rfl, -⟩
    · rw [setIn_child hu, Value.at?, hput]
      exact ih hrest
    · rw [setIn_new hnone, Value.at?, hput]
      rfl

theorem read_setIn_self (h : v.Lands p) (w : Value) :
    (Ref.own (v.setIn p w)).read p = .own w :=
  read_of_at? (at?_setIn h w)

theorem read_put_of_ne {j k : String} (hne : j ≠ k) (v w : Value) (rest : List String) :
    (Ref.own (v.put k w)).read (j :: rest) = (Ref.own v).read (j :: rest) := by
  rw [Ref.read, Ref.read, Ref.member, Ref.member, child_put_of_ne v hne, builtin_put]

/-- What goes another way is read as before. -/
theorem read_setIn_of_independent (h : v.Lands p) (hq : Independent p q) (w : Value) :
    (Ref.own (v.setIn p w)).read q = (Ref.own v).read q := by
  induction p generalizing v q with
  | nil => exact absurd (List.nil_prefix) hq.1
  | cons k rest ih =>
    cases q with
    | nil => exact absurd (List.nil_prefix) hq.2
    | cons j tail =>
      by_cases hjk : j = k
      · subst hjk
        have hput := child_put_self (takes_of_lands h)
        have htail : Independent rest tail :=
          ⟨fun hpre => hq.1 (List.cons_prefix_cons.mpr ⟨rfl, hpre⟩),
            fun hpre => hq.2 (List.cons_prefix_cons.mpr ⟨rfl, hpre⟩)⟩
        rcases h with ⟨u, hu, hrest⟩ | ⟨-, rfl, -⟩
        · rw [setIn_child hu, read_child (hput _), read_child hu]
          exact ih hrest htail
        · exact absurd (List.nil_prefix) htail.1
      · have hmoved : ∀ u, (Ref.own (v.put k u)).read (j :: tail) = (Ref.own v).read (j :: tail) :=
          fun u => read_put_of_ne hjk v u tail
        rw [Value.setIn]
        split
        · exact hmoved _
        · exact hmoved _

/-- Setting what is there changes nothing. -/
theorem setIn_self (h : v.at? p = some w) : v.setIn p w = v := by
  induction p generalizing v with
  | nil => exact (Option.some.inj h).symm
  | cons k rest ih =>
    obtain ⟨u, hu, hrest⟩ := Option.bind_eq_some_iff.mp h
    rw [setIn_child hu, ih hrest, put_self hu]

/-- It is no part of the tree. -/
def Ref.Outside : Ref → Prop
  | .own .null | .own (.num (.fin _)) => True
  | .own _ => False
  | _ => True

theorem Ref.Outside.member {r s : Ref} {k : String} (hr : r.Outside) (h : r.member k = some s) :
    s.Outside := by
  cases r with
  | own v =>
    cases v with
    | null => cases h
    | num n => cases h
    | _ => exact hr.elim
  | proto p =>
    cases p with
    | object =>
      rw [Ref.member, Proto.member] at h
      split at h
      · exact Option.some.inj h ▸ trivial
      · split at h
        · exact Option.some.inj h ▸ trivial
        · cases h
    | array =>
      rw [Ref.member, Proto.member] at h
      split at h
      · exact Option.some.inj h ▸ trivial
      · split at h
        · exact Option.some.inj h ▸ trivial
        · split at h
          · exact Option.some.inj h ▸ trivial
          · split at h
            · exact Option.some.inj h ▸ trivial
            · cases h
  | undef => cases h
  | native p name => cases h

theorem Ref.Outside.read {r : Ref} (hr : r.Outside) (p : List String) : (r.read p).Outside := by
  induction p generalizing r with
  | nil => exact hr
  | cons k rest ih =>
    rw [Ref.read]
    cases hmember : r.member k with
    | none => exact ih trivial
    | some s => exact ih (hr.member hmember)

theorem Ref.Outside.written {r : Ref} (hr : r.Outside) : r.written = r := by
  cases r with
  | own v =>
    cases v with
    | null => rfl
    | num n =>
      cases n with
      | fin q => rfl
      | _ => exact hr.elim
    | _ => exact hr.elim
  | _ => rfl

theorem outside_builtin (v : Value) (k : String) : ((v.builtin k).getD .undef).Outside := by
  have hproto : ∀ p : Proto, ((p.member k).getD .undef).Outside := fun p => by
    cases hmember : p.member k with
    | none => trivial
    | some s => exact Ref.Outside.member (r := .proto p) trivial hmember
  cases v with
  | obj ps =>
    rw [Value.builtin]
    split
    · trivial
    · exact hproto .object
  | arr xs =>
    rw [Value.builtin]
    split
    · trivial
    · split
      · trivial
      · exact hproto .array
  | _ => trivial

theorem read_written (v : Value) (p : List String) :
    (Ref.own v.written).read p = ((Ref.own v).read p).written := by
  induction p generalizing v with
  | nil => rfl
  | cons k rest ih =>
    cases hchild : v.child k with
    | some u =>
      have hwritten : v.written.child k = some u.written := by rw [child_written, hchild]; rfl
      rw [read_child hwritten, read_child hchild, ih]
    | none =>
      have hwritten : v.written.child k = none := by rw [child_written, hchild]; rfl
      rw [read_builtin hwritten, read_builtin hchild, builtin_written]
      exact ((outside_builtin v k).read rest).written.symm

theorem at?_written (v : Value) (p : List String) :
    v.written.at? p = (v.at? p).map Value.written := by
  induction p generalizing v with
  | nil => rfl
  | cons k rest ih =>
    rw [Value.at?, Value.at?, child_written]
    cases v.child k with
    | none => rfl
    | some u => exact ih u

theorem lands_written (v : Value) (p : List String) : v.written.Lands p ↔ v.Lands p := by
  have hobj : ∀ v : Value, (∃ ps, v.written = .obj ps) ↔ ∃ ps, v = .obj ps := by
    intro v
    cases v with
    | obj ps => exact iff_of_true ⟨_, written_obj ps⟩ ⟨ps, rfl⟩
    | num n => cases n <;> exact iff_of_false nofun nofun
    | _ => exact iff_of_false nofun nofun
  induction p generalizing v with
  | nil => exact Iff.rfl
  | cons k rest ih =>
    rw [Value.Lands, Value.Lands, child_written, hobj]
    cases v.child k with
    | none => simp
    | some u => simpa using ih u

theorem written_setIn (v : Value) (p : List String) (w : Value) :
    (v.setIn p w).written = v.written.setIn p w.written := by
  induction p generalizing v with
  | nil => rfl
  | cons k rest ih =>
    cases hchild : v.child k with
    | some u =>
      have hwritten : v.written.child k = some u.written := by rw [child_written, hchild]; rfl
      rw [setIn_child hchild, setIn_child hwritten, written_put, ih]
    | none =>
      have hwritten : v.written.child k = none := by rw [child_written, hchild]; rfl
      rw [setIn_new hchild, setIn_new hwritten, written_put]

end Paths

end FleetRunner.Objects
