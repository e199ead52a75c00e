import FleetRunner.Js.Objects
import FleetRunner.Js.Text
import FleetRunner.Library.Fallible

/-!
# The machine's configuration (`config.ts`)

A JSON file is loaded with defaults for what it leaves out. A dotted path sets a value
in a copy, by the value that is there, and the copy is saved. What the next load makes
of it is the setting that the fleet runs with.

## Implementation notes

Every command is a process of its own, so that a prototype has its own members again when
the file is loaded. The file is the value that its text stands for. A configuration whose
`name` is `undefined` reads like one without it.
-/

namespace FleetRunner.Fleet.Config

open Objects

/-! ## The file -/

inductive Role where
  | brain
  | agent
  | executor
  deriving DecidableEq

def Role.text : Role → String
  | .brain => "brain"
  | .agent => "agent"
  | .executor => "executor"

def ROLES : List Role := [.brain, .agent, .executor]

/-- `ROLES.includes(v)`, with the role -/
def role? : Value → Option Role
  | .str s => ROLES.find? fun r => decide (r.text = s)
  | _ => none

structure FleetConfig where
  name : Option Value
  roles : List Role
  collector : Props
  agent : Props
  executor : Props
  peers : List Value
  env : List (String × String)

/-- The settings that the type marks optional, and what each one is. -/
inductive Kind where
  | string
  | number

def OPTIONAL : List (String × Kind) :=
  [("name", .string), ("agent.deviceId", .string), ("agent.ttlS", .number),
    ("executor.collector", .string), ("executor.name", .string)]

def defaults : FleetConfig where
  name := none
  roles := [.brain, .agent]
  collector := [("port", .num (.fin 8788)), ("bind", .arr [.str "0.0.0.0"]),
    ("discovery", .bool false), ("tailnetAllowlist", .arr [])]
  agent := [("collectors", .arr []), ("pools", .arr [.str "machines"])]
  executor := []
  peers := []
  env := []

/-- `/^[A-Z][A-Z0-9_]*$/` -/
def isEnvKey (k : String) : Bool :=
  match k.toList with
  | [] => false
  | c :: rest => c.isUpper && rest.all fun d => d.isUpper || d.isDigit || d = '_'

/-- The variable's value, or the warning that it is left out. -/
def envEntry (js : Js) (k : String) (v : Value) : Except String String :=
  let notText (kind : String) := Except.error ("config env." ++ k ++ " is " ++ kind ++
    ", and an environment variable is a string; ignoring it")
  if isEnvKey k then
    match v with
    | .str s => .ok s
    | .num n => .ok (n.text js)
    | .bool b => .ok (boolText b)
    | .null => notText "null"
    | _ => notText "object"
  else .error ("config env." ++ k ++
    " is not a usable variable name (A-Z, 0-9 and _, not starting with a digit); ignoring it")

/-- The variables that are kept, and the warnings. -/
def envMap (js : Js) : Option Value → List (String × String) × List String
  | none => ([], [])
  | some (.obj ps) =>
    (ps.filterMap fun p => (envEntry js p.1 p.2).toOption.map fun s => (p.1, s),
      ps.filterMap fun p =>
        match envEntry js p.1 p.2 with
        | .ok _ => none
        | .error warning => some warning)
  | some _ => ([], ["config \"env\" should be an object of NAME: value pairs; ignoring it"])

/-- One text for each unit: half a character is the replacement character. -/
def unitTexts (s : String) : List String :=
  s.toList.flatMap fun c =>
    if charUnits c = 1 then [String.singleton c] else ["\ufffd", "\ufffd"]

/-- `{ ...v }` -/
def spread : Value → Props
  | .obj ps => ps
  | .arr xs => xs.zipIdx.map fun p => (toString p.2, p.1)
  | .str s => (unitTexts s).zipIdx.map fun p => (toString p.2, .str p.1)
  | _ => []

/-- `{ ...base, ...(v ?? {}) }` -/
def overlay (base : Props) (v : Option Value) : Props :=
  let props := v.elim [] spread
  props ++ base.filter fun p => (props.lookup p.1).isNone

/-- What reading the file and parsing it came to. -/
inductive OnDisk where
  | missing
  | broken (message : String)
  | parsed (v : Value)

/-- What is made of a parsed file, and the warnings. -/
def fromDisk (js : Js) (onDisk : Value) : FleetConfig × List String :=
  let roles := match onDisk.child "roles" with
    | some (.arr xs) => xs.filterMap role?
    | _ => defaults.roles
  let env := envMap js (onDisk.child "env")
  ({ name := onDisk.child "name"
     roles := if 0 < roles.length then roles else defaults.roles
     collector := overlay defaults.collector (onDisk.child "collector")
     agent := overlay defaults.agent (onDisk.child "agent")
     executor := overlay defaults.executor (onDisk.child "executor")
     peers := match onDisk.child "peers" with
       | some (.arr xs) => xs
       | _ => defaults.peers
     env := env.1 }, env.2)

/-- The configuration, and the warnings. A file that holds `null` is not caught. -/
def load (js : Js) (file : String) : OnDisk → Except JsError (FleetConfig × List String)
  | .missing => .ok (fromDisk js (.obj []))
  | .broken message =>
    let c := fromDisk js (.obj [])
    .ok (c.1, (file ++ " could not be read (" ++ message ++ "); using defaults") :: c.2)
  | .parsed .null => .error .typeError
  | .parsed v => .ok (fromDisk js v)

/-- The file that `JSON.stringify` writes. -/
def save (config : Value) : OnDisk := .parsed config.written

def FleetConfig.toValue (c : FleetConfig) : Value :=
  .obj ([("roles", .arr (c.roles.map fun r => .str r.text)), ("collector", .obj c.collector),
    ("agent", .obj c.agent), ("executor", .obj c.executor), ("peers", .arr c.peers),
    ("env", .obj (c.env.map fun p => (p.1, .str p.2)))] ++ c.name.toList.map fun v => ("name", v))

/-! ## Paths -/

/-- `dotted.split(".")` -/
def parts (dotted : String) : List String := (dotted.toList.splitOn '.').map String.ofList

/-- The pieces between the commas that are not blank. -/
def pieces (raw : String) : List String :=
  ((raw.toList.splitOn ',').map fun cs => jsTrim (String.ofList cs)).filter (· ≠ "")

/-- `Array.isArray` -/
def isArray : Ref → Bool
  | .own (.arr _) | .proto .array => true
  | _ => false

section SetPath

variable (js : Js) (upper : String → String) (dotted raw : String)

/-- Parse a value the way the existing one looks. -/
def coerce (existing : Ref) : Except JsError Value :=
  if isArray existing then .ok (.arr ((pieces raw).map .str))
  else
    match existing with
    | .own (.num _) =>
      match js.parseNum raw with
      | .fin q => .ok (.num (.fin q))
      | _ => .error (.error (dotted ++ " is a number, and " ++ String.ofList (quoted raw) ++
          " is not one"))
    | .own (.bool _) =>
      if js.lower raw ∈ ["true", "1", "yes", "on"] then .ok (.bool true)
      else if js.lower raw ∈ ["false", "0", "no", "off"] then .ok (.bool false)
      else .error (.error (dotted ++ " is true or false, and " ++ String.ofList (quoted raw) ++
        " is neither"))
    | _ => .ok (.str raw)

def noSuchSetting : JsError := .error ("no such setting: " ++ dotted)

/-- The value for the leaf: `env` is an open map, an optional setting has a type, and every other
key is there already. -/
def leafValue (node : Ref) (leaf : String) : Except JsError Value :=
  match parts dotted with
  | ["env", _] =>
    if isEnvKey leaf then .ok (.str raw)
    else .error (.error ("env." ++ leaf ++
      " is not a usable variable name — A-Z, 0-9 and _, not starting with a digit (env." ++
      String.ofList ((upper leaf).toList.flatMap fun c =>
        if c.isUpper ∨ c.isDigit ∨ c = '_' then [c] else List.replicate (charUnits c) '_') ++ "?)"))
  | _ =>
    match node.member leaf with
    | some existing => coerce js dotted raw existing
    | none =>
      match OPTIONAL.lookup dotted with
      | none => .error (noSuchSetting dotted)
      | some .number => coerce js dotted raw (.own (.num (.fin 0)))
      | some .string => coerce js dotted raw (.own (.str ""))

/-- A node with a changed child; what is no child of the tree is not in it. -/
def keep (node : Ref) (part : String) (child : Ref) : Ref :=
  match node, child with
  | .own v, .own w => if (v.child part).isSome then .own (v.put part w) else node
  | _, _ => node

/-- The walk to the leaf, and the assignment there, with the value that is assigned. -/
def update : Ref → List String → Except JsError (Ref × Value)
  | node, [] => .ok (node, .null)
  | node, [leaf] => do
    let v ← leafValue js upper dotted raw node leaf
    let changed ← node.assign leaf v
    .ok (changed, v)
  | node, part :: next :: rest =>
    match node.member part with
    | some child =>
      if child.isObject then do
        let r ← update child (next :: rest)
        .ok (keep node part r.1, r.2)
      else .error (noSuchSetting dotted)
    | none => .error (noSuchSetting dotted)

/-- The changed copy of the configuration, and the value that `raw` was coerced to. -/
def setPathWith (config : Value) : Except JsError (Value × Value) :=
  (update js upper dotted raw (.own config.written) (parts dotted)).map fun r =>
    match r.1 with
    | .own next => (next, r.2)
    | _ => (config.written, r.2)

def setPath (config : Value) : Except JsError Value :=
  (setPathWith js upper dotted raw config).map Prod.fst

end SetPath

def getPath (config : Value) (dotted : String) : Ref := (Ref.own config).read (parts dotted)

/-! ## What an assignment does -/

/-- What becomes of a tree when `x` is assigned at a path: it is set there, or an array's length is
set to it, or nothing that JSON has is changed. -/
inductive Effect (v x : Value) : List String → Value → Prop where
  | set {p : List String} (h : v.Lands p) : Effect v x p (v.setIn p x)
  | length {p init : List String} {xs : List Value} {n : Nat} (hp : p = init ++ ["length"])
      (hat : v.at? init = some (.arr xs)) (hn : arrayLength? x = some n) :
      Effect v x p (v.setIn init (.arr (resized xs n)))
  | none {p : List String} (hlands : ¬ v.Lands p) : Effect v x p v

section Update

variable {js : Js} {upper : String → String} {dotted raw : String} {v w x : Value} {r : Ref}

theorem index?_length (n : Nat) : index? n "length" = none := by
  cases hindex : index? n "length" with
  | none => rfl
  | some i =>
    have htext : Json.isIndex (toString i) = true := Json.isIndex_repr i
    rw [(index?_eq_some.mp hindex).2] at htext
    exact absurd htext (by decide)

theorem assign_effect {leaf : String} (h : (Ref.own v).assign leaf x = .ok r) :
    ∃ t, r = .own t ∧ Effect v x [leaf] t := by
  cases v with
  | obj ps =>
    rw [Ref.assign] at h
    split at h
    · next htakes =>
      refine ⟨_, (Except.ok.inj h).symm, ?_⟩
      have hset : (Value.obj ps).setIn [leaf] x = .obj (setProp ps leaf x) := by
        cases hchild : (Value.obj ps).child leaf with
        | none => exact setIn_new hchild x
        | some u => exact setIn_child hchild x
      rw [← hset]
      refine .set ?_
      cases hchild : (Value.obj ps).child leaf with
      | some u => exact Or.inl ⟨u, hchild, trivial⟩
      | none =>
        refine Or.inr ⟨hchild, rfl, ⟨ps, rfl⟩, htakes.resolve_left ?_⟩
        rw [Option.not_isSome_iff_eq_none]
        exact hchild
    · next hno =>
      refine ⟨_, (Except.ok.inj h).symm, .none ?_⟩
      rintro (⟨u, hu, -⟩ | ⟨-, -, -, hk⟩)
      · exact hno (Or.inl (Option.isSome_iff_exists.mpr ⟨u, hu⟩))
      · exact hno (Or.inr hk)
  | arr xs =>
    rw [Ref.assign] at h
    split at h
    · next hindex =>
      obtain ⟨i, hi⟩ := Option.isSome_iff_exists.mp hindex
      have hlt := (index?_eq_some.mp hi).1
      have hchild : (Value.arr xs).child leaf = some xs[i] := by
        rw [Value.child, hi, Option.bind_some, List.getElem?_eq_getElem hlt]
      refine ⟨_, (Except.ok.inj h).symm, ?_⟩
      have hset : (Value.arr xs).setIn [leaf] x = (Value.arr xs).put leaf x := setIn_child hchild x
      exact hset ▸ .set (Or.inl ⟨_, hchild, trivial⟩)
    · next hindex =>
      have hchild : (Value.arr xs).child leaf = none := by
        rw [Value.child, Option.not_isSome_iff_eq_none.mp hindex]
        rfl
      split at h
      · next hlength =>
        subst hlength
        rw [setLength] at h
        split at h
        · next n hn =>
          refine ⟨_, (Except.ok.inj h).symm, ?_⟩
          exact Effect.length (v := .arr xs) (List.nil_append _).symm rfl hn
        · cases h
      · refine ⟨_, (Except.ok.inj h).symm, .none ?_⟩
        rintro (⟨u, hu, -⟩ | ⟨-, -, ⟨ps, hps⟩, -⟩)
        · rw [hchild] at hu
          cases hu
        · cases hps
  | _ =>
    refine ⟨_, (Except.ok.inj h).symm, .none ?_⟩
    rintro (⟨u, hu, -⟩ | ⟨-, -, ⟨ps, hps⟩, -⟩)
    · cases hu
    · cases hps

theorem update_leaf_iff {node : Ref} {leaf : String} :
    update js upper dotted raw node [leaf] = .ok (r, x) ↔
      leafValue js upper dotted raw node leaf = .ok x ∧ node.assign leaf x = .ok r := by
  rw [update, Library.bind_ok_iff]
  constructor
  · rintro ⟨v, hv, hrest⟩
    obtain ⟨changed, hchanged, heq⟩ := Library.bind_eq_ok hrest
    obtain ⟨rfl, rfl⟩ := Prod.mk.inj (Except.ok.inj heq)
    exact ⟨hv, hchanged⟩
  · rintro ⟨hv, hchanged⟩
    exact ⟨x, hv, Library.bind_ok_iff.mpr ⟨r, hchanged, rfl⟩⟩

theorem update_step_iff {node : Ref} {part : String} {rest : List String} (hne : rest ≠ []) :
    update js upper dotted raw node (part :: rest) = .ok (r, x) ↔
      ∃ child changed, node.member part = some child ∧ child.isObject = true ∧
        update js upper dotted raw child rest = .ok (changed, x) ∧ r = keep node part changed := by
  obtain ⟨next, rest, rfl⟩ := List.exists_cons_of_ne_nil hne
  rw [update]
  cases hmember : node.member part with
  | none => exact iff_of_false nofun fun ⟨_, _, h, _⟩ => nomatch h
  | some child =>
    simp only
    split
    · next hobject =>
      rw [Library.bind_ok_iff]
      constructor
      · rintro ⟨⟨changed, v⟩, hupdate, heq⟩
        obtain ⟨rfl, rfl⟩ := Prod.mk.inj (Except.ok.inj heq)
        exact ⟨child, changed, rfl, hobject, hupdate, rfl⟩
      · rintro ⟨child', changed, heq, -, hupdate, rfl⟩
        obtain rfl := Option.some.inj heq
        exact ⟨_, hupdate, rfl⟩
    · next hno =>
      refine iff_of_false nofun ?_
      rintro ⟨child', changed, heq, hobject, -⟩
      exact hno (Option.some.inj heq ▸ hobject)

theorem assign_proto {p : Proto} {k : String} (h : (Ref.proto p).assign k x = .ok r) :
    r = .proto p := by
  cases p with
  | object => exact (Except.ok.inj h).symm
  | array =>
    rw [Ref.assign] at h
    split at h
    · cases hset : setLength x [] with
      | error e =>
        rw [hset] at h
        cases h
      | ok v =>
        rw [hset] at h
        exact (Except.ok.inj h).symm
    · exact (Except.ok.inj h).symm

/-- A prototype has no part in the tree. -/
theorem update_proto {p : Proto} {path : List String}
    (h : update js upper dotted raw (.proto p) path = .ok (r, x)) : r = .proto p := by
  induction path generalizing p r with
  | nil => exact ((Prod.mk.inj (Except.ok.inj h)).1).symm
  | cons part rest ih =>
    by_cases hrest : rest = []
    · subst hrest
      exact assign_proto (update_leaf_iff.mp h).2
    · obtain ⟨child, changed, hmember, hobject, hupdate, rfl⟩ := (update_step_iff hrest).mp h
      rfl

/-- The walk goes into the tree, or out of it to a prototype. -/
theorem member_isObject {k : String} {child : Ref} (h : (Ref.own v).member k = some child)
    (hobject : child.isObject = true) :
    (∃ u, child = .own u ∧ v.child k = some u) ∨ (∃ q, child = .proto q) ∧ v.child k = none := by
  rw [Ref.member] at h
  cases hchild : v.child k with
  | some u =>
    rw [hchild] at h
    exact Or.inl ⟨u, (Option.some.inj h).symm, rfl⟩
  | none =>
    rw [hchild] at h
    have hbuiltin : v.builtin k = some child := h
    have houtside := outside_builtin v k
    rw [hbuiltin] at houtside
    refine Or.inr ⟨?_, rfl⟩
    cases child with
    | proto q => exact ⟨q, rfl⟩
    | own w =>
      cases w with
      | obj ps => exact houtside.elim
      | arr xs => exact houtside.elim
      | _ => cases hobject
    | _ => cases hobject

theorem update_effect {path : List String} (hne : path ≠ [])
    (h : update js upper dotted raw (.own v) path = .ok (r, x)) :
    ∃ t, r = .own t ∧ Effect v x path t := by
  induction path generalizing v r with
  | nil => exact absurd rfl hne
  | cons part rest ih =>
    by_cases hrest : rest = []
    · subst hrest
      exact assign_effect (update_leaf_iff.mp h).2
    · obtain ⟨child, changed, hmember, hobject, hupdate, rfl⟩ := (update_step_iff hrest).mp h
      rcases member_isObject hmember hobject with ⟨u, rfl, hchild⟩ | ⟨⟨q, rfl⟩, hchild⟩
      · obtain ⟨t, rfl, heffect⟩ := ih hrest hupdate
        refine ⟨v.put part t, if_pos (Option.isSome_iff_exists.mpr ⟨u, hchild⟩), ?_⟩
        cases heffect with
        | set hlands => exact setIn_child hchild x ▸ .set (Or.inl ⟨u, hchild, hlands⟩)
        | none hlands =>
          rw [put_self hchild]
          refine .none ?_
          rintro (⟨w, hw, hgo⟩ | ⟨hnone, -⟩)
          · rw [hchild, Option.some.injEq] at hw
            exact hlands (hw ▸ hgo)
          · rw [hchild] at hnone
            cases hnone
        | @length init xs n hp hat hn =>
          have hat' : v.at? (part :: init) = some (.arr xs) := by rw [Value.at?, hchild]; exact hat
          exact setIn_child hchild (.arr (resized xs n)) ▸
            .length (congrArg (List.cons part) hp) hat' hn
      · rw [update_proto hupdate]
        refine ⟨v, rfl, .none ?_⟩
        rintro (⟨w, hw, -⟩ | ⟨-, hnil, -⟩)
        · rw [hchild] at hw
          cases hw
        · exact hrest hnil

/-- The value is made at the node that the walk leads to. -/
theorem update_value {node : Ref} {init : List String} {leaf : String}
    (h : update js upper dotted raw node (init ++ [leaf]) = .ok (r, x)) :
    leafValue js upper dotted raw (node.read init) leaf = .ok x := by
  induction init generalizing node r with
  | nil => exact (update_leaf_iff.mp h).1
  | cons part rest ih =>
    obtain ⟨child, changed, hmember, -, hupdate, -⟩ := (update_step_iff (by simp)).mp h
    rw [Ref.read, hmember]
    exact ih hupdate

/-- What a value is coerced to, by what is there. -/
inductive Coerced (js : Js) (raw : String) : Ref → Value → Prop where
  | array {existing : Ref} (h : isArray existing = true) :
      Coerced js raw existing (.arr ((pieces raw).map .str))
  | number {n : JsNum} {q : Rat} (h : js.parseNum raw = .fin q) :
      Coerced js raw (.own (.num n)) (.num (.fin q))
  | bool (b b' : Bool) : Coerced js raw (.own (.bool b)) (.bool b')
  | text {existing : Ref} (harray : isArray existing = false) : Coerced js raw existing (.str raw)

theorem coerced_of_coerce {existing : Ref} (h : coerce js dotted raw existing = .ok x) :
    Coerced js raw existing x := by
  have htext : isArray existing = false → Coerced js raw existing (.str raw) := .text
  unfold coerce at h
  split at h
  · next harray =>
    obtain rfl := Except.ok.inj h
    exact .array harray
  · next harray =>
    rw [Bool.not_eq_true] at harray
    cases existing with
    | own v =>
      cases v with
      | num n =>
        cases hnumber : js.parseNum raw with
        | fin q =>
          simp only [hnumber] at h
          obtain rfl := Except.ok.inj h
          exact .number hnumber
        | _ =>
          simp only [hnumber] at h
          cases h
      | bool b =>
        simp only at h
        split at h
        · obtain rfl := Except.ok.inj h
          exact .bool b true
        · split at h
          · obtain rfl := Except.ok.inj h
            exact .bool b false
          · cases h
      | _ =>
        obtain rfl := Except.ok.inj h
        exact htext harray
    | _ =>
      obtain rfl := Except.ok.inj h
      exact htext harray

/-- What came of a value comes of it again. -/
theorem coerce_again {existing : Ref} (h : coerce js dotted raw existing = .ok x) :
    coerce js dotted raw (.own x) = .ok x := by
  cases coerced_of_coerce h with
  | array harray => exact if_pos rfl
  | number hnumber => exact h
  | bool b b' => exact h
  | text harray => rfl

theorem leafValue_env {k : String} (henv : parts dotted = ["env", k]) (node node' : Ref)
    (leaf : String) :
    leafValue js upper dotted raw node leaf = leafValue js upper dotted raw node' leaf := by
  simp only [leafValue, henv]

theorem leafValue_env_ok {k : String} {node : Ref} {leaf : String}
    (henv : parts dotted = ["env", k])
    (h : leafValue js upper dotted raw node leaf = .ok x) :
    isEnvKey leaf = true ∧ x = .str raw := by
  simp only [leafValue, henv] at h
  split at h
  · next hkey => exact ⟨hkey, (Except.ok.inj h).symm⟩
  · cases h

theorem leafValue_setting (henv : ∀ k, parts dotted ≠ ["env", k]) (node : Ref) (leaf : String) :
    leafValue js upper dotted raw node leaf =
      match node.member leaf with
      | some existing => coerce js dotted raw existing
      | none =>
        match OPTIONAL.lookup dotted with
        | none => .error (noSuchSetting dotted)
        | some .number => coerce js dotted raw (.own (.num (.fin 0)))
        | some .string => coerce js dotted raw (.own (.str "")) := by
  unfold leafValue
  split
  · next k hk => exact absurd hk (henv k)
  · rfl

/-- The value is coerced, by what is there or by nothing. -/
theorem leafValue_coerced {node : Ref} {leaf : String}
    (h : leafValue js upper dotted raw node leaf = .ok x) :
    (∃ existing, coerce js dotted raw existing = .ok x) ∧
      ((∀ k, parts dotted ≠ ["env", k]) → ∀ existing, node.member leaf = some existing →
        coerce js dotted raw existing = .ok x) := by
  by_cases henv : ∃ k, parts dotted = ["env", k]
  · obtain ⟨k, hk⟩ := henv
    obtain ⟨-, rfl⟩ := leafValue_env_ok hk h
    exact ⟨⟨.undef, rfl⟩, fun hno => absurd hk (hno k)⟩
  · rw [not_exists] at henv
    rw [leafValue_setting henv] at h
    cases hmember : node.member leaf with
    | some existing =>
      rw [hmember] at h
      exact ⟨⟨existing, h⟩, fun _ _ heq => Option.some.inj heq ▸ h⟩
    | none =>
      rw [hmember] at h
      refine ⟨?_, fun _ _ heq => nomatch heq⟩
      simp only at h
      split at h
      · cases h
      · exact ⟨_, h⟩
      · exact ⟨_, h⟩

theorem leafValue_again {node node' : Ref} {leaf : String}
    (h : leafValue js upper dotted raw node leaf = .ok x)
    (hmember : node'.member leaf = some (.own x)) :
    leafValue js upper dotted raw node' leaf = .ok x := by
  by_cases henv : ∃ k, parts dotted = ["env", k]
  · obtain ⟨k, hk⟩ := henv
    rw [← h]
    exact leafValue_env hk node' node leaf
  · rw [not_exists] at henv
    obtain ⟨existing, hcoerce⟩ := (leafValue_coerced h).1
    rw [leafValue_setting henv, hmember]
    exact coerce_again hcoerce

theorem assign_self {k : String} (h : v.child k = some x) :
    (Ref.own v).assign k x = .ok (.own v) := by
  cases v with
  | obj ps =>
    have hlookup : ps.lookup k = some x := h
    rw [Ref.assign, if_pos (Or.inl (Option.isSome_iff_exists.mpr ⟨x, hlookup⟩)), setProp_self h]
  | arr xs =>
    obtain ⟨i, hi, -⟩ := Option.bind_eq_some_iff.mp h
    rw [Ref.assign, if_pos (Option.isSome_iff_exists.mpr ⟨i, hi⟩), put_self h]
  | _ => cases h

theorem isObject_put (v : Value) (k : String) (w : Value) :
    (Ref.own (v.put k w)).isObject = (Ref.own v).isObject := by
  cases v with
  | arr xs =>
    rw [Value.put]
    split <;> rfl
  | _ => rfl

theorem isObject_setIn {path : List String} (hne : path ≠ []) (v w : Value) :
    (Ref.own (v.setIn path w)).isObject = (Ref.own v).isObject := by
  cases path with
  | nil => exact absurd rfl hne
  | cons k rest =>
    rw [Value.setIn]
    split <;> exact isObject_put v k _

/-- The same assignment again, behind the first. -/
theorem update_again {path : List String} (hne : path ≠ []) (hlands : v.Lands path)
    (h : update js upper dotted raw (.own v) path = .ok (r, x)) :
    update js upper dotted raw (.own (v.setIn path x)) path = .ok (.own (v.setIn path x), x) := by
  induction path generalizing v r with
  | nil => exact absurd rfl hne
  | cons part rest ih =>
    have hput : ∀ u, (v.put part u).child part = some u := child_put_self (takes_of_lands hlands)
    have hmember : ∀ u, (Ref.own (v.put part u)).member part = some (.own u) := fun u => by
      rw [Ref.member, hput]
      rfl
    by_cases hrest : rest = []
    · subst hrest
      have hset : v.setIn [part] x = v.put part x := by
        cases hchild : v.child part with
        | some u => exact setIn_child hchild x
        | none => exact setIn_new hchild x
      rw [hset]
      exact update_leaf_iff.mpr
        ⟨leafValue_again (update_leaf_iff.mp h).1 (hmember x), assign_self (hput x)⟩
    · obtain ⟨child, changed, hfound, hobject, hupdate, rfl⟩ := (update_step_iff hrest).mp h
      rcases hlands with ⟨u, hchild, hgo⟩ | ⟨-, hnil, -⟩
      · have hown : child = .own u := by
          rw [Ref.member, hchild] at hfound
          exact (Option.some.inj hfound).symm
        subst hown
        rw [setIn_child hchild]
        refine (update_step_iff hrest).mpr ⟨_, _, hmember _, ?_, ih hrest hgo hupdate, ?_⟩
        · rw [isObject_setIn hrest]
          exact hobject
        · rw [keep, if_pos (Option.isSome_iff_exists.mpr ⟨_, hput _⟩), put_self (hput _)]
      · exact absurd hnil hrest

end Update

end FleetRunner.Fleet.Config
