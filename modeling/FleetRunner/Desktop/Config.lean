import FleetRunner.Fleet.Environment
import Mathlib

/-!
# The app's copy of the configuration (`config.rs`)

The desktop app reads the file of the command line and writes it back whole. A
key that it has not heard of is kept.

## Implementation notes

A file is the value that its text stands for, and a whole number in it is
written without a fraction. The order in which the keys of an object are
written is not modelled.
-/

namespace FleetRunner.Desktop

open Objects Fleet.Config

/-- `u16` -/
def u16Of : Value → Option UInt16
  | .num (.fin q) =>
    if q.den = 1 ∧ 0 ≤ q.num ∧ q.num < 65536 then some (.ofNat q.num.toNat) else none
  | _ => none

/-! ## The app's copy of the configuration -/

structure Collector where
  port : UInt16
  bind : List String
  discovery : Bool
  tailnet_allowlist : List String

structure Agent where
  collectors : List String
  pools : List String
  device_id : Option String
  ttl_s : Option Rat

structure Executor where
  collector : Option String
  name : Option String

def FIELDS : List String := ["name", "roles", "collector", "agent", "executor", "peers"]

structure FleetConfig where
  name : Option String
  roles : List String
  collector : Collector
  agent : Agent
  executor : Executor
  peers : List String
  /-- Anything this build has not heard of. -/
  extra : Props
  unheard : ∀ p ∈ extra, p.1 ∉ FIELDS

/-- A struct is read from an object, or from an array of all its fields. -/
def Collector.read : Value → Option Collector
  | .obj ps => do
    let port ← (ps.lookup "port").bind u16Of
    let bind ← (ps.lookup "bind").bind textsOf
    let discovery ← (ps.lookup "discovery").bind flagOf
    let tailnet_allowlist ← (ps.lookup "tailnetAllowlist").bind textsOf
    some { port, bind, discovery, tailnet_allowlist }
  | .arr [port, bind, discovery, tailnet_allowlist] => do
    let port ← u16Of port
    let bind ← textsOf bind
    let discovery ← flagOf discovery
    let tailnet_allowlist ← textsOf tailnet_allowlist
    some { port, bind, discovery, tailnet_allowlist }
  | _ => none

def Agent.read : Value → Option Agent
  | .obj ps => do
    let collectors ← (ps.lookup "collectors").bind textsOf
    let pools ← (ps.lookup "pools").bind textsOf
    let device_id ← nullable textOf (ps.lookup "deviceId")
    let ttl_s ← nullable ratOf (ps.lookup "ttlS")
    some { collectors, pools, device_id, ttl_s }
  | .arr [collectors, pools, device_id, ttl_s] => do
    let collectors ← textsOf collectors
    let pools ← textsOf pools
    let device_id ← nullable textOf (some device_id)
    let ttl_s ← nullable ratOf (some ttl_s)
    some { collectors, pools, device_id, ttl_s }
  | _ => none

def Executor.read : Value → Option Executor
  | .obj ps => do
    let collector ← nullable textOf (ps.lookup "collector")
    let name ← nullable textOf (ps.lookup "name")
    some { collector, name }
  | .arr [collector, name] => do
    let collector ← nullable textOf (some collector)
    let name ← nullable textOf (some name)
    some { collector, name }
  | _ => none

def extraOf (ps : Props) : Props := ps.filter fun p => decide (p.1 ∉ FIELDS)

theorem unheard_extraOf {ps : Props} : ∀ p ∈ extraOf ps, p.1 ∉ FIELDS :=
  fun _ hp => of_decide_eq_true (List.mem_filter.mp hp).2

def FleetConfig.read : Value → Option FleetConfig
  | .obj ps => do
    let name ← nullable textOf (ps.lookup "name")
    let roles ← (ps.lookup "roles").bind textsOf
    let collector ← (ps.lookup "collector").bind Collector.read
    let agent ← (ps.lookup "agent").bind Agent.read
    let executor ← (ps.lookup "executor").bind Executor.read
    let peers ← (ps.lookup "peers").bind textsOf
    some { name, roles, collector, agent, executor, peers,
           extra := extraOf ps, unheard := unheard_extraOf }
  | _ => none

/-- A field that is skipped when there is nothing in it. -/
def field (k : String) : Option Value → Props
  | none => []
  | some v => [(k, v)]

def Collector.toValue (c : Collector) : Value :=
  .obj [("port", .num (.fin c.port.toNat)), ("bind", texts c.bind),
    ("discovery", .bool c.discovery), ("tailnetAllowlist", texts c.tailnet_allowlist)]

def Agent.toValue (a : Agent) : Value :=
  .obj ([("collectors", texts a.collectors), ("pools", texts a.pools)] ++
    field "deviceId" (a.device_id.map .str) ++ field "ttlS" (a.ttl_s.map fun q => .num (.fin q)))

def Executor.toValue (e : Executor) : Value :=
  .obj (field "collector" (e.collector.map .str) ++ field "name" (e.name.map .str))

def FleetConfig.toValue (c : FleetConfig) : Value :=
  .obj (field "name" (c.name.map .str) ++ [("roles", texts c.roles),
    ("collector", c.collector.toValue), ("agent", c.agent.toValue),
    ("executor", c.executor.toValue), ("peers", texts c.peers)] ++ c.extra)

def FleetConfig.default : FleetConfig where
  name := none
  roles := ["brain", "agent"]
  collector := { port := 8788, bind := ["0.0.0.0"], discovery := false, tailnet_allowlist := [] }
  agent := { collectors := [], pools := ["machines"], device_id := none, ttl_s := none }
  executor := { collector := none, name := none }
  peers := []
  extra := []
  unheard := List.forall_mem_nil _

/-! ## Reading the file -/

/-- Every entry of `from_` is inserted. -/
def insertAll (into from_ : Props) : Props :=
  from_ ++ into.filter fun p => (from_.lookup p.1).isNone

/-- One level of merging: an object on disk goes into an object of the defaults. -/
def mergeValue : Option Value → Value → Value
  | some (.obj into), .obj from_ => .obj (insertAll into from_)
  | _, value => value

def base : Props :=
  match FleetConfig.default.toValue with
  | .obj ps => ps
  | _ => []

def merged (disk : Props) : Value :=
  .obj (insertAll base (disk.map fun p => (p.1, mergeValue (base.lookup p.1) p.2)))

def roleTexts : List String := ROLES.map Role.text

def FleetConfig.withRoles (c : FleetConfig) : FleetConfig :=
  let roles := c.roles.filter fun r => decide (r ∈ roleTexts)
  { c with roles := if roles.isEmpty then FleetConfig.default.roles else roles }

/-- What is on disk, as far as it has the types that the app knows. -/
def readDisk : Value → Option FleetConfig
  | .obj disk => (FleetConfig.read (merged disk)).map FleetConfig.withRoles
  | _ => none

/-- The roles of the defaults are all known. -/
def merge (onDisk : Value) : FleetConfig := (readDisk onDisk).getD .default

/-! ## What the app writes it reads back -/

section Written

variable {c : FleetConfig}

/-- A whole number that fits is itself. -/
theorem toNat_ofNat_num {q : Rat} (hden : q.den = 1) (hlow : 0 ≤ q.num) (hhigh : q.num < 65536) :
    ((UInt16.ofNat q.num.toNat).toNat : Rat) = q := by
  have hlt : q.num.toNat < 65536 := by omega
  have hnat : (UInt16.ofNat q.num.toNat).toNat = q.num.toNat := UInt16.toNat_ofNat_of_lt hlt
  calc
    ((UInt16.ofNat q.num.toNat).toNat : Rat) = ((q.num.toNat : Int) : Rat) := by
      rw [hnat, Rat.intCast_natCast]
    _ = (q.num : Rat) := congrArg Int.cast (Int.toNat_of_nonneg hlow)
    _ = q := Rat.den_eq_one_iff q |>.mp hden

theorem u16Of_toNat (n : UInt16) : u16Of (.num (.fin n.toNat)) = some n := by
  have hlt := n.toNat_lt
  simp only [u16Of, Rat.den_natCast, Rat.num_natCast, true_and]
  rw [if_pos (by omega)]
  simp

theorem collector_read_iff {ps : Props} {x : Collector} : Collector.read (.obj ps) = some x ↔
    (ps.lookup "port").bind u16Of = some x.port ∧ (ps.lookup "bind").bind textsOf = some x.bind ∧
      (ps.lookup "discovery").bind flagOf = some x.discovery ∧
      (ps.lookup "tailnetAllowlist").bind textsOf = some x.tailnet_allowlist := by
  obtain ⟨port, bind, discovery, tailnet_allowlist⟩ := x
  unfold Collector.read
  dsimp only
  cases (ps.lookup "port").bind u16Of <;> cases (ps.lookup "bind").bind textsOf <;>
    cases (ps.lookup "discovery").bind flagOf <;>
    cases (ps.lookup "tailnetAllowlist").bind textsOf <;> simp

theorem agent_read_iff {ps : Props} {a : Agent} : Agent.read (.obj ps) = some a ↔
    (ps.lookup "collectors").bind textsOf = some a.collectors ∧
      (ps.lookup "pools").bind textsOf = some a.pools ∧
      nullable textOf (ps.lookup "deviceId") = some a.device_id ∧
      nullable ratOf (ps.lookup "ttlS") = some a.ttl_s := by
  obtain ⟨collectors, pools, device_id, ttl_s⟩ := a
  unfold Agent.read
  dsimp only
  cases (ps.lookup "collectors").bind textsOf <;> cases (ps.lookup "pools").bind textsOf <;>
    cases nullable textOf (ps.lookup "deviceId") <;>
    cases nullable ratOf (ps.lookup "ttlS") <;> simp

theorem executor_read_iff {ps : Props} {e : Executor} : Executor.read (.obj ps) = some e ↔
    nullable textOf (ps.lookup "collector") = some e.collector ∧
      nullable textOf (ps.lookup "name") = some e.name := by
  obtain ⟨collector, name⟩ := e
  unfold Executor.read
  dsimp only
  cases nullable textOf (ps.lookup "collector") <;>
    cases nullable textOf (ps.lookup "name") <;> simp

theorem config_read_iff {ps : Props} : FleetConfig.read (.obj ps) = some c ↔
    nullable textOf (ps.lookup "name") = some c.name ∧
      (ps.lookup "roles").bind textsOf = some c.roles ∧
      (ps.lookup "collector").bind Collector.read = some c.collector ∧
      (ps.lookup "agent").bind Agent.read = some c.agent ∧
      (ps.lookup "executor").bind Executor.read = some c.executor ∧
      (ps.lookup "peers").bind textsOf = some c.peers ∧ extraOf ps = c.extra := by
  obtain ⟨name, roles, collector, agent, executor, peers, extra, unheard⟩ := c
  unfold FleetConfig.read
  dsimp only
  cases nullable textOf (ps.lookup "name") <;> cases (ps.lookup "roles").bind textsOf <;>
    cases (ps.lookup "collector").bind Collector.read <;>
    cases (ps.lookup "agent").bind Agent.read <;>
    cases (ps.lookup "executor").bind Executor.read <;>
    cases (ps.lookup "peers").bind textsOf <;> simp

theorem collector_read (x : Collector) : Collector.read x.toValue = some x := by
  rw [Collector.toValue, collector_read_iff]
  refine ⟨?_, ?_, ?_, ?_⟩
  · rw [List.lookup_cons_self, Option.bind_some, u16Of_toNat]
  · simp [List.lookup]
  · simp [List.lookup, flagOf]
  · simp [List.lookup]

theorem agent_read (a : Agent) : Agent.read a.toValue = some a := by
  obtain ⟨collectors, pools, device_id, ttl_s⟩ := a
  rw [Agent.toValue, agent_read_iff]
  cases device_id <;> cases ttl_s <;> simp [field, List.lookup, nullable, textOf, ratOf]

theorem executor_read (e : Executor) : Executor.read e.toValue = some e := by
  obtain ⟨collector, name⟩ := e
  rw [Executor.toValue, executor_read_iff]
  cases collector <;> cases name <;> simp [field, List.lookup, nullable, textOf]

/-- The fields in front of what is not known. -/
theorem lookup_toValue (c : FleetConfig) :
    c.toValue.child "name" = c.name.map .str ∧ c.toValue.child "roles" = some (texts c.roles) ∧
      c.toValue.child "collector" = some c.collector.toValue ∧
      c.toValue.child "agent" = some c.agent.toValue ∧
      c.toValue.child "executor" = some c.executor.toValue ∧
      c.toValue.child "peers" = some (texts c.peers) ∧
      c.toValue.child "env" = c.extra.lookup "env" := by
  refine ⟨?_, ?_⟩
  · cases hname : c.name with
    | some n => simp [FleetConfig.toValue, Value.child, field, hname]
    | none =>
        simp only [FleetConfig.toValue, Value.child, field, hname, Option.map_none,
          List.nil_append, List.lookup_append]
        change Option.or none (c.extra.lookup "name") = none
        rw [Option.none_or]
        apply List.lookup_eq_none_iff.mpr
        intro p hp
        apply bne_iff_ne.mpr
        intro heq
        exact c.unheard p hp (by rw [← heq]; decide)
  · cases hname : c.name <;>
      simp [FleetConfig.toValue, Value.child, field, hname, List.lookup]

theorem extraOf_toValue (c : FleetConfig) :
    extraOf (field "name" (c.name.map .str) ++ [("roles", texts c.roles),
      ("collector", c.collector.toValue), ("agent", c.agent.toValue),
      ("executor", c.executor.toValue), ("peers", texts c.peers)] ++ c.extra) = c.extra := by
  have hextra : c.extra.filter (fun p => decide (p.1 ∉ FIELDS)) = c.extra :=
    List.filter_eq_self.mpr fun p hp => decide_eq_true (c.unheard p hp)
  rw [extraOf, List.filter_append, hextra]
  cases c.name <;> rfl

theorem config_read (c : FleetConfig) : FleetConfig.read c.toValue = some c := by
  obtain ⟨hname, hroles, hcollector, hagent, hexecutor, hpeers, -⟩ := lookup_toValue c
  rw [FleetConfig.toValue, Value.child] at hname hroles hcollector hagent hexecutor hpeers
  rw [FleetConfig.toValue, config_read_iff, hname, hroles, hcollector, hagent, hexecutor, hpeers,
    extraOf_toValue]
  refine ⟨?_, textsOf_texts _, ?_, ?_, ?_, textsOf_texts _, rfl⟩
  · cases c.name <;> rfl
  · rw [Option.bind_some, collector_read]
  · rw [Option.bind_some, agent_read]
  · rw [Option.bind_some, executor_read]

end Written

end FleetRunner.Desktop
