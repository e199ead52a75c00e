import FleetRunner.Fleet.Survival
import FleetRunner.Js.Text

/-!
# What a component is started with (`config.ts`)

`childEnv` turns the configuration into the variables of one component. A
variable that is there already, or that the file's `env` has, wins over what
is worked out here.

## Implementation notes

`settings?` is the configuration where it has the types that it declares. Paths
and the place of the bundled assets are the host's.
-/

namespace FleetRunner.Fleet.Config

open Objects

/-! ## Values of a type -/

def textOf : Value → Option String
  | .str s => some s
  | _ => none

def textsOf : Value → Option (List String)
  | .arr xs => xs.mapM textOf
  | _ => none

def flagOf : Value → Option Bool
  | .bool b => some b
  | _ => none

def ratOf : Value → Option Rat
  | .num (.fin q) => some q
  | _ => none

/-- `Option<T>`, which may be absent or null. -/
def nullable {α : Type} (read : Value → Option α) : Option Value → Option (Option α)
  | none | some .null => some none
  | some v => (read v).map some

/-- A field that is read only where it is a number, or absent. -/
def absentOr {α : Type} (read : Value → Option α) : Option Value → Option (Option α)
  | none => some none
  | some v => (read v).map some

def texts (xs : List String) : Value := .arr (xs.map .str)

@[simp] theorem mapM_textOf (xs : List String) : (xs.map Value.str).mapM textOf = some xs := by
  induction xs with
  | nil => rfl
  | cons x rest ih => simp [textOf, ih]

@[simp] theorem textsOf_texts (xs : List String) : textsOf (texts xs) = some xs := mapM_textOf xs

theorem texts_of_textsOf {v : Value} {xs : List String} (h : textsOf v = some xs) :
    v = texts xs := by
  obtain ⟨elems, rfl⟩ : ∃ elems, v = .arr elems := by
    cases v with
    | arr elems => exact ⟨elems, rfl⟩
    | _ => cases h
  rw [texts, Value.arr.injEq]
  have hread : elems.mapM textOf = some xs := h
  clear h
  induction elems generalizing xs with
  | nil => simp_all
  | cons e rest ih =>
      simp only [List.mapM_cons, Option.bind_eq_bind, Option.bind_eq_some_iff] at hread
      obtain ⟨x, hx, ys, hys, heq⟩ := hread
      obtain rfl := Option.some.inj heq
      rw [List.map_cons, ih hys]
      cases e with
      | str s => rw [Option.some.inj hx]
      | _ => cases hx

/-! ## The configuration, typed -/

/-- The configuration of the command line, where it has its types. -/
structure Settings where
  name : Option String
  roles : List Role
  port : Rat
  bind : List String
  discovery : Bool
  tailnetAllowlist : List String
  collectors : List String
  pools : List String
  deviceId : Option String
  ttlS : Option Rat
  executorCollector : Option String
  executorName : Option String
  peers : List String
  env : List (String × String)

def settings? (c : FleetConfig) : Option Settings := do
  let name ← nullable textOf c.name
  let port ← (c.collector.lookup "port").bind ratOf
  let bind ← (c.collector.lookup "bind").bind textsOf
  let discovery ← (c.collector.lookup "discovery").bind flagOf
  let tailnetAllowlist ← (c.collector.lookup "tailnetAllowlist").bind textsOf
  let collectors ← (c.agent.lookup "collectors").bind textsOf
  let pools ← (c.agent.lookup "pools").bind textsOf
  let deviceId ← nullable textOf (c.agent.lookup "deviceId")
  let ttlS ← absentOr ratOf (c.agent.lookup "ttlS")
  let executorCollector ← nullable textOf (c.executor.lookup "collector")
  let executorName ← nullable textOf (c.executor.lookup "name")
  let peers ← c.peers.mapM textOf
  some { name, roles := c.roles, port, bind, discovery, tailnetAllowlist, collectors, pools,
         deviceId, ttlS, executorCollector, executorName, peers, env := c.env }

abbrev Env := String → Option String

structure Paths where
  data : String
  artifacts : String
  cache : String
  logs : String

structure Host where
  homedir : String
  assetRoot : Option String
  join : String → String → String

def Host.paths (h : Host) (env : Env) : Paths :=
  let home := (env "FLEET_HOME").getD (h.join h.homedir ".fleet")
  { data := h.join home "data", artifacts := h.join home "artifacts",
    cache := h.join home "cache", logs := h.join home "logs" }

/-- What is there already wins. -/
def setVar (key : String) (value : Option String) (out : Env) : Env := fun k =>
  if k = key ∧ out key = none then value else out k

/-- A text that is not empty. -/
def truthy (s : Option String) : Option String := s.filter fun t => decide (t ≠ "")

def joined (xs : List String) : String := ",".intercalate xs

/-! ## The environment of a component -/

section Start

variable (js : Js) (h : Host)

def agentCollectors (s : Settings) : List String :=
  if 0 < s.collectors.length then s.collectors
  else if .brain ∈ s.roles then ["http://127.0.0.1:" ++ js.showNum s.port]
  else []

def childEnv (role : Role) (s : Settings) (env : Env) : Env :=
  let p := h.paths env
  let out := s.env.foldl (fun out e => setVar e.1 (some e.2) out) env
  let out := setVar "FLEET_CACHE_DIR" (some p.cache) out
  match role with
  | .brain =>
    let out := setVar "FLEET_PORT" (some (js.showNum s.port)) out
    let out := setVar "FLEET_BIND" (some (joined s.bind)) out
    let out := setVar "FLEET_DATA_DIR" (some p.data) out
    let out := setVar "FLEET_ARTIFACT_DIR" (some p.artifacts) out
    let out := setVar "FLEET_LOG_FILE" (some (h.join p.logs "collector.log")) out
    let out := setVar "FLEET_DASH_DIST"
      ((truthy h.assetRoot).map fun assets => h.join assets "dash/dist") out
    let out := setVar "FLEET_DISCOVERY" (some (if s.discovery then "1" else "0")) out
    let out := if 0 < s.tailnetAllowlist.length then
      setVar "FLEET_TAILNET_ALLOWLIST" (some (joined s.tailnetAllowlist)) out else out
    let out := setVar "FLEET_NAME" (truthy s.name) out
    if 0 < s.peers.length then setVar "FLEET_PEERS" (some (joined s.peers)) out else out
  | .agent =>
    let out := setVar "FLEET_URL" (agentCollectors js s).head? out
    let out := setVar "FLEET_POOLS" (some (joined s.pools)) out
    let out := setVar "FLEET_DEVICE_ID" (truthy s.deviceId) out
    setVar "FLEET_DEVICE_TTL_S" (s.ttlS.map js.showNum) out
  | .executor =>
    let out := setVar "FLEET_URL" (s.executorCollector.or (agentCollectors js s).head?) out
    setVar "FLEET_EXECUTOR_NAME" (truthy s.executorName) out

end Start

/-! ## Variables of its own -/

section Variables

variable {js : Js} {out out' : Env}

/-- Two environments may differ in these variables. -/
def AgreeOff (keys : List String) (out out' : Env) : Prop := ∀ k ∉ keys, out k = out' k

theorem AgreeOff.set {keys : List String} (h : AgreeOff keys out out') (key : String)
    (value : Option String) : AgreeOff keys (setVar key value out) (setVar key value out') := by
  intro k hk
  by_cases heq : k = key
  · subst heq
    simp only [setVar, h k hk]
  · simp only [setVar, heq, false_and, if_false, h k hk]

theorem AgreeOff.set_mem {keys : List String} {key : String} (h : AgreeOff keys out out')
    (hkey : key ∈ keys) (value value' : Option String) :
    AgreeOff keys (setVar key value out) (setVar key value' out') := by
  intro k hk
  have hne : k ≠ key := fun heq => hk (heq ▸ hkey)
  simp only [setVar, hne, false_and, if_false, h k hk]

theorem AgreeOff.ite {keys : List String} {more more' : Env} (hmore : AgreeOff keys more more')
    (h : AgreeOff keys out out') (P : Prop) [Decidable P] :
    AgreeOff keys (if P then more else out) (if P then more' else out') := by
  split
  · exact hmore
  · exact h

/-- The variables in which the roles, the port and the list of collectors show. -/
theorem agree_childEnv (js : Js) (h : Host) (role : Role) (s : Settings) (roles : List Role)
    (port : Rat) (collectors : List String) (env : Env) : AgreeOff ["FLEET_PORT", "FLEET_URL"]
      (childEnv js h role { s with roles, port, collectors } env) (childEnv js h role s env) := by
  have hstart : AgreeOff ["FLEET_PORT", "FLEET_URL"]
      (setVar "FLEET_CACHE_DIR" (some (h.paths env).cache)
        (s.env.foldl (fun out e => setVar e.1 (some e.2) out) env))
      (setVar "FLEET_CACHE_DIR" (some (h.paths env).cache)
        (s.env.foldl (fun out e => setVar e.1 (some e.2) out) env)) := fun _ _ => rfl
  have hportKey : "FLEET_PORT" ∈ ["FLEET_PORT", "FLEET_URL"] := by decide
  have hurlKey : "FLEET_URL" ∈ ["FLEET_PORT", "FLEET_URL"] := by decide
  cases role with
  | brain =>
      have hport := hstart.set_mem hportKey (some (js.showNum port)) (some (js.showNum s.port))
      have hlog := (((hport.set "FLEET_BIND" (some (joined s.bind))).set "FLEET_DATA_DIR"
        (some (h.paths env).data)).set "FLEET_ARTIFACT_DIR" (some (h.paths env).artifacts)).set
        "FLEET_LOG_FILE" (some (h.join (h.paths env).logs "collector.log"))
      have hdash := hlog.set "FLEET_DASH_DIST"
        ((truthy h.assetRoot).map fun assets => h.join assets "dash/dist")
      have hdiscovery := hdash.set "FLEET_DISCOVERY" (some (if s.discovery then "1" else "0"))
      have hallow := (hdiscovery.set "FLEET_TAILNET_ALLOWLIST"
        (some (joined s.tailnetAllowlist))).ite hdiscovery (0 < s.tailnetAllowlist.length)
      have hname := hallow.set "FLEET_NAME" (truthy s.name)
      exact (hname.set "FLEET_PEERS" (some (joined s.peers))).ite hname (0 < s.peers.length)
  | agent =>
      have hurl := hstart.set_mem hurlKey
        (agentCollectors js { s with roles, port, collectors }).head? (agentCollectors js s).head?
      exact ((hurl.set "FLEET_POOLS" (some (joined s.pools))).set "FLEET_DEVICE_ID"
        (truthy s.deviceId)).set "FLEET_DEVICE_TTL_S" (s.ttlS.map js.showNum)
  | executor =>
      have hurl := hstart.set_mem hurlKey
        (s.executorCollector.or (agentCollectors js { s with roles, port, collectors }).head?)
        (s.executorCollector.or (agentCollectors js s).head?)
      exact hurl.set "FLEET_EXECUTOR_NAME" (truthy s.executorName)

theorem setVar_of_ne {k key : String} (hne : k ≠ key) (value : Option String) (out : Env) :
    setVar key value out k = out k := by
  simp [setVar, hne]

theorem setVar_self {key : String} (hfree : out key = none) (value : Option String) :
    setVar key value out key = value := by
  simp [setVar, hfree]

/-- Neither the environment nor the file has a value of its own for it. -/
structure Free (key : String) (s : Settings) (env : Env) : Prop where
  env : env key = none
  file : ∀ e ∈ s.env, e.1 ≠ key

theorem Free.start {key : String} {s : Settings} {env : Env} (h : Free key s env)
    (hne : key ≠ "FLEET_CACHE_DIR") (value : Option String) :
    setVar "FLEET_CACHE_DIR" value
      (s.env.foldl (fun out e => setVar e.1 (some e.2) out) env) key = none := by
  rw [setVar_of_ne hne]
  obtain ⟨henv, hfile⟩ := h
  generalize s.env = es at hfile
  induction es generalizing env with
  | nil => exact henv
  | cons e rest ih =>
      obtain ⟨hfirst, hrest⟩ := List.forall_mem_cons.mp hfile
      rw [List.foldl_cons]
      apply ih _ hrest
      rw [setVar_of_ne (Ne.symm hfirst), henv]

theorem brain_port {s : Settings} {env : Env} (host : Host) (h : Free "FLEET_PORT" s env) :
    childEnv js host .brain s env "FLEET_PORT" = some (js.showNum s.port) := by
  have hself := setVar_self (h.start (by decide) (some (host.paths env).cache))
    (some (js.showNum s.port))
  have hite : ∀ (P : Prop) [Decidable P] (a b : Env) (k : String),
      (if P then a else b) k = if P then a k else b k := fun P _ a b k => by split <;> rfl
  simpa [childEnv, hite, setVar_of_ne] using hself

theorem agent_url {s : Settings} {env : Env} (host : Host) (h : Free "FLEET_URL" s env) :
    childEnv js host .agent s env "FLEET_URL" = (agentCollectors js s).head? := by
  have hself := setVar_self (h.start (by decide) (some (host.paths env).cache))
    (agentCollectors js s).head?
  simpa [childEnv, setVar_of_ne] using hself

/-- The list of the file, or the collector on this machine. -/
theorem head_agentCollectors (s : Settings) : (agentCollectors js s).head? =
    s.collectors.head?.or (if .brain ∈ s.roles then
      some ("http://127.0.0.1:" ++ js.showNum s.port) else none) := by
  unfold agentCollectors
  by_cases hnone : s.collectors = []
  · rw [hnone]
    by_cases hbrain : Role.brain ∈ s.roles <;> simp [hbrain]
  · obtain ⟨url, rest, heq⟩ := List.exists_cons_of_ne_nil hnone
    rw [if_pos (List.length_pos_of_ne_nil hnone), heq]
    rfl

end Variables

end FleetRunner.Fleet.Config
