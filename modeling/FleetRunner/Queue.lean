import FleetRunner.Mutations
import FleetRunner.Reserved

/-!
# Putting work on the queue (`queue.ts`)

`enqueueJob` validates a spec and then inserts a job, inserts one child for
each selected device, or says what it would have done. Everything it checks is
gathered in a `Plan`, whose fields carry what the checks established.

## Implementation notes

A spec stays JSON, because it is stored and handed out as it was sent. A
`job_id` is declared a string; a spec that has another type there is refused
like one that has none. A dependency reference may fill the id itself: a value
that is not a string cannot be bound to the column and is the engine's error.
-/

namespace FleetRunner

open Library

/-- Ten minutes, for a job that does not say how long its lease is. -/
def DEFAULT_LEASE_TTL_S : Nat := 600

def LONG_LEASE_TTL_S : Nat := 4 * 60 * 60

def MAX_LEASE_TTL_S : Nat := 24 * 60 * 60

def DEFAULT_MAX_ATTEMPTS : Nat := 3

def EXECUTOR_LIVE_S : Nat := 120

/-- The workloads whose lease is four hours unless the job says otherwise. -/
def LONG_LEASE_WORKLOADS : List String :=
  ["drain", "soak", "thermal", "build", "app-soak", "speech-eval", "embed-eval",
    "model-convert", "dataset-prep", "serve", "push-latency"]

/-- Every workload there is. -/
def WORKLOADS : List String :=
  ["benchmark", "batch", "pipeline", "install", "ui-test", "drain", "soak",
    "web-test", "web-shots", "web-audit", "web-unfurl", "archive", "digest",
    "thermal", "cold-start", "self-check",
    "build", "speech-eval", "embed-eval", "vantage", "locale-shots", "app-soak", "a11y-audit",
    "model-convert", "dataset-prep", "serve", "shell", "push-latency", "camera-eval",
    "desktop-ui-test", "llm-eval", "size-report", "upgrade-test", "enrol", "tvloop", "explore"]

/-- What a refusal says by code. -/
inductive ErrorCode where
  | invalid_spec | duplicate_job | no_capable_agent | no_matching_devices | device_reserved
  | secret_in_spec | no_build | invalid_match | invalid_dependency | unresolved_reference
  deriving DecidableEq

/-- A refusal, as the client reads it. -/
structure EnqueueRefusal where
  http : Nat
  code : ErrorCode
  message : String
  hint : Option String
  deriving DecidableEq

/-- How an enqueue fails: an answer the source gives, or a statement that threw. -/
inductive EnqueueError where
  | refused (r : EnqueueRefusal)
  | thrown (e : JsError)
  deriving DecidableEq

/-- Refuses a spec, with or without a hint. -/
def refuse {α : Type} (http : Nat) (code : ErrorCode) (message : String) (hint : String := "") :
    Except EnqueueError α :=
  .error (.refused ⟨http, code, message, if hint = "" then none else some hint⟩)

/-- What is thrown is not a refusal. -/
def orThrow {α : Type} (x : Except JsError α) : Except EnqueueError α :=
  match x with
  | .ok a => .ok a
  | .error e => .error (.thrown e)

/-- A device as a preview lists it. -/
structure CandidateDevice where
  device_id : String
  model : Option String
  os : Option String
  deriving DecidableEq

/-- The answer to a dry run. -/
structure Preview where
  spec : Json
  candidates : List CandidateDevice
  warnings : List String

/-- The answer to a job that is taken. -/
structure EnqueueAccepted where
  http : Nat
  status : Status
  job_id : String
  fanout : Option (List String)
  preview : Option Preview

def targetsOf (spec : Json) : Option Json := spec.prop "targets"

/-- `spec.targets?.k` -/
def target? (spec : Json) (k : String) : Option Json := optProp (targetsOf spec) k

/-- `spec.backend ?? null` -/
def backendOf (spec : Json) : Json := nullish (spec.prop "backend") .null

variable (js : Js)

/-! ## Which devices a targets clause selects -/

/-- `xs.includes(w)` for any value: by value on an array, where no object is
the one parsed from elsewhere, and by text on a string. -/
def Json.includesValue (v w : Json) : Except JsError Bool :=
  match v with
  | .arr xs => .ok (xs.any fun x =>
      match x, w with
      | .null, .null => true
      | .bool a, .bool b => a = b
      | .num a, .num b => a = b
      | .str a, .str b => a = b
      | _, _ => false)
  | .str s => do .ok (strIncludes s (← w.text js))
  | _ => .error .typeError

/-- `!(pool && !pools.includes(pool))` -/
def inPool (pools : Json) (pool : Option Json) : Except JsError Bool :=
  match pool with
  | none => .ok true
  | some p => if p.truthy then pools.includesValue js p else .ok true

/-- `!(workload && !capabilityMatches(…))` -/
def canRun (capabilities : Option (List String)) (workload backend : Option Json) :
    Except JsError Bool :=
  match workload with
  | none => .ok true
  | some w => if w.truthy then capabilityMatches js capabilities w (backend.getD .null) else .ok true

/-- `!(match && !evalMatch(match, descriptor))`; an expression that throws
selects nothing. -/
def matchAllows (expr : Option Json) (descriptor : Fields) : Bool :=
  match expr with
  | none => true
  | some e => if e.truthy then matches? js e descriptor else true

/-- What a match expression reads: the registered descriptor with the id, the
effective pools and the capabilities put over it. -/
def fullDescriptor (d : Device) : Fields :=
  Fields.merge d.descriptor.spread
    [("device_id", .str d.device_id), ("pools", effectivePools d),
      ("capabilities", capabilitiesJson (deviceCapabilities d))]

/-- The filter of `matchingDevices`, guard by guard. -/
def deviceMatches (db : Db) (pool expr workload backend : Option Json) (job : Json)
    (label : Option String) (d : Device) : Except JsError Bool :=
  ifSo (.ok !(isExpired d.ttl_s (some (ageS db d.last_seen)))) <|
  ifSo (inPool js (effectivePools d) pool) <|
  ifSo (canRun js (deviceCapabilities d) workload backend) <|
  ifSo (.ok (reservationAllows js job d.device_id label (fullDescriptor d))) <|
  .ok (matchAllows js expr (fullDescriptor d))

/-- The devices that these targets mean. -/
def matchingDevices (db : Db) (pool expr workload backend : Option Json) (job : Json)
    (ignoreReservations : Bool := false) : Except JsError (List Device) :=
  filterE (fun d => deviceMatches js db pool expr workload backend job
    (if ignoreReservations then none else db.reservedFor d.device_id) d) db.devices.rows

/-- The reserved device this job pins without holding its reservation. -/
def reservedConflict (db : Db) (spec : Json) : Option Reservation :=
  let targets := targetsOf spec
  if !optTruthy (optProp targets "device_id") && !optTruthy (optProp targets "match") then none
  else
    db.device_reservations.rows.find? fun r =>
      !((spec.prop "reservation").any fun v => v.isStr r.label) &&
        pinsDevice js targets r.device_id
          (((db.device? r.device_id).map fun d => d.descriptor.spread).getD [])

/-- Is there any agent on the fleet that could run this workload? -/
def workloadServiceableBy (db : Db) (workload : String) (backend : Json) : Except JsError Bool :=
  if WORKLOADS.contains workload then .ok true
  else
    anyE (fun d =>
      match deviceCapabilities d with
      | none => .ok false
      | some names => capabilityMatches js (some names) (.str workload) backend)
      (db.devices.rows.filter fun d => !isExpired d.ttl_s (some (ageS db d.last_seen)))

/-! ## The build a spec names -/

/-- The order of publication; artifacts from before there was one go by their row. -/
def publishOrder (a : Artifact) : Nat := a.publish_seq.getD a.rowid

/-- `ORDER BY COALESCE(publish_seq, rowid) DESC LIMIT 1` -/
def newest (rows : List Artifact) : Option Artifact :=
  rows.foldl (fun best a =>
    match best with
    | none => some a
    | some b => if publishOrder b < publishOrder a then some a else some b) none

/-- A spec that asks for the latest build gets the one that is the latest now. -/
def resolveLatestBuild (db : Db) (spec : Json) : Except String Json :=
  let app := spec.prop "app"
  if !(optProp app "sha256").any (fun v => v.isStr "latest") then .ok spec
  else if !optTruthy (optProp app "name") then
    .error "app.sha256 is 'latest' but app.name is missing"
  else
    let name := nullish (optProp app "name") .null
    let builds := db.artifacts.rows.filter fun a => a.app.any fun n => name.isStr n
    match newest (builds.filter fun a => a.channel ≠ some "pr") with
    | none =>
      .error ("no build has been uploaded for " ++ interpolated js name ++
        if builds.any (fun a => a.channel = some "pr") then
          " except from pull requests, which latest never resolves to" else "")
    | some row =>
      let templateBuild := if (optProp app "build").any (fun v => v.isStr "latest") then none
        else optProp app "build"
      let build := match row.build with
        | some b => .str b
        | none => nullish templateBuild (.str (String.ofList (row.sha256.toList.take 12)))
      .ok (.obj (Fields.set spec.spread "app" (.obj (Fields.merge ((app.getD .null).spread)
        [("sha256", .str row.sha256), ("build", build)]))))

/-! ## What an accepted spec has passed -/

/-- A lease within the bounds enqueue enforces. -/
structure Lease where
  ttl_s : Nat
  max_attempts : Nat
  ttl_pos : 1 ≤ ttl_s
  ttl_le : ttl_s ≤ MAX_LEASE_TTL_S
  attempts_pos : 1 ≤ max_attempts

def Lease.toJson (l : Lease) : Json :=
  .obj [("ttl_s", .num l.ttl_s), ("max_attempts", .num l.max_attempts)]

/-- Ids of jobs that exist. -/
structure Dependencies (db : Db) where
  ids : List String
  exist : ∀ d ∈ ids, db.jobs.contains d = true

def Dependencies.none (db : Db) : Dependencies db := ⟨[], by simp⟩

/-- A spec that passed every check, normalised, and where it goes. -/
structure Plan (db : Db) where
  spec : Json
  job_id : String
  executor : Executor
  lease : Lease
  priority : Int
  deps : Dependencies db

/-- The state a job of this plan is inserted in. -/
def Plan.state {db : Db} (p : Plan db) : DepState := dependencyState db p.deps.ids

/-- The names of parameters that would put a secret into a spec. -/
def bannedKeys : List String := ["password", "passwd", "secret", "token", "api_key", "apikey"]

/-- A spec is published to everyone who can read the queue. -/
def checkSecrets (spec : Json) : Except EnqueueError Unit :=
  let flat := js.lower (spec.stringify js)
  match bannedKeys.find? fun k => strIncludes flat ("\"" ++ k ++ "\"") with
  | some k =>
    refuse 400 .secret_in_spec ("job specs must not carry secrets (" ++ k ++
      "); name the account instead and keep the password in the executor host's Keychain")
  | none => .ok ()

/-- The workload has to be named. -/
def readWorkload (spec : Json) : Except EnqueueError String :=
  match spec.prop "workload" with
  | some (.str w) => if w = "" then refuse 400 .invalid_spec "workload required" else .ok w
  | _ => refuse 400 .invalid_spec "workload required"

/-- The id has to be given. -/
def readJobId (spec : Json) : Except EnqueueError String :=
  match spec.prop "job_id" with
  | some (.str id) => if id = "" then refuse 400 .invalid_spec "job_id required" else .ok id
  | _ => refuse 400 .invalid_spec "job_id required"

/-- Somebody has to be there who can run it. -/
def checkWorkload (db : Db) (spec : Json) (workload : String) : Except EnqueueError Unit := do
  if ← orThrow (workloadServiceableBy js db workload (backendOf spec)) then .ok ()
  else
    refuse 422 .no_capable_agent ("no agent can run workload '" ++ workload ++ "'" ++
      (if optTruthy (spec.prop "backend") then
        " with backend '" ++ interpolated js (backendOf spec) ++ "'" else "") ++
      "; a device must declare it in the capabilities it registers with")
      "list what the fleet can run with GET /api/v1/workloads"

/-- Who claims the job: a device, or a host for its devices. -/
def readExecutor (spec : Json) : Except EnqueueError Executor :=
  if (spec.prop "executor").any (fun v => v.isStr "device") then .ok .device
  else if (spec.prop "executor").any (fun v => v.isStr "host") then .ok .host
  else refuse 400 .invalid_spec "executor must be 'device' or 'host'"

/-- The lease of a workload. -/
def defaultTtl (workload : String) : Nat :=
  if LONG_LEASE_WORKLOADS.contains workload then LONG_LEASE_TTL_S else DEFAULT_LEASE_TTL_S

def isObject : Json → Bool
  | .obj _ => true
  | _ => false

section LeaseBounds

variable {ttl n : Int}

theorem one_le_ttl (h : ¬ (ttl < 1 ∨ (MAX_LEASE_TTL_S : Int) < ttl)) : 1 ≤ ttl.toNat := by omega

theorem ttl_le (h : ¬ (ttl < 1 ∨ (MAX_LEASE_TTL_S : Int) < ttl)) : ttl.toNat ≤ MAX_LEASE_TTL_S := by
  omega

theorem one_le_attempts (h : ¬ n < 1) : 1 ≤ n.toNat := by omega

end LeaseBounds

/-- The lease a spec asks for, each field defaulted. -/
def readLease (spec : Json) (workload : String) : Except EnqueueError Lease :=
  let lease := spec.prop "lease"
  if !(lease.all isObject) then refuse 400 .invalid_spec "lease must be an object"
  else
    match (nullish (optProp lease "ttl_s") (.num (defaultTtl workload))).asInt? with
    | none => refuse 400 .invalid_spec "lease.ttl_s must be an integer between 1 and 86400"
    | some ttl =>
      if httl : ttl < 1 ∨ (MAX_LEASE_TTL_S : Int) < ttl then
        refuse 400 .invalid_spec "lease.ttl_s must be an integer between 1 and 86400"
      else
        match (nullish (optProp lease "max_attempts") (.num DEFAULT_MAX_ATTEMPTS)).asInt? with
        | none => refuse 400 .invalid_spec "lease.max_attempts must be an integer >= 1"
        | some n =>
          if hn : n < 1 then refuse 400 .invalid_spec "lease.max_attempts must be an integer >= 1"
          else .ok ⟨ttl.toNat, n.toNat, one_le_ttl httl, ttl_le httl, one_le_attempts hn⟩

/-- A whole number, zero when there is none. -/
def readPriority (spec : Json) : Except EnqueueError Int :=
  match (nullish (spec.prop "priority") (.num 0)).asInt? with
  | some n => .ok n
  | none => refuse 400 .invalid_spec "priority must be an integer"

/-- A yes or a no, if it is there. -/
def checkPreemptible (spec : Json) : Except EnqueueError Unit :=
  match spec.prop "preemptible" with
  | none => .ok ()
  | some (.bool _) => .ok ()
  | _ => refuse 400 .invalid_spec "preemptible must be a boolean"

/-- A label, if it is there. -/
def checkReservation (spec : Json) : Except EnqueueError Unit :=
  let refusal : Except EnqueueError Unit := refuse 400 .invalid_spec
    "reservation must be a label of letters, digits, '.', '_', ':' or '-' (at most 64)"
  match spec.prop "reservation" with
  | none => .ok ()
  | some (.str label) => if isReservationLabel label then .ok () else refusal
  | _ => refusal

/-- Ids that name no job are refused, so what is returned exists. -/
def readDependencies (db : Db) (spec : Json) (jobId : String) :
    Except EnqueueError (Dependencies db) :=
  match spec.prop "depends_on" with
  | none => .ok (.none db)
  | some raw =>
    match raw.asStrings? with
    | none => refuse 400 .invalid_dependency "depends_on must be an array of job ids"
    | some names =>
      if names.contains "" then
        refuse 400 .invalid_dependency "depends_on must be an array of job ids"
      else
        let deps := names.eraseDups
        match h : validateDependencies db jobId deps with
        | some bad => refuse 400 .invalid_dependency bad
        | none => .ok ⟨deps, contains_of_validateDependencies h⟩

/-- A chain whose dependencies are all closed already gets no promotion event,
so its references are filled now. -/
def fillOnArrival (db : Db) (spec : Json) (deps : List String) : Except EnqueueError Json :=
  match dependencyState db deps with
  | .queued =>
    if deps.isEmpty then .ok spec
    else
      let filled := substituteDepRefs js (resolveDepRef db) spec
      if filled.2.isEmpty then .ok filled.1
      else refuse 422 .unresolved_reference ("cannot resolve " ++ "; ".intercalate filled.2)
  | _ => .ok spec

/-- An expression that parses, if it is there. -/
def checkMatch (spec : Json) : Except EnqueueError Unit :=
  match target? spec "match" with
  | none => .ok ()
  | some expr =>
    if expr.truthy && !isValidMatch js expr then
      refuse 400 .invalid_match ("invalid targets.match expression: " ++ interpolated js expr)
    else .ok ()

/-- A device that is named must not be reserved for others. -/
def checkConflict (db : Db) (spec : Json) : Except EnqueueError Unit :=
  match reservedConflict js db spec with
  | none => .ok ()
  | some r =>
    refuse 409 .device_reserved (reservedReason r.device_id r.label)
      ("add \"reservation\": \"" ++ r.label ++
        "\" if this job is that work; otherwise target another device")

/-- Every check of `enqueueJob`, in its order. -/
def prepare (db : Db) (input : Json) : Except EnqueueError (Plan db) := do
  if !((input.prop "schema").any fun v => v.asInt? = some 1) then
    refuse 400 .invalid_spec "schema must be 1"
  else
    let jobId ← readJobId input
    let workload ← readWorkload input
    checkWorkload js db input workload
    checkSecrets js input
    match resolveLatestBuild js db input with
    | .error message => refuse 400 .no_build message "publish a build for this app first"
    | .ok built =>
      let executor ← readExecutor built
      let lease ← readLease built workload
      let leased := Json.obj (Fields.set built.spread "lease" lease.toJson)
      let priority ← readPriority leased
      checkPreemptible leased
      checkReservation leased
      let deps ← readDependencies db leased jobId
      match validateDepRefs (leased.chars js) deps.ids with
      | some badRef => refuse 400 .invalid_dependency badRef
      | none =>
        let spec ← fillOnArrival js db leased deps.ids
        checkMatch js spec
        checkConflict js db spec
        match spec.prop "job_id" with
        | some (.str job_id) => .ok { spec, job_id, executor, lease, priority, deps }
        | _ => .error (.thrown .typeError)

/-! ## Where it goes -/

section Placement

variable {db : Db}

/-- The predicate the claim uses; a host job's capability is its executor's. -/
def selected (p : Plan db) : Except JsError (List Device) :=
  let pool := target? p.spec "pool"
  let expr := target? p.spec "match"
  match p.executor with
  | .device =>
    matchingDevices js db pool expr (p.spec.prop "workload") (some (backendOf p.spec)) p.spec
  | .host => matchingDevices js db pool expr none none p.spec

/-- What a preview says of a device. -/
def candidate (d : Device) : CandidateDevice where
  device_id := d.device_id
  model := (d.descriptor.prop "model").bind Json.asStr?
  os := (d.descriptor.prop "os").bind Json.asStr?

/-- Reserved devices these targets would otherwise have selected. -/
def reservedLeftOut (p : Plan db) (kept : List Device) : Except JsError (List String) := do
  let workload := if p.executor = .device then p.spec.prop "workload" else none
  let all ← matchingDevices js db (target? p.spec "pool") (target? p.spec "match") workload
    (some (backendOf p.spec)) p.spec true
  let wanted := target? p.spec "device_id"
  .ok (all.filterMap fun d =>
    match db.reservedFor d.device_id with
    | none => none
    | some label =>
      if kept.any (fun k => k.device_id = d.device_id) then none
      else if optTruthy wanted && !(wanted.any fun v => v.isStr d.device_id) then none
      else some (d.device_id ++ " (" ++ label ++ ")"))

/-- The executors that have polled in the last two minutes. -/
def liveExecutors (db : Db) : List String :=
  (db.executors.rows.filter fun e => decide (ageS db e.last_seen ≤ EXECUTOR_LIVE_S)).map (·.name)

/-- A host's job says so when no executor is there for it. -/
def executorWarning (p : Plan db) : List String :=
  let live := liveExecutors db
  if live.isEmpty then ["no host executor has polled in the last two minutes; nothing would claim this"]
  else
    match target? p.spec "executor" with
    | none => []
    | some wanted =>
      if wanted.truthy && !(live.any fun name => wanted.isStr name) then
        ["targets.executor is '" ++ interpolated js wanted ++
          "', which has not polled in the last two minutes (live: " ++ ", ".intercalate live ++ ")"]
      else []

/-- A preview says what the dependencies would do to the job. -/
def dependencyWarning : DepState → List String
  | .queued => []
  | .waiting => ["waiting on depends_on; it starts when those jobs are done"]
  | .failed why => ["a dependency already failed (" ++ why ++ "); the job would be failed at once"]
  | .skipped why => ["a dependency already skipped (" ++ why ++
      "); the job would be skipped at once, since there is nothing for it to run on"]

/-- What would make an otherwise valid job sit in the queue. -/
def warningsFor (p : Plan db) (devices : List Device) : Except JsError (List String) := do
  let held ← reservedLeftOut js p devices
  .ok (dependencyWarning p.state ++
    (if p.executor = .device ∧ devices.isEmpty then
      ["no registered device matches these targets and can run this workload; the job would queue until one does"]
    else []) ++
    (if p.executor = .host then executorWarning js p else []) ++
    (if held.isEmpty then [] else ["left out as reserved for other work: " ++ ", ".intercalate held]) ++
    match p.spec.prop "reservation" with
    | some (.str label) =>
      if label ≠ "" ∧ ¬db.device_reservations.rows.any (fun r => r.label = label) then
        ["no device is reserved for '" ++ label ++ "'; the field only matters on a device that is"]
      else []
    | _ => [])

/-- `String(descriptor[distinct] ?? "")` -/
def distinctKey (field : String) (d : Device) : Except JsError String :=
  Match.textOrEmpty js (Match.member js d.descriptor.spread field)

/-- The first device of each key, in order. -/
def firstOfEach (key : Device → Except JsError String) :
    List String → List Device → Except JsError (List Device)
  | _, [] => .ok []
  | seen, d :: rest => do
    let k ← key d
    if k ∈ seen then firstOfEach key seen rest
    else
      let others ← firstOfEach key (k :: seen) rest
      .ok (d :: others)

/-- The id of a device's part of a job for all of them. -/
def childId (p : Plan db) (d : Device) : String := p.job_id ++ "--" ++ d.device_id

/-- The parent's spec under the child's id, pinned to the device. -/
def childSpec (p : Plan db) (d : Device) : Json :=
  .obj ((Fields.set (Fields.set p.spec.spread "job_id" (.str (childId p d))) "targets"
    (.obj (Fields.set ((targetsOf p.spec).getD .null).spread "device_id" (.str d.device_id)))).filter
      fun f => f.1 ≠ "fanout")

/-- The row an enqueue inserts. -/
def newJob (p : Plan db) (jobId : String) (spec : Json) : Job where
  job_id := jobId
  executor := p.executor
  spec
  status := p.state.status
  created_at := db.sqlNow
  claimed_by := none
  claimed_at := none
  finished_at := if p.state.status.terminal then some db.sqlNow else none
  lease_ttl_s := p.lease.ttl_s
  max_attempts := p.lease.max_attempts
  attempts := 0
  lease_deadline := none
  last_error := p.state.reason?
  priority := p.priority
  depends_on := p.deps.ids

/-- A device's part of it, as a row. -/
def childJob (p : Plan db) (d : Device) : Job := newJob p (childId p d) (childSpec p d)

/-- The rows are inserted one after the other. -/
def insertJobs (db : Db) (rows : List Job) : Db :=
  { db with jobs := rows.foldl Table.insertNew db.jobs }

/-- The devices a fan-out makes a child for. -/
def fanoutDevices (p : Plan db) (fanout : Json) : Except EnqueueError (List Device) := do
  let distinct := fanout.prop "distinct"
  if !(distinct.all fun v => v.asStr?.isSome) then
    refuse 400 .invalid_spec "fanout.distinct must be a descriptor field name"
  else
    let devices ← orThrow (selected js p)
    if devices.isEmpty then
      let held ← orThrow (reservedLeftOut js p devices)
      let clause := fun (before : String) (v : Option Json) =>
        if optTruthy v then before ++ interpolated js (v.getD .null) else ""
      refuse 400 .no_matching_devices ("no registered devices" ++
        clause " in pool " (target? p.spec "pool") ++ clause " matching " (target? p.spec "match") ++
        " can run " ++ interpolated js ((p.spec.prop "workload").getD .null) ++
        (if held.isEmpty then "" else " (left out as reserved: " ++ ", ".intercalate held ++ ")"))
        "list devices with GET /api/v1/devices"
    else
      match distinct.bind Json.asStr? with
      | none => .ok devices
      | some field =>
        if field = "" then .ok devices
        else orThrow (firstOfEach (distinctKey js field) [] devices)

/-- An id is used once. -/
def duplicateJob {α : Type} : Except EnqueueError α :=
  refuse 409 .duplicate_job "job_id already exists" "omit job_id to have one generated"

/-- One child for each device, those whose id is taken left alone. -/
def placeFanout (p : Plan db) (fanout : Json) (dryRun : Bool) :
    Except EnqueueError (Db × EnqueueAccepted) := do
  let devices ← fanoutDevices js p fanout
  if dryRun then
    let warnings ← orThrow (warningsFor js p devices)
    .ok (db, { http := 200, status := p.state.status, job_id := p.job_id,
               fanout := some (devices.map (childId p)),
               preview := some ⟨p.spec, devices.map candidate, warnings⟩ })
  else
    let created := (devices.map (childId p)).filter fun id => !db.jobs.contains id
    .ok (insertJobs db (devices.map (childJob p)),
      { http := 201, status := p.state.status, job_id := p.job_id, fanout := some created,
        preview := none })

/-- A job for whoever claims it is previewed or inserted. -/
def placeOne (p : Plan db) (dryRun : Bool) : Except EnqueueError (Db × EnqueueAccepted) := do
  if db.jobs.contains p.job_id then duplicateJob
  else if dryRun then
    let devices ← orThrow (selected js p)
    let wanted := target? p.spec "device_id"
    let kept := if optTruthy wanted then
      devices.filter fun d => wanted.any fun v => v.isStr d.device_id else devices
    let warnings ← orThrow (warningsFor js p kept)
    .ok (db, { http := 200, status := p.state.status, job_id := p.job_id, fanout := none,
               preview := some ⟨p.spec, kept.map candidate, warnings⟩ })
  else
    .ok (insertJobs db [newJob p p.job_id p.spec],
      { http := 201, status := p.state.status, job_id := p.job_id, fanout := none,
        preview := none })

end Placement

/-- Validate a spec and, unless this is a dry run, put it on the queue. -/
def enqueueJob (db : Db) (input : Json) (dryRun : Bool) :
    Except EnqueueError (Db × EnqueueAccepted) := do
  let p ← prepare js db input
  match p.spec.prop "fanout" with
  | some fanout => if fanout.truthy then placeFanout js p fanout dryRun else placeOne js p dryRun
  | none => placeOne js p dryRun

end FleetRunner
