import FleetRunner.Server
import FleetRunner.Library.Runs

/-!
# The collector as a state machine

Every route that writes a table this development models, as one step. A request
that is refused, or that throws, leaves what it had already committed.

## Implementation notes

The clock moves between requests and not during one. A poll is its first
attempt and then any number of further ones, whenever they happen. Uploads
change the artifact table in ways the queue only reads, so that step takes the
new table as it is.
-/

namespace FleetRunner

open Library

/-- What one collector runs with. -/
structure Config where
  js : Js
  collectorId : String
  /-- `FLEET_SIMULATOR_TTL_DAYS`, in seconds -/
  simulatorTtlS : Nat

/-! ## Routes of the dashboard -/

/-- The reason a cancel keeps: its first 500 characters. -/
def clipReason (reason : String) : String := String.ofList (reason.toList.take 500)

/-- `PATCH /api/jobs/:id` -/
def setPriority (db : Db) (id : String) (priority : Int) : Db :=
  db.updateJob id fun r => { r with priority }

/-- `PATCH /api/devices/:id`: an override of pools, or `null` to clear it. -/
def editPools (db : Db) (id : String) (pools : Option (List String)) : Db :=
  { db with devices := db.devices.update id fun d =>
      { d with pools_override := pools.map fun names => .arr (names.map Json.str) } }

/-- `DELETE /api/devices/:id`: refused while the device is in use. -/
def forgetDevice (db : Db) (id : String) : Db :=
  if db.inUse id || (db.device? id).isNone then db
  else
    let gone := db.deleteDevice id
    { gone with device_locks := gone.device_locks.deleteWhere fun l => decide (l.device_id = id) }

/-- `POST /api/devices/:id/release-lock` -/
def forceRelease (db : Db) (id : String) : Db :=
  { db with device_locks := db.device_locks.deleteWhere fun l => decide (l.device_id = id) }

/-- `POST /api/v1/devices/:id/reserve`: another label is a conflict. -/
def reserveDevice (db : Db) (id label : String) : Db :=
  if isReservationLabel label then
    { db with device_reservations := db.device_reservations.insertNew ⟨id, label⟩ }
  else db

/-- `POST /api/v1/devices/:id/unreserve` -/
def unreserveDevice (db : Db) (id : String) : Db :=
  { db with device_reservations :=
      db.device_reservations.deleteWhere fun r => decide (r.device_id = id) }

/-! ## Steps -/

inductive Request where
  | tick (ms : Nat)
  | artifacts (uploaded : Table Artifact.sha256)
  | enqueue (spec : Json)
  | register (body : Json) (refused : Option String)
  | nextJob (device_id : String)
  | executorNextJob (name : String)
  | pollAgain (executor : Executor) (claimant : String)
  | results (body : Json)
  | release (job_id : String) (device_id : Option String)
  | sweep
  | cancel (job_id reason : String)
  | acquireLocks (job_id : String) (device_ids : List String)
  | releaseLocks (job_id : String)
  | setPriority (job_id : String) (priority : Int)
  | editPools (device_id : String) (pools : Option (List String))
  | forgetDevice (device_id : String)
  | forceRelease (device_id : String)
  | reserve (device_id label : String)
  | unreserve (device_id : String)

/-- The timer's pass: leases first, then the registry. -/
def sweepLeases (simulatorTtlS : Nat) (db : Db) : Except JsError Db := do
  let (swept, _) ← sweepLeasesTx db
  .ok (forgetStaleSimulators simulatorTtlS swept).1

variable (cfg : Config)

def step (db : Db) : Request → Db
  | .tick ms => { db with now := db.now + ms }
  | .artifacts uploaded => { db with artifacts := uploaded }
  | .enqueue spec =>
    match enqueueJob cfg.js db spec false with
    | .ok (queued, _) => queued
    | .error _ => db
  | .register body refused =>
    match register db body refused with
    | .ok (registered, _) => registered
    | .error _ => db
  | .nextJob id => nextJob cfg.js cfg.collectorId db id
  | .executorNextJob name => executorNextJob cfg.js cfg.collectorId db name
  | .pollAgain executor claimant => pollAgain cfg.js cfg.collectorId db executor claimant
  | .results body =>
    match postResults cfg.js db body with
    | .ok (posted, _) => posted
    | .error _ => db
  | .release jobId deviceId =>
    match releaseTx db jobId deviceId with
    | .ok (released, _) => released
    | .error _ => db
  | .sweep =>
    match sweepLeases cfg.simulatorTtlS db with
    | .ok swept => swept
    | .error _ => db
  | .cancel jobId reason =>
    match cancelTx cfg.js db jobId (clipReason reason) with
    | .ok (cancelled, _) => cancelled
    | .error _ => db
  | .acquireLocks jobId deviceIds =>
    if jobId = "" then db else (acquireLocksTx db jobId deviceIds).1
  | .releaseLocks jobId => if jobId = "" then db else db.dropLocks jobId
  | .setPriority jobId priority => setPriority db jobId priority
  | .editPools id pools => editPools db id pools
  | .forgetDevice id => forgetDevice db id
  | .forceRelease id => forceRelease db id
  | .reserve id label => reserveDevice db id label
  | .unreserve id => unreserveDevice db id

/-- A collector on a plain engine, to run small examples with. -/
def Config.plain : Config where
  js := .plain
  collectorId := "brain"
  simulatorTtlS := 604800

/-! Bodies as a small client sends them. -/

namespace Sample

def spec (executor id workload : String) (deps : List String) (more : Fields) : Json :=
  .obj ([("schema", .num 1), ("job_id", .str id), ("workload", .str workload),
    ("executor", .str executor), ("depends_on", .arr (deps.map Json.str))] ++ more)

def job (id : String) (deps : List String) (more : Fields) : Json :=
  spec "device" id "batch" deps more

def hostJob (id : String) (more : Fields) : Json := spec "host" id "ui-test" [] more

def registration (deviceId : String) (more : Fields) : Json :=
  .obj (("device_id", .str deviceId) :: more)

def post (kind deviceId jobId : String) (more : Fields) : Json :=
  .obj ([("schema", .num 1), ("kind", .str kind), ("device_id", .str deviceId),
    ("job_id", .str jobId)] ++ more)

/-- A final row that says all went well. -/
def final (deviceId jobId : String) : Json :=
  post "result" deviceId jobId [("final", .bool true), ("ok", .bool true)]

def preempted (deviceId jobId : String) : Json :=
  post "result" deviceId jobId
    [("final", .bool true), ("ok", .bool true), ("preempted", .bool true)]

end Sample

/-- A collector that has answered these requests since its database was new. -/
abbrev after (reqs : List Request) : Db := run (step cfg) .empty reqs

end FleetRunner
