import FleetRunner.Hygiene
import FleetRunner.Queue
import FleetRunner.Skip
import Mathlib.Data.List.Sort

/-!
# The protocol (`server.ts`)

Who a job may go to, how it is claimed, and what a runner's posts do to it.
Each transaction of the source is a function from one database to the next.

## Implementation notes

A `device_id`, a `job_id` and an `iter` have the type the request declares, and
a request that sends another type there is refused here. The code takes some of
them: it stores a text as the `iter` and a number as the `device_id` or the
`job_id` of a post, as the column converts them, and closes the job; and it
registers a number or an object as a `device_id`. Such requests are left out.
`attempts` is a natural number, so `attempts - 1` is `MAX(attempts - 1, 0)`.
-/

namespace FleetRunner

open Library

/-- Beacons older than three minutes are not believed. -/
def BEACON_TRUST_S : Nat := 180

def MAX_DEVICE_TTL_S : Nat := 86400

variable (js : Js)

/-! ## Constraints and beacons -/

/-- `lastBeacon?.beacon ?? lastBeacon` -/
def beaconSample (lastBeacon : Option Json) : Option Json :=
  lastBeacon.map fun b => nullish (b.prop "beacon") b

/-- `beaconAgeS !== null && beaconAgeS > BEACON_TRUST_S` -/
def beaconStale (age : Option Nat) : Bool := age.any fun a => decide (BEACON_TRUST_S < a)

/-- The hour a window is read at: local, or shifted by the offset it names and
then read as UTC. A shift out of a `Date`'s range has no hour. -/
def windowHour (now : Nat) (offsetMin : Option Json) : Option Rat :=
  match offsetMin with
  | some (.num off) =>
    let shifted : Rat := now + off * 60000
    let ms := if shifted < 0 then -(-shifted).floor else shifted.floor
    if 8640000000000000 < ms.natAbs then none else some (ms / 3600000 % 24 : Int)
  | _ => some (js.localHour now)

/-- `from` past `to` is a window that crosses midnight. -/
def insideHours (start stop hour : Rat) : Bool :=
  if start ≤ stop then decide (start ≤ hour) && decide (hour < stop)
  else decide (start ≤ hour) || decide (hour < stop)

/-- Is the hour now inside the window that the job asks for? -/
def insideWindow (now : Nat) (window : Option Json) : Bool :=
  match optProp window "from", optProp window "to" with
  | some (.num start), some (.num stop) =>
    (windowHour js now (optProp window "tz_offset_min")).any (insideHours start stop)
  | _, _ => true

/-- A bound that the constraints set. -/
def wantsNumber (constraints : Option Json) (k : String) : Option Rat :=
  (optProp constraints k).bind Json.asNum?

/-- A reading the sample must have as a finite number, within the limit. -/
def readingOk (sample : Json) (k : String) (ok : Rat → Bool) : Except JsError Bool :=
  match (optVal (sample.prop k)).number js with
  | .ok (.fin q) => .ok (ok q)
  | .ok _ => .ok false
  | .error e => .error e

/-- Does the sample say that the device is on mains? -/
def onPower (sample : Json) : Bool :=
  (sample.prop "on_ac").any Json.isTrue || (sample.prop "charging").any Json.isTrue

/-- What the constraints ask of the sample itself. -/
def sampleSatisfies (constraints : Option Json) (sample : Json) : Except JsError Bool :=
  ifSo (.ok (!(optProp constraints "require_ac").any Json.isTrue || onPower sample)) <|
  ifSo (match wantsNumber constraints "require_idle_s" with
    | none => .ok true
    | some want => readingOk js sample "idle_s" fun idle => decide (want ≤ idle)) <|
  match wantsNumber constraints "max_load" with
  | none => .ok true
  | some most => readingOk js sample "load_1m" fun load => decide (load ≤ most)

/-- Do the constraints ask for anything only a beacon can show? -/
def readsBeacon (constraints : Option Json) : Bool :=
  (optProp constraints "require_ac").any Json.isTrue ||
    (wantsNumber constraints "require_idle_s").isSome ||
    (wantsNumber constraints "max_load").isSome

/-- Does what the device last said of itself meet the job's constraints? -/
def constraintsSatisfied (constraints lastBeacon : Option Json) (age : Option Nat) (now : Nat) :
    Except JsError Bool :=
  if !optTruthy constraints then .ok true
  else if !insideWindow js now (optProp constraints "window") then .ok false
  else if !readsBeacon constraints then .ok true
  else
    -- no beacon means no claim, and a stale one is no beacon
    match beaconSample lastBeacon with
    | none => .ok false
    | some sample =>
      if !sample.truthy || beaconStale age then .ok false
      else sampleSatisfies js constraints sample

/-- What a device says of a job it runs for another collector. -/
structure Busy where
  job_id : Option String
  collector : Option String
  deriving DecidableEq

def isObjectOrArray : Json → Bool
  | .obj _ => true
  | .arr _ => true
  | _ => false

/-- What a beacon says about work for another collector. -/
def foreignBusy (beacon : Option Json) (myCollectorId : String) : Option Busy :=
  match optProp (beaconSample beacon) "busy" with
  | none => none
  | some busy =>
    if !isObjectOrArray busy then none
    else
      let collector := (busy.prop "collector").bind Json.asStr?
      if collector = some myCollectorId then none
      else some ⟨(busy.prop "job_id").bind Json.asStr?, collector⟩

/-- Is this device running a job for a different collector? A stale beacon
does not block. -/
def busyElsewhere (beacon : Option Json) (age : Option Nat) (myCollectorId : String) :
    Option Busy :=
  if beaconStale age then none else foreignBusy beacon myCollectorId

/-! ## Eligibility -/

/-- Everything about a claimant a spec is judged against. -/
structure ClaimantContext where
  executor : Executor
  claimant : String
  pools : Json
  capabilities : Option (List String)
  descriptor : Fields
  beacon : Option Json
  beaconAgeS : Option Nat
  reservedFor : Option String

/-- A claimant of which nothing is known. -/
def emptyContext (executor : Executor) (claimant : String) : ClaimantContext where
  executor
  claimant
  pools := .arr []
  capabilities := none
  descriptor := []
  beacon := none
  beaconAgeS := none
  reservedFor := none

/-- The context of a device that has a row. -/
def deviceContext (db : Db) (d : Device) : ClaimantContext where
  executor := .device
  claimant := d.device_id
  pools := effectivePools d
  capabilities := deviceCapabilities d
  descriptor := fullDescriptor d
  beacon := d.last_beacon
  beaconAgeS := some (ageS db d.last_seen)
  reservedFor := db.reservedFor d.device_id

/-- What the registry knows of a claimant. -/
def claimantContext (db : Db) (executor : Executor) (claimant : String) : ClaimantContext :=
  match executor with
  | .host => emptyContext .host claimant
  | .device =>
    match db.device? claimant with
    | none => emptyContext .device claimant
    | some d => deviceContext db d

/-- `!(spec.targets?.device_id && spec.targets.device_id !== id)` -/
def pinAllows (spec : Json) (deviceId : String) : Bool :=
  match target? spec "device_id" with
  | none => true
  | some v => if v.truthy then v.isStr deviceId else true

/-- `json_extract(descriptor, '$.attached_to') IS NOT NULL` -/
def isAttached (d : Device) : Bool :=
  match d.descriptor.prop "attached_to" with
  | none => false
  | some .null => false
  | some _ => true

/-- The host that a device is attached to. -/
def attachedTo? (d : Device) : Option String := (d.descriptor.prop "attached_to").bind Json.asStr?

/-- Does this device draw the job to the executor it is attached to? Judged on
the descriptor as it was registered. -/
def drawsJob (db : Db) (spec : Json) (d : Device) : Bool :=
  isAttached d && decide (ageS db d.last_seen ≤ ONLINE_S) && pinAllows spec d.device_id &&
    reservationAllows js spec d.device_id (db.reservedFor d.device_id) d.descriptor.spread &&
    matchAllows js (target? spec "match")
      (Fields.set d.descriptor.spread "device_id" (.str d.device_id))

/-- Which executors hold an online device this host job could run on. -/
def executorsHolding (db : Db) (spec : Json) : List String :=
  (db.devices.rows.filter (drawsJob js db spec)).filterMap attachedTo?

/-- Would this claimant be handed this spec if it asked right now? -/
def specEligibleFor (db : Db) (ctx : ClaimantContext) (spec : Json) : Except JsError Bool :=
  match ctx.executor with
  | .host =>
    match target? spec "executor" with
    | some e =>
      if e.truthy then .ok (e.isStr ctx.claimant)
      else .ok ((executorsHolding js db spec).isEmpty ||
        (executorsHolding js db spec).contains ctx.claimant)
    | none =>
      .ok ((executorsHolding js db spec).isEmpty ||
        (executorsHolding js db spec).contains ctx.claimant)
  | .device =>
    ifSo (.ok (pinAllows spec ctx.claimant)) <|
    ifSo (.ok (reservationAllows js spec ctx.claimant ctx.reservedFor ctx.descriptor)) <|
    ifSo (inPool js ctx.pools (target? spec "pool")) <|
    ifSo (capabilityMatches js ctx.capabilities ((spec.prop "workload").getD .null)
      (backendOf spec)) <|
    ifSo (constraintsSatisfied js (spec.prop "constraints") ctx.beacon ctx.beaconAgeS db.now) <|
    .ok (matchAllows js (target? spec "match") ctx.descriptor)

/-! ## Claims -/

/-- `ORDER BY priority DESC, created_at` -/
def claimOrder (a b : Job) : Prop :=
  b.priority < a.priority ∨ a.priority = b.priority ∧ a.created_at ≤ b.created_at

instance : DecidableRel claimOrder := fun a b => by unfold claimOrder; infer_instance

/-- Queued jobs of one kind, in the order they are offered. -/
def queuedFor (db : Db) (executor : Executor) : List Job :=
  (db.jobs.rows.filter fun r => decide (r.status = .queued ∧ r.executor = executor)).insertionSort
    claimOrder

/-- The row of a job once it is claimed. -/
def claimRow (now : Nat) (claimant : String) (r : Job) : Job :=
  { r with status := .claimed, claimed_by := some claimant, claimed_at := some now,
           attempts := r.attempts + 1, lease_deadline := some (now + r.lease_ttl_s) }

@[simp] theorem claimRow_job_id (now : Nat) (claimant : String) (r : Job) :
    (claimRow now claimant r).job_id = r.job_id := rfl

/-- `INSERT OR REPLACE INTO device_locks` -/
def lockDevice (db : Db) (deviceId jobId : String) : Db :=
  { db with device_locks := db.device_locks.replace ⟨deviceId, jobId⟩ }

/-- The row is marked, and a device's own claim locks it. -/
def grantClaim (db : Db) (executor : Executor) (claimant jobId : String) : Db :=
  let claimed := db.updateJob jobId (claimRow db.sqlNow claimant) (claimRow_job_id _ _)
  match executor with
  | .device => lockDevice claimed claimant jobId
  | .host => claimed

/-- Claim the first queued job this claimant is eligible for. -/
def claimTx (myCollectorId : String) (db : Db) (executor : Executor) (claimant : String) :
    Except JsError (Db × Option Json) :=
  let ctx := claimantContext db executor claimant
  if executor = .device ∧ ((db.lockOf claimant).isSome ∨
      (busyElsewhere ctx.beacon ctx.beaconAgeS myCollectorId).isSome) then .ok (db, none)
  else
    match findE (fun r => specEligibleFor js db ctx r.spec) (queuedFor db executor) with
    | .error e => .error e
    | .ok none => .ok (db, none)
    | .ok (some r) => .ok (grantClaim db executor claimant r.job_id, some r.spec)

/-- Is there queued work that outranks this claim and would go to the same
claimant? A candidate that throws is no candidate. -/
def preemptionPending (db : Db) (job : Job) : Bool :=
  match job.claimed_by with
  | none => false
  | some holder =>
    if holder = "" ∨ !(job.spec.prop "preemptible").any Json.isTrue then false
    else
      let ctx := claimantContext db job.executor holder
      (queuedFor db job.executor).any fun r =>
        decide (job.priority < r.priority) &&
          (match specEligibleFor js db ctx r.spec with
          | .ok b => b
          | .error _ => false)

/-! ## Leases -/

/-- A job whose lease was taken back. -/
structure SweptJob where
  job_id : String
  claimed_by : Option String
  attempts : Nat
  deriving DecidableEq

/-- What a sweep did. -/
structure Swept where
  requeued : List SweptJob
  failed : List SweptJob

/-- A claim whose lease lapsed. -/
def leaseLapsed (now : Nat) (r : Job) : Bool :=
  decide (r.status = .claimed) && r.lease_deadline.any fun t => decide (t ≤ now)

def attemptsText (r : Job) : String := toString r.attempts ++ "/" ++ toString r.max_attempts

/-- Back into the queue, for another attempt. -/
def requeueSwept (r : Job) (who : String) : Job :=
  { r with status := .queued, claimed_by := none, claimed_at := none, lease_deadline := none,
           last_error := some ("lease expired on " ++ who ++ "; requeued after attempt " ++
             attemptsText r) }

/-- The last attempt is over. -/
def giveUp (now : Nat) (r : Job) (who : String) : Job :=
  { r with status := .failed, finished_at := some now, lease_deadline := none,
           last_error := some ("lease expired on " ++ who ++ "; gave up after " ++
             attemptsText r ++ " attempts") }

/-- What the sweep makes of one lapsed claim. -/
def sweepRow (now : Nat) (r : Job) : Job :=
  let who := r.claimed_by.getD "unknown claimant"
  if r.max_attempts ≤ r.attempts then giveUp now r who else requeueSwept r who

@[simp] theorem sweepRow_job_id (now : Nat) (r : Job) : (sweepRow now r).job_id = r.job_id := by
  unfold sweepRow
  split <;> rfl

theorem sweepRow_status (now : Nat) (r : Job) :
    (sweepRow now r).status = if r.max_attempts ≤ r.attempts then .failed else .queued := by
  unfold sweepRow
  simp only
  split <;> rfl

/-- A swept row is not claimed any more. -/
theorem sweepRow_status_ne (now : Nat) (r : Job) : (sweepRow now r).status ≠ .claimed := by
  rw [sweepRow_status]
  split <;> simp

/-- One lapsed claim: its locks go, and it is requeued or given up. -/
def sweepOne (s : Db × Swept) (job : Job) : Db × Swept :=
  let swept := (s.1.updateJob job.job_id (sweepRow s.1.sqlNow) (sweepRow_job_id _)).dropLocks job.job_id
  let entry : SweptJob := ⟨job.job_id, job.claimed_by, job.attempts⟩
  if job.max_attempts ≤ job.attempts then (swept, { s.2 with failed := s.2.failed ++ [entry] })
  else (swept, { s.2 with requeued := s.2.requeued ++ [entry] })

/-- Requeue claims whose lease lapsed; give up on jobs that burned all attempts.
The rows are read before any is written, and one that cannot be read throws. -/
def sweepLeasesTx (db : Db) : Except JsError (Db × Swept) :=
  let expired := db.jobs.rows.filter (leaseLapsed db.sqlNow)
  if expired.any Job.outOfRange then .error (.error "ERR_OUT_OF_RANGE")
  else .ok (expired.foldl sweepOne (db, ⟨[], []⟩))

/-! ## Handing back, preempting, closing -/

/-- The row of a job its runner handed back. -/
def releaseRow (r : Job) : Job :=
  { r with status := .queued, claimed_by := none, claimed_at := none, lease_deadline := none,
           attempts := r.attempts - 1,
           last_error := some ("released by " ++ r.claimed_by.getD "the claimant" ++
             " before starting") }

@[simp] theorem releaseRow_job_id (r : Job) : (releaseRow r).job_id = r.job_id := rfl

/-- Hand a claimed job back, before doing any of it. -/
def releaseTx (db : Db) (jobId : String) (claimant : Option String) :
    Except String (Db × Option String) :=
  match db.job? jobId with
  | none => .error "no such job"
  | some job =>
    if job.status ≠ .claimed then .error ("job is " ++ job.status.text ++ ", not claimed")
    else if claimant.isSome ∧ job.claimed_by.isSome ∧ job.claimed_by ≠ claimant then
      .error ("job is claimed by " ++ job.claimed_by.getD "")
    else if !(db.resultsOf jobId).isEmpty then
      .error "results have already been posted for this job"
    else .ok ((db.updateJob jobId releaseRow releaseRow_job_id).dropLocks jobId, job.claimed_by)

namespace Closing

def status : Closing → Status
  | .failed _ => .failed
  | .done => .done
  | .skipped _ => .skipped

def reason? : Closing → Option String
  | .failed r => r
  | .done => none
  | .skipped r => some r

theorem terminal_status (c : Closing) : c.status.terminal = true := by
  cases c <;> rfl

end Closing

/-- The row of a job its final row closed. -/
def closeRow (now : Nat) (closing : Closing) (r : Job) : Job :=
  { r with status := closing.status, finished_at := some now, lease_deadline := none,
           last_error := closing.reason?.or r.last_error }

@[simp] theorem closeRow_job_id (now : Nat) (closing : Closing) (r : Job) :
    (closeRow now closing r).job_id = r.job_id := rfl

@[simp] theorem closeRow_terminal (now : Nat) (closing : Closing) (r : Job) :
    (closeRow now closing r).status.terminal = true := closing.terminal_status

/-- Close a job and settle whatever was queued behind it, in one write. -/
def closeJobTx (db : Db) (jobId : String) (closing : Closing) : Db × DepSettlement :=
  settle js
    ((db.updateJob jobId (closeRow db.sqlNow closing) (closeRow_job_id _ _)).dropLocks jobId) jobId

/-- `params.resume_from` of a job that checkpointed before it stood aside. -/
def resumeSpec (spec : Json) (resumeFrom : Option String) : Json :=
  match resumeFrom with
  | none => spec
  | some sha =>
    .obj (Fields.set spec.spread "params"
      (.obj (Fields.set (nullish (spec.prop "params") (.obj [])).spread "resume_from" (.str sha))))

/-- A preempted attempt does not count, and the next one resumes from its checkpoint. -/
def preemptRow (resumeFrom : Option String) (r : Job) : Job :=
  { r with status := .queued, claimed_by := none, claimed_at := none, finished_at := none,
           lease_deadline := none, attempts := r.attempts - 1,
           spec := resumeSpec r.spec resumeFrom,
           last_error := some ("preempted on " ++ r.claimed_by.getD "unknown claimant" ++
             "; requeued" ++
             match resumeFrom with
             | some sha => " to resume from " ++ String.ofList (sha.toList.take 12)
             | none => " with no checkpoint") }

@[simp] theorem preemptRow_job_id (resumeFrom : Option String) (r : Job) :
    (preemptRow resumeFrom r).job_id = r.job_id := rfl

/-- Put a preempted job back on the queue; `none` when it is not claimed. -/
def requeuePreemptedTx (db : Db) (jobId : String) (finalRow : Json) : Option (Db × Option String) :=
  match db.job? jobId with
  | none => none
  | some row =>
    if row.status ≠ .claimed then none
    else
      let resumeFrom := firstArtifactSha finalRow
      some ((db.updateJob jobId (preemptRow resumeFrom) (preemptRow_job_id _)).dropLocks jobId,
        resumeFrom)

/-! ## Posts -/

/-- `UPDATE devices SET last_seen = datetime('now')` -/
def touchDevice (db : Db) (deviceId : String) : Db :=
  { db with devices := db.devices.update deviceId fun d => { d with last_seen := db.sqlNow } }

/-- A beacon is kept as the device's last and is a sign of life. -/
def recordBeacon (db : Db) (deviceId : String) (b : Json) : Db :=
  { db with devices := db.devices.update deviceId fun d =>
      { d with last_beacon := some b, last_seen := db.sqlNow } }

/-- A beacon that carries a job pushes its lease out. -/
def renewRow (now : Nat) (r : Job) : Job :=
  if r.status = .claimed then { r with lease_deadline := some (now + r.lease_ttl_s) } else r

@[simp] theorem renewRow_job_id (now : Nat) (r : Job) : (renewRow now r).job_id = r.job_id := by
  unfold renewRow
  split <;> rfl

@[simp] theorem renewRow_status (now : Nat) (r : Job) : (renewRow now r).status = r.status := by
  unfold renewRow
  split <;> rfl

@[simp] theorem renewRow_executor (now : Nat) (r : Job) :
    (renewRow now r).executor = r.executor := by
  unfold renewRow
  split <;> rfl

@[simp] theorem renewRow_claimed_by (now : Nat) (r : Job) :
    (renewRow now r).claimed_by = r.claimed_by := by
  unfold renewRow
  split <;> rfl

@[simp] theorem renewRow_attempts (now : Nat) (r : Job) :
    (renewRow now r).attempts = r.attempts := by
  unfold renewRow
  split <;> rfl

@[simp] theorem renewRow_spec (now : Nat) (r : Job) : (renewRow now r).spec = r.spec := by
  unfold renewRow
  split <;> rfl

/-- Pushes the lease of the job out, if somebody holds it. -/
def renewLease (db : Db) (jobId : String) : Db :=
  db.updateJob jobId (renewRow db.sqlNow) (renewRow_job_id _)

/-- What the collector answers a post. -/
inductive PostReply where
  | beacon (lease_renewed preempt : Bool)
  | recorded
  | preempted (resume_from : Option String)
  | closed (status : Status) (settled : DepSettlement)

/-- A field declared a string, when it holds one that is not empty. -/
def textField? (b : Json) (k : String) : Option String :=
  match b.prop k with
  | some (.str s) => if s = "" then none else some s
  | _ => none

/-- A beacon is kept, and says whether the job it carries is still claimed. -/
def postBeacon (db : Db) (deviceId : String) (b : Json) : Db × PostReply :=
  let seen := recordBeacon db deviceId b
  match textField? b "job_id" with
  | none => (seen, .beacon false false)
  | some jobId =>
    let renewed := renewLease seen jobId
    match renewed.job? jobId with
    | none => (renewed, .beacon false false)
    | some job =>
      if job.status = .claimed then (renewed, .beacon true (preemptionPending js renewed job))
      else (renewed, .beacon false false)

/-- `ORDER BY iter, rowid` -/
def rowsOf (db : Db) (jobId : String) : List ResultRow :=
  ((db.resultsOf jobId).insertionSort fun a b => a.iter ≤ b.iter).map fun r =>
    ⟨r.device_id, r.payload⟩

/-- Idempotent by job, device and iteration: a retried post overwrites. -/
def recordResult (db : Db) (jobId deviceId : String) (iter : Rat) (b : Json) : Db :=
  touchDevice { db with results := db.results.replace ⟨jobId, deviceId, iter, b⟩ } deviceId

/-- The close a final row brings about, judged over every row the job posted. -/
def finalClosing (db : Db) (jobId : String) (b : Json) : Closing :=
  closingStatus (rowsOf db jobId) b

/-- A final row closes its job and settles what waited on it. -/
def closeFinal (db : Db) (jobId : String) (b : Json) : Db × PostReply :=
  let closing := finalClosing db jobId b
  let (closed, settled) := closeJobTx js db jobId closing
  (closed, .closed closing.status settled)

/-- Does the row say that the device stood aside? -/
def isPreempted (b : Json) : Bool := (b.prop "preempted").any Json.isTrue

/-- What a final row does once it is recorded. A preempted job that is not
claimed any more is closed the ordinary way. -/
def postFinal (db : Db) (jobId : String) (b : Json) : Db × PostReply :=
  if isPreempted b then
    match requeuePreemptedTx db jobId b with
    | some (requeued, resumeFrom) => (requeued, .preempted resumeFrom)
    | none => closeFinal js db jobId b
  else closeFinal js db jobId b

/-- The fields of a result row the collector reads. -/
structure ResultPost where
  job_id : String
  device_id : String
  iter : Rat
  final : Bool
  body : Json

/-- The iteration a row is for, zero when it says nothing. -/
def iterOf (b : Json) : Except JsError Rat :=
  match nullish (b.prop "iter") (.num 0) with
  | .num q => .ok q
  | _ => .error .typeError

/-- A row is recorded, and a final one closes its job. -/
def postResult (db : Db) (p : ResultPost) : Db × PostReply :=
  let recorded := recordResult db p.job_id p.device_id p.iter p.body
  if p.final then postFinal js recorded p.job_id p.body else (recorded, .recorded)

/-- What a body is read as. -/
inductive Post where
  | beacon (device_id : String) (body : Json)
  | result (p : ResultPost)

/-- What a body posted to `/results` is, or why it is refused. -/
def readPost (b : Json) : Except (Nat × String) Post :=
  if !((b.prop "schema").any fun v => v.asInt? = some 1) then .error (400, "schema must be 1")
  else
    match textField? b "device_id" with
    | none => .error (400, "device_id required")
    | some deviceId =>
      if (b.prop "kind").any (fun v => v.isStr "beacon") then .ok (.beacon deviceId b)
      else if !(b.prop "kind").any (fun v => v.isStr "result") then
        .error (400, "kind must be 'result' or 'beacon'")
      else
        match textField? b "job_id" with
        | none => .error (400, "job_id required for kind=result")
        | some jobId =>
          match iterOf b with
          | .error _ => .error (500, "iter")
          | .ok iter => .ok (.result
              { job_id := jobId, device_id := deviceId, iter, final := optTruthy (b.prop "final"),
                body := b })

/-- `POST /results` -/
def postResults (db : Db) (b : Json) : Except (Nat × String) (Db × PostReply) :=
  match readPost b with
  | .error e => .error e
  | .ok (.beacon deviceId body) => .ok (postBeacon js db deviceId body)
  | .ok (.result p) => .ok (postResult js db p)

/-! ## Registration and polls -/

/-- The fields of a registration that passed its checks. -/
structure Registration where
  device_id : String
  descriptor : Json
  pools : Json
  capabilities : Option (List String)
  ttl_s : Option Nat

/-- How long a registration is to be remembered, if it says so. -/
def readTtl (b : Json) : Except (Nat × String) (Option Nat) :=
  match b.prop "ttl_s" with
  | none => .ok none
  | some v =>
    match v.asInt? with
    | some n =>
      if n < 1 ∨ (MAX_DEVICE_TTL_S : Int) < n then
        .error (400, "ttl_s must be an integer between 1 and 86400")
      else .ok (some n.toNat)
    | none => .error (400, "ttl_s must be an integer between 1 and 86400")

/-- The capabilities a registration lists, if it lists any. -/
def readCapabilities (b : Json) : Except (Nat × String) (Option (List String)) :=
  match b.prop "capabilities" with
  | none => .ok none
  | some v =>
    match v.asStrings? with
    | some names => .ok (some names)
    | none => .error (400, "capabilities must be an array of strings")

/-- A body is read as a registration, or refused. -/
def readRegistration (b : Json) : Except (Nat × String) Registration :=
  match textField? b "device_id" with
  | none => .error (400, "device_id required")
  | some device_id => do
    let ttl_s ← readTtl b
    let capabilities ← readCapabilities b
    .ok { device_id, ttl_s, capabilities, descriptor := nullish (b.prop "descriptor") (.obj []),
          pools := nullish (b.prop "pools") (.arr []) }

/-- A field the agent does not send keeps what it declared last. -/
def refreshDevice (now : Nat) (g : Registration) (d : Device) : Device :=
  { d with descriptor := g.descriptor, pools := g.pools, last_seen := now,
           capabilities := g.capabilities.or d.capabilities, ttl_s := g.ttl_s.or d.ttl_s }

/-- The row of a device that was not known. -/
def newDevice (now : Nat) (g : Registration) : Device where
  device_id := g.device_id
  descriptor := g.descriptor
  pools := g.pools
  pools_override := none
  capabilities := g.capabilities
  ttl_s := g.ttl_s
  last_seen := now
  last_beacon := none

/-- Registers a device, or refreshes its row. -/
def upsertDevice (db : Db) (g : Registration) : Db :=
  if db.devices.contains g.device_id then
    { db with devices := db.devices.update g.device_id (refreshDevice db.sqlNow g) }
  else { db with devices := db.devices.insertNew (newDevice db.sqlNow g) }

/-- `POST /devices/register`; `refused` is the allowlist's answer, when it has one. -/
def register (db : Db) (b : Json) (refused : Option String) :
    Except (Nat × String) (Db × Option String) := do
  let g ← readRegistration b
  match refused with
  | some why => .error (403, "registration refused: " ++ why)
  | none => .ok (retireRokuIpDuplicate (upsertDevice db g) g.device_id g.descriptor)

/-- `GET /devices/:id/next-job`: a sign of life and the poll's first attempt. -/
def nextJob (myCollectorId : String) (db : Db) (id : String) : Db :=
  if (db.device? id).isNone then db
  else
    let seen := touchDevice db id
    match claimTx js myCollectorId seen .device id with
    | .ok (claimed, _) => claimed
    | .error _ => seen

/-- `GET /executor/next-job` -/
def executorNextJob (myCollectorId : String) (db : Db) (name : String) : Db :=
  let rows := (db.executors.insertNew ⟨name, db.sqlNow⟩).update name fun e =>
    { e with last_seen := db.sqlNow }
  let seen := { db with executors := rows }
  match claimTx js myCollectorId seen .host name with
  | .ok (claimed, _) => claimed
  | .error _ => seen

/-- Another attempt of a poll that is still open. -/
def pollAgain (myCollectorId : String) (db : Db) (executor : Executor) (claimant : String) : Db :=
  match claimTx js myCollectorId db executor claimant with
  | .ok (claimed, _) => claimed
  | .error _ => db

/-! ## Device locks -/

/-- Which devices a host got for its job, and which it did not. -/
structure LockOutcome where
  granted : List String
  denied : List String

/-- A free device is locked for the job; one the job holds already is granted again. -/
def acquireOne (jobId : String) (s : Db × LockOutcome) (id : String) : Db × LockOutcome :=
  match s.1.lockOf id with
  | none => (lockDevice s.1 id jobId, { s.2 with granted := s.2.granted ++ [id] })
  | some holder =>
    if holder = jobId then (lockDevice s.1 id jobId, { s.2 with granted := s.2.granted ++ [id] })
    else (s.1, { s.2 with denied := s.2.denied ++ [id] })

/-- The devices are locked one by one, in the order asked. -/
def acquireLocksTx (db : Db) (jobId : String) (deviceIds : List String) : Db × LockOutcome :=
  deviceIds.foldl (acquireOne jobId) (db, ⟨[], []⟩)

end FleetRunner
