import FleetRunner.Js.Value
import FleetRunner.Library.Table

/-!
# The database (`db.ts`)

The tables the queue reads and writes. A timestamp column holds seconds, as
SQLite's `datetime('now')` does; the clock itself runs in milliseconds, which
is what `Date` reads.

## Implementation notes

Columns nothing in this development reads are left out (a device's name and
notes, a job's provenance, the beacon history). A JSON column holds the parsed
value: what is stored was written by `JSON.stringify`, so parsing it back gives
the same value. `depends_on` is the list of distinct ids, `[]` for `NULL`.

A column is read back as it was written. `node:sqlite` does not always do that:
it cuts a TEXT at a NUL, and it throws on an INTEGER past the safe integers.
The second is modelled for `attempts` and `max_attempts`, which the sweep reads
(`Job.outOfRange`); that a text holds no NUL, and that an `iter` and a
`priority` are safe integers, is assumed.
-/

namespace FleetRunner

open Library

/-- What a job may be. -/
inductive Status where
  | waiting | queued | claimed | done | failed | cancelled | skipped
  deriving DecidableEq

namespace Status

/-- A status as the column spells it. -/
def text : Status → String
  | .waiting => "waiting"
  | .queued => "queued"
  | .claimed => "claimed"
  | .done => "done"
  | .failed => "failed"
  | .cancelled => "cancelled"
  | .skipped => "skipped"

/-- Nothing is left to happen to the job. -/
def terminal : Status → Bool
  | .done | .failed | .cancelled | .skipped => true
  | _ => false

/-- A dependency that can no longer be satisfied. -/
def broken : Status → Bool
  | .failed | .cancelled | .skipped => true
  | _ => false

/-- Some later request is still due to close the job. -/
def live : Status → Bool
  | .waiting | .queued | .claimed => true
  | _ => false

@[simp] theorem terminal_eq_false_iff {s : Status} : s.terminal = false ↔ s.live = true := by
  cases s <;> simp [terminal, live]

theorem live_of_not_broken {s : Status} (hb : s.broken = false) (hd : s ≠ .done) :
    s.live = true := by
  cases s <;> simp_all [broken, live]

theorem ne_claimed_of_terminal {s : Status} (h : s.terminal = true) : s ≠ .claimed := by
  rintro rfl
  cases h

theorem ne_waiting_of_terminal {s : Status} (h : s.terminal = true) : s ≠ .waiting := by
  rintro rfl
  cases h

end Status

/-- Who claims a job. -/
inductive Executor where
  | device | host
  deriving DecidableEq

/-- A row of `jobs`. -/
structure Job where
  job_id : String
  executor : Executor
  spec : Json
  status : Status
  created_at : Nat
  claimed_by : Option String
  claimed_at : Option Nat
  finished_at : Option Nat
  lease_ttl_s : Nat
  max_attempts : Nat
  attempts : Nat
  lease_deadline : Option Nat
  last_error : Option String
  priority : Int
  depends_on : List String

/-- The last integer that the driver reads out of a column. -/
def MAX_SAFE_INTEGER : Nat := 9007199254740991

/-- Reading the column throws `ERR_OUT_OF_RANGE`. From 2 ^ 63 on it holds a REAL, which is read. -/
def columnOutOfRange (n : Nat) : Bool :=
  decide (MAX_SAFE_INTEGER < n) && decide (n < 9223372036854775808)

/-- A count of this row cannot be read. -/
def Job.outOfRange (r : Job) : Bool :=
  columnOutOfRange r.attempts || columnOutOfRange r.max_attempts

theorem Job.outOfRange_of_safe {r : Job} (ha : r.attempts ≤ MAX_SAFE_INTEGER)
    (hm : r.max_attempts ≤ MAX_SAFE_INTEGER) : r.outOfRange = false := by
  simp [outOfRange, columnOutOfRange, Nat.not_lt.mpr ha, Nat.not_lt.mpr hm]

/-- A row of `devices`. -/
structure Device where
  device_id : String
  descriptor : Json
  pools : Json
  pools_override : Option Json
  capabilities : Option (List String)
  ttl_s : Option Nat
  last_seen : Nat
  last_beacon : Option Json

/-- One row a runner posted. -/
structure Result where
  job_id : String
  device_id : String
  iter : Rat
  payload : Json

/-- Results are one per job, device and iteration. -/
def Result.key (r : Result) : String × String × Rat := (r.job_id, r.device_id, r.iter)

/-- A row of `device_locks`. -/
structure Lock where
  device_id : String
  job_id : String

/-- A row of `reservations`. -/
structure Reservation where
  device_id : String
  label : String

/-- A row of `executors`. -/
structure ExecutorRow where
  name : String
  last_seen : Nat

/-- A row of `artifacts`. -/
structure Artifact where
  sha256 : String
  app : Option String
  build : Option String
  channel : Option String
  publish_seq : Option Nat
  rowid : Nat

/-- The collector's tables and its clock. -/
structure Db where
  /-- milliseconds -/
  now : Nat
  devices : Table Device.device_id
  jobs : Table Job.job_id
  results : Table Result.key
  device_locks : Table Lock.device_id
  device_reservations : Table Reservation.device_id
  executors : Table ExecutorRow.name
  artifacts : Table Artifact.sha256

namespace Db

/-- A collector that has just created its database. -/
def empty : Db where
  now := 0
  devices := .empty
  jobs := .empty
  results := .empty
  device_locks := .empty
  device_reservations := .empty
  executors := .empty
  artifacts := .empty

/-- `datetime('now')` -/
def sqlNow (db : Db) : Nat := db.now / 1000

def device? (db : Db) (id : String) : Option Device := db.devices.find? id

def job? (db : Db) (id : String) : Option Job := db.jobs.find? id

def status? (db : Db) (id : String) : Option Status := (db.job? id).map (·.status)

/-- The job that holds a device's lock. -/
def lockOf (db : Db) (deviceId : String) : Option String :=
  (db.device_locks.find? deviceId).map (·.job_id)

/-- The label a device is reserved for. -/
def reservedFor (db : Db) (deviceId : String) : Option String :=
  (db.device_reservations.find? deviceId).map (·.label)

/-- Rows of a job in the order they were written. -/
def resultsOf (db : Db) (jobId : String) : List Result :=
  db.results.rows.filter fun r => decide (r.job_id = jobId)

/-- `UPDATE jobs SET … WHERE job_id = ?` -/
def updateJob (db : Db) (id : String) (f : Job → Job)
    (hf : ∀ r, (f r).job_id = r.job_id := by intro; rfl) : Db :=
  { db with jobs := db.jobs.update id f hf }

/-- `DELETE FROM device_locks WHERE job_id = ?` -/
def dropLocks (db : Db) (jobId : String) : Db :=
  { db with device_locks := db.device_locks.deleteWhere fun l => decide (l.job_id = jobId) }

@[simp] theorem job?_empty (id : String) : empty.job? id = none := rfl

theorem job?_updateJob (db : Db) (id j : String) (f : Job → Job)
    (hf : ∀ r, (f r).job_id = r.job_id) :
    (db.updateJob id f hf).job? j = if j = id then (db.job? j).map f else db.job? j :=
  Table.find?_update db.jobs id j f hf

@[simp] theorem job?_updateJob_self (db : Db) (id : String) (f : Job → Job)
    (hf : ∀ r, (f r).job_id = r.job_id) :
    (db.updateJob id f hf).job? id = (db.job? id).map f := by
  simp [job?_updateJob]

theorem job?_updateJob_of_ne (db : Db) {id j : String} (h : j ≠ id) (f : Job → Job)
    (hf : ∀ r, (f r).job_id = r.job_id) : (db.updateJob id f hf).job? j = db.job? j := by
  simp [job?_updateJob, h]

@[simp] theorem lockOf_updateJob (db : Db) (id : String) (f : Job → Job)
    (hf : ∀ r, (f r).job_id = r.job_id) (d : String) :
    (db.updateJob id f hf).lockOf d = db.lockOf d := rfl

@[simp] theorem job?_dropLocks (db : Db) (id j : String) : (db.dropLocks id).job? j = db.job? j :=
  rfl

/-- Dropping a job's locks frees exactly the devices it held. -/
theorem lockOf_dropLocks (db : Db) (id d : String) :
    (db.dropLocks id).lockOf d = if db.lockOf d = some id then none else db.lockOf d := by
  change ((db.device_locks.deleteWhere _).find? d).map (·.job_id) = _
  rw [Table.find?_deleteWhere]
  cases h : db.device_locks.find? d with
  | none => simp [lockOf, h]
  | some l => by_cases hl : l.job_id = id <;> simp [lockOf, h, Option.filter, hl]

theorem job_id_of_job? {db : Db} {id : String} {j : Job} (h : db.job? id = some j) :
    j.job_id = id :=
  Table.key_of_find? h

/-- A row a check finds is a row that is there. -/
theorem exists_job_of_any {db : Db} {id : String} {p : Job → Bool}
    (h : (db.job? id).any p = true) : ∃ r, db.job? id = some r ∧ p r = true := by
  cases hr : db.job? id with
  | none => simp [hr] at h
  | some r => exact ⟨r, rfl, by simpa [hr] using h⟩

theorem status?_eq_some {db : Db} {id : String} {s : Status} :
    db.status? id = some s ↔ ∃ j, db.job? id = some j ∧ j.status = s := by
  simp [status?]

end Db

end FleetRunner
