import FleetRunner.DepRefs
import FleetRunner.Shared
import Mathlib.Algebra.BigOperators.Group.List.Basic
import Mathlib.Algebra.GroupWithZero.Nat

/-!
# Dependencies and cancellation (`api/mutations.ts`)

A job that names dependencies waits until the last of them is done. When a job
closes, `settleWaiters` decides every job that was waiting on it: promoted with
its references filled in, failed, or skipped; a waiter that closes settles its
own waiters in turn.

## Implementation notes

The recursion of `settleWaiters` follows the dependency graph. Its depth is a
parameter; `settle` gives it the number of jobs, which is enough because a job
can only name jobs that were there before it (see `Waiters`).

`resolveDepRef` reads the metrics a row has of its own. The source's `metrics[key]` also
finds what every object inherits (`constructor`), and the length of a string or an array
that stands in their place.
-/

namespace FleetRunner

open Library

/-- The final result row a job posted, newest first. -/
def finalResult (db : Db) (jobId : String) : Option Json :=
  ((db.resultsOf jobId).reverse.map (·.payload)).find? fun p => optTruthy (p.prop "final")

def isHexChar (c : Char) : Bool :=
  (decide ('a' ≤ c) && decide (c ≤ 'f')) || (decide ('0' ≤ c) && decide (c ≤ '9'))

/-- A text that is spelled like a digest. -/
def sha256? (v : Json) : Option String :=
  match v with
  | .str s => if s.toList.length = 64 ∧ s.toList.all isHexChar then some s else none
  | _ => none

/-- The first artifact a result row uploaded, under `test.artifacts` or a bare
`artifacts`. -/
def firstArtifactSha (payload : Json) : Option String :=
  match nullish (optProp (payload.prop "test") "artifacts")
      (nullish (payload.prop "artifacts") (.arr [])) with
  | .arr xs => xs.findSome? sha256?
  | _ => none

/-- The value that a reference to a dependency's final row stands for, or why there is none. -/
def resolveDepRef (db : Db) (jobId field : String) : Except String Json :=
  match finalResult db jobId with
  | none => .error (jobId ++ " posted no final result row")
  | some final =>
    if field = "artifact" then
      match firstArtifactSha final with
      | some sha => .ok (.str sha)
      | none => .error (jobId ++ " uploaded no artifact")
    else
      let key := String.ofList (field.toList.drop "metrics.".toList.length)
      match Fields.get? (nullish (final.prop "metrics") (.obj [])).spread key with
      | some v => .ok v
      | none => .error (jobId ++ " reported no metric '" ++ key ++ "'")

/-! ## Checks at enqueue -/

/-- Follow dependencies from the stack; `true` when `jobId` is among them. -/
def dependencyWalk (db : Db) (jobId : String) : Nat → List String → List String → Bool
  | 0, _, _ => false
  | _ + 1, [], _ => false
  | n + 1, cur :: stack, seen =>
    if cur = jobId then true
    else if cur ∈ seen then dependencyWalk db jobId n stack seen
    else
      let more := ((db.job? cur).map (·.depends_on)).getD []
      dependencyWalk db jobId n (more.reverse ++ stack) (cur :: seen)

/-- Every job is expanded once, so this many pops are enough. -/
def walkBound (db : Db) (deps : List String) : Nat :=
  deps.length + (db.jobs.rows.map fun r => r.depends_on.length).sum + 1

/-- Refusals: a cycle, and a dependency that does not exist. -/
def validateDependencies (db : Db) (jobId : String) (deps : List String) : Option String :=
  if dependencyWalk db jobId (walkBound db deps) deps.reverse [] then
    some ("depends_on forms a cycle back to " ++ jobId)
  else
    (deps.find? fun d => !db.jobs.contains d).map fun d =>
      "depends_on names a job that does not exist: " ++ d

theorem contains_of_validateDependencies {db : Db} {jobId : String} {deps : List String}
    (h : validateDependencies db jobId deps = none) : ∀ d ∈ deps, db.jobs.contains d = true := by
  intro d hd
  unfold validateDependencies at h
  split at h
  · cases h
  · rw [Option.map_eq_none_iff, List.find?_eq_none] at h
    simpa using h d hd

/-- A reference may only name a job this one waits for. -/
def validateDepRefs (specJson : List Char) (deps : List String) : Option String :=
  ((depRefs specJson).find? fun ref => !deps.contains ref.job_id).map fun ref =>
    ref.raw ++ " references " ++ ref.job_id ++ ", which is not in depends_on"

/-- What its dependencies make of a new job. -/
inductive DepState where
  | queued
  | waiting
  | failed (reason : String)
  | skipped (reason : String)

/-- The status a job so decided begins with. -/
def DepState.status : DepState → Status
  | .queued => .queued
  | .waiting => .waiting
  | .failed _ => .failed
  | .skipped _ => .skipped

def DepState.reason? : DepState → Option String
  | .failed r => some r
  | .skipped r => some r
  | _ => none

/-- The loop over the dependencies: a failure is final, a skip is remembered. -/
def dependencyStateFrom (db : Db) (allDone : Bool) (skipped : Option String) :
    List String → DepState
  | [] =>
    match skipped with
    | some d => .skipped ("dependency " ++ d ++ " skipped")
    | none => if allDone then .queued else .waiting
  | d :: rest =>
    match db.status? d with
    | some .failed => .failed ("dependency " ++ d ++ " failed")
    | some .cancelled => .failed ("dependency " ++ d ++ " cancelled")
    | some .skipped => dependencyStateFrom db false (skipped.or (some d)) rest
    | some .done => dependencyStateFrom db allDone skipped rest
    | _ => dependencyStateFrom db false skipped rest

/-- What status a job with these dependencies is inserted as. -/
def dependencyState (db : Db) (deps : List String) : DepState :=
  dependencyStateFrom db true none deps

/-! ## Settling waiters -/

/-- What became of the jobs that waited on one. -/
structure DepSettlement where
  promoted : List String
  failed : List (String × String)
  skipped : List (String × String)

def DepSettlement.none : DepSettlement := ⟨[], [], []⟩

/-- Every waiting job that names this one as a dependency. -/
def waitersOn (db : Db) (jobId : String) : List Job :=
  db.jobs.rows.filter fun r => decide (r.status = .waiting) && r.depends_on.contains jobId

/-- What its dependencies make of a job that waited. -/
inductive WaiterVerdict where
  | fail (reason : String)
  | skip (reason : String)
  | wait
  | promote (spec : Json)

/-- `failed`, `cancelled`, or no longer there. -/
def brokenDep (s : Option Status) : Bool :=
  match s with
  | none => true
  | some .failed => true
  | some .cancelled => true
  | _ => false

/-- Why a dependency can no longer come good. -/
def brokenReason (id : String) (s : Option Status) : String :=
  match s with
  | none => "dependency " ++ id ++ " no longer exists"
  | some st => "dependency " ++ id ++ " " ++ st.text

/-- The row of a job that is closed without a result. -/
def closedRow (status : Status) (now : Nat) (reason : String) (r : Job) : Job :=
  { r with status, finished_at := some now, lease_deadline := none, last_error := some reason }

@[simp] theorem closedRow_job_id (status : Status) (now : Nat) (reason : String) (r : Job) :
    (closedRow status now reason r).job_id = r.job_id := rfl

/-- The update `failWaiter` and `skipWaiter` share. -/
def closeWaiter (status : Status) (db : Db) (jobId reason : String) : Db :=
  db.updateJob jobId (closedRow status db.sqlNow reason) (closedRow_job_id _ _ _)

section Settle

variable (js : Js)

/-- What a waiter's dependencies say now. -/
def waiterVerdict (db : Db) (w : Job) : WaiterVerdict :=
  match w.depends_on.find? fun d => brokenDep (db.status? d) with
  | some d => .fail (brokenReason d (db.status? d))
  | none =>
    match w.depends_on.find? fun d => decide (db.status? d = some .skipped) with
    | some d => .skip ("dependency " ++ d ++ " skipped")
    | none =>
      if w.depends_on.all fun d => decide (db.status? d = some .done) then
        let filled := substituteDepRefs js (resolveDepRef db) w.spec
        if filled.2.isEmpty then .promote filled.1
        else .fail ("cannot resolve " ++ "; ".intercalate filled.2)
      else .wait

/-- A waiter is failed for this reason. -/
def failWaiter : Db → String → String → Db := closeWaiter .failed

/-- A waiter is skipped for this reason. -/
def skipWaiter : Db → String → String → Db := closeWaiter .skipped

/-- `UPDATE jobs SET status = 'queued', spec = ?` -/
def promotedRow (spec : Json) (r : Job) : Job := { r with status := .queued, spec }

@[simp] theorem promotedRow_job_id (spec : Json) (r : Job) :
    (promotedRow spec r).job_id = r.job_id := rfl

/-- A waiter gets into the queue, its references filled in. -/
def promoteWaiter (db : Db) (jobId : String) (spec : Json) : Db :=
  db.updateJob jobId (promotedRow spec) (promotedRow_job_id spec)

/-- One waiter: close it and settle its own waiters, leave it, or promote it. -/
def settleOne (settleRest : Db → String → DepSettlement → Db × DepSettlement)
    (s : Db × DepSettlement) (w : Job) : Db × DepSettlement :=
  match waiterVerdict js s.1 w with
  | .fail reason =>
    settleRest (failWaiter s.1 w.job_id reason) w.job_id
      { s.2 with failed := s.2.failed ++ [(w.job_id, reason)] }
  | .skip reason =>
    settleRest (skipWaiter s.1 w.job_id reason) w.job_id
      { s.2 with skipped := s.2.skipped ++ [(w.job_id, reason)] }
  | .wait => s
  | .promote spec =>
    (promoteWaiter s.1 w.job_id spec, { s.2 with promoted := s.2.promoted ++ [w.job_id] })

/-- Resolve everything that was waiting on a job that just closed. -/
def settleWaiters : Nat → Db → String → DepSettlement → Db × DepSettlement
  | 0, db, _, out => (db, out)
  | depth + 1, db, closedJobId, out =>
    (waitersOn db closedJobId).foldl (settleOne js (settleWaiters depth)) (db, out)

/-- `settleWaiters(closedJobId)` as its callers use it. -/
def settle (db : Db) (closedJobId : String) : Db × DepSettlement :=
  settleWaiters js db.jobs.rows.length db closedJobId .none

/-! ## Cancellation -/

/-- The answer to a cancellation. -/
structure Cancelled where
  was : Status
  released : Nat
  settled : DepSettlement

/-- Rows `dropLocks` would delete. -/
def locksHeldBy (db : Db) (jobId : String) : Nat :=
  (db.device_locks.rows.filter fun l => decide (l.job_id = jobId)).length

/-- Refused with a code and a text, or the database after and what it did. -/
def cancelTx (db : Db) (jobId reason : String) : Except (Nat × String) (Db × Cancelled) :=
  match db.job? jobId with
  | none => .error (404, "not found")
  | some job =>
    if !job.status.live then .error (409, "job is already " ++ job.status.text)
    else
      let closed := closeWaiter .cancelled db jobId reason
      let (settledDb, settled) := settle js (closed.dropLocks jobId) jobId
      .ok (settledDb, { was := job.status, released := locksHeldBy closed jobId, settled })

end Settle

end FleetRunner
