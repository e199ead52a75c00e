import FleetRunner.Findings.Store

/-!
# Verdicts and regression tests (`findings.ts`, T4 and LOOP Phase 4)

A person's verdict is kept in a history and moves the finding's regression
test: real keeps the replay flow as a candidate, fixed makes it active, any
other verdict retires it. A regression run that reproduces the failure reopens
the finding.

## Implementation notes

What the artifact store answers is a parameter of each verdict.
-/

namespace FleetRunner

open Library

/-- The flow text for a sha, or `none` when the store does not have it. -/
abbrev ReadArtifact := String → Option String

structure Who where
  actor : Option String
  source : Option String

/-- Why a verdict or a report is refused. -/
structure FindingError where
  status : Nat
  error : String
  hint : Option String

/-! ## Regression tests -/

/-- The replay's own hash, or the artifact a crash posts without counts. -/
def flowShaOf (f : FindingRow) : Option String :=
  (f.replay.bind (·.sha256)).or f.artifacts.replay

def flowKind (f : FindingRow) (text : String) : RegressionKind :=
  match f.replay.map Replay.kind with
  | some ReplayKind.tvloop => .tvloop
  | some ReplayKind.maestro => .maestro
  | _ =>
    if (text.toList.dropWhile isJsSpace).head? = some (Char.ofNat 123) then .tvloop else .maestro

def newRegression (now : Nat) (f : FindingRow) (state : RegressionState) (sha text : String) :
    RegressionRow where
  finding_id := f.id
  app := f.app
  platform := f.platform
  check_name := f.check_name
  kind := flowKind f text
  flow := text
  flow_sha256 := some sha
  state := state
  created_at := now
  activated_at := if state = .active then some now else none
  retired_at := none
  runs := 0
  last_run_at := none
  last_job_id := none
  last_outcome := none
  last_detail := none

def activeSentence (f : FindingRow) : String :=
  "its replay flow is now an active regression test in " ++ f.app ++ "'s nightly ui-test"

/-- Copy the finding's replay flow into the regressions table, or say why not. -/
def keepFlow (db : FindingsDb) (f : FindingRow) (state : RegressionState) (read : ReadArtifact) :
    FindingsDb × String :=
  match heldHash? (flowShaOf f) with
  | none =>
    (db, "no replay flow was posted with this finding, so there is nothing to keep as a test")
  | some sha =>
    if f.replay.any fun r => decide (r.kind = .none) then
      (db, "the replay was not a file (kind none), so there is nothing to keep as a test")
    else
      match read sha with
      | none =>
        (db, "the replay flow " ++ String.ofList (sha.toList.take 12) ++
          " is not in the artifact store (collected, or over 65536 bytes)")
      | some text =>
        ({ db with regressions :=
            db.regressions.insertNew (newRegression db.sqlNow f state sha text) },
          if state = .active then activeSentence f
          else "its replay flow is kept as a candidate regression test; " ++
            "it joins the nightly when the finding is marked fixed")

def revive (r : RegressionRow) : RegressionRow := { r with state := .candidate, retired_at := none }

def activate (now : Nat) (r : RegressionRow) : RegressionRow :=
  { r with state := .active, activated_at := some now, retired_at := none }

def retire (now : Nat) (r : RegressionRow) : RegressionRow :=
  { r with state := .retired, retired_at := some now }

@[simp] theorem revive_id (r : RegressionRow) : (revive r).finding_id = r.finding_id := rfl

@[simp] theorem activate_id (now : Nat) (r : RegressionRow) :
    (activate now r).finding_id = r.finding_id := rfl

@[simp] theorem retire_id (now : Nat) (r : RegressionRow) :
    (retire now r).finding_id = r.finding_id := rfl

/-- What a verdict does to the finding's regression test, and the sentence that says so. -/
def moveRegression (db : FindingsDb) (f : FindingRow) (verdict : Option Verdict)
    (read : ReadArtifact) : FindingsDb × Option String :=
  match verdict, db.regression? f.id with
  | some .real, none => let kept := keepFlow db f .candidate read; (kept.1, some kept.2)
  | some .real, some reg =>
    if reg.state = .retired then
      (db.updateRegression f.id revive revive_id,
        some "its retired regression test is a candidate again")
    else (db, none)
  | some .fixed, none => let kept := keepFlow db f .active read; (kept.1, some kept.2)
  | some .fixed, some reg =>
    if reg.state = .active then (db, none)
    else (db.updateRegression f.id (activate db.sqlNow) (activate_id _), some (activeSentence f))
  | some _, some reg =>
    if reg.state ≠ .retired then
      (db.updateRegression f.id (retire db.sqlNow) (retire_id _),
        some ("its " ++ reg.state.text ++ " regression test is retired"))
    else (db, none)
  | some _, none => (db, none)
  | none, _ => (db, none)

/-! ## Verdicts -/

/-- A duplicate followed towards the finding it duplicates, at most so many hops. -/
def followRoot (db : FindingsDb) : Nat → FindingRow → FindingRow
  | 0, t => t
  | hops + 1, t =>
    if t.verdict = some .duplicate then
      match t.duplicate_of.bind db.row? with
      | some up => followRoot db hops up
      | none => t
    else t

def judge (now : Nat) (verdict : Option Verdict) (note : Option String) (target : Option Nat)
    (r : FindingRow) : FindingRow :=
  { r with verdict, verdict_note := if verdict.isNone then none else note,
           verdict_at := if verdict.isNone then none else some now, duplicate_of := target }

@[simp] theorem judge_id (now : Nat) (verdict : Option Verdict) (note : Option String)
    (target : Option Nat) (r : FindingRow) : (judge now verdict note target r).id = r.id := rfl

def verdictEntry (now id : Nat) (verdict : Option Verdict) (note : Option String) (who : Who) :
    VerdictEntry where
  finding_id := id
  at_ := now
  event := .verdict
  verdict := verdict
  note := note
  actor := who.actor
  source := who.source

/-- Fixed comes only after real, or over a regression test that is active. -/
def fixedRefused (db : FindingsDb) (row : FindingRow) : Bool :=
  decide (row.verdict ≠ some .real) && decide (row.verdict ≠ some .fixed) &&
    !(db.regression? row.id).any fun reg => decide (reg.state = .active)

/-- The finding a duplicate verdict points at. -/
def duplicateTarget (db : FindingsDb) (id : Nat) (duplicateOf : Option Nat) :
    Except FindingError Nat :=
  match duplicateOf with
  | none => .error ⟨400, "a duplicate needs duplicate_of: the id it duplicates", none⟩
  | some target =>
    match db.row? target with
    | none => .error ⟨400, "duplicate_of " ++ toString target ++ " is not a finding", none⟩
    | some t =>
      let root := followRoot db 20 t
      if root.id = id then .error ⟨400, "a finding cannot be a duplicate of itself", none⟩
      else .ok root.id

/-- What a verdict sets `duplicate_of` to, or why the verdict is refused. -/
def checkVerdict (db : FindingsDb) (id : Nat) (verdict : Option Verdict) (note : Option String)
    (duplicateOf : Option Nat) : Except FindingError (Option Nat) :=
  match db.row? id with
  | none => .error ⟨404, "no finding " ++ toString id, none⟩
  | some row =>
    if note.any fun n => decide (LIMITS.note < jsLength n) then
      .error ⟨400, "note is longer than " ++ toString LIMITS.note ++ " characters", none⟩
    else if verdict = some .fixed && fixedRefused db row then
      .error ⟨409, "finding " ++ toString id ++ " is " ++
          (row.verdict.map Verdict.text).getD "open" ++ "; fixed comes only after real",
        some "mark it real first, and fixed once the fix has merged"⟩
    else if verdict = some .duplicate then (duplicateTarget db id duplicateOf).map some
    else .ok none

/-- The verdict and its history line, before the regression test moves. -/
def writeVerdict (db : FindingsDb) (id : Nat) (verdict : Option Verdict) (note : Option String)
    (target : Option Nat) (who : Who) : FindingsDb :=
  (db.updateRow id (judge db.sqlNow verdict note target) (judge_id _ _ _ _)).addVerdict
    (verdictEntry db.sqlNow id verdict note who)

def setVerdict (db : FindingsDb) (id : Nat) (verdict : Option Verdict) (note : Option String)
    (duplicateOf : Option Nat) (who : Who) (read : ReadArtifact) :
    Except FindingError (FindingsDb × Option String) :=
  match checkVerdict db id verdict note duplicateOf with
  | .error e => .error e
  | .ok target =>
    let judged := writeVerdict db id verdict note target who
    match judged.row? id with
    | none => .error ⟨404, "no finding " ++ toString id, none⟩
    | some row => .ok (moveRegression judged row verdict read)

/-! ## Regression runs -/

structure RegressionRun where
  job_id : String
  device_id : String
  build : String
  outcome : RegressionOutcome
  detail : String

/-- This job's run already reproduced it. -/
def alreadyThisJob (reg : RegressionRow) (run : RegressionRun) : Bool :=
  decide (reg.last_job_id = some run.job_id) && decide (reg.last_outcome = some .reproduced)

/-- Does the run reopen the finding? -/
def reopens (reg : RegressionRow) (run : RegressionRun) : Bool :=
  decide (run.outcome = .reproduced) && decide (reg.state = .active) && !alreadyThisJob reg run

def recordRun (now : Nat) (run : RegressionRun) (reg : RegressionRow) : RegressionRow :=
  { reg with
    runs := reg.runs + 1
    last_run_at := some now
    last_job_id := some run.job_id
    last_outcome := some (if alreadyThisJob reg run then .reproduced else run.outcome)
    last_detail := if run.detail = "" then none else some run.detail }

@[simp] theorem recordRun_id (now : Nat) (run : RegressionRun) (reg : RegressionRow) :
    (recordRun now run reg).finding_id = reg.finding_id := rfl

def reopen (now : Nat) (run : RegressionRun) (r : FindingRow) : FindingRow :=
  { r with
    verdict := none
    verdict_note := none
    verdict_at := none
    duplicate_of := none
    seen_count := r.seen_count + 1
    last_seen := now
    last_job_id := some run.job_id
    builds_seen := addBuild r.builds_seen run.build }

@[simp] theorem reopen_id (now : Nat) (run : RegressionRun) (r : FindingRow) :
    (reopen now run r).id = r.id := rfl

def regressedEntry (now id : Nat) (run : RegressionRun) : VerdictEntry where
  finding_id := id
  at_ := now
  event := .regressed
  verdict := none
  note := some (jsSlice ("regressed on build " ++ run.build ++ " (job " ++ run.job_id ++ ", " ++
    run.device_id ++ ")" ++ (if run.detail = "" then "" else ": " ++ run.detail)) LIMITS.note)
  actor := none
  source := some "regression"

/-- Record one device's run of a regression flow; the flag is `reopened`. -/
def recordRegressionRun (db : FindingsDb) (id : Nat) (run : RegressionRun) :
    Except FindingError (FindingsDb × Bool) :=
  match db.regression? id, db.row? id with
  | some reg, some _ =>
    let recorded := db.updateRegression id (recordRun db.sqlNow run) (recordRun_id _ _)
    if reopens reg run then
      .ok ((recorded.updateRow id (reopen db.sqlNow run) (reopen_id _ _)).addVerdict
        (regressedEntry db.sqlNow id run), true)
    else .ok (recorded, false)
  | _, _ => .error ⟨404, "finding " ++ toString id ++ " has no regression test", none⟩

end FleetRunner
