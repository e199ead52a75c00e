import FleetRunner.Js.Text
import FleetRunner.Library.Table
import Mathlib.Data.Rat.Init

/-!
# Night QA findings: rows and tables (`findings.ts`, `workloads/explore/types.ts`)

A finding is what the explore workload saw and could repeat. The collector
keeps one row per fingerprint, every verdict a person gave it, and at most one
regression test.

## Implementation notes

A JSON column holds the parsed value. The tables have their own clock and are
joined to nothing the queue keeps. `filing` is not a table: it is the requests
to GitHub that have been sent and not answered.
-/

namespace FleetRunner

open Library

/-- How big each field may be. -/
structure Limits where
  id : Nat
  fingerprint : Nat
  title : Nat
  detail : Nat
  screen : Nat
  steps : Nat
  step : Nat
  note : Nat
  attempts : Nat

/-- How long the fields may be. -/
def LIMITS : Limits where
  id := 200
  fingerprint := 256
  title := 300
  detail := 8000
  screen := 300
  steps := 100
  step := 500
  note := 2000
  attempts := 50

/-- What found it. -/
inductive CheckName where
  | crash | anr | frozen | blank | left_app | a11y | visual | goal | dead_control
  deriving DecidableEq

def CheckName.text : CheckName → String
  | .crash => "crash"
  | .anr => "anr"
  | .frozen => "frozen"
  | .blank => "blank"
  | .left_app => "left_app"
  | .a11y => "a11y"
  | .visual => "visual"
  | .goal => "goal"
  | .dead_control => "dead_control"

def CHECK_NAMES : List CheckName :=
  [.crash, .anr, .frozen, .blank, .left_app, .a11y, .visual, .goal, .dead_control]

/-- How bad it is. -/
inductive Severity where
  | high | medium | low
  deriving DecidableEq

def Severity.text : Severity → String
  | .high => "high"
  | .medium => "medium"
  | .low => "low"

def SEVERITIES : List Severity := [.high, .medium, .low]

/-- `SEVERITY_RANK` -/
def Severity.rank : Severity → Nat
  | .high => 3
  | .medium => 2
  | .low => 1

/-- What a person made of it. -/
inductive Verdict where
  | real | duplicate | not_a_bug | agent_mistake | fixed
  deriving DecidableEq

def Verdict.text : Verdict → String
  | .real => "real"
  | .duplicate => "duplicate"
  | .not_a_bug => "not_a_bug"
  | .agent_mistake => "agent_mistake"
  | .fixed => "fixed"

/-- How it can be replayed. -/
inductive ReplayKind where
  | maestro | tvloop | none
  deriving DecidableEq

def ReplayKind.text : ReplayKind → String
  | .maestro => "maestro"
  | .tvloop => "tvloop"
  | .none => "none"

def REPLAY_KINDS : List ReplayKind := [.maestro, .tvloop, .none]

/-- What a replay counted; the counts are in the range the collector accepts. -/
structure Replay where
  kind : ReplayKind
  sha256 : Option String
  attempts : Nat
  reproduced : Nat
  attempts_le : attempts ≤ LIMITS.attempts
  reproduced_le : reproduced ≤ attempts
  deriving DecidableEq

/-- Artifact hashes by key. -/
structure Artifacts where
  shot : Option String
  sheet : Option String
  trajectory : Option String
  log : Option String
  replay : Option String
  deriving DecidableEq

/-- Nothing was kept. -/
def Artifacts.empty : Artifacts := ⟨none, none, none, none, none⟩

/-- `{ ...next, ...kept }`: what is kept wins, the new one fills the gaps. -/
def Artifacts.fill (kept next : Artifacts) : Artifacts where
  shot := kept.shot.or next.shot
  sheet := kept.sheet.or next.sheet
  trajectory := kept.trajectory.or next.trajectory
  log := kept.log.or next.log
  replay := kept.replay.or next.replay

/-- A hash that is there and not empty. -/
def heldHash? (sha : Option String) : Option String := sha.filter fun s => s ≠ ""

/-- A finding as night QA files it. -/
structure ExploreFinding where
  fingerprint : String
  app : String
  build : String
  platform : String
  device_id : String
  job_id : String
  mission_id : String
  check : CheckName
  subclass : Option String
  severity : Severity
  title : String
  detail : String
  screen : String
  screen_name : String
  steps : List String
  replay : Option Replay
  artifacts : Artifacts

/-- What became of its issue. -/
inductive IssueState where
  | dry_run | pending | filed | failed | capped | no_repo
  deriving DecidableEq

/-- The issue a finding would file, or did. -/
structure IssueRecord where
  state : IssueState
  dry_run : Bool
  repo : Option String
  title : String
  body : String
  labels : List String
  url : Option String
  number : Option Nat
  detail : String
  /-- milliseconds -/
  at_ : Nat

/-- A row of `findings`. -/
structure FindingRow where
  id : Nat
  fingerprint : String
  app : String
  build : String
  platform : String
  device_id : String
  job_id : String
  last_job_id : Option String
  mission_id : String
  check_name : CheckName
  subclass : Option String
  severity : Severity
  title : String
  detail : String
  screen : String
  screen_name : String
  steps : List String
  replay : Option Replay
  artifacts : Artifacts
  first_seen : Nat
  last_seen : Nat
  seen_count : Nat
  builds_seen : List String
  verdict : Option Verdict
  verdict_note : Option String
  verdict_at : Option Nat
  duplicate_of : Option Nat
  issue : Option IssueRecord
  issue_state : Option IssueState
  issue_at : Option Nat

/-- What changed a finding. -/
inductive VerdictEvent where
  | verdict | regressed
  deriving DecidableEq

/-- One row of `finding_verdicts`. -/
structure VerdictEntry where
  finding_id : Nat
  at_ : Nat
  event : VerdictEvent
  verdict : Option Verdict
  note : Option String
  actor : Option String
  source : Option String

/-- Where a regression flow is in its life. -/
inductive RegressionState where
  | candidate | active | retired
  deriving DecidableEq

def RegressionState.text : RegressionState → String
  | .candidate => "candidate"
  | .active => "active"
  | .retired => "retired"

/-- What plays a regression flow. -/
inductive RegressionKind where
  | maestro | tvloop
  deriving DecidableEq

/-- How a regression flow went. -/
inductive RegressionOutcome where
  | passed | reproduced | failed | skipped
  deriving DecidableEq

/-- A row of `regressions`. -/
structure RegressionRow where
  finding_id : Nat
  app : String
  platform : String
  check_name : CheckName
  kind : RegressionKind
  flow : String
  flow_sha256 : Option String
  state : RegressionState
  created_at : Nat
  activated_at : Option Nat
  retired_at : Option Nat
  runs : Nat
  last_run_at : Option Nat
  last_job_id : Option String
  last_outcome : Option RegressionOutcome
  last_detail : Option String

/-- The tables and the clock. -/
structure FindingsDb where
  /-- milliseconds -/
  now : Nat
  findings : Table FindingRow.id
  /-- the largest id the table has given out -/
  seq : Nat
  /-- in the order of their ids -/
  verdicts : List VerdictEntry
  regressions : Table RegressionRow.finding_id
  filing : List (Nat × IssueRecord)

namespace FindingsDb

def empty : FindingsDb where
  now := 0
  findings := .empty
  seq := 0
  verdicts := []
  regressions := .empty
  filing := []

/-- `datetime('now')` -/
def sqlNow (db : FindingsDb) : Nat := db.now / 1000

/-- `getRow` -/
def row? (db : FindingsDb) (id : Nat) : Option FindingRow := db.findings.find? id

/-- `SELECT * FROM findings WHERE fingerprint = ?` -/
def sighted? (db : FindingsDb) (fingerprint : String) : Option FindingRow :=
  db.findings.lookup FindingRow.fingerprint fingerprint

/-- `getRegressionRow` -/
def regression? (db : FindingsDb) (id : Nat) : Option RegressionRow := db.regressions.find? id

/-- `verdictHistory` -/
def history (db : FindingsDb) (id : Nat) : List VerdictEntry :=
  db.verdicts.filter fun e => decide (e.finding_id = id)

/-- `UPDATE findings SET … WHERE id = ?` -/
def updateRow (db : FindingsDb) (id : Nat) (f : FindingRow → FindingRow)
    (hf : ∀ r, (f r).id = r.id := by intro; rfl) : FindingsDb :=
  { db with findings := db.findings.update id f hf }

/-- `UPDATE regressions SET … WHERE finding_id = ?` -/
def updateRegression (db : FindingsDb) (id : Nat) (f : RegressionRow → RegressionRow)
    (hf : ∀ r, (f r).finding_id = r.finding_id := by intro; rfl) : FindingsDb :=
  { db with regressions := db.regressions.update id f hf }

/-- `INSERT INTO finding_verdicts …` -/
def addVerdict (db : FindingsDb) (e : VerdictEntry) : FindingsDb :=
  { db with verdicts := db.verdicts ++ [e] }

@[simp] theorem row?_empty (id : Nat) : empty.row? id = none := rfl

@[simp] theorem regression?_empty (id : Nat) : empty.regression? id = none := rfl

@[simp] theorem sighted?_empty (fp : String) : empty.sighted? fp = none := rfl

@[simp] theorem history_empty (id : Nat) : empty.history id = [] := rfl

theorem row?_updateRow (db : FindingsDb) (id j : Nat) (f : FindingRow → FindingRow)
    (hf : ∀ r, (f r).id = r.id) :
    (db.updateRow id f hf).row? j = if j = id then (db.row? j).map f else db.row? j :=
  Table.find?_update db.findings id j f hf

@[simp] theorem row?_updateRow_self (db : FindingsDb) (id : Nat) (f : FindingRow → FindingRow)
    (hf : ∀ r, (f r).id = r.id) : (db.updateRow id f hf).row? id = (db.row? id).map f := by
  simp [row?_updateRow]

theorem sighted?_updateRow (db : FindingsDb) (id : Nat) (f : FindingRow → FindingRow)
    (hf : ∀ r, (f r).id = r.id) (hfp : ∀ r, (f r).fingerprint = r.fingerprint) (fp : String) :
    (db.updateRow id f hf).sighted? fp =
      (db.sighted? fp).map fun r => if r.id = id then f r else r :=
  Table.lookup_update db.findings id f hf hfp fp

@[simp] theorem regression?_updateRow (db : FindingsDb) (id j : Nat) (f : FindingRow → FindingRow)
    (hf : ∀ r, (f r).id = r.id) : (db.updateRow id f hf).regression? j = db.regression? j := rfl

@[simp] theorem history_updateRow (db : FindingsDb) (id j : Nat) (f : FindingRow → FindingRow)
    (hf : ∀ r, (f r).id = r.id) : (db.updateRow id f hf).history j = db.history j := rfl

theorem regression?_updateRegression (db : FindingsDb) (id j : Nat)
    (f : RegressionRow → RegressionRow) (hf : ∀ r, (f r).finding_id = r.finding_id) :
    (db.updateRegression id f hf).regression? j =
      if j = id then (db.regression? j).map f else db.regression? j :=
  Table.find?_update db.regressions id j f hf

@[simp] theorem row?_updateRegression (db : FindingsDb) (id j : Nat)
    (f : RegressionRow → RegressionRow) (hf : ∀ r, (f r).finding_id = r.finding_id) :
    (db.updateRegression id f hf).row? j = db.row? j := rfl

@[simp] theorem sighted?_updateRegression (db : FindingsDb) (id : Nat)
    (f : RegressionRow → RegressionRow) (hf : ∀ r, (f r).finding_id = r.finding_id) (fp : String) :
    (db.updateRegression id f hf).sighted? fp = db.sighted? fp := rfl

@[simp] theorem history_updateRegression (db : FindingsDb) (id j : Nat)
    (f : RegressionRow → RegressionRow) (hf : ∀ r, (f r).finding_id = r.finding_id) :
    (db.updateRegression id f hf).history j = db.history j := rfl

@[simp] theorem row?_addVerdict (db : FindingsDb) (e : VerdictEntry) (id : Nat) :
    (db.addVerdict e).row? id = db.row? id := rfl

@[simp] theorem sighted?_addVerdict (db : FindingsDb) (e : VerdictEntry) (fp : String) :
    (db.addVerdict e).sighted? fp = db.sighted? fp := rfl

@[simp] theorem regression?_addVerdict (db : FindingsDb) (e : VerdictEntry) (id : Nat) :
    (db.addVerdict e).regression? id = db.regression? id := rfl

/-- A history grows by the entries written for its finding. -/
theorem history_addVerdict (db : FindingsDb) (e : VerdictEntry) (id : Nat) :
    (db.addVerdict e).history id =
      db.history id ++ if e.finding_id = id then [e] else [] := by
  by_cases h : e.finding_id = id <;> simp [history, addVerdict, h]

theorem id_of_row? {db : FindingsDb} {id : Nat} {r : FindingRow} (h : db.row? id = some r) :
    r.id = id :=
  Table.key_of_find? h

theorem row?_of_sighted? {db : FindingsDb} {fp : String} {r : FindingRow}
    (h : db.sighted? fp = some r) : db.row? r.id = some r :=
  Table.find?_of_lookup h

theorem fingerprint_of_sighted? {db : FindingsDb} {fp : String} {r : FindingRow}
    (h : db.sighted? fp = some r) : r.fingerprint = fp :=
  Table.col_of_lookup h

end FindingsDb

end FleetRunner
