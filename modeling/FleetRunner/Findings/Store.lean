import FleetRunner.Findings.Issues
import Mathlib.Algebra.Order.Ring.Unbundled.Rat
import Mathlib.Data.Prod.Lex
import Mathlib.Order.WithBot

/-!
# Storing a finding (`findings.ts`, T2)

A first sighting inserts a row. A repeat raises the count and moves only the
evidence: the builds, the severity, the replay when the new one is better, and
the artifacts the first sighting lacked.
-/

namespace FleetRunner

open Library

/-! ## Which replay is kept -/

def Replay.ratio (r : Replay) : Rat := (r.reproduced : Rat) / ((max 1 r.attempts : Nat) : Rat)

/-- Whether `next` is better evidence: more reproductions, then a better ratio. -/
def betterReplay (prev next : Option Replay) : Bool :=
  match next, prev with
  | none, _ => false
  | some _, none => true
  | some n, some p =>
    if n.reproduced ≠ p.reproduced then decide (p.reproduced < n.reproduced)
    else decide (p.ratio < n.ratio)

/-- How much a replay is worth as evidence; no replay is worth least. -/
def weight (r : Option Replay) : WithBot (Nat ×ₗ Rat) :=
  r.map fun x => toLex (x.reproduced, x.ratio)

/-- Better evidence is evidence of more weight. -/
theorem betterReplay_iff (prev next : Option Replay) :
    betterReplay prev next = true ↔ weight prev < weight next := by
  cases next with
  | none => exact iff_of_false (by simp [betterReplay]) not_lt_bot
  | some n =>
      cases prev with
      | none => exact iff_of_true rfl (WithBot.bot_lt_coe _)
      | some p =>
          change _ ↔ ((toLex (p.reproduced, p.ratio) : Nat ×ₗ Rat) : WithBot (Nat ×ₗ Rat)) <
            ((toLex (n.reproduced, n.ratio) : Nat ×ₗ Rat) : WithBot (Nat ×ₗ Rat))
          rw [WithBot.coe_lt_coe, Prod.Lex.toLex_lt_toLex]
          by_cases heq : n.reproduced = p.reproduced
          · simp [betterReplay, heq]
          · have hne : ¬p.reproduced = n.reproduced := fun h => heq h.symm
            simp [betterReplay, heq, hne]

theorem not_betterReplay_iff (prev next : Option Replay) :
    betterReplay prev next = false ↔ weight next ≤ weight prev := by
  rw [← not_lt, ← betterReplay_iff, Bool.not_eq_true]

/-! ## One sighting -/

def addBuild (builds : List String) (build : String) : List String :=
  if builds.contains build then builds else builds ++ [build]

def newRow (now id : Nat) (f : ExploreFinding) : FindingRow where
  id := id
  fingerprint := f.fingerprint
  app := f.app
  build := f.build
  platform := f.platform
  device_id := f.device_id
  job_id := f.job_id
  last_job_id := some f.job_id
  mission_id := f.mission_id
  check_name := f.check
  subclass := f.subclass
  severity := f.severity
  title := f.title
  detail := f.detail
  screen := f.screen
  screen_name := f.screen_name
  steps := f.steps
  replay := f.replay
  artifacts := f.artifacts
  first_seen := now
  last_seen := now
  seen_count := 1
  builds_seen := [f.build]
  verdict := none
  verdict_note := none
  verdict_at := none
  duplicate_of := none
  issue := none
  issue_state := none
  issue_at := none

/-- First artifacts win; the replay file moves with the counts it belongs to. -/
def mergeArtifacts (kept : Artifacts) (prev : Option Replay) (f : ExploreFinding) : Artifacts :=
  let filled := kept.fill f.artifacts
  if betterReplay prev f.replay && (heldHash? f.artifacts.replay).isSome then
    { filled with replay := f.artifacts.replay }
  else filled

def mergeSighting (now : Nat) (f : ExploreFinding) (r : FindingRow) : FindingRow :=
  { r with
    seen_count := r.seen_count + 1
    last_seen := now
    last_job_id := some f.job_id
    builds_seen := addBuild r.builds_seen f.build
    replay := if betterReplay r.replay f.replay then f.replay else r.replay
    artifacts := mergeArtifacts r.artifacts r.replay f
    severity := if r.severity.rank < f.severity.rank then f.severity else r.severity }

@[simp] theorem mergeSighting_id (now : Nat) (f : ExploreFinding) (r : FindingRow) :
    (mergeSighting now f r).id = r.id := rfl

@[simp] theorem mergeSighting_fingerprint (now : Nat) (f : ExploreFinding) (r : FindingRow) :
    (mergeSighting now f r).fingerprint = r.fingerprint := rfl

/-- The row a sighting leaves, before an issue is planned for it. -/
def sightedRow (db : FindingsDb) (f : ExploreFinding) : FindingRow :=
  match db.sighted? f.fingerprint with
  | none => newRow db.sqlNow (db.seq + 1) f
  | some r => mergeSighting db.sqlNow f r

def writeSighting (db : FindingsDb) (f : ExploreFinding) : FindingsDb :=
  match db.sighted? f.fingerprint with
  | none =>
    { db with findings := db.findings.insertNew (newRow db.sqlNow (db.seq + 1) f),
              seq := db.seq + 1 }
  | some r => db.updateRow r.id (mergeSighting db.sqlNow f) (mergeSighting_id _ _)

@[simp] theorem now_writeSighting (db : FindingsDb) (f : ExploreFinding) :
    (writeSighting db f).now = db.now := by
  unfold writeSighting
  split <;> rfl

structure StoreOutcome where
  id : Nat
  isNew : Bool
  issue : Option IssueRecord

def storeFinding (db : FindingsDb) (f : ExploreFinding) (opts : IssueOptions) :
    FindingsDb × StoreOutcome :=
  let row := sightedRow db f
  let (planned, issue) := maybePlanIssue (writeSighting db f) row opts
  (planned, { id := row.id, isNew := (db.sighted? f.fingerprint).isNone, issue })

/-- `POST /findings`: the row is committed before anything is sent. -/
def postFinding (db : FindingsDb) (f : ExploreFinding) (opts : IssueOptions) : FindingsDb :=
  let (stored, out) := storeFinding db f opts
  match out.issue with
  | some record => startFiling stored out.id record opts
  | none => stored

end FleetRunner
