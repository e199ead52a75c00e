import FleetRunner.Findings.Schema

/-!
# Issues (`findings.ts`, T6)

Every solid finding gets an issue composed, counted against its app's daily
cap and recorded. Only an armed collector with a token sends it, once, and what
GitHub answers is recorded without a retry.

## Implementation notes

`FLEET_FINDINGS_REPOS` is a lookup by app. `fileIssue` is two steps here: the
request that goes out, and the answer that comes back some time later.
-/

namespace FleetRunner

structure IssueOptions where
  repos : String → Option String
  armed : Bool
  token : Option String
  dashUrl : String
  capPerDay : Nat

/-- Every replay reproduced it, or it is a crash. -/
def issueWorthy (f : FindingRow) : Bool :=
  f.check_name = .crash ||
    f.replay.any fun r => decide (1 ≤ r.attempts) && decide (r.reproduced = r.attempts)

/-- States that are not tried again. -/
def IssueState.settled : IssueState → Bool
  | .dry_run | .pending | .filed | .failed => true
  | .capped | .no_repo => false

/-! ## The text -/

def longestRun (mark : Char) (cs : List Char) : Nat :=
  (cs.foldl (fun (s : Nat × Nat) c =>
    if c = mark then (s.1 + 1, max s.2 (s.1 + 1)) else (0, s.2)) (0, 0)).2

/-- A fence longer than any run of marks inside. -/
def fence (s : String) : String :=
  let mark := Char.ofNat 96
  String.ofList (List.replicate (max 3 (longestRun mark s.toList + 1)) mark)

def replayLabel (replay : Option Replay) (check : CheckName) : String :=
  match replay with
  | none => if check = .crash then "crash log" else "not replayed"
  | some r =>
    (if r.attempts ≤ r.reproduced then "reproduced " else "flaky ") ++
      toString r.reproduced ++ "/" ++ toString r.attempts

def artifactLinks (a : Artifacts) (dashUrl : String) : List String :=
  [("screenshot", a.shot), ("contact sheet", a.sheet), ("trajectory", a.trajectory),
    ("log excerpt", a.log), ("replay file", a.replay)].filterMap fun p =>
      (heldHash? p.2).map fun sha => "[" ++ p.1 ++ "](" ++ dashUrl ++ "/artifacts/" ++ sha ++ ")"

def composeTitle (f : FindingRow) : String :=
  jsSlice ("[night-qa] " ++ f.check_name.text ++ ": " ++ f.title) 250

def composeBody (f : FindingRow) (dashUrl : String) : String :=
  let steps := "\n".intercalate (f.steps.zipIdx.map fun p => toString (p.2 + 1) ++ ". " ++ p.1)
  let replay := match f.replay with
    | some r => replayLabel f.replay f.check_name ++ " on a clean install (" ++ r.kind.text ++ ")"
    | none => "not replayed; the crash log is the evidence"
  let links := artifactLinks f.artifacts dashUrl
  "\n".intercalate
    (["Night QA found this while exploring **" ++ f.app ++ "** and replayed it before filing.",
      "", "| | |", "|---|---|",
      "| Check | `" ++ f.check_name.text ++ "` (severity " ++ f.severity.text ++ ") |",
      "| Build | `" ++ f.build ++ "` |",
      "| Platform / device | " ++ f.platform ++ " / `" ++ f.device_id ++ "` |",
      "| Screen | " ++ (if f.screen_name = "" then "unnamed" else f.screen_name) ++
        (if f.screen = "" then "" else " (`" ++ f.screen ++ "`)") ++ " |",
      "| Replay | " ++ replay ++ " |",
      "| Mission / job | `" ++ f.mission_id ++ "` / `" ++ f.job_id ++ "` |", ""] ++
    (if isBlank f.detail then []
      else ["### What went wrong", "", fence f.detail, f.detail, fence f.detail, ""]) ++
    (if steps = "" then [] else ["### Steps", "", fence steps, steps, fence steps, ""]) ++
    (if links.isEmpty then [] else ["Artifacts: " ++ " · ".intercalate links, ""]) ++
    ["[Open it in the Fleet Runner dashboard](" ++ dashUrl ++ "/dash/findings/" ++ toString f.id ++
        ")", "",
      "<sub>Filed by Fleet Runner night QA. Fingerprint `" ++ f.fingerprint ++
        "`. Fleet Runner only ever opens issues; it never edits, comments on or closes them.</sub>"])

/-! ## Planning -/

/-- Other findings of the app whose issue counts against the cap. -/
def filedToday (db : FindingsDb) (f : FindingRow) : Nat :=
  (db.findings.rows.filter fun r =>
    decide (r.app = f.app) && decide (r.id ≠ f.id) && r.issue_state.any IssueState.settled &&
      r.issue_at.any fun (t : Nat) => decide (((db.now : Int) - 86400000) / 1000 ≤ t)).length

/-- Which state, which repository, and whether the cap allows it. -/
def planIssue (db : FindingsDb) (f : FindingRow) (opts : IssueOptions) : IssueRecord :=
  let base : IssueRecord :=
    { state := .no_repo, dry_run := true, repo := opts.repos f.app, title := composeTitle f,
      body := composeBody f opts.dashUrl, labels := ["night-qa"], url := none, number := none,
      detail := "FLEET_FINDINGS_REPOS names no repository for " ++ f.app, at_ := db.now }
  if (heldHash? (opts.repos f.app)).isNone then base
  else if opts.capPerDay ≤ filedToday db f then
    { base with
      state := .capped
      detail := f.app ++ " already has " ++ toString (filedToday db f) ++
        " issues in the last 24 h (cap " ++ toString opts.capPerDay ++
        "); tried again next time it is seen" }
  else if opts.armed && (heldHash? opts.token).isSome then
    { base with state := .pending, dry_run := false, detail := "filing" }
  else
    { base with
      state := .dry_run
      detail := "dry run: FLEET_GITHUB_ISSUES/FLEET_GITHUB_TOKEN not set, so nothing was sent" }

/-- An issue is planned for a finding that has none settled, that nobody has
called anything but real, and that is solid. -/
def plansIssue (row : FindingRow) : Bool :=
  !row.issue_state.any IssueState.settled && row.verdict.all (fun v => decide (v = .real)) &&
    issueWorthy row

def withIssue (record : IssueRecord) (r : FindingRow) : FindingRow :=
  { r with issue := some record, issue_state := some record.state,
           issue_at := some (record.at_ / 1000) }

@[simp] theorem withIssue_id (record : IssueRecord) (r : FindingRow) :
    (withIssue record r).id = r.id := rfl

@[simp] theorem withIssue_fingerprint (record : IssueRecord) (r : FindingRow) :
    (withIssue record r).fingerprint = r.fingerprint := rfl

def maybePlanIssue (db : FindingsDb) (row : FindingRow) (opts : IssueOptions) :
    FindingsDb × Option IssueRecord :=
  if plansIssue row then
    let record := planIssue db row opts
    (db.updateRow row.id (withIssue record) (withIssue_id _), some record)
  else (db, none)

/-! ## Filing -/

/-- What became of the request. -/
inductive GithubReply where
  | responded (status : Nat) (url : Option String) (number : Option Nat)
  | failed (message : String)

/-- `fileIssue` up to its request: nothing is sent for a record that is not pending. -/
def startFiling (db : FindingsDb) (id : Nat) (record : IssueRecord) (opts : IssueOptions) :
    FindingsDb :=
  if record.state ≠ .pending ∨ (heldHash? record.repo).isNone ∨ (heldHash? opts.token).isNone then db
  else { db with filing := db.filing ++ [(id, record)] }

def answered (record : IssueRecord) : GithubReply → IssueRecord
  | .responded status url number =>
    if 200 ≤ status ∧ status ≤ 299 then
      { record with state := .filed, url, number, detail := "github responded " ++ toString status }
    else { record with state := .failed, detail := "github responded " ++ toString status }
  | .failed message => { record with state := .failed, detail := "request failed: " ++ message }

def withAnswer (record : IssueRecord) (r : FindingRow) : FindingRow :=
  { r with issue := some record, issue_state := some record.state }

@[simp] theorem withAnswer_id (record : IssueRecord) (r : FindingRow) :
    (withAnswer record r).id = r.id := rfl

/-- The rest of `fileIssue`, for one request that was sent. -/
def finishFiling (db : FindingsDb) (id : Nat) (reply : GithubReply) : FindingsDb :=
  match db.filing.find? fun p => decide (p.1 = id) with
  | none => db
  | some (_, record) =>
    let done := db.updateRow id (withAnswer (answered record reply)) (withAnswer_id _)
    { done with filing := db.filing.eraseP fun p => decide (p.1 = id) }

/-! ## What planning decides -/

theorem answered_settled (record : IssueRecord) (reply : GithubReply) :
    (answered record reply).state.settled = true := by
  cases reply with
  | responded status url number =>
      by_cases hok : 200 ≤ status ∧ status ≤ 299 <;> simp [answered, hok, IssueState.settled]
  | failed message => rfl

/-- A settled plan stayed under the cap. -/
theorem under_cap_of_settled {db : FindingsDb} {f : FindingRow} {opts : IssueOptions}
    (h : (planIssue db f opts).state.settled = true) : filedToday db f < opts.capPerDay := by
  by_contra hcap
  have hle : opts.capPerDay ≤ filedToday db f := Nat.le_of_not_lt hcap
  by_cases hrepo : (heldHash? (opts.repos f.app)).isNone
  · simp [planIssue, hrepo, IssueState.settled] at h
  · simp [planIssue, hrepo, hle, IssueState.settled] at h

@[simp] theorem planIssue_at (db : FindingsDb) (f : FindingRow) (opts : IssueOptions) :
    (planIssue db f opts).at_ = db.now := by
  unfold planIssue
  simp only
  split_ifs <;> rfl

theorem row?_maybePlanIssue (db : FindingsDb) (row : FindingRow) (opts : IssueOptions) (id : Nat) :
    (maybePlanIssue db row opts).1.row? id =
      if plansIssue row = true ∧ id = row.id then
        (db.row? id).map (withIssue (planIssue db row opts))
      else db.row? id := by
  by_cases hplan : plansIssue row = true
  · by_cases hid : id = row.id <;>
      simp [maybePlanIssue, hplan, hid, FindingsDb.row?_updateRow]
  · simp [maybePlanIssue, hplan]

end FleetRunner
