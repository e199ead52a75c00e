import FleetRunner.Findings.Verdicts
import FleetRunner.Library.Runs

/-!
# The findings desk as a state machine

Every route that writes a findings table, as one step, and what one step can do
to a row, to a history and to a regression test. What holds of every run is
proved from these lemmas, which never look at a transaction again.
-/

namespace FleetRunner.Findings

open Library

inductive Request where
  | tick (ms : Nat)
  | post (f : ExploreFinding) (opts : IssueOptions)
  | verdict (id : Nat) (verdict : Option Verdict) (note : Option String)
      (duplicateOf : Option Nat) (who : Who) (read : ReadArtifact)
  | regressionRun (id : Nat) (run : RegressionRun)
  | github (id : Nat) (reply : GithubReply)

/-- A refused request leaves the tables as they are. -/
def step (db : FindingsDb) : Request → FindingsDb
  | .tick ms => { db with now := db.now + ms }
  | .post f opts => postFinding db f opts
  | .verdict id verdict note duplicateOf who read =>
    match setVerdict db id verdict note duplicateOf who read with
    | .ok (judged, _) => judged
    | .error _ => db
  | .regressionRun id run =>
    match recordRegressionRun db id run with
    | .ok (recorded, _) => recorded
    | .error _ => db
  | .github id reply => finishFiling db id reply

/-- The desk after these requests, from empty tables. -/
abbrev after (reqs : List Request) : FindingsDb := run step .empty reqs

/-! Requests as a small client sends them. -/

namespace Sample

theorem two_attempts : 2 ≤ LIMITS.attempts := by decide

/-- A finding two replays out of two reproduced. -/
def finding (fingerprint : String) : ExploreFinding where
  fingerprint := fingerprint
  app := "plants"
  build := "1.0 (1)"
  platform := "android"
  device_id := "pixel"
  job_id := "explore-1"
  mission_id := "m1"
  check := .dead_control
  subclass := none
  severity := .medium
  title := "Save does nothing"
  detail := ""
  screen := "s1"
  screen_name := "Add plant"
  steps := ["Tap Save"]
  replay := some ⟨.maestro, some "f1", 2, 2, two_attempts, by decide⟩
  artifacts := .empty

/-- A collector that files nothing. -/
def dark : IssueOptions where
  repos _ := none
  armed := false
  token := none
  dashUrl := "http://fleet.test"
  capPerDay := 5

/-- A verdict without a note, over a store that has every flow. -/
def verdict (id : Nat) (v : Option Verdict) (duplicateOf : Option Nat) : Request :=
  .verdict id v none duplicateOf ⟨none, none⟩ fun _ => some "appId: x"

end Sample

/-! ## Numbering -/

/-- No row has an id the table has not given out. -/
def Numbered (db : FindingsDb) : Prop := ∀ id r, db.row? id = some r → id ≤ db.seq

theorem Numbered.free {db : FindingsDb} (h : Numbered db) : db.row? (db.seq + 1) = none := by
  cases hr : db.row? (db.seq + 1) with
  | none => rfl
  | some r =>
      have hle := h _ r hr
      omega

/-! ## Sightings -/

section Sightings

variable {db : FindingsDb} {f : ExploreFinding} {opts : IssueOptions}

/-- The row a sighting leaves, with the issue planned for it. -/
def plannedRow (db : FindingsDb) (f : ExploreFinding) (opts : IssueOptions) : FindingRow :=
  if plansIssue (sightedRow db f) then
    withIssue (planIssue (writeSighting db f) (sightedRow db f) opts) (sightedRow db f)
  else sightedRow db f

@[simp] theorem plannedRow_id : (plannedRow db f opts).id = (sightedRow db f).id := by
  unfold plannedRow
  split <;> rfl

@[simp] theorem sightedRow_fingerprint : (sightedRow db f).fingerprint = f.fingerprint := by
  unfold sightedRow
  split
  · rfl
  · rename_i r hs
    exact (mergeSighting_fingerprint _ _ r).trans (FindingsDb.fingerprint_of_sighted? hs)

@[simp] theorem plannedRow_fingerprint :
    (plannedRow db f opts).fingerprint = f.fingerprint := by
  unfold plannedRow
  split
  · exact sightedRow_fingerprint
  · exact sightedRow_fingerprint

/-- Planning an issue writes the three issue columns. -/
theorem plannedRow_eq (db : FindingsDb) (f : ExploreFinding) (opts : IssueOptions) :
    ∃ issue state at_, plannedRow db f opts =
      { sightedRow db f with issue := issue, issue_state := state, issue_at := at_ } := by
  unfold plannedRow
  split
  · exact ⟨_, _, _, rfl⟩
  · exact ⟨_, _, _, rfl⟩

theorem sightedRow_of_some {r : FindingRow} (h : db.sighted? f.fingerprint = some r) :
    sightedRow db f = mergeSighting db.sqlNow f r := by
  simp [sightedRow, h]

theorem sightedRow_of_none (h : db.sighted? f.fingerprint = none) :
    sightedRow db f = newRow db.sqlNow (db.seq + 1) f := by
  simp [sightedRow, h]

theorem row?_writeSighting (hn : Numbered db) (id : Nat) :
    (writeSighting db f).row? id =
      if id = (sightedRow db f).id then some (sightedRow db f) else db.row? id := by
  unfold writeSighting sightedRow
  cases hs : db.sighted? f.fingerprint with
  | none =>
      change (db.findings.insertNew (newRow db.sqlNow (db.seq + 1) f)).find? id = _
      rw [Table.find?_insertNew]
      by_cases hid : id = db.seq + 1
      · subst hid
        have hfree : db.findings.find? (db.seq + 1) = none := hn.free
        simp [hfree, newRow]
      · have hne : ¬(newRow db.sqlNow (db.seq + 1) f).id = id := fun h => hid h.symm
        have hne' : ¬id = (newRow db.sqlNow (db.seq + 1) f).id := hid
        simp only [hne, hne', if_false, Option.or_none]
        rfl
  | some r =>
      simp only [FindingsDb.row?_updateRow, mergeSighting_id]
      by_cases hid : id = r.id
      · subst hid
        simp [FindingsDb.row?_of_sighted? hs]
      · simp [hid]

theorem sighted?_writeSighting (hn : Numbered db) (fp : String) :
    (writeSighting db f).sighted? fp =
      if fp = f.fingerprint then some (sightedRow db f) else db.sighted? fp := by
  unfold writeSighting sightedRow
  cases hs : db.sighted? f.fingerprint with
  | none =>
      have hfree : db.findings.find? (newRow db.sqlNow (db.seq + 1) f).id = none := hn.free
      change (db.findings.insertNew (newRow db.sqlNow (db.seq + 1) f)).lookup _ fp = _
      rw [Table.lookup_insertNew hfree]
      by_cases hfp : fp = f.fingerprint
      · subst hfp
        have hnone : db.findings.lookup FindingRow.fingerprint f.fingerprint = none := hs
        simp [hnone, newRow]
      · have hne : ¬(newRow db.sqlNow (db.seq + 1) f).fingerprint = fp := fun h => hfp h.symm
        simp only [hne, hfp, if_false, Option.or_none]
        rfl
  | some r =>
      simp only
      rw [FindingsDb.sighted?_updateRow _ _ _ _ (mergeSighting_fingerprint _ _)]
      by_cases hfp : fp = f.fingerprint
      · subst hfp
        simp [hs]
      · simp only [hfp, if_false]
        cases hs' : db.sighted? fp with
        | none => rfl
        | some q =>
            have hne : q.id ≠ r.id := by
              intro hid
              have hq := FindingsDb.row?_of_sighted? hs'
              rw [hid, FindingsDb.row?_of_sighted? hs] at hq
              obtain rfl := Option.some.inj hq
              exact hfp ((FindingsDb.fingerprint_of_sighted? hs').symm.trans
                (FindingsDb.fingerprint_of_sighted? hs))
            simp [hne]

theorem storeFinding_fst : (storeFinding db f opts).1 =
    (maybePlanIssue (writeSighting db f) (sightedRow db f) opts).1 := rfl

theorem row?_storeFinding (hn : Numbered db) (id : Nat) :
    (storeFinding db f opts).1.row? id =
      if id = (sightedRow db f).id then some (plannedRow db f opts) else db.row? id := by
  rw [storeFinding_fst, row?_maybePlanIssue, row?_writeSighting hn]
  by_cases hid : id = (sightedRow db f).id
  · by_cases hplan : plansIssue (sightedRow db f) = true <;> simp [hid, hplan, plannedRow]
  · simp [hid]

theorem sighted?_storeFinding (hn : Numbered db) (fp : String) :
    (storeFinding db f opts).1.sighted? fp =
      if fp = f.fingerprint then some (plannedRow db f opts) else db.sighted? fp := by
  have hw := sighted?_writeSighting (f := f) hn
  rw [storeFinding_fst]
  by_cases hplan : plansIssue (sightedRow db f) = true
  · simp only [maybePlanIssue, hplan, if_true]
    rw [FindingsDb.sighted?_updateRow _ _ _ _ (withIssue_fingerprint _), hw]
    by_cases hfp : fp = f.fingerprint
    · simp [hfp, hplan, plannedRow]
    · simp only [hfp, if_false]
      cases hs : db.sighted? fp with
      | none => rfl
      | some q =>
          have hne : q.id ≠ (sightedRow db f).id := by
            intro hid
            have hq := FindingsDb.row?_of_sighted? ((hw fp).trans (by rw [if_neg hfp, hs]))
            rw [hid, row?_writeSighting hn, if_pos rfl] at hq
            obtain rfl := Option.some.inj hq
            exact hfp ((FindingsDb.fingerprint_of_sighted? hs).symm.trans sightedRow_fingerprint)
          simp [hne]
  · simp [maybePlanIssue, hplan, hw, plannedRow]

/-- Filing a request touches no table. -/
@[simp] theorem row?_postFinding (id : Nat) :
    (postFinding db f opts).row? id = (storeFinding db f opts).1.row? id := by
  unfold postFinding startFiling
  simp only
  split
  · split <;> rfl
  · rfl

@[simp] theorem sighted?_postFinding (fp : String) :
    (postFinding db f opts).sighted? fp = (storeFinding db f opts).1.sighted? fp := by
  unfold postFinding startFiling
  simp only
  split
  · split <;> rfl
  · rfl

theorem postFinding_eq (db : FindingsDb) (f : ExploreFinding) (opts : IssueOptions) :
    ∃ filing, postFinding db f opts =
      { (storeFinding db f opts).1 with filing := filing } := by
  unfold postFinding startFiling
  simp only
  split
  · split
    · exact ⟨_, rfl⟩
    · exact ⟨_, rfl⟩
  · exact ⟨_, rfl⟩

/-- A sighting writes the findings table and nothing else but its request. -/
theorem postFinding_frame (db : FindingsDb) (f : ExploreFinding) (opts : IssueOptions) :
    ∃ findings seq filing, postFinding db f opts =
      { db with findings := findings, seq := seq, filing := filing } := by
  obtain ⟨filing, hfiling⟩ := postFinding_eq db f opts
  rw [hfiling, storeFinding_fst]
  unfold maybePlanIssue writeSighting
  cases db.sighted? f.fingerprint <;> split <;> exact ⟨_, _, _, rfl⟩

end Sightings

/-! ## Verdicts -/

section Verdicts

variable {db : FindingsDb}

/-- A flow is kept when a file was posted and the store still has it, and not otherwise. -/
theorem keepFlow_cases (db : FindingsDb) (f : FindingRow) (state : RegressionState)
    (read : ReadArtifact) : (keepFlow db f state read).1 = db ∨
      ∃ sha text, heldHash? (flowShaOf f) = some sha ∧
        ¬f.replay.any (fun r => decide (r.kind = .none)) = true ∧ read sha = some text ∧
        (keepFlow db f state read).1 = { db with
          regressions := db.regressions.insertNew (newRegression db.sqlNow f state sha text) } := by
  unfold keepFlow
  cases hsha : heldHash? (flowShaOf f) with
  | none => exact Or.inl rfl
  | some sha =>
      simp only
      split
      · exact Or.inl rfl
      · rename_i hkind
        cases htext : read sha with
        | none => exact Or.inl rfl
        | some text => exact Or.inr ⟨sha, text, rfl, hkind, htext, rfl⟩

/-- Moving a regression test writes the regressions table only. -/
theorem moveRegression_frame (db : FindingsDb) (f : FindingRow) (v : Option Verdict)
    (read : ReadArtifact) : ∃ regressions, (moveRegression db f v read).1 =
      { db with regressions := regressions } := by
  have hkeep : ∀ state, ∃ regressions, (keepFlow db f state read).1 =
      { db with regressions := regressions } := by
    intro state
    rcases keepFlow_cases db f state read with h | ⟨sha, text, -, -, -, h⟩ <;> rw [h]
    · exact ⟨_, rfl⟩
    · exact ⟨_, rfl⟩
  unfold moveRegression
  split
  · exact hkeep .candidate
  · split <;> exact ⟨_, rfl⟩
  · exact hkeep .active
  · split <;> exact ⟨_, rfl⟩
  · split <;> exact ⟨_, rfl⟩
  · exact ⟨_, rfl⟩
  · exact ⟨_, rfl⟩

@[simp] theorem row?_moveRegression (f : FindingRow) (v : Option Verdict) (read : ReadArtifact)
    (id : Nat) : (moveRegression db f v read).1.row? id = db.row? id := by
  obtain ⟨regressions, h⟩ := moveRegression_frame db f v read
  rw [h]
  rfl

@[simp] theorem sighted?_moveRegression (f : FindingRow) (v : Option Verdict)
    (read : ReadArtifact) (fp : String) :
    (moveRegression db f v read).1.sighted? fp = db.sighted? fp := by
  obtain ⟨regressions, h⟩ := moveRegression_frame db f v read
  rw [h]
  rfl

@[simp] theorem history_moveRegression (f : FindingRow) (v : Option Verdict)
    (read : ReadArtifact) (id : Nat) :
    (moveRegression db f v read).1.history id = db.history id := by
  obtain ⟨regressions, h⟩ := moveRegression_frame db f v read
  rw [h]
  rfl

/-- A verdict that is accepted found its row, and wrote it. -/
theorem setVerdict_ok {id : Nat} {v : Option Verdict} {note : Option String}
    {duplicateOf : Option Nat} {who : Who} {read : ReadArtifact} {out : FindingsDb × Option String}
    (h : setVerdict db id v note duplicateOf who read = .ok out) :
    ∃ target r, checkVerdict db id v note duplicateOf = .ok target ∧ db.row? id = some r ∧
      out = moveRegression (writeVerdict db id v note target who)
        (judge db.sqlNow v note target r) v read := by
  unfold setVerdict at h
  cases hcheck : checkVerdict db id v note duplicateOf with
  | error e => simp [hcheck] at h
  | ok target =>
      simp only [hcheck] at h
      cases hrow : db.row? id with
      | none =>
          have hnone : (writeVerdict db id v note target who).row? id = none := by
            simp [writeVerdict, hrow]
          simp [hnone] at h
      | some r =>
          have hsome : (writeVerdict db id v note target who).row? id =
              some (judge db.sqlNow v note target r) := by
            simp [writeVerdict, hrow]
          simp only [hsome, Except.ok.injEq] at h
          exact ⟨target, r, rfl, rfl, h.symm⟩

/-- A run that is recorded found both rows. -/
theorem recordRegressionRun_ok {id : Nat} {run : RegressionRun} {out : FindingsDb × Bool}
    (h : recordRegressionRun db id run = .ok out) :
    ∃ reg r, db.regression? id = some reg ∧ db.row? id = some r ∧
      out = if reopens reg run then
          (((db.updateRegression id (recordRun db.sqlNow run) (recordRun_id _ _)).updateRow id
            (reopen db.sqlNow run) (reopen_id _ _)).addVerdict (regressedEntry db.sqlNow id run),
            true)
        else (db.updateRegression id (recordRun db.sqlNow run) (recordRun_id _ _), false) := by
  unfold recordRegressionRun at h
  split at h
  · rename_i reg r hreg hrow
    refine ⟨reg, r, hreg, hrow, ?_⟩
    by_cases hre : reopens reg run = true
    · rw [if_pos hre] at h ⊢
      exact (Except.ok.inj h).symm
    · rw [if_neg hre] at h ⊢
      exact (Except.ok.inj h).symm
  · cases h

end Verdicts

/-- An accepted verdict is written to its own row. -/
theorem row?_step_verdict {db : FindingsDb} {id : Nat} {r : FindingRow} {v : Option Verdict}
    {note : Option String} {duplicateOf target : Option Nat}
    (hcheck : checkVerdict db id v note duplicateOf = .ok target) (hr : db.row? id = some r)
    (who : Who) (read : ReadArtifact) (j : Nat) :
    (step db (.verdict id v note duplicateOf who read)).row? j =
      if j = id then some (judge db.sqlNow v note target r) else db.row? j := by
  have hrow : (writeVerdict db id v note target who).row? id =
      some (judge db.sqlNow v note target r) := by
    simp [writeVerdict, hr]
  have hset : setVerdict db id v note duplicateOf who read = .ok (moveRegression
      (writeVerdict db id v note target who) (judge db.sqlNow v note target r) v read) := by
    simp [setVerdict, hcheck, hrow]
  simp only [step, hset]
  rw [row?_moveRegression, writeVerdict, FindingsDb.row?_addVerdict, FindingsDb.row?_updateRow]
  by_cases hj : j = id
  · simp [hj, hr]
  · simp [hj]

/-- A verdict is refused, or written and followed by the regression test. -/
theorem step_verdict (db : FindingsDb) (j : Nat) (v : Option Verdict) (note : Option String)
    (duplicateOf : Option Nat) (who : Who) (read : ReadArtifact) :
    step db (.verdict j v note duplicateOf who read) = db ∨
      ∃ target r, checkVerdict db j v note duplicateOf = .ok target ∧ db.row? j = some r ∧
        step db (.verdict j v note duplicateOf who read) = (moveRegression
          (writeVerdict db j v note target who) (judge db.sqlNow v note target r) v read).1 := by
  cases hset : setVerdict db j v note duplicateOf who read with
  | error e => exact Or.inl (by simp [step, hset])
  | ok out =>
      obtain ⟨target, r, hcheck, hr, rfl⟩ := setVerdict_ok hset
      exact Or.inr ⟨target, r, hcheck, hr, by simp [step, hset]⟩

/-- A report is refused, or recorded and the finding reopened where it calls for that. -/
theorem step_regressionRun (db : FindingsDb) (j : Nat) (run : RegressionRun) :
    step db (.regressionRun j run) = db ∨
      ∃ reg r, db.regression? j = some reg ∧ db.row? j = some r ∧
        (reopens reg run = true ∧ step db (.regressionRun j run) =
            ((db.updateRegression j (recordRun db.sqlNow run) (recordRun_id _ _)).updateRow j
              (reopen db.sqlNow run) (reopen_id _ _)).addVerdict (regressedEntry db.sqlNow j run) ∨
          reopens reg run = false ∧ step db (.regressionRun j run) =
            db.updateRegression j (recordRun db.sqlNow run) (recordRun_id _ _)) := by
  cases hrun : recordRegressionRun db j run with
  | error e => exact Or.inl (by simp [step, hrun])
  | ok out =>
      obtain ⟨reg, r, hreg, hr, rfl⟩ := recordRegressionRun_ok hrun
      refine Or.inr ⟨reg, r, hreg, hr, ?_⟩
      cases hre : reopens reg run with
      | true => exact Or.inl ⟨rfl, by simp [step, hrun, hre]⟩
      | false => exact Or.inr ⟨rfl, by simp [step, hrun, hre]⟩

/-- An answer from GitHub reaches the row its request was sent for. -/
theorem row?_finishFiling (db : FindingsDb) (j : Nat) (reply : GithubReply) (id : Nat) :
    (finishFiling db j reply).row? id = db.row? id ∨
      ∃ record, (j, record) ∈ db.filing ∧ id = j ∧ (finishFiling db j reply).row? id =
        (db.row? id).map (withAnswer (answered record reply)) := by
  unfold finishFiling
  cases hfind : db.filing.find? fun p => decide (p.1 = j) with
  | none => exact Or.inl rfl
  | some p =>
      obtain ⟨k, record⟩ := p
      have hmem := List.mem_of_find?_eq_some hfind
      have hkey := List.find?_some hfind
      simp only [decide_eq_true_eq] at hkey
      subst hkey
      have hrow := FindingsDb.row?_updateRow db k id (withAnswer (answered record reply))
        (withAnswer_id _)
      by_cases hid : id = k
      · exact Or.inr ⟨record, hmem, hid, by rw [if_pos hid] at hrow; exact hrow⟩
      · exact Or.inl (by rw [if_neg hid] at hrow; exact hrow)

/-! ## Rows -/

/-- What one request can do to the row of a finding. -/
inductive RowChange (db : FindingsDb) : Request → FindingRow → FindingRow → Prop
  | same (req : Request) (r : FindingRow) : RowChange db req r r
  | sighted {f : ExploreFinding} (opts : IssueOptions) {r : FindingRow} :
      db.sighted? f.fingerprint = some r → RowChange db (.post f opts) r (plannedRow db f opts)
  | judged {r : FindingRow} {v : Option Verdict} {note : Option String} {duplicateOf : Option Nat}
      (who : Who) (read : ReadArtifact) {target : Option Nat} :
      checkVerdict db r.id v note duplicateOf = .ok target →
      RowChange db (.verdict r.id v note duplicateOf who read) r (judge db.sqlNow v note target r)
  | reopened {r : FindingRow} {reg : RegressionRow} {run : RegressionRun} :
      db.regression? r.id = some reg → reopens reg run = true →
      RowChange db (.regressionRun r.id run) r (reopen db.sqlNow run r)
  | answered {r : FindingRow} {record : IssueRecord} (reply : GithubReply) :
      (r.id, record) ∈ db.filing →
      RowChange db (.github r.id reply) r (withAnswer (answered record reply) r)

/-- Every row that is there stays there, changed in one of these ways. -/
theorem step_row {db : FindingsDb} (hn : Numbered db) (req : Request) {id : Nat} {r : FindingRow}
    (h : db.row? id = some r) :
    ∃ r', (step db req).row? id = some r' ∧ RowChange db req r r' := by
  obtain rfl := FindingsDb.id_of_row? h
  cases req with
  | tick ms => exact ⟨r, h, .same _ r⟩
  | post f opts =>
      change ∃ r', (postFinding db f opts).row? r.id = some r' ∧ _
      rw [row?_postFinding, row?_storeFinding hn]
      by_cases hid : r.id = (sightedRow db f).id
      · refine ⟨plannedRow db f opts, if_pos hid, ?_⟩
        cases hs : db.sighted? f.fingerprint with
        | none =>
            have hseq : r.id = db.seq + 1 := by simpa [sightedRow, hs, newRow] using hid
            have hfree := hn.free
            rw [← hseq, h] at hfree
            cases hfree
        | some q =>
            have hq : r.id = q.id := by simpa [sightedRow, hs] using hid
            have hrow := FindingsDb.row?_of_sighted? hs
            rw [← hq, h] at hrow
            obtain rfl := Option.some.inj hrow
            exact .sighted opts hs
      · exact ⟨r, by rw [if_neg hid, h], .same _ r⟩
  | verdict j v note duplicateOf who read =>
      rcases step_verdict db j v note duplicateOf who read with
        hstep | ⟨target, q, hcheck, hq, hstep⟩
      · exact ⟨r, by rw [hstep, h], .same _ r⟩
      · rw [hstep, row?_moveRegression, writeVerdict, FindingsDb.row?_addVerdict,
          FindingsDb.row?_updateRow]
        by_cases hid : r.id = j
        · subst hid
          obtain rfl := Option.some.inj (h.symm.trans hq)
          exact ⟨_, by simp [h], .judged who read hcheck⟩
        · exact ⟨r, by simp [hid, h], .same _ r⟩
  | regressionRun j run =>
      rcases step_regressionRun db j run with
        hstep | ⟨reg, q, hreg, hq, ⟨hre, hstep⟩ | ⟨hre, hstep⟩⟩
      · exact ⟨r, by rw [hstep, h], .same _ r⟩
      · rw [hstep, FindingsDb.row?_addVerdict, FindingsDb.row?_updateRow]
        by_cases hid : r.id = j
        · subst hid
          exact ⟨_, by simp [h], .reopened hreg hre⟩
        · exact ⟨r, by simp [hid, h], .same _ r⟩
      · rw [hstep]
        exact ⟨r, h, .same _ r⟩
  | github j reply =>
      change ∃ r', (finishFiling db j reply).row? r.id = some r' ∧ _
      rcases row?_finishFiling db j reply r.id with hsame | ⟨record, hmem, rfl, hrow⟩
      · exact ⟨r, hsame.trans h, .same _ r⟩
      · exact ⟨_, by rw [hrow, h]; rfl, .answered reply hmem⟩

/-- Only a verdict and a reopening touch the verdict columns. -/
theorem RowChange.verdict {db : FindingsDb} {req : Request} {r r' : FindingRow}
    (hc : RowChange db req r r') :
    (r'.verdict = r.verdict ∧ r'.duplicate_of = r.duplicate_of) ∨
      (∃ v note duplicateOf who read target, req = .verdict r.id v note duplicateOf who read ∧
        checkVerdict db r.id v note duplicateOf = .ok target ∧ r' = judge db.sqlNow v note target r) ∨
      (∃ reg run, req = .regressionRun r.id run ∧ db.regression? r.id = some reg ∧
        reopens reg run = true ∧ r' = reopen db.sqlNow run r) := by
  cases hc with
  | same => exact Or.inl ⟨rfl, rfl⟩
  | sighted opts hs =>
      obtain ⟨issue, state, at_, hrow⟩ := plannedRow_eq db _ opts
      rw [hrow, sightedRow_of_some hs]
      exact Or.inl ⟨rfl, rfl⟩
  | judged who read hcheck => exact Or.inr (Or.inl ⟨_, _, _, who, read, _, rfl, hcheck, rfl⟩)
  | reopened hreg hre => exact Or.inr (Or.inr ⟨_, _, rfl, hreg, hre, rfl⟩)
  | answered reply hmem => exact Or.inl ⟨rfl, rfl⟩

/-- A row that was not there before is a first sighting. -/
theorem step_new {db : FindingsDb} (hn : Numbered db) (req : Request) {id : Nat} {r' : FindingRow}
    (h : db.row? id = none) (h' : (step db req).row? id = some r') :
    ∃ f opts, req = .post f opts ∧ db.sighted? f.fingerprint = none ∧ id = db.seq + 1 ∧
      r' = plannedRow db f opts := by
  cases req with
  | tick ms => cases h.symm.trans h'
  | post f opts =>
      change (postFinding db f opts).row? id = some r' at h'
      rw [row?_postFinding, row?_storeFinding hn] at h'
      by_cases hid : id = (sightedRow db f).id
      · rw [if_pos hid] at h'
        cases hs : db.sighted? f.fingerprint with
        | none => exact ⟨f, opts, rfl, hs, by simpa [sightedRow, hs, newRow] using hid,
            (Option.some.inj h').symm⟩
        | some q =>
            have hq : id = q.id := by simpa [sightedRow, hs] using hid
            rw [hq, FindingsDb.row?_of_sighted? hs] at h
            cases h
      · rw [if_neg hid, h] at h'
        cases h'
  | verdict j v note duplicateOf who read =>
      rcases step_verdict db j v note duplicateOf who read with hstep | ⟨target, q, -, -, hstep⟩
      · rw [hstep, h] at h'
        cases h'
      · rw [hstep, row?_moveRegression, writeVerdict, FindingsDb.row?_addVerdict,
          FindingsDb.row?_updateRow] at h'
        simp [h] at h'
  | regressionRun j run =>
      rcases step_regressionRun db j run with hstep | ⟨_, _, -, -, ⟨-, hstep⟩ | ⟨-, hstep⟩⟩
      · rw [hstep, h] at h'
        cases h'
      · rw [hstep, FindingsDb.row?_addVerdict, FindingsDb.row?_updateRow] at h'
        simp [h] at h'
      · rw [hstep] at h'
        cases h.symm.trans h'
  | github j reply =>
      change (finishFiling db j reply).row? id = some r' at h'
      rcases row?_finishFiling db j reply id with hsame | ⟨record, -, -, hrow⟩
      · cases (h.symm.trans hsame.symm).trans h'
      · rw [hrow, h] at h'
        cases h'

/-- No request but a sighting brings a fingerprint in; the row it names keeps its id. -/
theorem sighted?_step (db : FindingsDb) {req : Request} (hpost : ∀ f opts, req ≠ .post f opts)
    (fp : String) :
    ∃ g : FindingRow → FindingRow, (∀ r, (g r).id = r.id) ∧
      (step db req).sighted? fp = (db.sighted? fp).map g := by
  have hsame : ∃ g : FindingRow → FindingRow, (∀ r, (g r).id = r.id) ∧
      db.sighted? fp = (db.sighted? fp).map g :=
    ⟨fun r => r, fun _ => rfl, by simp⟩
  have hupdate : ∀ (d : FindingsDb) (k : Nat) (f : FindingRow → FindingRow)
      (hf : ∀ r, (f r).id = r.id), (∀ r, (f r).fingerprint = r.fingerprint) →
      ∃ g : FindingRow → FindingRow, (∀ r, (g r).id = r.id) ∧
        (d.updateRow k f hf).sighted? fp = (d.sighted? fp).map g := by
    intro d k f hf hfp
    refine ⟨fun r => if r.id = k then f r else r, fun r => ?_, d.sighted?_updateRow k f hf hfp fp⟩
    dsimp only
    split
    · exact hf r
    · rfl
  cases req with
  | tick ms => exact hsame
  | post f opts => exact absurd rfl (hpost f opts)
  | verdict j v note duplicateOf who read =>
      rcases step_verdict db j v note duplicateOf who read with hstep | ⟨_, _, -, -, hstep⟩
      · rw [hstep]
        exact hsame
      · rw [hstep, sighted?_moveRegression, writeVerdict, FindingsDb.sighted?_addVerdict]
        exact hupdate _ _ _ _ fun _ => rfl
  | regressionRun j run =>
      rcases step_regressionRun db j run with hstep | ⟨_, _, -, -, ⟨-, hstep⟩ | ⟨-, hstep⟩⟩
      · rw [hstep]
        exact hsame
      · rw [hstep, FindingsDb.sighted?_addVerdict]
        exact hupdate _ _ _ _ fun _ => rfl
      · rw [hstep]
        exact hsame
  | github j reply =>
      change ∃ g : FindingRow → FindingRow, (∀ r, (g r).id = r.id) ∧
        (finishFiling db j reply).sighted? fp = _
      unfold finishFiling
      split
      · exact hsame
      · exact hupdate db j _ (withAnswer_id _) fun _ => rfl

/-- The row a fingerprint names stays the row it names. -/
theorem step_sighted {db : FindingsDb} (hn : Numbered db) (req : Request) {fp : String}
    {r : FindingRow} (h : db.sighted? fp = some r) :
    ∃ r', (step db req).sighted? fp = some r' ∧ RowChange db req r r' := by
  have hid : ∃ r', (step db req).sighted? fp = some r' ∧ r'.id = r.id := by
    by_cases hpost : ∃ f opts, req = .post f opts
    · obtain ⟨f, opts, rfl⟩ := hpost
      change ∃ r', (postFinding db f opts).sighted? fp = some r' ∧ _
      rw [sighted?_postFinding, sighted?_storeFinding hn]
      by_cases hfp : fp = f.fingerprint
      · subst hfp
        exact ⟨_, if_pos rfl, by rw [plannedRow_id, sightedRow_of_some h, mergeSighting_id]⟩
      · exact ⟨r, by rw [if_neg hfp, h], rfl⟩
    · obtain ⟨g, hg, hs⟩ := sighted?_step db (fun f opts heq => hpost ⟨f, opts, heq⟩) fp
      exact ⟨g r, by rw [hs, h]; rfl, hg r⟩
  obtain ⟨r', hs', hid'⟩ := hid
  obtain ⟨q, hq, hc⟩ := step_row hn req (FindingsDb.row?_of_sighted? h)
  have hr' := FindingsDb.row?_of_sighted? hs'
  rw [hid', hq] at hr'
  obtain rfl := Option.some.inj hr'
  exact ⟨q, hs', hc⟩

/-- A fingerprint nobody posted is sighted only by a post of it. -/
theorem step_unsighted {db : FindingsDb} {req : Request} {fp : String}
    (h : db.sighted? fp = none)
    (hpost : ∀ f opts, req = .post f opts → f.fingerprint ≠ fp) (hn : Numbered db) :
    (step db req).sighted? fp = none := by
  by_cases hex : ∃ f opts, req = .post f opts
  · obtain ⟨f, opts, rfl⟩ := hex
    change (postFinding db f opts).sighted? fp = none
    rw [sighted?_postFinding, sighted?_storeFinding hn, if_neg, h]
    exact fun heq => hpost f opts rfl heq.symm
  · obtain ⟨g, -, hs⟩ := sighted?_step db (fun f opts heq => hex ⟨f, opts, heq⟩) fp
    rw [hs, h]
    rfl

/-! ## Ids -/

theorem seq_post (db : FindingsDb) (f : ExploreFinding) (opts : IssueOptions) :
    (step db (.post f opts)).seq =
      if (db.sighted? f.fingerprint).isNone then db.seq + 1 else db.seq := by
  obtain ⟨filing, hfiling⟩ := postFinding_eq db f opts
  have hseq : (step db (.post f opts)).seq = (writeSighting db f).seq := by
    change (postFinding db f opts).seq = _
    rw [hfiling, storeFinding_fst]
    unfold maybePlanIssue
    split <;> rfl
  rw [hseq]
  unfold writeSighting
  cases db.sighted? f.fingerprint <;> rfl

theorem seq_le_step (db : FindingsDb) (req : Request) : db.seq ≤ (step db req).seq := by
  cases req with
  | tick ms => exact le_rfl
  | post f opts =>
      rw [seq_post]
      split <;> omega
  | verdict j v note duplicateOf who read =>
      rcases step_verdict db j v note duplicateOf who read with hstep | ⟨target, q, -, -, hstep⟩
      · rw [hstep]
      · obtain ⟨regressions, hmove⟩ := moveRegression_frame
          (writeVerdict db j v note target who) (judge db.sqlNow v note target q) v read
        rw [hstep, hmove]
        exact le_rfl
  | regressionRun j run =>
      rcases step_regressionRun db j run with hstep | ⟨_, _, -, -, ⟨-, hstep⟩ | ⟨-, hstep⟩⟩
      · rw [hstep]
      · rw [hstep]
        exact le_rfl
      · rw [hstep]
        exact le_rfl
  | github j reply =>
      change db.seq ≤ (finishFiling db j reply).seq
      unfold finishFiling
      split <;> exact le_rfl

theorem Numbered.step {db : FindingsDb} (hn : Numbered db) (req : Request) :
    Numbered (step db req) := by
  intro id r' h'
  cases h : db.row? id with
  | some r => exact (hn id r h).trans (seq_le_step db req)
  | none =>
      obtain ⟨f, opts, rfl, hs, rfl, -⟩ := step_new hn req h h'
      rw [seq_post, hs]
      exact le_rfl

theorem numbered_empty : Numbered .empty := by
  intro id r h
  cases h

theorem numbered (reqs : List Request) : Numbered (after reqs) :=
  invariant_all (fun _ req hn => hn.step req) numbered_empty reqs

/-- What a step preserves of a numbered table holds in every state of a run. -/
theorem invariant_numbered {I : FindingsDb → Prop}
    (hstep : ∀ db req, Numbered db → I db → I (step db req)) (hempty : I .empty)
    (reqs : List Request) : I (after reqs) := by
  have hboth : ∀ db req, Numbered db ∧ I db → Numbered (step db req) ∧ I (step db req) :=
    fun db req h => ⟨h.1.step req, hstep db req h.1 h.2⟩
  exact (invariant_all hboth ⟨numbered_empty, hempty⟩ reqs).2

end FleetRunner.Findings
