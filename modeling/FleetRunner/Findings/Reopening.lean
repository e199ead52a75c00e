import FleetRunner.Findings.Machine
import FleetRunner.Library.Patterns

/-!
# Reopening once per job

A regression run that reproduces the failure reopens its finding unless the
last run recorded is one of the same job that reproduced it. The record holds
one job, so a job is recognised only while no other job reports in between.
-/

namespace FleetRunner.Findings

open Library

variable (id : Nat) (job : String)

/-- `recordRegressionRun`, as a step. -/
def recordStep (db : FindingsDb) (run : RegressionRun) : FindingsDb :=
  step db (.regressionRun id run)

/-- The call returns `reopened: true`. -/
def reopened (db : FindingsDb) (run : RegressionRun) : Bool :=
  match recordRegressionRun db id run with
  | .ok (_, flag) => flag
  | .error _ => false

def seenCount (db : FindingsDb) : Nat := ((db.row? id).map (·.seen_count)).getD 0

/-- How many of a job's reports reopen the finding. -/
def reopenings (db : FindingsDb) (runs : List RegressionRun) : Nat :=
  total (recordStep id) (fun db run =>
    if run.job_id = job ∧ reopened id db run = true then 1 else 0) db runs

/-- By how much a job's reports raise `seen_count`. -/
def growth (db : FindingsDb) (runs : List RegressionRun) : Nat :=
  total (recordStep id) (fun db run =>
    if run.job_id = job then seenCount id (recordStep id db run) - seenCount id db else 0) db runs

/-- The finding is there, and its regression test is active. -/
def Watched (db : FindingsDb) : Prop :=
  ∃ reg r, db.regression? id = some reg ∧ db.row? id = some r ∧ reg.state = .active

/-- The job whose reproduction is the last run recorded. -/
def recordedJob (db : FindingsDb) : Option String :=
  (db.regression? id).bind fun reg =>
    if reg.last_outcome = some .reproduced then reg.last_job_id else none

def Reproduces (run : RegressionRun) : Prop := run.job_id = job ∧ run.outcome = .reproduced

def OfAnother (run : RegressionRun) : Prop := run.job_id ≠ job

/-- Between two reproductions of the job no other job reports. A reproduction that is
on record when the reports begin stands for the first of a stretch. -/
def Unbroken (db : FindingsDb) (runs : List RegressionRun) : Prop :=
  if recordedJob id db = some job then
    ¬InOrder [OfAnother job, Reproduces job, OfAnother job, Reproduces job] runs
  else ¬InOrder [Reproduces job, OfAnother job, Reproduces job] runs

/-! ## One report -/

section OneReport

variable {id} {db : FindingsDb}

theorem alreadyThisJob_iff {reg : RegressionRow} (hreg : db.regression? id = some reg)
    (run : RegressionRun) : alreadyThisJob reg run = true ↔ recordedJob id db = some run.job_id := by
  by_cases hout : reg.last_outcome = some .reproduced <;>
    simp [alreadyThisJob, recordedJob, hreg, hout]

/-- What a report of a watched finding does. -/
theorem record_watched (hw : Watched id db) (run : RegressionRun) :
    (reopened id db run = true ↔
      run.outcome = .reproduced ∧ recordedJob id db ≠ some run.job_id) ∧
    Watched id (recordStep id db run) ∧
    recordedJob id (recordStep id db run) =
      (if recordedJob id db = some run.job_id ∨ run.outcome = .reproduced then some run.job_id
        else none) ∧
    seenCount id (recordStep id db run) =
      seenCount id db + if reopened id db run = true then 1 else 0 := by
  obtain ⟨reg, r, hreg, hr, hactive⟩ := hw
  have halready := alreadyThisJob_iff hreg run
  have hre : reopens reg run = true ↔
      run.outcome = .reproduced ∧ recordedJob id db ≠ some run.job_id := by
    rw [ne_eq, ← halready]
    simp [reopens, hactive]
  by_cases hopen : reopens reg run = true
  · have hout : recordRegressionRun db id run = .ok
        (((db.updateRegression id (recordRun db.sqlNow run) (recordRun_id _ _)).updateRow id
          (reopen db.sqlNow run) (reopen_id _ _)).addVerdict (regressedEntry db.sqlNow id run),
          true) := by
      simp [recordRegressionRun, hreg, hr, hopen]
    have hstep : recordStep id db run =
        ((db.updateRegression id (recordRun db.sqlNow run) (recordRun_id _ _)).updateRow id
          (reopen db.sqlNow run) (reopen_id _ _)).addVerdict (regressedEntry db.sqlNow id run) := by
      simp only [recordStep, step, hout]
    have hreg' : (recordStep id db run).regression? id = some (recordRun db.sqlNow run reg) := by
      rw [hstep, FindingsDb.regression?_addVerdict, FindingsDb.regression?_updateRow,
        FindingsDb.regression?_updateRegression, if_pos rfl, hreg]
      rfl
    have hr' : (recordStep id db run).row? id = some (reopen db.sqlNow run r) := by
      rw [hstep, FindingsDb.row?_addVerdict, FindingsDb.row?_updateRow_self,
        FindingsDb.row?_updateRegression, hr]
      rfl
    obtain ⟨hrep, hnot⟩ := hre.mp hopen
    have hflag : reopened id db run = true := by simp [reopened, hout]
    refine ⟨iff_of_true hflag ⟨hrep, hnot⟩, ⟨_, _, hreg', hr', hactive⟩, ?_, ?_⟩
    · simp [recordedJob, hreg', recordRun, hrep]
    · simp [seenCount, hr', hr, hflag, reopen]
  · have hout : recordRegressionRun db id run =
        .ok (db.updateRegression id (recordRun db.sqlNow run) (recordRun_id _ _), false) := by
      simp [recordRegressionRun, hreg, hr, hopen]
    have hstep : recordStep id db run =
        db.updateRegression id (recordRun db.sqlNow run) (recordRun_id _ _) := by
      simp only [recordStep, step, hout]
    have hreg' : (recordStep id db run).regression? id = some (recordRun db.sqlNow run reg) := by
      rw [hstep, FindingsDb.regression?_updateRegression, if_pos rfl, hreg]
      rfl
    have hr' : (recordStep id db run).row? id = some r := by
      rw [hstep, FindingsDb.row?_updateRegression, hr]
    have hflag : ¬reopened id db run = true := by simp [reopened, hout]
    refine ⟨iff_of_false hflag fun h => hopen (hre.mpr h), ⟨_, _, hreg', hr', hactive⟩, ?_, ?_⟩
    · by_cases ha : alreadyThisJob reg run = true
      · rw [if_pos (Or.inl (halready.mp ha))]
        simp [recordedJob, hreg', recordRun, ha]
      · have hother : recordedJob id db ≠ some run.job_id := fun h => ha (halready.mpr h)
        have hfailed : run.outcome ≠ .reproduced := fun h => hopen (hre.mpr ⟨h, hother⟩)
        rw [if_neg (by simp [hother, hfailed])]
        simp [recordedJob, hreg', recordRun, ha, hfailed]
    · simp [seenCount, hr', hr, hflag]

/-- A finding that is not watched is not reopened, and stays so. -/
theorem record_unwatched (hw : ¬Watched id db) (run : RegressionRun) :
    reopened id db run = false ∧ ¬Watched id (recordStep id db run) ∧
      seenCount id (recordStep id db run) = seenCount id db := by
  cases hout : recordRegressionRun db id run with
  | error e =>
      have hstep : recordStep id db run = db := by simp [recordStep, step, hout]
      exact ⟨by simp [reopened, hout], by rwa [hstep], by rw [hstep]⟩
  | ok out =>
      obtain ⟨reg, r, hreg, hr, rfl⟩ := recordRegressionRun_ok hout
      have hstate : reg.state ≠ .active := fun h => hw ⟨reg, r, hreg, hr, h⟩
      have hclosed : reopens reg run = false := by simp [reopens, hstate]
      have hstep : recordStep id db run =
          db.updateRegression id (recordRun db.sqlNow run) (recordRun_id _ _) := by
        simp [recordStep, step, hout, hclosed]
      refine ⟨by simp [reopened, hout, hclosed], ?_, by rw [hstep]; rfl⟩
      rintro ⟨reg', r', hreg', -, hactive⟩
      rw [hstep, FindingsDb.regression?_updateRegression, if_pos rfl, hreg] at hreg'
      obtain rfl := Option.some.inj hreg'
      exact hstate hactive

end OneReport

/-! ## Any number of reports -/

theorem reopenings_cons (db : FindingsDb) (run : RegressionRun) (rest : List RegressionRun) :
    reopenings id job db (run :: rest) =
      (if run.job_id = job ∧ reopened id db run = true then 1 else 0) +
        reopenings id job (recordStep id db run) rest := rfl

/-- So many reproductions of a job, each but the first after a report of another job. -/
def stretches : Nat → List (RegressionRun → Prop)
  | 0 => [Reproduces job]
  | n + 1 => Reproduces job :: OfAnother job :: stretches n

/-- A job reopens a watched finding once for each stretch of its reports that reproduces,
a stretch being cut by the reports of other jobs. -/
theorem lt_reopenings_iff (n : Nat) (runs : List RegressionRun) {db : FindingsDb}
    (hw : Watched id db) :
    n < reopenings id job db runs ↔
      if recordedJob id db = some job then InOrder (OfAnother job :: stretches job n) runs
      else InOrder (stretches job n) runs := by
  induction runs generalizing n db with
  | nil =>
      have hnever : ¬InOrder (stretches job n) ([] : List RegressionRun) := by
        cases n <;> simp [stretches]
      simp [reopenings, hnever]
  | cons run rest ih =>
      obtain ⟨hopen, hw', hrec, -⟩ := record_watched hw run
      rw [reopenings_cons]
      by_cases hjob : run.job_id = job
      · have hsame : ¬OfAnother job run := fun h => h hjob
        by_cases hm : recordedJob id db = some job
        · -- the job is on record: its report changes nothing
          have hquiet : ¬reopened id db run = true := fun h => (hopen.mp h).2 (by rw [hm, hjob])
          have hm' : recordedJob id (recordStep id db run) = some job := by
            rw [hrec, if_pos (Or.inl (by rw [hm, hjob])), hjob]
          rw [if_neg (fun h => hquiet h.2), Nat.zero_add, ih n hw', if_pos hm', if_pos hm,
            inOrder_cons]
          simp [hsame]
        · by_cases hrep : run.outcome = .reproduced
          · have hopened : reopened id db run = true := hopen.mpr ⟨hrep, by rwa [hjob]⟩
            have hm' : recordedJob id (recordStep id db run) = some job := by
              rw [hrec, if_pos (Or.inr hrep), hjob]
            rw [if_pos ⟨hjob, hopened⟩, if_neg hm]
            cases n with
            | zero =>
                refine iff_of_true (by omega) ?_
                exact inOrder_cons.mpr (Or.inr ⟨⟨hjob, hrep⟩, inOrder_nil _⟩)
            | succ n =>
                have hrest := ih n hw'
                rw [if_pos hm'] at hrest
                have hshift : n + 1 < 1 + reopenings id job (recordStep id db run) rest ↔
                    n < reopenings id job (recordStep id db run) rest := by omega
                rw [hshift, hrest]
                constructor
                · exact fun h => inOrder_cons.mpr (Or.inr ⟨⟨hjob, hrep⟩, h⟩)
                · intro h
                  rcases inOrder_cons.mp h with hlater | ⟨-, hhere⟩
                  · exact hlater.tail
                  · exact hhere
          · have hquiet : ¬reopened id db run = true := fun h => hrep (hopen.mp h).1
            have hm' : recordedJob id (recordStep id db run) ≠ some job := by
              rw [hrec, if_neg (by rw [hjob]; simp [hm, hrep])]
              simp
            have hpass : InOrder (stretches job n) (run :: rest) ↔ InOrder (stretches job n) rest := by
              cases n <;> simp [stretches, inOrder_cons, Reproduces, hrep]
            rw [if_neg (fun h => hquiet h.2), Nat.zero_add, ih n hw', if_neg hm', if_neg hm, hpass]
      · have hm' : recordedJob id (recordStep id db run) ≠ some job := by
          rw [hrec]
          split
          · simpa using hjob
          · simp
        have hpass : InOrder (stretches job n) (run :: rest) ↔ InOrder (stretches job n) rest := by
          cases n <;> simp [stretches, inOrder_cons, Reproduces, hjob]
        rw [if_neg (fun h => hjob h.1), Nat.zero_add, ih n hw', if_neg hm']
        by_cases hm : recordedJob id db = some job
        · rw [if_pos hm, inOrder_cons]
          constructor
          · exact fun h => Or.inr ⟨hjob, h⟩
          · rintro (h | ⟨-, h⟩)
            · exact h.tail
            · exact h
        · rw [if_neg hm, hpass]

/-- `seen_count` grows by one for each reopening. -/
theorem growth_eq (runs : List RegressionRun) (db : FindingsDb) :
    growth id job db runs = reopenings id job db runs := by
  induction runs generalizing db with
  | nil => rfl
  | cons run rest ih =>
      have hone : (if run.job_id = job then seenCount id (recordStep id db run) - seenCount id db
          else 0) = if run.job_id = job ∧ reopened id db run = true then 1 else 0 := by
        by_cases hw : Watched id db
        · obtain ⟨-, -, -, hseen⟩ := record_watched hw run
          rw [hseen]
          by_cases hjob : run.job_id = job <;> by_cases hopen : reopened id db run = true <;>
            simp [hjob, hopen]
        · obtain ⟨hclosed, -, hseen⟩ := record_unwatched hw run
          rw [hseen]
          simp [hclosed]
      rw [reopenings_cons, ← ih, ← hone]
      rfl

theorem reopenings_unwatched (runs : List RegressionRun) {db : FindingsDb} (hw : ¬Watched id db) :
    reopenings id job db runs = 0 := by
  induction runs generalizing db with
  | nil => rfl
  | cons run rest ih =>
      obtain ⟨hclosed, hw', -⟩ := record_unwatched hw run
      rw [reopenings_cons, hclosed, ih hw']
      simp

/-- A job reopens a finding once at most, and raises its count by one at most, exactly
when no other job reports between two of its reproductions. -/
theorem reopened_once_iff (db : FindingsDb) (runs : List RegressionRun) :
    (reopenings id job db runs ≤ 1 ∧ growth id job db runs ≤ 1) ↔
      (Watched id db → Unbroken id job db runs) := by
  rw [growth_eq, and_self]
  by_cases hw : Watched id db
  · have hcount := lt_reopenings_iff id job 1 runs hw
    rw [← not_lt, hcount]
    simp only [hw, forall_const, Unbroken, stretches]
    split <;> rfl
  · simp [hw, reopenings_unwatched id job runs hw]

/-- A finding with an active test, and one reproduction each from two jobs in turn. -/
def fixedOnce : List Request :=
  [.post (Sample.finding "a") Sample.dark, Sample.verdict 1 (some .real) none,
    Sample.verdict 1 (some .fixed) none]

def report (job device : String) : RegressionRun :=
  ⟨job, device, "1.1 (1)", .reproduced, ""⟩

/-- Two phones of one job report, with another job's report between them. -/
theorem reopened_twice :
    ¬∀ reqs id job runs, reopenings id job (after reqs) runs ≤ 1 ∧
      growth id job (after reqs) runs ≤ 1 := by
  intro h
  have htwo : reopenings 1 "night-a" (after fixedOnce)
      [report "night-a" "p1", report "night-b" "p2", report "night-a" "p3"] = 2 := by
    decide
  have hone := (h fixedOnce 1 "night-a"
    [report "night-a" "p1", report "night-b" "p2", report "night-a" "p3"]).1
  omega

end FleetRunner.Findings
