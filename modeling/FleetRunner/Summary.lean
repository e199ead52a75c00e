import FleetRunner.Lifecycle

/-!
# Job summaries (`api/v1/routes.ts`)

A summary reads the rows of a job a second time, beside its status: one outcome
a device, counts of what passed, failed and was skipped, and a verdict. The
status was decided when the job closed, from the same rows and the final row.

## Implementation notes

A fan-out parent has no row of its own and its children are found by a column
this development leaves out, so a summary is of a job that has one. What a
summary copies from columns left out here (the workload, who asked, the
duration, artifact links) is not in it.
-/

namespace FleetRunner

open Library

/-- What a row says of its tests. -/
structure TestCounts where
  passed : Option Json
  failed : Option Json
  skipped : Option Json

/-- How a job went on a device. -/
structure DeviceOutcome where
  device_id : String
  job_id : String
  status : Status
  ok : Option Bool
  skipped : Bool
  error : Option String
  metrics : Option Json
  test : Option TestCounts
  failing_step : Option String

/-- `v ?? null` -/
def present (v : Option Json) : Option Json :=
  match v with
  | some .null => none
  | v => v

/-- `p.test` as counts, where it is an object. -/
def testCounts (p : Json) : Option TestCounts :=
  match p.prop "test" with
  | some (.obj fs) =>
    some ⟨present (Fields.get? fs "passed"), present (Fields.get? fs "failed"),
      present (Fields.get? fs "skipped")⟩
  | some (.arr _) => some ⟨none, none, none⟩
  | _ => none

/-- The first of the three names for it that is there, when it is a string. -/
def failingStep (p : Json) : Option String :=
  let test := p.prop "test"
  (((present (optProp test "failing_flow")).or (present (optProp test "failing_step"))).or
    (present (p.prop "failing_step"))).bind Json.asStr?

/-- The device a job without rows is told of. -/
def summaryDevice (js : Js) (job : Job) : Except JsError String :=
  match job.claimed_by with
  | some device => .ok device
  | none =>
    match present (optProp (job.spec.prop "targets") "device_id") with
    | some device => device.text js
    | none => .ok "(unassigned)"

/-- A job without rows: its status is the whole story. -/
def statusOutcome (job : Job) (device : String) : DeviceOutcome :=
  let skipped := job.status = .skipped || isSkipError (job.last_error.map Json.str)
  { device_id := device
    job_id := job.job_id
    status := job.status
    ok := match job.status with
      | .skipped => some true
      | .done => some !skipped
      | .failed => some false
      | _ => none
    skipped
    error := job.last_error
    metrics := none
    test := none
    failing_step := none }

/-- The outcome that a row tells. -/
def rowOutcome (job : Job) (entry : String × Json) : DeviceOutcome :=
  let p := entry.2
  let error := (p.prop "error").bind Json.asStr?
  { device_id := entry.1
    job_id := job.job_id
    status := job.status
    ok := if job.status.terminal || optTruthy (p.prop "final") then some !okIsFalse p else none
    skipped := isSkipError (error.map Json.str)
    error
    metrics := present (p.prop "metrics")
    test := testCounts p
    failing_step := failingStep p }

/-- The outcomes of a job: those its rows tell, or what its status says. -/
def outcomesOf (js : Js) (db : Db) (job : Job) : Except JsError (List DeviceOutcome) :=
  let entries := deviceVerdicts (rowsOf db job.job_id)
  if entries.isEmpty then (summaryDevice js job).map fun device => [statusOutcome job device]
  else .ok (entries.map (rowOutcome job))

/-- What a summary comes to. -/
inductive SummaryVerdict where
  | running | queued | waiting | cancelled | mixed | failed | skipped | passed
  deriving DecidableEq

/-- How many devices went which way. -/
structure SummaryCounts where
  devices : Nat
  passed : Nat
  failed : Nat
  skipped : Nat
  running : Nat

/-- Counts the outcomes. -/
def countOutcomes (jobs : List Job) (devices : List DeviceOutcome) : SummaryCounts where
  devices := devices.length
  passed := devices.countP fun d => d.ok = some true && !d.skipped
  failed := devices.countP fun d => d.ok = some false
  skipped := devices.countP fun d => d.skipped
  running := jobs.countP fun j => !j.status.terminal

/-- The verdict of these jobs: by their statuses until all have ended, then by the counts. -/
def summaryVerdict (jobs : List Job) (n : SummaryCounts) : SummaryVerdict :=
  let has (s : Status) := jobs.any fun j => decide (j.status = s)
  if !jobs.all (fun j => j.status.terminal) then
    if has .claimed then .running else if has .queued then .queued else .waiting
  else if jobs.all (fun j => decide (j.status = .cancelled)) then .cancelled
  else if 0 < n.failed ∧ 0 < n.passed then .mixed
  else if 0 < n.failed ∨ has .failed = true then .failed
  else if n.passed = 0 ∧ (0 < n.skipped ∨ has .cancelled = true) then
    if 0 < n.skipped then .skipped else .cancelled
  else .passed

/-- The summary of a job and its children. -/
structure Summary where
  job_id : String
  status : Status
  finished : Bool
  verdict : SummaryVerdict
  fanout : Bool
  claimed_by : Option String
  last_error : Option String
  counts : SummaryCounts
  devices : List DeviceOutcome

/-- The summary of a job that has a row. -/
def summarize (js : Js) (db : Db) (id : String) : Except JsError (Option Summary) :=
  match db.job? id with
  | none => .ok none
  | some job =>
    (outcomesOf js db job).map fun devices =>
      let counts := countOutcomes [job] devices
      some
        { job_id := id
          status := job.status
          finished := job.status.terminal
          verdict := summaryVerdict [job] counts
          fanout := false
          claimed_by := job.claimed_by
          last_error := job.last_error
          counts
          devices }

/-! ## What a verdict says -/

/-- The row says nothing ran, and does not say it failed. -/
def Skipped (p : Json) : Prop := okIsFalse p = false ∧ isSkipError (p.prop "error") = true

/-- Something ran, and it did not fail. -/
def Passed (p : Json) : Prop := okIsFalse p = false ∧ isSkipError (p.prop "error") = false

section Verdict

variable (job : Job)

/-- The verdict on one job that ended other than by being cancelled. -/
theorem summaryVerdict_one (n : SummaryCounts) (ht : job.status.terminal = true)
    (hc : job.status ≠ .cancelled) :
    summaryVerdict [job] n =
      if 0 < n.failed ∧ 0 < n.passed then .mixed
      else if 0 < n.failed ∨ job.status = .failed then .failed
      else if n.passed = 0 ∧ 0 < n.skipped then .skipped
      else .passed := by
  by_cases hp : n.passed = 0 ∧ 0 < n.skipped
  · simp [summaryVerdict, ht, hc, hp]
  · simp [summaryVerdict, ht, hc, hp]

theorem rowOutcome_skipped (p : String × Json) :
    (rowOutcome job p).skipped = isSkipError (p.2.prop "error") := by
  cases herror : p.2.prop "error" with
  | none => simp [rowOutcome, herror, isSkipError]
  | some v => cases v <;> simp [rowOutcome, herror, isSkipError, Json.asStr?]

theorem rowOutcome_ok (ht : job.status.terminal = true) (p : String × Json) :
    (rowOutcome job p).ok = some !okIsFalse p.2 := by
  simp [rowOutcome, ht]

variable (entries : Fields)

theorem failed_pos_iff (ht : job.status.terminal = true) :
    0 < (countOutcomes [job] (entries.map (rowOutcome job))).failed ↔
      ∃ p ∈ entries, okIsFalse p.2 = true := by
  simp [countOutcomes, List.countP_pos_iff, rowOutcome_ok job ht]

theorem passed_pos_iff (ht : job.status.terminal = true) :
    0 < (countOutcomes [job] (entries.map (rowOutcome job))).passed ↔
      ∃ p ∈ entries, Passed p.2 := by
  simp [countOutcomes, List.countP_pos_iff, rowOutcome_ok job ht, rowOutcome_skipped, Passed]

theorem skipped_pos_iff :
    0 < (countOutcomes [job] (entries.map (rowOutcome job))).skipped ↔
      ∃ p ∈ entries, isSkipError (p.2.prop "error") = true := by
  simp [countOutcomes, List.countP_pos_iff, rowOutcome_skipped]

/-- Either every row is a skip, or some row failed or passed. -/
theorem all_skipped_iff :
    (∀ p ∈ entries, Skipped p.2) ↔
      ¬(∃ p ∈ entries, okIsFalse p.2 = true) ∧ ¬∃ p ∈ entries, Passed p.2 := by
  constructor
  · intro h
    refine ⟨?_, ?_⟩
    · rintro ⟨p, hp, hfail⟩
      exact Bool.false_ne_true ((h p hp).1.symm.trans hfail)
    · rintro ⟨p, hp, hpass⟩
      exact Bool.false_ne_true (hpass.2.symm.trans (h p hp).2)
  · rintro ⟨hfail, hpass⟩ p hp
    have hok : okIsFalse p.2 = false := Bool.eq_false_iff.mpr fun h => hfail ⟨p, hp, h⟩
    refine ⟨hok, ?_⟩
    by_contra hran
    exact hpass ⟨p, hp, hok, Bool.eq_false_iff.mpr hran⟩

section Readings

variable {job entries} (hne : entries ≠ []) (ht : job.status.terminal = true)
  (hc : job.status ≠ .cancelled)

include hne ht hc in
/-- Skipped is said of a job none of whose rows ran. -/
theorem verdict_skipped_iff :
    summaryVerdict [job] (countOutcomes [job] (entries.map (rowOutcome job))) = .skipped ↔
      job.status ≠ .failed ∧ ∀ p ∈ entries, Skipped p.2 := by
  have hfail := failed_pos_iff job entries ht
  have hpass := passed_pos_iff job entries ht
  have hskip := skipped_pos_iff job entries
  rw [summaryVerdict_one job _ ht hc, all_skipped_iff, ← hfail, ← hpass]
  constructor
  · intro h
    split_ifs at h with h1 h2 h3
    exact ⟨fun hs => h2 (Or.inr hs), fun hf => h2 (Or.inl hf), by omega⟩
  · rintro ⟨hs, hf, hp⟩
    have hall := (all_skipped_iff entries).mpr ⟨by rwa [← hfail], by rwa [← hpass]⟩
    obtain ⟨p, hp'⟩ := List.exists_mem_of_ne_nil _ hne
    have hsome := hskip.mpr ⟨p, hp', (hall p hp').2⟩
    rw [if_neg fun h => hf h.1, if_neg (by simp [hf, hs]), if_pos ⟨by omega, hsome⟩]

include ht hc in
/-- Failed is said when something failed and nothing passed, or the job itself failed. -/
theorem verdict_failed_iff (hs : job.status ≠ .failed) :
    summaryVerdict [job] (countOutcomes [job] (entries.map (rowOutcome job))) = .failed ↔
      (∃ p ∈ entries, okIsFalse p.2 = true) ∧ ¬∃ p ∈ entries, Passed p.2 := by
  rw [summaryVerdict_one job _ ht hc, ← failed_pos_iff job entries ht,
    ← passed_pos_iff job entries ht]
  split_ifs with h1 h2 h3
  · simp [h1]
  · simp_all
  · simp_all
  · simp_all

include hne ht hc in
/-- Passed is said of a job that did not fail and some of whose rows ran. -/
theorem not_all_skipped_of_passed
    (h : summaryVerdict [job] (countOutcomes [job] (entries.map (rowOutcome job))) = .passed) :
    job.status ≠ .failed ∧ ¬∀ p ∈ entries, Skipped p.2 := by
  have hstatus : job.status ≠ .failed := by
    rw [summaryVerdict_one job _ ht hc] at h
    split_ifs at h with h1 h2 h3
    exact fun hs => h2 (Or.inr hs)
  refine ⟨hstatus, fun hall => ?_⟩
  rw [(verdict_skipped_iff hne ht hc).mpr ⟨hstatus, hall⟩] at h
  cases h

end Readings

end Verdict

/-! ## Status and summary -/

theorem closingStatus_failed_iff (rows : List ResultRow) (final : Json) :
    (closingStatus rows final).status = .failed ↔ okIsFalse final = true := by
  by_cases hok : okIsFalse final = true
  · simp [closingStatus, hok, Closing.status]
  · simp only [closingStatus, hok, Bool.false_eq_true, if_false, iff_false]
    split_ifs <;> simp [Closing.status]

theorem closingStatus_skipped_iff (rows : List ResultRow) (final : Json) :
    (closingStatus rows final).status = .skipped ↔ okIsFalse final = false ∧
      (isSkipError (final.prop "error") = true ∨
        deviceVerdicts rows ≠ [] ∧ ∀ p ∈ deviceVerdicts rows, Skipped p.2) := by
  by_cases hok : okIsFalse final = true
  · simp [closingStatus, hok, Closing.status]
  · by_cases hskip : isSkipError (final.prop "error") = true
    · simp [closingStatus, hok, hskip, Closing.status]
    · simp only [closingStatus, hok, hskip, Bool.false_eq_true, if_false, false_or, true_and]
      split_ifs with hall
      · simpa [Closing.status, Skipped, List.isEmpty_iff] using hall
      · simpa [Closing.status, Skipped, List.isEmpty_iff] using hall

theorem set_ne_nil (o : Fields) (k : String) (v : Json) : Fields.set o k v ≠ [] := by
  cases o with
  | nil => simp [Fields.set]
  | cons p rest =>
      simp only [Fields.set]
      split <;> simp

/-- A job that has rows has a row for some device. -/
theorem deviceVerdicts_ne_nil {rows : List ResultRow} (h : rows ≠ []) :
    deviceVerdicts rows ≠ [] := by
  have hlatest : latestByDevice rows ≠ [] := by
    rw [← List.dropLast_concat_getLast h, latestByDevice, List.foldl_append]
    simp only [List.foldl_cons, List.foldl_nil]
    split
    · rename_i prev hprev
      split
      · exact set_ne_nil _ _ _
      · intro hnil
        rw [hnil] at hprev
        cases hprev
    · exact set_ne_nil _ _ _
  unfold deviceVerdicts
  dsimp only
  split
  · rename_i hany
    obtain ⟨p, hp, hdevice⟩ := List.any_eq_true.mp hany
    exact List.ne_nil_of_mem (List.mem_filter.mpr ⟨hp, hdevice⟩)
  · exact hlatest

theorem rowsOf_closeJobTx (js : Js) (db : Db) (id jobId : String) (closing : Closing) :
    rowsOf (closeJobTx js db id closing).1 jobId = rowsOf db jobId := by
  obtain ⟨jobs, hjobs⟩ := (settling_settle js ((db.updateJob id (closeRow db.sqlNow closing)
    (closeRow_job_id _ _)).dropLocks id) id).same
  rw [closeJobTx, hjobs]
  rfl

/-- What a job's status and its summary are not to disagree about. -/
def Agree (closing : Closing) (verdict : SummaryVerdict) : Prop :=
  (verdict = .skipped ↔ closing.status = .skipped) ∧
    (closing.status = .failed ∨ closing.status = .skipped → verdict ≠ .passed) ∧
    (closing.status = .done → verdict ≠ .failed)

/-- The final row failed; or it skipped, and so did the newest row of every device; or it
did neither, and where one of those rows failed another passed. -/
def SameStory (rows : List ResultRow) (final : Json) : Prop :=
  okIsFalse final = true ∨
    if isSkipError (final.prop "error") then ∀ p ∈ deviceVerdicts rows, Skipped p.2
    else (∃ p ∈ deviceVerdicts rows, okIsFalse p.2 = true) →
      ∃ p ∈ deviceVerdicts rows, Passed p.2

/-- The summary of a job that was just closed reads the rows it was closed by. -/
theorem summarize_closed (js : Js) {db : Db} {id : String} {r : Job} (closing : Closing)
    (hr : db.job? id = some r) (hrows : rowsOf db id ≠ []) :
    ∃ s, summarize js (closeJobTx js db id closing).1 id = .ok (some s) ∧
      s.verdict = summaryVerdict [closeRow db.sqlNow closing r]
        (countOutcomes [closeRow db.sqlNow closing r]
          ((deviceVerdicts (rowsOf db id)).map (rowOutcome (closeRow db.sqlNow closing r)))) := by
  have hjob : (closeJobTx js db id closing).1.job? id = some (closeRow db.sqlNow closing r) :=
    job?_closeJobTx_self hr
  have hid : (closeRow db.sqlNow closing r).job_id = id :=
    (closeRow_job_id _ _ r).trans (Db.job_id_of_job? hr)
  have hsome : (deviceVerdicts (rowsOf db id)).isEmpty = false := by
    simpa using deviceVerdicts_ne_nil hrows
  have houtcomes : outcomesOf js (closeJobTx js db id closing).1 (closeRow db.sqlNow closing r) =
      .ok ((deviceVerdicts (rowsOf db id)).map (rowOutcome (closeRow db.sqlNow closing r))) := by
    simp only [outcomesOf, hid, rowsOf_closeJobTx, hsome]
    rfl
  unfold summarize
  rw [hjob]
  simp only [houtcomes]
  exact ⟨_, rfl, rfl⟩

/-- Where a verdict reads the rows, it agrees with the closing exactly when they tell the
same story. -/
theorem agree_iff {rows : List ResultRow} {final : Json} {verdict : SummaryVerdict}
    (hne : deviceVerdicts rows ≠ [])
    (hskipped : verdict = .skipped ↔
      (closingStatus rows final).status ≠ .failed ∧ ∀ p ∈ deviceVerdicts rows, Skipped p.2)
    (hfailed : (closingStatus rows final).status ≠ .failed → (verdict = .failed ↔
      (∃ p ∈ deviceVerdicts rows, okIsFalse p.2 = true) ∧ ¬∃ p ∈ deviceVerdicts rows, Passed p.2))
    (hpassed : verdict = .passed →
      (closingStatus rows final).status ≠ .failed ∧ ¬∀ p ∈ deviceVerdicts rows, Skipped p.2) :
    Agree (closingStatus rows final) verdict ↔ SameStory rows final := by
  have hcf := closingStatus_failed_iff rows final
  have hcs := closingStatus_skipped_iff rows final
  unfold Agree SameStory
  by_cases hok : okIsFalse final = true
  · have hclosed := hcf.mpr hok
    refine iff_of_true ⟨?_, fun _ h => (hpassed h).1 hclosed, ?_⟩ (Or.inl hok)
    · exact iff_of_false (fun h => (hskipped.mp h).1 hclosed) (by simp [hclosed])
    · simp [hclosed]
  · have hran : (closingStatus rows final).status ≠ .failed := fun h => hok (hcf.mp h)
    rw [or_iff_right hok]
    by_cases hskip : isSkipError (final.prop "error") = true
    · have hclosed := hcs.mpr ⟨Bool.eq_false_iff.mpr hok, Or.inl hskip⟩
      rw [if_pos hskip]
      constructor
      · exact fun h => (hskipped.mp (h.1.mpr hclosed)).2
      · intro hall
        refine ⟨iff_of_true (hskipped.mpr ⟨hran, hall⟩) hclosed, ?_, by simp [hclosed]⟩
        exact fun _ h => (hpassed h).2 hall
    · rw [if_neg hskip]
      by_cases hall : ∀ p ∈ deviceVerdicts rows, Skipped p.2
      · have hclosed := hcs.mpr ⟨Bool.eq_false_iff.mpr hok, Or.inr ⟨hne, hall⟩⟩
        refine iff_of_true ⟨iff_of_true (hskipped.mpr ⟨hran, hall⟩) hclosed, ?_, ?_⟩ ?_
        · exact fun _ h => (hpassed h).2 hall
        · simp [hclosed]
        · exact fun hfail => absurd hfail ((all_skipped_iff _).mp hall).1
      · -- the job is done: all that is left to say is that its verdict is not failed
        have hnot : (closingStatus rows final).status ≠ .skipped := fun h =>
          (hcs.mp h).2.elim hskip fun h => hall h.2
        have hclosed : (closingStatus rows final).status = .done := by
          cases hcase : closingStatus rows final with
          | failed reason => simp [hcase, Closing.status] at hran
          | done => rfl
          | skipped reason => simp [hcase, Closing.status] at hnot
        constructor
        · intro h hfail
          by_contra hpass
          exact h.2.2 hclosed ((hfailed hran).mpr ⟨hfail, hpass⟩)
        · intro hstory
          refine ⟨iff_of_false (fun h => hall (hskipped.mp h).2) hnot, ?_, fun _ h => ?_⟩
          · rintro (h | h)
            · exact absurd h hran
            · exact absurd h hnot
          · obtain ⟨hfail, hpass⟩ := (hfailed hran).mp h
            exact hpass (hstory hfail)

/-- A job's status and its summary agree about whether anything ran exactly when the final
row and the newest rows of its devices tell the same story. -/
theorem summary_agrees_iff (js : Js) (db : Db) (id : String) (r : Job) (final : Json)
    (hr : db.job? id = some r) (hfinal : ∃ row ∈ rowsOf db id, row.payload = final) :
    (∃ s, summarize js (closeJobTx js db id (finalClosing db id final)).1 id = .ok (some s) ∧
      Agree (finalClosing db id final) s.verdict) ↔ SameStory (rowsOf db id) final := by
  have hrows : rowsOf db id ≠ [] := by
    obtain ⟨row, hrow, -⟩ := hfinal
    exact List.ne_nil_of_mem hrow
  obtain ⟨s, hs, hverdict⟩ := summarize_closed js (finalClosing db id final) hr hrows
  have hne := deviceVerdicts_ne_nil hrows
  have ht : (closeRow db.sqlNow (finalClosing db id final) r).status.terminal = true :=
    closeRow_terminal _ _ _
  have hc : (closeRow db.sqlNow (finalClosing db id final) r).status ≠ .cancelled := by
    cases finalClosing db id final <;> simp [closeRow, Closing.status]
  have hagree : Agree (finalClosing db id final) s.verdict ↔ SameStory (rowsOf db id) final := by
    rw [hverdict]
    exact agree_iff hne (verdict_skipped_iff hne ht hc) (fun hs => verdict_failed_iff ht hc hs)
      (not_all_skipped_of_passed hne ht hc)
  rw [← hagree]
  constructor
  · rintro ⟨t, hsum, hagree⟩
    obtain rfl : s = t := by simpa using hs.symm.trans hsum
    exact hagree
  · exact fun hagree => ⟨s, hs, hagree⟩

/-- A host job that posted what one phone said and then, as its final row, what the host
makes of it. -/
def hostRows (phone host : Fields) : Db :=
  let db : Db :=
    { Db.empty with
      jobs := Table.empty.insertNew
        { job_id := "ui", executor := .host, spec := .obj [], status := .claimed, created_at := 0,
          claimed_by := some "mac", claimed_at := some 0, finished_at := none, lease_ttl_s := 60,
          max_attempts := 1, attempts := 1, lease_deadline := some 60, last_error := none,
          priority := 0, depends_on := [] } }
  recordResult (recordResult db "ui" "pixel" 1 (.obj phone)) "ui" "host:mac" 2 (.obj host)

theorem rowsOf_hostRows (phone host : Fields) : rowsOf (hostRows phone host) "ui" =
    [⟨"pixel", .obj phone⟩, ⟨"host:mac", .obj host⟩] := rfl

/-- The host's final row closes the job, and the job is summarized. -/
def HostAgrees (phone host : Fields) : Prop :=
  ∃ s, summarize .plain (closeJobTx .plain (hostRows phone host) "ui"
      (finalClosing (hostRows phone host) "ui" (.obj host))).1 "ui" = .ok (some s) ∧
    Agree (finalClosing (hostRows phone host) "ui" (.obj host)) s.verdict

def allWell : Fields := [("final", .bool true), ("ok", .bool true)]

theorem summary_agrees_allWell : HostAgrees [("ok", .bool true)] allWell := by
  have hrow : ∃ row ∈ rowsOf (hostRows [("ok", .bool true)] allWell) "ui",
      row.payload = .obj allWell :=
    ⟨⟨"host:mac", .obj allWell⟩, by simp [rowsOf_hostRows], rfl⟩
  refine (summary_agrees_iff .plain _ "ui" _ _ rfl hrow).mpr (Or.inr ?_)
  rw [if_neg (by decide)]
  exact fun _ => ⟨("pixel", .obj [("ok", .bool true)]), List.mem_singleton.mpr rfl, rfl, rfl⟩

/-- The phone ran, and the host says that nothing did. -/
def nothingRan : Fields :=
  [("final", .bool true), ("ok", .bool true), ("error", .str "skipped: no Roku password")]

/-- The job is skipped and its verdict is passed. -/
theorem summary_disagrees : ¬∀ (js : Js) (db : Db) (id : String) (r : Job) (final : Json),
    db.job? id = some r → (∃ row ∈ rowsOf db id, row.payload = final) →
      ∃ s, summarize js (closeJobTx js db id (finalClosing db id final)).1 id = .ok (some s) ∧
        Agree (finalClosing db id final) s.verdict := by
  intro h
  have hrow : ∃ row ∈ rowsOf (hostRows [("ok", .bool true)] nothingRan) "ui",
      row.payload = .obj nothingRan :=
    ⟨⟨"host:mac", .obj nothingRan⟩, by simp [rowsOf_hostRows], rfl⟩
  have hpassed : okAnd (summarize .plain (closeJobTx .plain
      (hostRows [("ok", .bool true)] nothingRan) "ui"
      (finalClosing (hostRows [("ok", .bool true)] nothingRan) "ui" (.obj nothingRan))).1 "ui")
      (fun s => s.any fun s => decide (s.verdict = .passed)) = true := by decide
  have hskipped : (finalClosing (hostRows [("ok", .bool true)] nothingRan) "ui"
      (.obj nothingRan)).status = .skipped := by decide
  obtain ⟨s, hs, hagree⟩ := h .plain _ "ui" _ (.obj nothingRan) rfl hrow
  rw [hs] at hpassed
  have hverdict : s.verdict = .passed := by simpa [okAnd] using hpassed
  exact hagree.2.1 (Or.inr hskipped) hverdict

end FleetRunner
