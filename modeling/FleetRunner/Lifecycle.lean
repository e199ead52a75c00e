import FleetRunner.Collector
import FleetRunner.Waiters

/-!
# What a request does to a job

One specification lemma for each transaction, and over them `Change`: every way
a request can alter the row of a job, with the guard it passed. The results
about runs read `Change` and never a transaction.
-/

namespace FleetRunner

open Library

/-- Neither a job nor a lock differs. -/
structure SameQueue (db db' : Db) : Prop where
  jobs : db'.jobs = db.jobs
  device_locks : db'.device_locks = db.device_locks

theorem SameQueue.refl (db : Db) : SameQueue db db := ⟨rfl, rfl⟩

theorem SameQueue.job? {db db' : Db} (h : SameQueue db db') (id : String) :
    db'.job? id = db.job? id := by
  simp only [Db.job?, h.jobs]

theorem SameQueue.lockOf {db db' : Db} (h : SameQueue db db') (d : String) :
    db'.lockOf d = db.lockOf d := by
  simp only [Db.lockOf, h.device_locks]

/-! ## Enqueue -/

/-- What an enqueue inserts: rows of one plan, whose ids it chose. -/
def PlanRows {db : Db} (p : Plan db) (rows : List Job) : Prop :=
  ∀ r ∈ rows, ∃ id spec, r = newJob p id spec

theorem orThrow_eq_ok {α : Type} {x : Except JsError α} {a : α} (h : orThrow x = .ok a) :
    x = .ok a := by
  cases x with
  | error e => cases h
  | ok b => simpa [orThrow] using h

theorem refuse_ne_ok {α : Type} {http : Nat} {code : ErrorCode} {message hint : String} {a : α} :
    refuse http code message hint ≠ .ok a := by
  simp [refuse]

section Enqueue

variable {js : Js} {db : Db}

theorem placeOne_ok {p : Plan db} {db' : Db} {out : EnqueueAccepted}
    (h : placeOne js p false = .ok (db', out)) :
    db.jobs.contains p.job_id = false ∧ db' = insertJobs db [newJob p p.job_id p.spec] := by
  unfold placeOne at h
  split at h
  · exact absurd h refuse_ne_ok
  · rename_i hfresh
    cases h
    exact ⟨by simpa using hfresh, rfl⟩

theorem placeFanout_ok {p : Plan db} {fanout : Json} {db' : Db} {out : EnqueueAccepted}
    (h : placeFanout js p fanout false = .ok (db', out)) :
    ∃ devices, fanoutDevices js p fanout = .ok devices ∧
      db' = insertJobs db (devices.map (childJob p)) ∧
      out.fanout = some ((devices.map (childId p)).filter fun id => !db.jobs.contains id) := by
  unfold placeFanout at h
  obtain ⟨devices, hdevices, h⟩ := bind_eq_ok h
  cases h
  exact ⟨devices, hdevices, rfl, rfl⟩

theorem enqueueJob_ok {input : Json} {db' : Db} {out : EnqueueAccepted}
    (h : enqueueJob js db input false = .ok (db', out)) :
    ∃ (p : Plan db) (rows : List Job), prepare js db input = .ok p ∧ PlanRows p rows ∧
      db' = insertJobs db rows := by
  unfold enqueueJob at h
  obtain ⟨p, hp, h⟩ := bind_eq_ok h
  have hone : placeOne js p false = .ok (db', out) → PlanRows p [newJob p p.job_id p.spec] ∧
      db' = insertJobs db [newJob p p.job_id p.spec] := by
    intro hplace
    refine ⟨?_, (placeOne_ok hplace).2⟩
    intro r hr
    exact ⟨_, _, List.mem_singleton.mp hr⟩
  split at h
  · split at h
    · obtain ⟨devices, -, hdb, -⟩ := placeFanout_ok h
      refine ⟨p, _, hp, ?_, hdb⟩
      intro r hr
      obtain ⟨d, -, rfl⟩ := List.mem_map.mp hr
      exact ⟨_, _, rfl⟩
    · exact ⟨p, _, hp, hone h⟩
  · exact ⟨p, _, hp, hone h⟩

end Enqueue

/-- An insertion leaves the rows that were there. -/
theorem job?_insertJobs_of_some {db : Db} {rows : List Job} {id : String} {r : Job}
    (h : db.job? id = some r) : (insertJobs db rows).job? id = some r := by
  change (rows.foldl Table.insertNew db.jobs).find? id = some r
  change db.jobs.find? id = some r at h
  generalize db.jobs = t at h
  induction rows generalizing t with
  | nil => exact h
  | cons q rest ih => exact ih _ (Table.find?_insertNew_of_some h)

theorem job?_step_enqueue (cfg : Config) {db : Db} {id : String} {r : Job}
    (h : db.job? id = some r) (input : Json) :
    (step cfg db (.enqueue input)).job? id = some r := by
  simp only [step]
  split
  · rename_i queued out hout
    obtain ⟨p, rows, -, -, rfl⟩ := enqueueJob_ok hout
    exact job?_insertJobs_of_some h
  · exact h

/-- A row that was not there is one of those inserted. -/
theorem mem_of_job?_insertJobs {db : Db} {rows : List Job} {id : String} {r : Job}
    (hnone : db.job? id = none) (h : (insertJobs db rows).job? id = some r) : r ∈ rows := by
  change (rows.foldl Table.insertNew db.jobs).find? id = some r at h
  change db.jobs.find? id = none at hnone
  generalize db.jobs = t at h hnone
  induction rows generalizing t with
  | nil => simp [hnone] at h
  | cons q rest ih =>
      by_cases hq : q.job_id = id
      · have hfound : (t.insertNew q).find? id = some q := by
          simp [Table.find?_insertNew, hnone, hq]
        have hstays : ∀ (t : Table Job.job_id), t.find? id = some q →
            (rest.foldl Table.insertNew t).find? id = some q := by
          intro t ht
          exact @job?_insertJobs_of_some { db with jobs := t } rest id q ht
        obtain rfl : q = r := Option.some.inj ((hstays _ hfound).symm.trans h)
        exact List.mem_cons_self
      · have hstill : (t.insertNew q).find? id = none := by
          simp [Table.find?_insertNew, hnone, hq]
        exact List.mem_cons_of_mem q (ih _ h hstill)

/-! ## Claims -/

theorem mem_queuedFor {db : Db} {executor : Executor} {r : Job} (h : r ∈ queuedFor db executor) :
    db.job? r.job_id = some r ∧ r.status = .queued ∧ r.executor = executor := by
  unfold queuedFor at h
  rw [List.mem_insertionSort] at h
  obtain ⟨hmem, hr⟩ := List.mem_filter.mp h
  exact ⟨Table.mem_rows_iff.mp hmem, of_decide_eq_true hr⟩

/-- An attempt hands out nothing, or the first queued job it may. -/
theorem claimTx_ok {js : Js} {my : String} {db db' : Db} {executor : Executor} {claimant : String}
    {out : Option Json} (h : claimTx js my db executor claimant = .ok (db', out)) :
    db' = db ∨ ∃ r, db.job? r.job_id = some r ∧ r.status = .queued ∧ r.executor = executor ∧
      (executor = .device → db.lockOf claimant = none) ∧
      db' = grantClaim db executor claimant r.job_id := by
  unfold claimTx at h
  simp only at h
  split at h
  · cases h
    exact Or.inl rfl
  · rename_i hfree
    split at h
    · cases h
    · cases h
      exact Or.inl rfl
    · rename_i r hfind
      cases h
      obtain ⟨hr, hqueued, hexec⟩ := mem_queuedFor (findE_eq_some hfind).1
      refine Or.inr ⟨r, hr, hqueued, hexec, ?_, rfl⟩
      rintro rfl
      simpa using fun hlock => hfree ⟨rfl, Or.inl hlock⟩

/-- Who asks for work in this request. -/
def Request.claims : Request → Option (Executor × String)
  | .nextJob id => some (.device, id)
  | .executorNextJob name => some (.host, name)
  | .pollAgain executor claimant => some (executor, claimant)
  | _ => none

/-- The claimant was given a queued job, in a state with the same queue. -/
def Granted (db db' : Db) (executor : Executor) (claimant : String) : Prop :=
  ∃ seen r, SameQueue db seen ∧ seen.now = db.now ∧ seen.job? r.job_id = some r ∧
    r.status = .queued ∧ r.executor = executor ∧
    (executor = .device → seen.lockOf claimant = none) ∧
    db' = grantClaim seen executor claimant r.job_id

/-- A request for work hands out nothing or a claim. -/
theorem step_claims (cfg : Config) (db : Db) {req : Request} {executor : Executor}
    {claimant : String} (h : req.claims = some (executor, claimant)) :
    SameQueue db (step cfg db req) ∨ Granted db (step cfg db req) executor claimant := by
  have hattempt : ∀ seen, SameQueue db seen → seen.now = db.now →
      pollAgain cfg.js cfg.collectorId seen executor claimant = step cfg db req →
      SameQueue db (step cfg db req) ∨ Granted db (step cfg db req) executor claimant := by
    intro seen hsame hnow hstep
    rw [← hstep, pollAgain]
    split
    · rename_i claimed out hclaim
      rcases claimTx_ok hclaim with rfl | ⟨r, hr, hqueued, hexec, hlock, rfl⟩
      · exact Or.inl hsame
      · exact Or.inr ⟨seen, r, hsame, hnow, hr, hqueued, hexec, hlock, rfl⟩
    · exact Or.inl hsame
  cases req with
  | nextJob device =>
      cases h
      by_cases hdev : (db.device? claimant).isNone = true
      · left
        simp only [step, nextJob, hdev, if_true]
        exact .refl db
      · exact hattempt (touchDevice db claimant) ⟨rfl, rfl⟩ rfl (if_neg hdev).symm
  | executorNextJob name =>
      cases h
      refine hattempt _ ?_ ?_ rfl
      · exact ⟨rfl, rfl⟩
      · rfl
  | pollAgain e c =>
      cases h
      exact hattempt db (.refl db) rfl rfl
  | _ => cases h

theorem job?_grantClaim (db : Db) (executor : Executor) (claimant id j : String) :
    (grantClaim db executor claimant id).job? j =
      if j = id then (db.job? j).map (claimRow db.sqlNow claimant) else db.job? j := by
  cases executor <;> exact Db.job?_updateJob db id j _ (claimRow_job_id _ _)

/-! ## The sweep -/

/-- The rows and locks after part of a sweep, whose entries are distinct. -/
theorem foldl_sweepOne {jobs : List Job} (hnodup : (jobs.map (·.job_id)).Nodup)
    (s : Db × Swept) :
    (∀ id, (jobs.foldl sweepOne s).1.job? id =
      if id ∈ jobs.map (·.job_id) then (s.1.job? id).map (sweepRow s.1.sqlNow) else s.1.job? id) ∧
    (∀ d, (jobs.foldl sweepOne s).1.lockOf d =
      if ∃ j ∈ jobs, s.1.lockOf d = some j.job_id then none else s.1.lockOf d) ∧
    order (jobs.foldl sweepOne s).1 = order s.1 := by
  induction jobs generalizing s with
  | nil => simp
  | cons j rest ih =>
      rw [List.map_cons, List.nodup_cons] at hnodup
      have hdb : (sweepOne s j).1 = (s.1.updateJob j.job_id (sweepRow s.1.sqlNow)
          (sweepRow_job_id _)).dropLocks j.job_id := by
        unfold sweepOne
        split <;> rfl
      have hnow : (sweepOne s j).1.sqlNow = s.1.sqlNow := by rw [hdb]; rfl
      obtain ⟨hjobs, hlocks, horder⟩ := ih hnodup.2 (sweepOne s j)
      rw [List.foldl_cons]
      refine ⟨?_, ?_, ?_⟩
      · intro id
        rw [hjobs id, hnow, hdb, Db.job?_dropLocks, Db.job?_updateJob]
        by_cases hid : id = j.job_id
        · subst hid
          simp [hnodup.1]
        · simp [hid]
      · intro d
        rw [hlocks d, hdb]
        simp only [Db.lockOf_dropLocks, Db.lockOf_updateJob]
        by_cases hd : s.1.lockOf d = some j.job_id
        · simp [hd]
        · simp [hd]
      · rw [horder, hdb]
        exact order_updateJob _ _ _ (sweepRow_job_id _)

theorem mem_expired_iff {db : Db} {id : String} {r : Job} (h : db.job? id = some r) :
    id ∈ (db.jobs.rows.filter (leaseLapsed db.sqlNow)).map (·.job_id) ↔
      leaseLapsed db.sqlNow r = true := by
  constructor
  · intro hid
    obtain ⟨q, hq, hqid⟩ := List.mem_map.mp hid
    obtain ⟨hmem, hlapsed⟩ := List.mem_filter.mp hq
    have hfound : db.job? id = some q := Table.find?_eq_some_iff.mpr ⟨hmem, hqid⟩
    rwa [← Option.some.inj (hfound.symm.trans h)]
  · intro hlapsed
    obtain ⟨hmem, hid⟩ := Table.find?_eq_some_iff.mp h
    exact List.mem_map.mpr ⟨r, List.mem_filter.mpr ⟨hmem, hlapsed⟩, hid⟩

theorem nodup_expired (db : Db) :
    ((db.jobs.rows.filter (leaseLapsed db.sqlNow)).map (·.job_id)).Nodup :=
  db.jobs.nodup.sublist (List.filter_sublist.map _)

/-- A lapsed claim cannot be read, so the sweep throws. -/
def sweepThrows (db : Db) : Bool :=
  (db.jobs.rows.filter (leaseLapsed db.sqlNow)).any Job.outOfRange

section Sweep

variable {db swept : Db} {out : Swept}

theorem sweepLeasesTx_ok (h : sweepLeasesTx db = .ok (swept, out)) :
    sweepThrows db = false ∧
      swept = ((db.jobs.rows.filter (leaseLapsed db.sqlNow)).foldl sweepOne (db, ⟨[], []⟩)).1 := by
  unfold sweepLeasesTx at h
  simp only at h
  split at h
  · cases h
  · rename_i hreads
    refine ⟨by simpa [sweepThrows] using hreads, ?_⟩
    exact (congrArg Prod.fst (Except.ok.inj h)).symm

/-- The sweep rewrites exactly the claims whose lease lapsed. -/
theorem job?_sweep (h : sweepLeasesTx db = .ok (swept, out)) {id : String} {r : Job}
    (hr : db.job? id = some r) :
    swept.job? id = some (if leaseLapsed db.sqlNow r then sweepRow db.sqlNow r else r) := by
  rw [(sweepLeasesTx_ok h).2, (foldl_sweepOne (nodup_expired db) _).1 id]
  simp only [hr, mem_expired_iff hr, Option.map_some]
  split <;> rfl

/-- The sweep frees the devices of those claims and no other. -/
theorem lockOf_sweep (h : sweepLeasesTx db = .ok (swept, out)) (d : String) :
    swept.lockOf d =
      if ∃ j ∈ db.jobs.rows.filter (leaseLapsed db.sqlNow), db.lockOf d = some j.job_id then none
      else db.lockOf d := by
  rw [(sweepLeasesTx_ok h).2]
  exact (foldl_sweepOne (nodup_expired db) _).2.1 d

theorem order_sweep (h : sweepLeasesTx db = .ok (swept, out)) : order swept = order db := by
  rw [(sweepLeasesTx_ok h).2]
  exact (foldl_sweepOne (nodup_expired db) _).2.2

/-- A sweep throws and leaves everything, or its transaction goes through. -/
theorem step_sweep (cfg : Config) (db : Db) :
    (sweepThrows db = true ∧ step cfg db .sweep = db) ∨
      ∃ swept out, sweepLeasesTx db = .ok (swept, out) ∧
        step cfg db .sweep = (forgetStaleSimulators cfg.simulatorTtlS swept).1 := by
  cases hsweep : sweepLeasesTx db with
  | error e =>
      left
      refine ⟨?_, by simp only [step, sweepLeases, hsweep, bind, Except.bind]⟩
      unfold sweepLeasesTx at hsweep
      simp only at hsweep
      split at hsweep
      · assumption
      · cases hsweep
  | ok res =>
      obtain ⟨swept, out⟩ := res
      exact Or.inr ⟨swept, out, rfl, by simp only [step, sweepLeases, hsweep, bind, Except.bind]⟩

theorem sameQueue_forgetStaleSimulators (ttl : Nat) (db : Db) :
    SameQueue db (forgetStaleSimulators ttl db).1 := ⟨rfl, rfl⟩

end Sweep

/-! ## Results -/

section Results

variable {js : Js} {db : Db}

theorem sameQueue_recordResult (jobId deviceId : String) (iter : Rat) (b : Json) :
    SameQueue db (recordResult db jobId deviceId iter b) := ⟨rfl, rfl⟩

theorem sameQueue_recordBeacon (deviceId : String) (b : Json) :
    SameQueue db (recordBeacon db deviceId b) := ⟨rfl, rfl⟩

theorem postBeacon_eq (deviceId : String) (b : Json) :
    (postBeacon js db deviceId b).1 =
      match textField? b "job_id" with
      | none => recordBeacon db deviceId b
      | some jobId => renewLease (recordBeacon db deviceId b) jobId := by
  unfold postBeacon
  cases textField? b "job_id" with
  | none => rfl
  | some jobId =>
      simp only
      split
      · rfl
      · split <;> rfl

/-- The row of a closed job, whatever was settled behind it. -/
theorem job?_closeJobTx_self {jobId : String} {closing : Closing} {r : Job}
    (h : db.job? jobId = some r) :
    (closeJobTx js db jobId closing).1.job? jobId = some (closeRow db.sqlNow closing r) := by
  exact (settling_settle js _ jobId).of_not_waiting (by simp [h])
    (Status.ne_waiting_of_terminal (closeRow_terminal _ _ _))

/-- Another job's row is as it was, or was settled. -/
theorem job?_closeJobTx_of_ne {jobId id : String} (closing : Closing) (hne : id ≠ jobId) {r : Job}
    (h : db.job? id = some r) :
    ∃ r', (closeJobTx js db jobId closing).1.job? id = some r' ∧
      Settled js (closeJobTx js db jobId closing).1 r r' :=
  (settling_settle js _ jobId).rows id r (by simp [Db.job?_updateJob, hne, h])

theorem job?_closeJobTx_none {jobId id : String} {closing : Closing} (h : db.job? id = none) :
    (closeJobTx js db jobId closing).1.job? id = none := by
  refine (settling_settle js _ jobId).missing id ?_
  simp [Db.job?_updateJob, h]

theorem settle_now (db : Db) (closed : String) : (settle js db closed).1.now = db.now := by
  obtain ⟨jobs, hjobs⟩ := (settling_settle js db closed).same
  rw [hjobs]

theorem closeJobTx_now (jobId : String) (closing : Closing) :
    (closeJobTx js db jobId closing).1.now = db.now := by
  rw [closeJobTx, settle_now]
  rfl

theorem requeuePreemptedTx_eq_none {jobId : String} {b : Json} :
    requeuePreemptedTx db jobId b = none ↔
      ∀ r, db.job? jobId = some r → r.status ≠ .claimed := by
  unfold requeuePreemptedTx
  cases db.job? jobId with
  | none => simp
  | some r => by_cases hr : r.status = .claimed <;> simp [hr]

theorem requeuePreemptedTx_of_claimed {jobId : String} {b : Json} {r : Job}
    (h : db.job? jobId = some r) (hr : r.status = .claimed) :
    requeuePreemptedTx db jobId b =
      some ((db.updateJob jobId (preemptRow (firstArtifactSha b)) (preemptRow_job_id _)).dropLocks
        jobId, firstArtifactSha b) := by
  simp [requeuePreemptedTx, h, hr]

/-- A final row stands for a claim to hand on, or closes the job. -/
theorem postFinal_cases (js : Js) (db : Db) (jobId : String) (b : Json) :
    (∃ r, isPreempted b = true ∧ db.job? jobId = some r ∧ r.status = .claimed ∧
      (postFinal js db jobId b).1 = (db.updateJob jobId (preemptRow (firstArtifactSha b))
        (preemptRow_job_id _)).dropLocks jobId) ∨
    (¬(isPreempted b = true ∧ ∃ r, db.job? jobId = some r ∧ r.status = .claimed) ∧
      (postFinal js db jobId b).1 = (closeJobTx js db jobId (finalClosing db jobId b)).1) := by
  unfold postFinal
  by_cases hp : isPreempted b = true
  · by_cases hr : ∃ r, db.job? jobId = some r ∧ r.status = .claimed
    · obtain ⟨r, hr, hclaimed⟩ := hr
      refine Or.inl ⟨r, hp, hr, hclaimed, ?_⟩
      simp [hp, requeuePreemptedTx_of_claimed hr hclaimed]
    · refine Or.inr ⟨fun h => hr h.2, ?_⟩
      have hnone : requeuePreemptedTx db jobId b = none :=
        requeuePreemptedTx_eq_none.mpr fun r h hclaimed => hr ⟨r, h, hclaimed⟩
      simp [hp, hnone, closeFinal]
  · refine Or.inr ⟨fun h => hp h.1, ?_⟩
    simp [hp, closeFinal]

theorem releaseTx_ok {jobId : String} {who was : Option String} {db' : Db}
    (h : releaseTx db jobId who = .ok (db', was)) :
    ∃ r, db.job? jobId = some r ∧ r.status = .claimed ∧
      (who = none ∨ r.claimed_by = none ∨ r.claimed_by = who) ∧
      db' = (db.updateJob jobId releaseRow releaseRow_job_id).dropLocks jobId := by
  unfold releaseTx at h
  split at h
  · cases h
  · rename_i r hr
    split at h
    · cases h
    · rename_i hclaimed
      split at h
      · cases h
      · rename_i hholder
        split at h
        · cases h
        · cases h
          refine ⟨r, hr, by simpa using hclaimed, ?_, rfl⟩
          cases who with
          | none => exact Or.inl rfl
          | some w =>
              cases hby : r.claimed_by with
              | none => exact Or.inr (Or.inl rfl)
              | some c => simpa [hby] using hholder

theorem cancelTx_ok {jobId reason : String} {db' : Db} {out : Cancelled}
    (h : cancelTx js db jobId reason = .ok (db', out)) :
    ∃ r, db.job? jobId = some r ∧ r.status.live = true ∧
      db' = (settle js ((closeWaiter .cancelled db jobId reason).dropLocks jobId) jobId).1 := by
  unfold cancelTx at h
  split at h
  · cases h
  · rename_i r hr
    split at h
    · cases h
    · rename_i hlive
      cases h
      exact ⟨r, hr, by simpa using hlive, rfl⟩

end Results

/-! ## Registration and locks -/

theorem sameQueue_register {db db' : Db} {b : Json} {refused out : Option String}
    (h : register db b refused = .ok (db', out)) : SameQueue db db' := by
  have hupsert : ∀ g, SameQueue db (upsertDevice db g) := by
    intro g
    unfold upsertDevice
    split <;> exact ⟨rfl, rfl⟩
  have hretire : ∀ (seen : Db) (id : String) (descriptor : Json),
      SameQueue seen (retireRokuIpDuplicate seen id descriptor).1 := by
    intro seen id descriptor
    unfold retireRokuIpDuplicate
    split
    · simp only
      split
      · split <;> exact ⟨rfl, rfl⟩
      · exact .refl seen
    · exact .refl seen
  unfold register at h
  obtain ⟨g, -, h⟩ := bind_eq_ok h
  split at h
  · cases h
  · obtain rfl := congrArg Prod.fst (Except.ok.inj h)
    exact ⟨(hretire _ _ _).jobs.trans (hupsert g).jobs,
      (hretire _ _ _).device_locks.trans (hupsert g).device_locks⟩

theorem jobs_acquireLocksTx (db : Db) (jobId : String) (ids : List String) :
    (acquireLocksTx db jobId ids).1.jobs = db.jobs := by
  refine @Library.invariant_all _ _ (acquireOne jobId) (fun s => s.1.jobs = db.jobs)
    (fun s d hdb => ?_) (db, ⟨[], []⟩) rfl ids
  unfold acquireOne
  split
  · exact hdb
  · split <;> exact hdb

theorem job?_acquireLocksTx (db : Db) (jobId : String) (ids : List String) (id : String) :
    (acquireLocksTx db jobId ids).1.job? id = db.job? id := by
  simp only [Db.job?, jobs_acquireLocksTx]

/-! ## Every change to a row -/

section Change

variable (cfg : Config)

/-- Does this request close the job and settle what waits on it? -/
def Closes (db : Db) (id : String) : Request → Prop
  | .cancel jobId _ => jobId = id ∧ ∃ r, db.job? id = some r ∧ r.status.live = true
  | .results body => ∃ p, readPost body = .ok (.result p) ∧ p.final = true ∧ p.job_id = id ∧
      ∀ r, db.job? id = some r → ¬(isPreempted p.body = true ∧ r.status = .claimed)
  | _ => False

/-- How a request may alter the row of a job. -/
inductive Change (db : Db) : Request → Job → Job → Prop
  | same (req : Request) (r : Job) : Change db req r r
  | claimed {req : Request} {executor : Executor} {claimant : String} {r : Job} :
      req.claims = some (executor, claimant) → r.status = .queued → r.executor = executor →
      Change db req r (claimRow db.sqlNow claimant r)
  | renewed {body : Json} {r : Job} : textField? body "job_id" = some r.job_id →
      Change db (.results body) r (renewRow db.sqlNow r)
  | swept {r : Job} : leaseLapsed db.sqlNow r = true → Change db .sweep r (sweepRow db.sqlNow r)
  | released {r : Job} {who : Option String} : r.status = .claimed →
      (who = none ∨ r.claimed_by = none ∨ r.claimed_by = who) →
      Change db (.release r.job_id who) r (releaseRow r)
  | preempted {body : Json} {p : ResultPost} {r : Job} : readPost body = .ok (.result p) →
      p.final = true → p.job_id = r.job_id → isPreempted p.body = true → r.status = .claimed →
      Change db (.results body) r (preemptRow (firstArtifactSha p.body) r)
  | closed {body : Json} {p : ResultPost} {r : Job} : readPost body = .ok (.result p) →
      p.final = true → p.job_id = r.job_id → ¬(isPreempted p.body = true ∧ r.status = .claimed) →
      Change db (.results body) r (closeRow db.sqlNow (finalClosing
        (recordResult db p.job_id p.device_id p.iter p.body) p.job_id p.body) r)
  | cancelled {r : Job} {reason : String} : r.status.live = true →
      Change db (.cancel r.job_id reason) r
        (closedRow .cancelled db.sqlNow (clipReason reason) r)
  | settled {req : Request} {id : String} {db' : Db} {r r' : Job} : Closes db id req →
      db'.now = db.now → r.status = .waiting → Settled cfg.js db' r r' → Change db req r r'
  | prioritised {r : Job} (priority : Int) :
      Change db (.setPriority r.job_id priority) r { r with priority }

variable {cfg}

variable (cfg) in
/-- A final row of a claim that stood aside puts its job back on the queue. -/
theorem step_preempted {db : Db} {body : Json} {p : ResultPost} {r : Job}
    (hpost : readPost body = .ok (.result p)) (hfinal : p.final = true)
    (hr : db.job? p.job_id = some r) (hp : isPreempted p.body = true) (hc : r.status = .claimed) :
    step cfg db (.results body) =
      ((recordResult db p.job_id p.device_id p.iter p.body).updateJob p.job_id
        (preemptRow (firstArtifactSha p.body)) (preemptRow_job_id _)).dropLocks p.job_id := by
  have hr' : (recordResult db p.job_id p.device_id p.iter p.body).job? p.job_id = some r := hr
  simp [step, postResults, hpost, postResult, hfinal, postFinal, hp,
    requeuePreemptedTx_of_claimed hr' hc]

variable (cfg) in
/-- Any other final row closes its job. -/
theorem step_final {db : Db} {body : Json} {p : ResultPost}
    (hpost : readPost body = .ok (.result p)) (hfinal : p.final = true)
    (hnot : ∀ r, db.job? p.job_id = some r → ¬(isPreempted p.body = true ∧ r.status = .claimed)) :
    step cfg db (.results body) =
      (closeJobTx cfg.js (recordResult db p.job_id p.device_id p.iter p.body) p.job_id
        (finalClosing (recordResult db p.job_id p.device_id p.iter p.body) p.job_id p.body)).1 := by
  rcases postFinal_cases cfg.js (recordResult db p.job_id p.device_id p.iter p.body) p.job_id
    p.body with ⟨r, hp, hr, hc, -⟩ | ⟨-, hdb⟩
  · exact absurd ⟨hp, hc⟩ (hnot r hr)
  · simp only [step, postResults, hpost, postResult, hfinal, if_true]
    exact hdb

variable (cfg) in
/-- A row that is not final is recorded, and that is all. -/
theorem step_iteration {db : Db} {body : Json} {p : ResultPost}
    (hpost : readPost body = .ok (.result p)) (hfinal : p.final = false) :
    step cfg db (.results body) = recordResult db p.job_id p.device_id p.iter p.body := by
  simp [step, postResults, hpost, postResult, hfinal]

/-- A settled row is a change of a row that was waiting, or none. -/
theorem Change.of_settled {db db' : Db} {req : Request} {id : String} (hcloses : Closes db id req)
    (hnow : db'.now = db.now) {r r' : Job} (h : Settled cfg.js db' r r') :
    Change cfg db req r r' := by
  by_cases hwait : r.status = .waiting
  · exact .settled hcloses hnow hwait h
  · rw [h.eq_of_not_waiting hwait]
    exact .same req r

variable (cfg) in
theorem change_result {db : Db} {r : Job} (h : db.job? r.job_id = some r) {body : Json}
    {p : ResultPost} (hpost : readPost body = .ok (.result p)) :
    ∃ r', (step cfg db (.results body)).job? r.job_id = some r' ∧
      Change cfg db (.results body) r r' := by
  by_cases hfinal : p.final = true
  · by_cases hid : r.job_id = p.job_id
    · have hr : db.job? p.job_id = some r := hid ▸ h
      by_cases hp : isPreempted p.body = true ∧ r.status = .claimed
      · rw [step_preempted cfg hpost hfinal hr hp.1 hp.2, hid]
        refine ⟨_, ?_, .preempted hpost hfinal hid.symm hp.1 hp.2⟩
        rw [Db.job?_dropLocks, Db.job?_updateJob_self, (sameQueue_recordResult _ _ _ _).job?, hr]
        rfl
      · rw [step_final cfg hpost hfinal fun q hq => Option.some.inj (hr.symm.trans hq) ▸ hp, hid]
        refine ⟨_, ?_, .closed hpost hfinal hid.symm hp⟩
        exact job?_closeJobTx_self (by rw [(sameQueue_recordResult _ _ _ _).job?, hr])
    · have hr : (recordResult db p.job_id p.device_id p.iter p.body).job? r.job_id = some r := h
      by_cases hp : ∃ q, db.job? p.job_id = some q ∧ isPreempted p.body = true ∧ q.status = .claimed
      · obtain ⟨q, hq, hp, hc⟩ := hp
        rw [step_preempted cfg hpost hfinal hq hp hc]
        exact ⟨r, by simpa [Db.job?_updateJob, hid] using hr, .same _ r⟩
      · rw [step_final cfg hpost hfinal fun q hq hpq => hp ⟨q, hq, hpq⟩]
        obtain ⟨r', hr', hsettled⟩ := job?_closeJobTx_of_ne (finalClosing
          (recordResult db p.job_id p.device_id p.iter p.body) p.job_id p.body) hid hr
        have hcloses : Closes db p.job_id (.results body) :=
          ⟨p, hpost, hfinal, rfl, fun q hq hpq => hp ⟨q, hq, hpq⟩⟩
        refine ⟨r', hr', .of_settled hcloses ?_ hsettled⟩
        rw [closeJobTx_now]
        rfl
  · rw [step_iteration cfg hpost (by simpa using hfinal)]
    exact ⟨r, h, .same _ r⟩

theorem change_results {db : Db} {id : String} {r : Job} (h : db.job? id = some r) (body : Json) :
    ∃ r', (step cfg db (.results body)).job? id = some r' ∧
      Change cfg db (.results body) r r' := by
  obtain rfl : r.job_id = id := Db.job_id_of_job? h
  simp only [step, postResults]
  cases hpost : readPost body with
  | error e => exact ⟨r, h, .same _ r⟩
  | ok post =>
      cases post with
      | beacon deviceId b =>
          have hb : b = body := by
            unfold readPost at hpost
            grind
          subst hb
          simp only [postBeacon_eq]
          cases hjob : textField? b "job_id" with
          | none => exact ⟨r, h, .same _ r⟩
          | some jobId =>
              simp only [renewLease]
              rw [Db.job?_updateJob, (sameQueue_recordBeacon deviceId b).job?]
              by_cases hid : r.job_id = jobId
              · subst hid
                exact ⟨renewRow db.sqlNow r, by simp [h, Db.sqlNow, recordBeacon], .renewed hjob⟩
              · exact ⟨r, by simpa [hid] using h, .same _ r⟩
      | result p =>
          obtain ⟨r', hr', hc⟩ := change_result cfg h hpost
          exact ⟨r', by simpa only [step, postResults, hpost] using hr', hc⟩

variable (cfg) in
/-- Every row that was there is still there, changed as `Change` allows. -/
theorem step_row (db : Db) (req : Request) {id : String} {r : Job} (h : db.job? id = some r) :
    ∃ r', (step cfg db req).job? id = some r' ∧ Change cfg db req r r' := by
  obtain rfl : r.job_id = id := Db.job_id_of_job? h
  have hsame : SameQueue db (step cfg db req) →
      ∃ r', (step cfg db req).job? r.job_id = some r' ∧ Change cfg db req r r' :=
    fun hq => ⟨r, by rw [hq.job?, h], .same req r⟩
  have hclaim : ∀ executor claimant, req.claims = some (executor, claimant) →
      ∃ r', (step cfg db req).job? r.job_id = some r' ∧ Change cfg db req r r' := by
    intro executor claimant hreq
    rcases step_claims cfg db hreq with hq | ⟨seen, q, hq, hnow, hrow, hqueued, hexec, -, hstep⟩
    · exact hsame hq
    · rw [hstep, job?_grantClaim, hq.job?, h]
      by_cases hid : r.job_id = q.job_id
      · rw [hq.job?] at hrow
        obtain rfl : r = q := Option.some.inj ((hid ▸ h).symm.trans hrow)
        refine ⟨claimRow seen.sqlNow claimant r, by simp, ?_⟩
        rw [Db.sqlNow, hnow]
        exact .claimed hreq hqueued hexec
      · exact ⟨r, by simp [hid], .same req r⟩
  cases req with
  | tick ms => exact hsame ⟨rfl, rfl⟩
  | artifacts uploaded => exact hsame ⟨rfl, rfl⟩
  | enqueue spec => exact ⟨r, job?_step_enqueue cfg h spec, .same _ r⟩
  | register body refused =>
      refine hsame ?_
      simp only [step]
      split
      · rename_i registered out hout
        exact sameQueue_register hout
      · exact .refl db
  | nextJob device => exact hclaim .device device rfl
  | executorNextJob name => exact hclaim .host name rfl
  | pollAgain executor claimant => exact hclaim executor claimant rfl
  | results body => exact change_results h body
  | release jobId who =>
      simp only [step]
      split
      · rename_i released was hout
        obtain ⟨q, hq, hclaimed, hholder, rfl⟩ := releaseTx_ok hout
        rw [Db.job?_dropLocks, Db.job?_updateJob]
        by_cases hid : r.job_id = jobId
        · subst hid
          obtain rfl : r = q := Option.some.inj (h.symm.trans hq)
          exact ⟨_, by simp [h], .released hclaimed hholder⟩
        · exact ⟨r, by simpa [hid] using h, .same _ r⟩
      · exact ⟨r, h, .same _ r⟩
  | sweep =>
      rcases step_sweep cfg db with ⟨-, hdb⟩ | ⟨swept, out, hsweep, hdb⟩
      · rw [hdb]
        exact ⟨r, h, .same _ r⟩
      · rw [hdb, (sameQueue_forgetStaleSimulators _ swept).job?, job?_sweep hsweep h]
        by_cases hl : leaseLapsed db.sqlNow r = true
        · exact ⟨_, by simp [hl], .swept hl⟩
        · exact ⟨r, by simp [hl], .same _ r⟩
  | cancel jobId reason =>
      simp only [step]
      split
      · rename_i cancelled out hout
        obtain ⟨q, hq, hlive, rfl⟩ := cancelTx_ok hout
        by_cases hid : r.job_id = jobId
        · subst hid
          obtain rfl : r = q := Option.some.inj (h.symm.trans hq)
          refine ⟨_, ?_, .cancelled hlive⟩
          refine (settling_settle cfg.js _ r.job_id).of_not_waiting ?_ ?_
          · simp [closeWaiter, h]
          · simp [closedRow]
        · obtain ⟨r', hr', hsettled⟩ := (settling_settle cfg.js
            ((closeWaiter .cancelled db jobId (clipReason reason)).dropLocks jobId) jobId).rows
              r.job_id r (by simp [closeWaiter, Db.job?_updateJob, hid, h])
          have hcloses : Closes db jobId (.cancel jobId reason) := ⟨rfl, q, hq, hlive⟩
          refine ⟨r', hr', .of_settled hcloses ?_ hsettled⟩
          rw [settle_now]
          rfl
      · exact ⟨r, h, .same _ r⟩
  | acquireLocks jobId deviceIds =>
      refine ⟨r, ?_, .same _ r⟩
      simp only [step]
      split
      · exact h
      · rw [job?_acquireLocksTx, h]
  | releaseLocks jobId =>
      refine ⟨r, ?_, .same _ r⟩
      simp only [step]
      split
      · exact h
      · rwa [Db.job?_dropLocks]
  | setPriority jobId priority =>
      simp only [step, setPriority]
      rw [Db.job?_updateJob]
      by_cases hid : r.job_id = jobId
      · subst hid
        exact ⟨_, by simp [h], .prioritised priority⟩
      · exact ⟨r, by simpa [hid] using h, .same _ r⟩
  | editPools device pools => exact hsame ⟨rfl, rfl⟩
  | forgetDevice device =>
      refine ⟨r, ?_, .same _ r⟩
      simp only [step, forgetDevice]
      split <;> exact h
  | forceRelease device => exact ⟨r, h, .same _ r⟩
  | reserve device label =>
      refine hsame ?_
      simp only [step, reserveDevice]
      split <;> exact ⟨rfl, rfl⟩
  | unreserve device => exact hsame ⟨rfl, rfl⟩

/-! ## Rows that were not there -/

theorem SameQueue.order_eq {db db' : Db} (h : SameQueue db db') : order db' = order db := by
  simp only [order, h.jobs]

theorem order_insertJobs (db : Db) (rows : List Job) :
    ∃ added, order (insertJobs db rows) = order db ++ added := by
  change ∃ added, (rows.foldl Table.insertNew db.jobs).rows.map (·.job_id) =
    db.jobs.rows.map (·.job_id) ++ added
  generalize db.jobs = t
  induction rows generalizing t with
  | nil => exact ⟨[], by simp⟩
  | cons r rest ih =>
      obtain ⟨added, hadded⟩ := ih (t.insertNew r)
      rw [List.foldl_cons, hadded]
      rcases Table.rows_insertNew t r with hrows | ⟨-, hrows⟩
      · exact ⟨added, by rw [hrows]⟩
      · exact ⟨r.job_id :: added, by simp [hrows]⟩

theorem order_settle (db : Db) (closed : String) :
    order (settle cfg.js db closed).1 = order db :=
  (settling_settle cfg.js db closed).order_eq

theorem order_dropLocks (db : Db) (id : String) : order (db.dropLocks id) = order db := rfl

/-- Only an enqueue adds a job. -/
theorem order_step (db : Db) {req : Request} (hreq : ∀ spec, req ≠ .enqueue spec) :
    order (step cfg db req) = order db := by
  have hclaim : ∀ executor claimant, req.claims = some (executor, claimant) →
      order (step cfg db req) = order db := by
    intro executor claimant h
    rcases step_claims cfg db h with hq | ⟨seen, q, hq, -, -, -, -, -, hstep⟩
    · exact hq.order_eq
    · rw [hstep, ← hq.order_eq]
      cases executor <;> exact order_updateJob seen q.job_id _ (claimRow_job_id _ _)
  cases req with
  | enqueue spec => exact absurd rfl (hreq spec)
  | nextJob device => exact hclaim .device device rfl
  | executorNextJob name => exact hclaim .host name rfl
  | pollAgain executor claimant => exact hclaim executor claimant rfl
  | tick ms => rfl
  | artifacts uploaded => rfl
  | register body refused =>
      simp only [step]
      split
      · rename_i registered out hout
        exact (sameQueue_register hout).order_eq
      · rfl
  | results body =>
      simp only [step, postResults]
      cases readPost body with
      | error e => rfl
      | ok post =>
          cases post with
          | beacon deviceId b =>
              simp only [postBeacon_eq]
              split
              · rfl
              · exact order_updateJob _ _ _ (renewRow_job_id _)
          | result p =>
              simp only [postResult]
              split
              · rcases postFinal_cases cfg.js
                  (recordResult db p.job_id p.device_id p.iter p.body) p.job_id p.body with
                  ⟨-, -, -, -, hdb⟩ | ⟨-, hdb⟩
                · rw [hdb, order_dropLocks]
                  exact order_updateJob _ _ _ (preemptRow_job_id _)
                · rw [hdb, closeJobTx, order_settle, order_dropLocks]
                  exact order_updateJob _ _ _ (closeRow_job_id _ _)
              · rfl
  | release jobId who =>
      simp only [step]
      split
      · rename_i released was hout
        obtain ⟨-, -, -, -, rfl⟩ := releaseTx_ok hout
        exact order_updateJob _ _ _ releaseRow_job_id
      · rfl
  | sweep =>
      rcases step_sweep cfg db with ⟨-, hdb⟩ | ⟨swept, out, hsweep, hdb⟩
      · rw [hdb]
      · rw [hdb]
        change order swept = order db
        exact order_sweep hsweep
  | cancel jobId reason =>
      simp only [step]
      split
      · rename_i cancelled out hout
        obtain ⟨-, -, -, rfl⟩ := cancelTx_ok hout
        rw [order_settle, order_dropLocks]
        exact order_updateJob _ _ _ (closedRow_job_id _ _ _)
      · rfl
  | acquireLocks jobId deviceIds =>
      simp only [step]
      split
      · rfl
      · simp only [order, jobs_acquireLocksTx]
  | releaseLocks jobId =>
      simp only [step]
      split <;> rfl
  | setPriority jobId priority =>
      exact order_updateJob db jobId (fun r => { r with priority }) fun _ => rfl
  | editPools device pools => rfl
  | forgetDevice device =>
      simp only [step, forgetDevice]
      split <;> rfl
  | forceRelease device => rfl
  | reserve device label =>
      simp only [step, reserveDevice]
      split <;> rfl
  | unreserve device => rfl

variable (cfg) in
/-- A closing request writes one row, drops its locks and settles its waiters. -/
theorem step_closes {db : Db} {id : String} {req : Request} (h : Closes db id req) :
    ∃ (base : Db) (f : Job → Job) (hf : ∀ r, (f r).job_id = r.job_id), SameQueue db base ∧
      (∀ r, (f r).status.terminal = true ∧ (f r).depends_on = r.depends_on) ∧
      step cfg db req = (settle cfg.js ((base.updateJob id f hf).dropLocks id) id).1 := by
  cases req with
  | results body =>
      obtain ⟨p, hpost, hfinal, rfl, hnot⟩ := h
      refine ⟨recordResult db p.job_id p.device_id p.iter p.body, closeRow db.sqlNow (finalClosing
        (recordResult db p.job_id p.device_id p.iter p.body) p.job_id p.body),
        closeRow_job_id _ _, sameQueue_recordResult _ _ _ _,
        fun r => ⟨closeRow_terminal _ _ r, rfl⟩, ?_⟩
      rw [step_final cfg hpost hfinal hnot]
      rfl
  | cancel jobId reason =>
      obtain ⟨rfl, r, hr, hlive⟩ := h
      refine ⟨db, closedRow .cancelled db.sqlNow (clipReason reason), closedRow_job_id _ _ _,
        .refl db, fun r => ⟨rfl, rfl⟩, ?_⟩
      simp only [step, cancelTx, hr, hlive, Bool.not_true, Bool.false_eq_true, if_false]
      rfl
  | _ => exact h.elim

theorem job?_eq_none_iff {db : Db} {id : String} : db.job? id = none ↔ id ∉ order db := by
  simp only [Db.job?, Table.find?_eq_none_iff, order, List.mem_map, not_exists, not_and]

/-- A job that appears was enqueued, by a plan made in the state before. -/
theorem step_planned {db : Db} {req : Request} {id : String} {r : Job} (hnone : db.job? id = none)
    (h : (step cfg db req).job? id = some r) :
    ∃ input, req = .enqueue input ∧ ∃ (p : Plan db) (spec : Json),
      prepare cfg.js db input = .ok p ∧ r = newJob p id spec := by
  by_cases hreq : ∀ spec, req ≠ .enqueue spec
  · have hstill : (step cfg db req).job? id = none := by
      rw [job?_eq_none_iff, order_step db hreq]
      exact job?_eq_none_iff.mp hnone
    simp [hstill] at h
  · simp only [not_forall, not_not] at hreq
    obtain ⟨input, rfl⟩ := hreq
    refine ⟨input, rfl, ?_⟩
    simp only [step] at h
    split at h
    · rename_i queued out hout
      obtain ⟨p, rows, hp, hrows, rfl⟩ := enqueueJob_ok hout
      obtain ⟨jobId, spec, rfl⟩ := hrows _ (mem_of_job?_insertJobs hnone h)
      obtain rfl : jobId = id := Db.job_id_of_job? h
      exact ⟨p, spec, hp, rfl⟩
    · simp [hnone] at h

theorem step_new {db : Db} {req : Request} {id : String} {r : Job} (hnone : db.job? id = none)
    (h : (step cfg db req).job? id = some r) :
    ∃ input, req = .enqueue input ∧ ∃ (p : Plan db) (spec : Json), r = newJob p id spec := by
  obtain ⟨input, hreq, p, spec, -, hr⟩ := step_planned hnone h
  exact ⟨input, hreq, p, spec, hr⟩

end Change

end FleetRunner
