import FleetRunner.Lifecycle

/-!
# One job per device

Locks are written by claims, by whatever ends a claim, and by the host
executor for the devices its job drives. `LockChange` lists every way a request
can alter the lock of one device; the invariant is that a claimed device job
holds the lock of the device that claimed it.
-/

namespace FleetRunner

open Library

theorem lockOf_lockDevice (db : Db) (deviceId jobId d : String) :
    (lockDevice db deviceId jobId).lockOf d =
      if d = deviceId then some jobId else db.lockOf d := by
  change ((db.device_locks.replace ⟨deviceId, jobId⟩).find? d).map (·.job_id) = _
  rw [Table.find?_replace]
  by_cases hd : d = deviceId
  · simp [hd]
  · simp [hd, Ne.symm hd, Db.lockOf]

theorem lockOf_settle (js : Js) (db : Db) (closed d : String) :
    (settle js db closed).1.lockOf d = db.lockOf d := by
  obtain ⟨jobs, hjobs⟩ := (settling_settle js db closed).same
  rw [hjobs]
  rfl

theorem lockOf_closeJobTx (js : Js) (db : Db) (jobId d : String) (closing : Closing) :
    (closeJobTx js db jobId closing).1.lockOf d =
      if db.lockOf d = some jobId then none else db.lockOf d := by
  rw [closeJobTx, lockOf_settle, Db.lockOf_dropLocks, Db.lockOf_updateJob]

/-- Deleting a device's own lock row frees that device only. -/
theorem lockOf_forceRelease (db : Db) (id d : String) :
    (forceRelease db id).lockOf d = if d = id then none else db.lockOf d := by
  change ((db.device_locks.deleteWhere _).find? d).map (·.job_id) = _
  rw [Table.find?_deleteWhere]
  by_cases hd : d = id
  · subst hd
    cases hl : db.device_locks.find? d with
    | none => simp
    | some l => simp [Option.filter, Table.key_of_find? hl]
  · cases hl : db.device_locks.find? d with
    | none => simp [Db.lockOf, hl, hd]
    | some l =>
        have hne : l.device_id ≠ id := by
          rw [Table.key_of_find? hl]
          exact hd
        simp [Db.lockOf, hl, hd, Option.filter, hne]

/-- A pass over the ids grants a lock only where none was held by another job. -/
theorem lockOf_acquireLocksTx (db : Db) (jobId : String) (ids : List String) (d : String) :
    (acquireLocksTx db jobId ids).1.lockOf d = db.lockOf d ∨
      db.lockOf d = none ∧ (acquireLocksTx db jobId ids).1.lockOf d = some jobId := by
  unfold acquireLocksTx
  generalize (⟨[], []⟩ : LockOutcome) = out
  induction ids generalizing db out with
  | nil => exact Or.inl rfl
  | cons id rest ih =>
      have hone : ∃ out', (acquireOne jobId (db, out) id).2 = out' ∧
          ((acquireOne jobId (db, out) id).1.lockOf d = db.lockOf d ∨
            db.lockOf d = none ∧ (acquireOne jobId (db, out) id).1.lockOf d = some jobId) := by
        refine ⟨_, rfl, ?_⟩
        unfold acquireOne
        by_cases hd : d = id
        · subst hd
          cases hl : db.lockOf d with
          | none => simp [lockOf_lockDevice]
          | some holder =>
              by_cases hh : holder = jobId <;> simp [hl, hh, lockOf_lockDevice]
        · left
          cases db.lockOf id with
          | none => simp [lockOf_lockDevice, hd]
          | some holder => by_cases hh : holder = jobId <;> simp [hh, lockOf_lockDevice, hd]
      obtain ⟨out', hout, hone⟩ := hone
      rw [List.foldl_cons]
      generalize hs : acquireOne jobId (db, out) id = s at hout hone
      obtain ⟨db₁, out₁⟩ := s
      rcases ih db₁ out₁ with hrest | ⟨hnone, hrest⟩
      · rw [hrest]
        exact hone
      · rcases hone with hone | ⟨-, hone⟩
        · exact Or.inr ⟨hone ▸ hnone, hrest⟩
        · simp [hone] at hnone

variable (cfg : Config)

/-- How a request may alter the lock of a device. -/
inductive LockChange (db : Db) : Request → String → Option String → Option String → Prop
  | same (req : Request) (d : String) (l : Option String) : LockChange db req d l l
  | claimed {req : Request} {d : String} {j : String} : req.claims = some (.device, d) →
      LockChange db req d none (some j)
  | ended {req : Request} {d j : String} :
      (∀ r, (step cfg db req).job? j = some r → r.status ≠ .claimed) →
      LockChange db req d (some j) none
  | acquired {jobId d : String} {ids : List String} :
      LockChange db (.acquireLocks jobId ids) d none (some jobId)
  | released {d j : String} : LockChange db (.releaseLocks j) d (some j) none
  | forced {d j : String} : LockChange db (.forceRelease d) d (some j) none

variable {cfg}

/-- Dropping the locks of a job that is no longer claimed. -/
theorem LockChange.of_drop {db : Db} {req : Request} {d j : String}
    (hlock : (step cfg db req).lockOf d = if db.lockOf d = some j then none else db.lockOf d)
    (hrow : ∀ r, (step cfg db req).job? j = some r → r.status ≠ .claimed) :
    LockChange cfg db req d (db.lockOf d) ((step cfg db req).lockOf d) := by
  rw [hlock]
  by_cases hd : db.lockOf d = some j
  · rw [if_pos hd, hd]
    exact .ended hrow
  · rw [if_neg hd]
    exact .same req d _

theorem lockChange_of_sameLocks {db : Db} {req : Request} (d : String)
    (h : (step cfg db req).device_locks = db.device_locks) :
    LockChange cfg db req d (db.lockOf d) ((step cfg db req).lockOf d) := by
  have heq : (step cfg db req).lockOf d = db.lockOf d := by simp only [Db.lockOf, h]
  rw [heq]
  exact .same req d _

theorem lockChange_results (db : Db) (body : Json) (d : String) :
    LockChange cfg db (.results body) d (db.lockOf d) ((step cfg db (.results body)).lockOf d) := by
  cases hpost : readPost body with
  | error e => exact lockChange_of_sameLocks d (by simp only [step, postResults, hpost])
  | ok post =>
      cases post with
      | beacon deviceId b =>
          refine lockChange_of_sameLocks d ?_
          simp only [step, postResults, hpost, postBeacon_eq]
          split <;> rfl
      | result p =>
          by_cases hfinal : p.final = true
          · by_cases hp : ∃ q, db.job? p.job_id = some q ∧ isPreempted p.body = true ∧
                q.status = .claimed
            · obtain ⟨q, hq, hp, hc⟩ := hp
              have hstep := step_preempted cfg hpost hfinal hq hp hc
              refine .of_drop (j := p.job_id) ?_ ?_
              · rw [hstep, Db.lockOf_dropLocks, Db.lockOf_updateJob,
                  (sameQueue_recordResult _ _ _ _).lockOf]
              · intro r hr
                rw [hstep, Db.job?_dropLocks, Db.job?_updateJob_self,
                  (sameQueue_recordResult _ _ _ _).job?, hq] at hr
                cases hr
                simp [preemptRow]
            · have hstep := step_final cfg hpost hfinal
                fun q hq hpq => hp ⟨q, hq, hpq⟩
              refine .of_drop (j := p.job_id) ?_ ?_
              · rw [hstep, lockOf_closeJobTx, (sameQueue_recordResult _ _ _ _).lockOf]
              · intro r hr hc
                rw [hstep] at hr
                cases hq : db.job? p.job_id with
                | none =>
                    rw [job?_closeJobTx_none
                      (by rw [(sameQueue_recordResult _ _ _ _).job?, hq])] at hr
                    cases hr
                | some q =>
                    rw [job?_closeJobTx_self
                      (by rw [(sameQueue_recordResult _ _ _ _).job?, hq])] at hr
                    cases hr
                    exact Status.ne_claimed_of_terminal (closeRow_terminal _ _ _) hc
          · refine lockChange_of_sameLocks d ?_
            rw [step_iteration cfg hpost (by simpa using hfinal)]
            rfl

variable (cfg) in
/-- Every lock after a request, as `LockChange` allows. -/
theorem step_lock (db : Db) (req : Request) (d : String) :
    LockChange cfg db req d (db.lockOf d) ((step cfg db req).lockOf d) := by
  have hclaim : ∀ executor claimant, req.claims = some (executor, claimant) →
      LockChange cfg db req d (db.lockOf d) ((step cfg db req).lockOf d) := by
    intro executor claimant h
    rcases step_claims cfg db h with hq | ⟨seen, q, hq, -, -, -, -, hlock, hstep⟩
    · exact lockChange_of_sameLocks d hq.device_locks
    · cases executor with
      | host =>
          refine lockChange_of_sameLocks d ?_
          rw [hstep]
          exact hq.device_locks
      | device =>
          have hnew : (step cfg db req).lockOf d =
              if d = claimant then some q.job_id else db.lockOf d := by
            rw [hstep, grantClaim, lockOf_lockDevice, Db.lockOf_updateJob, hq.lockOf]
          rw [hnew]
          by_cases hd : d = claimant
          · subst hd
            have hfree : db.lockOf d = none := by rw [← hq.lockOf, hlock rfl]
            rw [hfree, if_pos rfl]
            exact .claimed h
          · rw [if_neg hd]
            exact .same req d _
  cases req with
  | nextJob device => exact hclaim .device device rfl
  | executorNextJob name => exact hclaim .host name rfl
  | pollAgain executor claimant => exact hclaim executor claimant rfl
  | results body => exact lockChange_results db body d
  | tick ms => exact .same _ d _
  | artifacts uploaded => exact .same _ d _
  | editPools device pools => exact .same _ d _
  | setPriority jobId priority => exact .same _ d _
  | unreserve device => exact .same _ d _
  | enqueue spec =>
      refine lockChange_of_sameLocks d ?_
      simp only [step]
      split
      · rename_i queued out hout
        obtain ⟨p, rows, -, -, rfl⟩ := enqueueJob_ok hout
        rfl
      · rfl
  | register body refused =>
      refine lockChange_of_sameLocks d ?_
      simp only [step]
      split
      · rename_i registered out hout
        exact (sameQueue_register hout).device_locks
      · rfl
  | reserve device label =>
      refine lockChange_of_sameLocks d ?_
      simp only [step, reserveDevice]
      split <;> rfl
  | release jobId who =>
      cases hout : releaseTx db jobId who with
      | error e => exact lockChange_of_sameLocks d (by simp only [step, hout])
      | ok res =>
          obtain ⟨released, was⟩ := res
          obtain ⟨q, hq, -, -, rfl⟩ := releaseTx_ok hout
          refine .of_drop (j := jobId) ?_ ?_
          · simp only [step, hout]
            rw [Db.lockOf_dropLocks, Db.lockOf_updateJob]
          · intro r hr
            simp only [step, hout, Db.job?_dropLocks, Db.job?_updateJob_self, hq] at hr
            cases hr
            simp [releaseRow]
  | cancel jobId reason =>
      cases hout : cancelTx cfg.js db jobId (clipReason reason) with
      | error e => exact lockChange_of_sameLocks d (by simp only [step, hout])
      | ok res =>
          obtain ⟨cancelled, out⟩ := res
          obtain ⟨q, hq, -, rfl⟩ := cancelTx_ok hout
          refine .of_drop (j := jobId) ?_ ?_
          · simp only [step, hout, lockOf_settle, Db.lockOf_dropLocks]
            rfl
          · intro r hr
            simp only [step, hout] at hr
            rw [(settling_settle cfg.js _ jobId).of_not_waiting
              (r := closedRow .cancelled db.sqlNow (clipReason reason) q)
              (by simp [closeWaiter, hq]) (by simp [closedRow])] at hr
            cases hr
            simp [closedRow]
  | sweep =>
      rcases step_sweep cfg db with ⟨-, hdb⟩ | ⟨swept, out, hsweep, hdb⟩
      · rw [hdb]
        exact .same _ d _
      · have hsame := sameQueue_forgetStaleSimulators cfg.simulatorTtlS swept
        rw [hdb, hsame.lockOf, lockOf_sweep hsweep]
        split
        · rename_i hlapsed
          obtain ⟨q, hmem, hd⟩ := hlapsed
          obtain ⟨hq, hl⟩ := List.mem_filter.mp hmem
          rw [hd]
          refine .ended fun r hr => ?_
          rw [hdb, hsame.job?, job?_sweep hsweep (Table.mem_rows_iff.mp hq), if_pos hl] at hr
          cases hr
          exact sweepRow_status_ne _ _
        · exact .same _ d _
  | acquireLocks jobId ids =>
      simp only [step]
      split
      · exact .same _ d _
      · rcases lockOf_acquireLocksTx db jobId ids d with h | ⟨hnone, h⟩
        · rw [h]
          exact .same _ d _
        · rw [hnone, h]
          exact .acquired
  | releaseLocks jobId =>
      simp only [step]
      split
      · exact .same _ d _
      · rw [Db.lockOf_dropLocks]
        by_cases hd : db.lockOf d = some jobId
        · rw [if_pos hd, hd]
          exact .released
        · rw [if_neg hd]
          exact .same _ d _
  | forgetDevice device =>
      simp only [step, forgetDevice]
      split
      · exact .same _ d _
      · rename_i hfree
        have hnone : db.lockOf device = none := by
          simp only [Db.inUse, Bool.or_eq_true, not_or] at hfree
          simpa using hfree.1.1
        change LockChange cfg db _ d (db.lockOf d) ((forceRelease db device).lockOf d)
        rw [lockOf_forceRelease]
        by_cases hd : d = device
        · subst hd
          rw [if_pos rfl, hnone]
          exact .same _ d _
        · rw [if_neg hd]
          exact .same _ d _
  | forceRelease device =>
      simp only [step]
      rw [lockOf_forceRelease]
      by_cases hd : d = device
      · subst hd
        rw [if_pos rfl]
        cases db.lockOf d with
        | none => exact .same _ d _
        | some j => exact .forced
      · rw [if_neg hd]
        exact .same _ d _

/-! ## The invariant -/

/-- The device that claimed a device job is locked by it. -/
def Held (db : Db) : Prop :=
  ∀ id r d, db.job? id = some r → r.executor = .device → r.status = .claimed →
    r.claimed_by = some d → db.lockOf d = some id

/-- Locks are taken and given back by host jobs only, and not forced open. -/
def HostLocksOnly (db : Db) : Request → Prop
  | .acquireLocks jobId _ => ∃ r, db.job? jobId = some r ∧ r.executor = .host
  | .releaseLocks jobId => ∃ r, db.job? jobId = some r ∧ r.executor = .host
  | .forceRelease _ => False
  | _ => True

/-- A claim that a request leaves claimed by the same device keeps its lock. -/
theorem lock_of_still_claimed {db : Db} {req : Request} {id d : String} {r r' : Job}
    (hok : HostLocksOnly db req) (hr : db.job? id = some r) (hdev : r.executor = .device)
    (hlock : db.lockOf d = some id) (hr' : (step cfg db req).job? id = some r')
    (hc : r'.status = .claimed) : (step cfg db req).lockOf d = some id := by
  have hchange := step_lock cfg db req d
  rw [hlock] at hchange
  generalize hl : (step cfg db req).lockOf d = l at hchange
  cases hchange with
  | same => rfl
  | ended hnot => exact absurd hc (hnot r' hr')
  | forced => exact hok.elim
  | released =>
      obtain ⟨q, hq, hhost⟩ := hok
      obtain rfl : r = q := Option.some.inj (hr.symm.trans hq)
      rw [hdev] at hhost
      cases hhost

/-- A device job that has just been claimed holds its claimant's lock. -/
theorem lock_of_new_claim {db : Db} {req : Request} {executor : Executor} {id claimant : String}
    {r : Job} (hreq : req.claims = some (executor, claimant)) (hr : db.job? id = some r)
    (hqueued : r.status = .queued) (hexec : r.executor = executor) (hdev : r.executor = .device)
    (hr' : (step cfg db req).job? id = some (claimRow db.sqlNow claimant r)) :
    (step cfg db req).lockOf claimant = some id := by
  rcases step_claims cfg db hreq with hq | ⟨seen, q, hq, -, hrow, -, -, -, hstep⟩
  · rw [hq.job?, hr] at hr'
    have hstatus := congrArg Job.status (Option.some.inj hr')
    simp [hqueued, claimRow] at hstatus
  · have hid : id = q.job_id := by
      by_contra hne
      rw [hstep, job?_grantClaim, if_neg hne, hq.job?, hr] at hr'
      have hstatus := congrArg Job.status (Option.some.inj hr')
      simp [hqueued, claimRow] at hstatus
    obtain rfl : executor = .device := hexec.symm.trans hdev
    rw [hstep, grantClaim, lockOf_lockDevice, if_pos rfl, hid]

theorem Held.step {db : Db} (h : Held db) {req : Request} (hok : HostLocksOnly db req) :
    Held (step cfg db req) := by
  intro id r' d hr' hdev hc hby
  cases hr : db.job? id with
  | none =>
      obtain ⟨-, -, p, spec, rfl⟩ := step_new hr hr'
      exfalso
      revert hc
      simp only [newJob]
      cases p.state <;> simp [DepState.status]
  | some r =>
      obtain ⟨q, hq, hchange⟩ := step_row cfg db req hr
      obtain rfl : q = r' := Option.some.inj (hq.symm.trans hr')
      have hstill : r.executor = .device → r.status = .claimed → r.claimed_by = some d →
          (FleetRunner.step cfg db req).lockOf d = some id := fun he hs hb =>
        lock_of_still_claimed hok hr he (h id r d hr he hs hb) hr' hc
      cases hchange with
      | same => exact hstill hdev hc hby
      | claimed hreq hqueued hexec =>
          obtain rfl := Option.some.inj hby
          exact lock_of_new_claim hreq hr hqueued hexec hdev hr'
      | renewed => exact hstill (by simpa using hdev) (by simpa using hc) (by simpa using hby)
      | prioritised => exact hstill hdev hc hby
      | swept => exact absurd hc (sweepRow_status_ne _ _)
      | released => simp [releaseRow] at hc
      | preempted => simp [preemptRow] at hc
      | closed => exact absurd hc (Status.ne_claimed_of_terminal (closeRow_terminal _ _ _))
      | cancelled => simp [closedRow] at hc
      | settled _ _ hw hs =>
          cases hs with
          | untouched => simp [hw] at hc
          | failed => simp [closedRow] at hc
          | skipped => simp [closedRow] at hc
          | promoted => simp [promotedRow] at hc

/-- Every claimed device job holds its device's lock, in every reachable state. -/
theorem held (cfg : Config) {reqs : List Request}
    (hok : Along (step cfg) HostLocksOnly .empty reqs) : Held (after cfg reqs) := by
  have hempty : Held .empty := by
    intro id r d h
    simp at h
  have hstep : ∀ db req, Held db → HostLocksOnly db req → Held (step cfg db req) :=
    fun _ _ h hok => h.step hok
  exact @invariant _ _ _ Held HostLocksOnly hstep _ _ hempty hok

/-- One job per device: a claimed device job holds exactly its device's lock,
so no device has two, and none beside a host job that holds the lock. -/
theorem one_job_per_device (cfg : Config) (reqs : List Request)
    (hok : Along (step cfg) HostLocksOnly .empty reqs) :
    (∀ id r d, (after cfg reqs).job? id = some r → r.executor = .device → r.status = .claimed →
      r.claimed_by = some d → (after cfg reqs).lockOf d = some id) ∧
    (∀ id r id' r' d, (after cfg reqs).job? id = some r → (after cfg reqs).job? id' = some r' →
      r.executor = .device → r'.executor = .device → r.status = .claimed → r'.status = .claimed →
      r.claimed_by = some d → r'.claimed_by = some d → id = id') ∧
    (∀ host h d, (after cfg reqs).job? host = some h → h.executor = .host →
      (after cfg reqs).lockOf d = some host →
      ∀ id r, (after cfg reqs).job? id = some r → r.executor = .device → r.status = .claimed →
        r.claimed_by ≠ some d) := by
  have hheld := held cfg hok
  refine ⟨hheld, ?_, ?_⟩
  · intro id r id' r' d hr hr' hdev hdev' hc hc' hby hby'
    have hlock := hheld id r d hr hdev hc hby
    have hlock' := hheld id' r' d hr' hdev' hc' hby'
    exact Option.some.inj (hlock.symm.trans hlock')
  · intro host h d hhost hexec hlock id r hr hdev hc hby
    have hlock' := hheld id r d hr hdev hc hby
    obtain rfl : host = id := Option.some.inj (hlock.symm.trans hlock')
    obtain rfl : h = r := Option.some.inj (hhost.symm.trans hr)
    rw [hdev] at hexec
    cases hexec

/-- A host job holds one device's lock while another device runs a job of its own. -/
theorem one_job_per_device_shared :
    let started : List Request := [.enqueue (Sample.hostJob "h" []),
      .enqueue (Sample.job "a" [] []), .register (Sample.registration "d1" []) none,
      .register (Sample.registration "d2" []) none, .executorNextJob "mac"]
    let reqs := started ++ [.acquireLocks "h" ["d1"], .nextJob "d1", .nextJob "d2"]
    (after .plain reqs).lockOf "d1" = some "h" ∧
      ∃ r, (after .plain reqs).job? "a" = some r ∧ r.claimed_by = some "d2" ∧
        (after .plain reqs).lockOf "d2" = some "a" := by
  intro started reqs
  obtain ⟨hhost, hclaim, hlock⟩ :
      ((after .plain started).job? "h").any (fun r => decide (r.executor = .host)) = true ∧
      ((after .plain reqs).job? "a").any (fun r => decide (r.executor = .device ∧
        r.status = .claimed ∧ r.claimed_by = some "d2")) = true ∧
      (after .plain reqs).lockOf "d1" = some "h" := by
    decide +kernel
  obtain ⟨host, hh, hexec⟩ := Db.exists_job_of_any hhost
  have hacquire : HostLocksOnly (after .plain started) (.acquireLocks "h" ["d1"]) :=
    ⟨host, hh, of_decide_eq_true hexec⟩
  have hok : Along (step .plain) HostLocksOnly .empty reqs :=
    along_append.mpr ⟨by simp [started, HostLocksOnly], hacquire, trivial, trivial, trivial⟩
  obtain ⟨r, hr, hrow⟩ := Db.exists_job_of_any hclaim
  obtain ⟨hdev, hc, hby⟩ := of_decide_eq_true hrow
  exact ⟨hlock, r, hr, hby, (one_job_per_device .plain reqs hok).1 "a" r "d2" hr hdev hc hby⟩

end FleetRunner
