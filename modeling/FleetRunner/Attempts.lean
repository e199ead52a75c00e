import FleetRunner.Lifecycle

/-!
# Attempts and leases

A claim costs an attempt; handing the job back or standing aside returns it, so
what is left counts the leases that lapsed. `Accounted` is the shape of a row,
with the number of lapses as a ghost. It holds as long as every sweep goes
through, and a sweep goes through as long as no job was enqueued with more
attempts than can be read back.
-/

namespace FleetRunner

open Library

/-- Does this sweep find the job's lease lapsed? -/
def lapsedBy (id : String) (db : Db) (req : Request) : Nat :=
  match req, db.job? id with
  | .sweep, some r => if leaseLapsed db.sqlNow r then 1 else 0
  | _, _ => 0

/-- How many leases of the job have lapsed since the database was new. -/
def lapses (cfg : Config) (reqs : List Request) (id : String) : Nat :=
  total (step cfg) (lapsedBy id) .empty reqs

theorem lapses_concat (cfg : Config) (past : List Request) (req : Request) (id : String) :
    lapses cfg (past ++ [req]) id = lapses cfg past id + lapsedBy id (after cfg past) req :=
  total_concat _ _ _ _

/-- The row of a job whose leases lapsed `n` times. -/
structure Accounted (n : Nat) (r : Job) : Prop where
  leased_iff : r.status = .claimed ↔ r.lease_deadline.isSome = true
  holder : r.status = .claimed → r.claimed_by.isSome = true
  unclaimed : r.status.live = true → r.status ≠ .claimed → r.claimed_by = none ∧ r.claimed_at = none
  unfinished : r.status.live = true → r.finished_at = none
  attempts_eq : r.status.live = true → r.attempts = n + if r.status = .claimed then 1 else 0
  lapses_lt : r.status.live = true → n < r.max_attempts

namespace Accounted

variable {n : Nat} {r : Job}

theorem attempts_of_claimed (h : Accounted n r) (hc : r.status = .claimed) :
    r.attempts = n + 1 := by
  have heq := h.attempts_eq (by simp [hc, Status.live])
  simpa [hc] using heq

theorem attempts_of_idle (h : Accounted n r) (hl : r.status.live = true)
    (hc : r.status ≠ .claimed) : r.attempts = n := by
  have heq := h.attempts_eq hl
  simpa [hc] using heq

theorem no_lease (h : Accounted n r) (hc : r.status ≠ .claimed) : r.lease_deadline = none := by
  have hnot := mt h.leased_iff.mpr hc
  simpa using hnot

/-- A closed row has no lease and nothing else to account for. -/
theorem of_terminal (hs : r.status.terminal = true) (hl : r.lease_deadline = none) :
    Accounted n r := by
  have hlive : r.status.live ≠ true := by
    intro hlive
    rw [← Status.terminal_eq_false_iff, hs] at hlive
    cases hlive
  have hclaimed : r.status ≠ .claimed := by
    intro hc
    simp [hc, Status.live] at hlive
  exact ⟨by simp [hclaimed, hl], fun hc => absurd hc hclaimed, fun hv => absurd hv hlive,
    fun hv => absurd hv hlive, fun hv => absurd hv hlive, fun hv => absurd hv hlive⟩

/-- A row put back on the queue, at the count it has reached. -/
theorem of_queued (hs : r.status = .queued) (hl : r.lease_deadline = none)
    (hby : r.claimed_by = none) (hat : r.claimed_at = none) (hf : r.finished_at = none)
    (ha : r.attempts = n) (hn : n < r.max_attempts) : Accounted n r :=
  ⟨by simp [hs, hl], by simp [hs], fun _ _ => ⟨hby, hat⟩, fun _ => hf, by simp [hs, ha],
    fun _ => hn⟩

theorem claimRow (h : Accounted n r) (hq : r.status = .queued) (now : Nat) (claimant : String) :
    Accounted n (claimRow now claimant r) := by
  have hlive : r.status.live = true := by simp [hq, Status.live]
  have ha := h.attempts_of_idle hlive (by simp [hq])
  refine ⟨by simp [FleetRunner.claimRow], by simp [FleetRunner.claimRow], ?_, ?_, ?_, ?_⟩
  · intro _ hc
    exact absurd rfl hc
  · intro _
    exact h.unfinished hlive
  · intro _
    simp [FleetRunner.claimRow, ha]
  · intro _
    exact h.lapses_lt hlive

theorem renewRow (h : Accounted n r) (now : Nat) : Accounted n (renewRow now r) := by
  unfold FleetRunner.renewRow
  split
  · rename_i hc
    exact ⟨by simp [hc], h.holder, h.unclaimed, h.unfinished, h.attempts_eq, h.lapses_lt⟩
  · exact h

/-- A lapsed lease is counted, and the last one the job may burn retires it. -/
theorem sweepRow (h : Accounted n r) (hc : r.status = .claimed) (now : Nat) :
    Accounted (n + 1) (sweepRow now r) := by
  have ha := h.attempts_of_claimed hc
  have hlive : r.status.live = true := by simp [hc, Status.live]
  unfold FleetRunner.sweepRow
  simp only
  split
  · exact .of_terminal rfl rfl
  · rename_i hlt
    exact .of_queued rfl rfl rfl rfl (h.unfinished hlive) ha (by rw [← ha]; exact Nat.not_le.mp hlt)

theorem releaseRow (h : Accounted n r) (hc : r.status = .claimed) :
    Accounted n (releaseRow r) := by
  have ha := h.attempts_of_claimed hc
  have hlive : r.status.live = true := by simp [hc, Status.live]
  exact .of_queued rfl rfl rfl rfl (h.unfinished hlive) (by simp [FleetRunner.releaseRow, ha])
    (h.lapses_lt hlive)

theorem preemptRow (h : Accounted n r) (hc : r.status = .claimed) (resumeFrom : Option String) :
    Accounted n (preemptRow resumeFrom r) := by
  have ha := h.attempts_of_claimed hc
  exact .of_queued rfl rfl rfl rfl rfl (by simp [FleetRunner.preemptRow, ha])
    (h.lapses_lt (by simp [hc, Status.live]))

theorem settled {js : Js} {db : Db} {r' : Job} (h : Accounted n r) (hs : Settled js db r r') :
    Accounted n r' := by
  cases hs with
  | untouched => exact h
  | failed => exact .of_terminal rfl rfl
  | skipped => exact .of_terminal rfl rfl
  | promoted hw =>
      have hlive : r.status.live = true := by simp [hw, Status.live]
      have hc : r.status ≠ .claimed := by simp [hw]
      obtain ⟨hby, hat⟩ := h.unclaimed hlive hc
      exact .of_queued rfl (h.no_lease hc) hby hat (h.unfinished hlive)
        (h.attempts_of_idle hlive hc) (h.lapses_lt hlive)

/-- A new row has run nothing. -/
theorem newJob {db : Db} (p : Plan db) (id : String) (spec : Json) :
    Accounted 0 (newJob p id spec) := by
  have hcases : p.state.status ≠ .claimed := by
    cases p.state <;> simp [DepState.status]
  refine ⟨by simp [FleetRunner.newJob, hcases], fun hc => absurd hc hcases,
    fun _ _ => ⟨rfl, rfl⟩, ?_, ?_, fun _ => p.lease.attempts_pos⟩
  · intro hlive
    have hterminal := Status.terminal_eq_false_iff.mpr hlive
    simp only [FleetRunner.newJob] at hterminal ⊢
    simp [hterminal]
  · intro _
    simp [FleetRunner.newJob, hcases]

end Accounted

theorem claimed_of_lapsed {now : Nat} {r : Job} (h : leaseLapsed now r = true) :
    r.status = .claimed := by
  simp only [leaseLapsed, Bool.and_eq_true, decide_eq_true_eq] at h
  exact h.1

theorem job?_step_sweep {cfg : Config} {db : Db} (hreads : sweepThrows db = false) {id : String}
    {r : Job} (h : db.job? id = some r) : (step cfg db .sweep).job? id =
      some (if leaseLapsed db.sqlNow r then sweepRow db.sqlNow r else r) := by
  rcases step_sweep cfg db with ⟨hthrows, -⟩ | ⟨swept, out, hsweep, hdb⟩
  · rw [hreads] at hthrows
    cases hthrows
  · rw [hdb, (sameQueue_forgetStaleSimulators _ swept).job?, job?_sweep hsweep h]

/-- A request keeps the account, counting its lapse when it is one. -/
theorem Accounted.change {cfg : Config} {db : Db} {req : Request} {n : Nat} {id : String}
    {r r' : Job} (h : Accounted n r) (hr : db.job? id = some r) (hc : Change cfg db req r r')
    (hreads : sweepThrows db = false) (hr' : (step cfg db req).job? id = some r') :
    Accounted (n + lapsedBy id db req) r' := by
  have hid := Db.job_id_of_job? hr
  by_cases hsweep : req = .sweep
  · subst hsweep
    obtain rfl := Option.some.inj ((job?_step_sweep hreads hr).symm.trans hr')
    simp only [lapsedBy, hr]
    split
    · rename_i hl
      exact h.sweepRow (claimed_of_lapsed hl) _
    · exact h
  · have hzero : lapsedBy id db req = 0 := by
      unfold lapsedBy
      split
      · exact absurd rfl hsweep
      · rfl
    rw [hzero, Nat.add_zero]
    cases hc with
    | same => exact h
    | claimed _ hq _ => exact h.claimRow hq _ _
    | renewed _ => exact h.renewRow _
    | swept _ => exact absurd rfl hsweep
    | released hcl _ => exact h.releaseRow hcl
    | preempted _ _ _ _ hcl => exact h.preemptRow hcl _
    | closed _ _ _ _ => exact .of_terminal (Closing.terminal_status _) rfl
    | cancelled _ => exact .of_terminal rfl rfl
    | settled _ _ _ hs => exact h.settled hs
    | prioritised _ =>
        exact ⟨h.leased_iff, h.holder, h.unclaimed, h.unfinished, h.attempts_eq, h.lapses_lt⟩

/-! ## Counts that can be read -/

/-- An enqueue asks for a safe integer of attempts, where it asks for any. -/
def SafeAttempts (_ : Db) : Request → Prop
  | .enqueue input => ∀ n, (optProp (input.prop "lease") "max_attempts").bind Json.asInt? = some n →
      n ≤ MAX_SAFE_INTEGER
  | _ => True

/-- A spec's build is resolved without touching its lease. -/
theorem lease_resolveLatestBuild {js : Js} {db : Db} {spec built : Json}
    (h : resolveLatestBuild js db spec = .ok built) : built.prop "lease" = spec.prop "lease" := by
  unfold resolveLatestBuild at h
  simp only at h
  split at h
  · cases h
    rfl
  · split at h
    · cases h
    · split at h
      · cases h
      · cases h
        rw [Json.prop_obj, Fields.get?_set_of_ne _ (by decide), Json.get?_spread _ (by decide)]

/-- A number with a fallback is the fallback, or the one given. -/
theorem asInt?_nullish {v : Option Json} {fallback n : Int}
    (h : (nullish v (.num fallback)).asInt? = some n) :
    n = fallback ∨ v.bind Json.asInt? = some n := by
  cases v with
  | none => exact Or.inl (Option.some.inj h).symm
  | some v =>
      cases v with
      | null => exact Or.inl (Option.some.inj h).symm
      | _ => exact Or.inr h

/-- The attempts of a lease are those asked for, or the default. -/
theorem max_attempts_of_readLease {spec : Json} {workload : String} {lease : Lease}
    (h : readLease spec workload = .ok lease) :
    ∃ n : Int, lease.max_attempts = n.toNat ∧
      (n = DEFAULT_MAX_ATTEMPTS ∨
        (optProp (spec.prop "lease") "max_attempts").bind Json.asInt? = some n) := by
  unfold readLease at h
  simp only at h
  split at h
  · exact absurd h refuse_ne_ok
  · split at h
    · exact absurd h refuse_ne_ok
    · split at h
      · exact absurd h refuse_ne_ok
      · split at h
        · exact absurd h refuse_ne_ok
        · rename_i n hn
          split at h
          · exact absurd h refuse_ne_ok
          · cases h
            exact ⟨n, rfl, asInt?_nullish hn⟩

theorem max_attempts_le_of_readLease {spec : Json} {workload : String} {lease : Lease}
    (h : readLease spec workload = .ok lease)
    (hsafe : ∀ n, (optProp (spec.prop "lease") "max_attempts").bind Json.asInt? = some n →
      n ≤ MAX_SAFE_INTEGER) : lease.max_attempts ≤ MAX_SAFE_INTEGER := by
  obtain ⟨n, hlease, hn⟩ := max_attempts_of_readLease h
  have hle : n ≤ MAX_SAFE_INTEGER := by
    rcases hn with rfl | hasked
    · decide
    · exact hsafe n hasked
  omega

theorem max_attempts_of_prepare {js : Js} {db : Db} {input : Json} {p : Plan db}
    (h : prepare js db input = .ok p) (hsafe : SafeAttempts db (.enqueue input)) :
    p.lease.max_attempts ≤ MAX_SAFE_INTEGER := by
  unfold prepare at h
  split at h
  · exact absurd h refuse_ne_ok
  · obtain ⟨jobId, -, h⟩ := bind_eq_ok h
    obtain ⟨workload, -, h⟩ := bind_eq_ok h
    obtain ⟨_, -, h⟩ := bind_eq_ok h
    obtain ⟨_, -, h⟩ := bind_eq_ok h
    split at h
    · exact absurd h refuse_ne_ok
    · rename_i built hbuilt
      obtain ⟨executor, -, h⟩ := bind_eq_ok h
      obtain ⟨lease, hlease, h⟩ := bind_eq_ok h
      have hle : lease.max_attempts ≤ MAX_SAFE_INTEGER := by
        refine max_attempts_le_of_readLease hlease ?_
        rw [lease_resolveLatestBuild hbuilt]
        exact hsafe
      simp only at h
      obtain ⟨priority, -, h⟩ := bind_eq_ok h
      obtain ⟨_, -, h⟩ := bind_eq_ok h
      obtain ⟨_, -, h⟩ := bind_eq_ok h
      obtain ⟨deps, -, h⟩ := bind_eq_ok h
      split at h
      · exact absurd h refuse_ne_ok
      · obtain ⟨spec, -, h⟩ := bind_eq_ok h
        obtain ⟨_, -, h⟩ := bind_eq_ok h
        obtain ⟨_, -, h⟩ := bind_eq_ok h
        split at h
        · cases h
          exact hle
        · cases h

/-- What a job may burn is settled when it is enqueued. -/
theorem Change.max_attempts {cfg : Config} {db : Db} {req : Request} {r r' : Job}
    (h : Change cfg db req r r') : r'.max_attempts = r.max_attempts := by
  cases h with
  | renewed =>
      unfold renewRow
      split <;> rfl
  | swept =>
      unfold sweepRow
      simp only
      split <;> rfl
  | settled _ _ _ hs => cases hs <;> rfl
  | _ => rfl

/-! ## Runs -/

/-- The job is accounted for, or not there and never leased. -/
def AccountedIn (cfg : Config) (id : String) (reqs : List Request) (db : Db) : Prop :=
  match db.job? id with
  | none => lapses cfg reqs id = 0
  | some r => Accounted (lapses cfg reqs id) r

/-- Every job is accounted for, and its counts can be read. -/
structure Sound (cfg : Config) (reqs : List Request) (db : Db) : Prop where
  accounted : ∀ id, AccountedIn cfg id reqs db
  safe : ∀ id r, db.job? id = some r → r.max_attempts ≤ MAX_SAFE_INTEGER

namespace Sound

variable {cfg : Config} {past : List Request}

/-- A claim has burned no more than it may, so its counts are safe and the sweep reads them. -/
theorem reads (h : Sound cfg past (after cfg past)) : sweepThrows (after cfg past) = false := by
  unfold sweepThrows
  rw [List.any_eq_false]
  intro r hmem
  obtain ⟨hrow, hlapsed⟩ := List.mem_filter.mp hmem
  have hr : (after cfg past).job? r.job_id = some r := Table.mem_rows_iff.mp hrow
  have hacc : Accounted (lapses cfg past r.job_id) r := by
    simpa only [AccountedIn, hr] using h.accounted r.job_id
  have hc := claimed_of_lapsed hlapsed
  have hattempts := hacc.attempts_of_claimed hc
  have hlt := hacc.lapses_lt (by simp [hc, Status.live])
  have hmax := h.safe r.job_id r hr
  rw [Job.outOfRange_of_safe (by omega) hmax]
  exact Bool.false_ne_true

theorem step (h : Sound cfg past (after cfg past)) {req : Request}
    (hok : SafeAttempts (after cfg past) req) :
    Sound cfg (past ++ [req]) (step cfg (after cfg past) req) := by
  constructor
  · intro id
    have hid := h.accounted id
    unfold AccountedIn at hid ⊢
    rw [lapses_concat]
    cases hr : (after cfg past).job? id with
    | none =>
        simp only [hr] at hid
        have hzero : lapsedBy id (after cfg past) req = 0 := by
          unfold lapsedBy
          rw [hr]
          cases req <;> rfl
        rw [hid, hzero]
        cases hr' : (FleetRunner.step cfg (after cfg past) req).job? id with
        | none => rfl
        | some r' =>
            obtain ⟨-, -, p, spec, rfl⟩ := step_new hr hr'
            exact .newJob p id spec
    | some r =>
        simp only [hr] at hid
        obtain ⟨r', hr', hc⟩ := step_row cfg (after cfg past) req hr
        rw [hr']
        exact hid.change hr hc h.reads hr'
  · intro id r' hr'
    cases hr : (after cfg past).job? id with
    | none =>
        obtain ⟨input, rfl, p, spec, hp, rfl⟩ := step_planned hr hr'
        exact max_attempts_of_prepare hp hok
    | some r =>
        obtain ⟨q, hq, hc⟩ := step_row cfg (after cfg past) req hr
        obtain rfl : q = r' := Option.some.inj (hq.symm.trans hr')
        rw [hc.max_attempts]
        exact h.safe id r hr

end Sound

/-- In a run that asks for safe integers, every row of every state is accounted for. -/
theorem sound (cfg : Config) {reqs : List Request}
    (hok : Along (step cfg) SafeAttempts .empty reqs) : Sound cfg reqs (after cfg reqs) := by
  have hbase : Sound cfg [] .empty := by
    constructor
    · intro id
      change lapses cfg [] id = 0
      rfl
    · intro id r hr
      cases hr
  have hstep : ∀ past req, Sound cfg past (run (FleetRunner.step cfg) .empty past) →
      SafeAttempts (run (FleetRunner.step cfg) .empty past) req →
      Sound cfg (past ++ [req])
        (FleetRunner.step cfg (run (FleetRunner.step cfg) .empty past) req) :=
    fun _ _ h hreq => h.step hreq
  exact @history_invariant _ _ (FleetRunner.step cfg) (Sound cfg) _ _ hbase hstep reqs hok

theorem Sound.row {cfg : Config} {reqs : List Request} (h : Sound cfg reqs (after cfg reqs))
    {id : String} {r : Job} (hr : (after cfg reqs).job? id = some r) :
    Accounted (lapses cfg reqs id) r := by
  simpa only [AccountedIn, hr] using h.accounted id

/-- A sweep fails a job exactly when the lapse it finds is the last one allowed. -/
theorem sweep_fails_iff {cfg : Config} {reqs : List Request}
    (hsound : Sound cfg reqs (after cfg reqs)) {id : String} {r r' : Job}
    (h : (after cfg reqs).job? id = some r) (hf : r.status ≠ .failed)
    (h' : (after cfg (reqs ++ [.sweep])).job? id = some r') :
    r'.status = .failed ↔ lapses cfg reqs id < lapses cfg (reqs ++ [.sweep]) id ∧
      lapses cfg (reqs ++ [.sweep]) id = r.max_attempts := by
  have hacc := hsound.row h
  have hlapsed : lapsedBy id (after cfg reqs) .sweep =
      if leaseLapsed (after cfg reqs).sqlNow r then 1 else 0 := by
    simp only [lapsedBy, h]
  rw [after, run_concat, job?_step_sweep hsound.reads h] at h'
  obtain rfl := Option.some.inj h'
  rw [lapses_concat, hlapsed]
  by_cases hl : leaseLapsed (after cfg reqs).sqlNow r = true
  · have hc := claimed_of_lapsed hl
    have ha := hacc.attempts_of_claimed hc
    have hlt := hacc.lapses_lt (by simp [hc, Status.live])
    simp only [hl, if_true, sweepRow]
    by_cases hmax : r.max_attempts ≤ r.attempts
    · simp only [hmax, if_true, giveUp, true_iff]
      omega
    · simp only [hmax, if_false, requeueSwept]
      simp only [reduceCtorEq, false_iff]
      omega
  · simp [hl, hf]

/-- Attempt accounting and the shape of a row, in every state of a run whose jobs
ask for safe integers of attempts. -/
theorem attempts_accounted (cfg : Config) (reqs : List Request)
    (hok : Along (step cfg) SafeAttempts .empty reqs) (id : String) (r : Job)
    (h : (after cfg reqs).job? id = some r) :
    ((r.status = .claimed ↔ r.lease_deadline.isSome = true) ∧
      (r.status = .claimed → r.claimed_by.isSome = true ∧ 1 ≤ r.attempts ∧
        r.attempts ≤ r.max_attempts)) ∧
    (r.status = .queued ∨ r.status = .waiting →
      r.claimed_by = none ∧ r.claimed_at = none ∧ r.lease_deadline = none ∧
        r.finished_at = none ∧ r.attempts < r.max_attempts) ∧
    (r.status.terminal = false →
      r.attempts = lapses cfg reqs id + if r.status = .claimed then 1 else 0) ∧
    (r.status = .claimed → (releaseRow r).attempts + 1 = r.attempts ∧
      ∀ resumeFrom, (preemptRow resumeFrom r).attempts + 1 = r.attempts) ∧
    (r.status ≠ .failed → ∀ r', (after cfg (reqs ++ [.sweep])).job? id = some r' →
      (r'.status = .failed ↔ lapses cfg reqs id < lapses cfg (reqs ++ [.sweep]) id ∧
        lapses cfg (reqs ++ [.sweep]) id = r.max_attempts)) := by
  have hsound := sound cfg hok
  have hacc := hsound.row h
  refine ⟨⟨hacc.leased_iff, ?_⟩, ?_, ?_, ?_, fun hf r' h' => sweep_fails_iff hsound h hf h'⟩
  · intro hc
    have ha := hacc.attempts_of_claimed hc
    have hlt := hacc.lapses_lt (by simp [hc, Status.live])
    exact ⟨hacc.holder hc, by omega, by omega⟩
  · intro hs
    have hlive : r.status.live = true := by rcases hs with hs | hs <;> simp [hs, Status.live]
    have hc : r.status ≠ .claimed := by rcases hs with hs | hs <;> simp [hs]
    obtain ⟨hby, hat⟩ := hacc.unclaimed hlive hc
    have ha := hacc.attempts_of_idle hlive hc
    have hlt := hacc.lapses_lt hlive
    exact ⟨hby, hat, hacc.no_lease hc, hacc.unfinished hlive, by omega⟩
  · intro ht
    exact hacc.attempts_eq (Status.terminal_eq_false_iff.mp ht)
  · intro hc
    have ha := hacc.attempts_of_claimed hc
    simp [releaseRow, preemptRow, ha]

/-- A job asks for no more attempts than the default. -/
theorem safeAttempts_of_none {db : Db} {input : Json}
    (h : optProp (input.prop "lease") "max_attempts" = none) :
    SafeAttempts db (.enqueue input) := by
  intro n hn
  rw [h] at hn
  cases hn

/-- A lease lapses and the job is claimed again: its second attempt. -/
theorem attempts_accounted_reclaimed :
    let reqs : List Request := [.enqueue (Sample.job "a" [] []),
      .register (Sample.registration "d1" []) none, .nextJob "d1", .tick 601000, .sweep,
      .nextJob "d1"]
    ∃ r, (after .plain reqs).job? "a" = some r ∧ r.status = .claimed ∧ r.attempts = 2 := by
  intro reqs
  obtain ⟨hrun, hlapses⟩ :
      ((after .plain reqs).job? "a").any (fun r => decide (r.status = .claimed)) = true ∧
      lapses .plain reqs "a" = 1 := by
    decide +kernel
  have hok : Along (step .plain) SafeAttempts .empty reqs :=
    ⟨safeAttempts_of_none rfl, trivial, trivial, trivial, trivial, trivial, trivial⟩
  obtain ⟨r, hr, hrow⟩ := Db.exists_job_of_any hrun
  have hc : r.status = .claimed := of_decide_eq_true hrow
  have hattempts := (attempts_accounted .plain reqs hok "a" r hr).2.2.1 (by rw [hc]; rfl)
  rw [hlapses, if_pos hc] at hattempts
  exact ⟨r, hr, hc, hattempts⟩

/-- Two claims lapse. The first may burn more attempts than can be read back, the second
only one. -/
def unread : List Request :=
  [.register (Sample.registration "d1" []) none, .register (Sample.registration "d2" []) none,
    .enqueue (Sample.job "a" [] [("lease", .obj [("max_attempts", .num 9007199254740992)])]),
    .enqueue (Sample.job "b" [] [("lease", .obj [("max_attempts", .num 1)])]),
    .nextJob "d1", .nextJob "d2", .tick 601000]

/-- The sweep throws at the first claim, and the second is not failed at its last lapse. -/
theorem attempts_accounted_unread :
    ¬∀ (cfg : Config) (reqs : List Request) (id : String) (r : Job),
      (after cfg reqs).job? id = some r →
      ((r.status = .claimed ↔ r.lease_deadline.isSome = true) ∧
        (r.status = .claimed → r.claimed_by.isSome = true ∧ 1 ≤ r.attempts ∧
          r.attempts ≤ r.max_attempts)) ∧
      (r.status = .queued ∨ r.status = .waiting →
        r.claimed_by = none ∧ r.claimed_at = none ∧ r.lease_deadline = none ∧
          r.finished_at = none ∧ r.attempts < r.max_attempts) ∧
      (r.status.terminal = false →
        r.attempts = lapses cfg reqs id + if r.status = .claimed then 1 else 0) ∧
      (r.status = .claimed → (releaseRow r).attempts + 1 = r.attempts ∧
        ∀ resumeFrom, (preemptRow resumeFrom r).attempts + 1 = r.attempts) ∧
      (r.status ≠ .failed → ∀ r', (after cfg (reqs ++ [.sweep])).job? id = some r' →
        (r'.status = .failed ↔ lapses cfg reqs id < lapses cfg (reqs ++ [.sweep]) id ∧
          lapses cfg (reqs ++ [.sweep]) id = r.max_attempts)) := by
  intro h
  obtain ⟨hbefore, hafter, hlapses, hlast⟩ :
      ((after .plain unread).job? "b").any (fun r =>
        decide (r.status = .claimed ∧ r.max_attempts = 1)) = true ∧
      ((after .plain (unread ++ [.sweep])).job? "b").any
        (fun r => decide (r.status = .claimed)) = true ∧
      lapses .plain unread "b" = 0 ∧ lapses .plain (unread ++ [.sweep]) "b" = 1 := by
    decide +kernel
  obtain ⟨r, hr, hrow⟩ := Db.exists_job_of_any hbefore
  obtain ⟨r', hr', hrow'⟩ := Db.exists_job_of_any hafter
  obtain ⟨hc, hmax⟩ := of_decide_eq_true hrow
  have hc' : r'.status = .claimed := of_decide_eq_true hrow'
  have hfails := (h .plain unread "b" r hr).2.2.2.2 (by simp [hc]) r' hr'
  rw [hlapses, hlast, hmax, hc'] at hfails
  exact Status.noConfusion (hfails.mpr ⟨Nat.zero_lt_one, rfl⟩)

end FleetRunner
