import FleetRunner.Locks

/-!
# Which job a claim hands out

A claimant is offered the queued jobs in one order, the highest priority first
and the oldest first among equals, and is handed the first it may run. The same
order decides preemption: a beacon is told to stand aside for work that would
go to the same claimant next.
-/

namespace FleetRunner

open Library

variable {js : Js} {db : Db}

/-- A queued job of one kind. -/
structure Queued (db : Db) (executor : Executor) (r : Job) : Prop where
  row : db.job? r.job_id = some r
  status : r.status = .queued
  kind : r.executor = executor

theorem mem_queuedFor_iff {executor : Executor} {r : Job} :
    r ∈ queuedFor db executor ↔ Queued db executor r := by
  constructor
  · intro h
    obtain ⟨hrow, hstatus, hkind⟩ := mem_queuedFor h
    exact ⟨hrow, hstatus, hkind⟩
  · intro h
    unfold queuedFor
    rw [List.mem_insertionSort, List.mem_filter]
    refine ⟨?_, ?_⟩
    · rw [Table.mem_rows_iff]
      exact h.row
    · exact decide_eq_true ⟨h.status, h.kind⟩

instance : Std.Total claimOrder where
  total a b := by
    unfold claimOrder
    omega

instance : IsTrans Job claimOrder where
  trans a b c hab hbc := by
    unfold claimOrder at hab hbc ⊢
    omega

theorem pairwise_queuedFor (db : Db) (executor : Executor) :
    (queuedFor db executor).Pairwise claimOrder :=
  List.pairwise_insertionSort _ _

/-- Is `q` offered before `r`, whatever row it has? -/
def offeredBefore (q r : Job) : Prop :=
  r.priority < q.priority ∨ q.priority = r.priority ∧ q.created_at < r.created_at

theorem not_claimOrder_of_offeredBefore {q r : Job} (h : offeredBefore q r) : ¬claimOrder r q := by
  unfold offeredBefore at h
  unfold claimOrder
  omega

/-- The attempt that found `r`, with everything offered before it turned down. -/
structure Handed (js : Js) (db : Db) (executor : Executor) (claimant : String) (r : Job) :
    Prop where
  queued : Queued db executor r
  eligible : specEligibleFor js db (claimantContext db executor claimant) r.spec = .ok true
  before : ∀ q, Queued db executor q → offeredBefore q r →
    specEligibleFor js db (claimantContext db executor claimant) q.spec = .ok false

theorem handed_of_findE {executor : Executor} {claimant : String} {r : Job}
    (h : findE (fun r => specEligibleFor js db (claimantContext db executor claimant) r.spec)
      (queuedFor db executor) = .ok (some r)) : Handed js db executor claimant r := by
  obtain ⟨hmem, heligible⟩ := findE_eq_some h
  obtain ⟨pre, post, hsplit, hpre⟩ := findE_split h
  refine ⟨mem_queuedFor_iff.mp hmem, heligible, ?_⟩
  intro q hq hbefore
  have hin : q ∈ pre ++ r :: post := by
    rw [← hsplit]
    exact mem_queuedFor_iff.mpr hq
  rcases List.mem_append.mp hin with hin | hin
  · exact hpre q hin
  · have hsorted := pairwise_queuedFor db executor
    rw [hsplit] at hsorted
    have hlate := (List.pairwise_append.mp hsorted).2.1
    rcases List.mem_cons.mp hin with rfl | hin
    · unfold offeredBefore at hbefore
      omega
    · have hrq := (List.pairwise_cons.mp hlate).1 q hin
      exact absurd hrq (not_claimOrder_of_offeredBefore hbefore)

/-- Why a claim attempt may end before it looks at the queue. -/
def heldBack (my : String) (db : Db) (executor : Executor) (claimant : String) : Prop :=
  executor = .device ∧ ((db.lockOf claimant).isSome ∨
    (busyElsewhere (claimantContext db executor claimant).beacon
      (claimantContext db executor claimant).beaconAgeS my).isSome)

/-- Every attempt that returns: nothing while the device is taken, nothing when every queued
job was turned down, and otherwise the first job in the order that was not. -/
theorem claimed_in_order {my : String} {db' : Db} {executor : Executor} {claimant : String}
    {out : Option Json} (h : claimTx js my db executor claimant = .ok (db', out)) :
    (out = none ∧ db' = db ∧ (heldBack my db executor claimant ∨ ∀ q, Queued db executor q →
      specEligibleFor js db (claimantContext db executor claimant) q.spec = .ok false)) ∨
    (¬heldBack my db executor claimant ∧ ∃ r, Handed js db executor claimant r ∧
      out = some r.spec ∧ db' = grantClaim db executor claimant r.job_id) := by
  unfold claimTx at h
  simp only at h
  split at h
  · rename_i hheld
    cases h
    exact Or.inl ⟨rfl, rfl, Or.inl hheld⟩
  · rename_i hfree
    split at h
    · cases h
    · rename_i hnone
      cases h
      refine Or.inl ⟨rfl, rfl, Or.inr ?_⟩
      intro q hq
      exact findE_eq_none hnone q (mem_queuedFor_iff.mpr hq)
    · rename_i r hfound
      cases h
      exact Or.inr ⟨hfree, r, handed_of_findE hfound, rfl, rfl⟩

/-! ## Standing aside -/

section Preempted

variable {id : String} {r : Job} {resumeFrom : Option String}

/-- The collector after a claim stood aside. -/
abbrev requeued (db : Db) (id : String) (resumeFrom : Option String) : Db :=
  (db.updateJob id (preemptRow resumeFrom) (preemptRow_job_id _)).dropLocks id

theorem job?_requeued_of_ne {j : String} (hne : j ≠ id) :
    (requeued db id resumeFrom).job? j = db.job? j := by
  rw [Db.job?_dropLocks, Db.job?_updateJob_of_ne db hne]

/-- The queue a claim that stood aside leaves: itself, and what was queued before. -/
theorem queued_requeued_iff (hr : db.job? id = some r) (hc : r.status = .claimed)
    {executor : Executor} {q : Job} : Queued (requeued db id resumeFrom) executor q ↔
      Queued db executor q ∨ q = preemptRow resumeFrom r ∧ r.executor = executor := by
  by_cases hq : q.job_id = id
  · have hrow : (requeued db id resumeFrom).job? id = some (preemptRow resumeFrom r) := by
      rw [Db.job?_dropLocks, Db.job?_updateJob_self, hr]
      rfl
    constructor
    · intro h
      have hrow' := h.row
      rw [hq, hrow] at hrow'
      obtain rfl := Option.some.inj hrow'
      exact Or.inr ⟨rfl, h.kind⟩
    · rintro (h | ⟨rfl, hkind⟩)
      · have hrow' := h.row
        rw [hq, hr] at hrow'
        obtain rfl := Option.some.inj hrow'
        have hstatus := h.status
        rw [hc] at hstatus
        cases hstatus
      · refine ⟨?_, rfl, hkind⟩
        rw [hq]
        exact hrow
  · have hne : q ≠ preemptRow resumeFrom r := by
      rintro rfl
      exact hq ((preemptRow_job_id resumeFrom r).trans (Db.job_id_of_job? hr))
    constructor
    · intro h
      have hrow := h.row
      rw [job?_requeued_of_ne hq] at hrow
      exact Or.inl ⟨hrow, h.status, h.kind⟩
    · rintro (h | ⟨rfl, -⟩)
      · refine ⟨?_, h.status, h.kind⟩
        rw [job?_requeued_of_ne hq]
        exact h.row
      · exact absurd rfl hne

/-- A claim is told to stand aside for a job that outranks it and its claimant may run. -/
theorem preemptionPending_iff {holder : String} (hby : r.claimed_by = some holder)
    (hholder : holder ≠ "") (hpre : (r.spec.prop "preemptible").any Json.isTrue = true) :
    preemptionPending js db r = true ↔ ∃ q, Queued db r.executor q ∧ r.priority < q.priority ∧
      specEligibleFor js db (claimantContext db r.executor holder) q.spec = .ok true := by
  unfold preemptionPending
  rw [hby]
  simp only [hholder, hpre, Bool.not_true, Bool.false_eq_true, or_self, if_false]
  rw [List.any_eq_true]
  constructor
  · rintro ⟨q, hq, hrank⟩
    rw [Bool.and_eq_true, decide_eq_true_eq] at hrank
    refine ⟨q, mem_queuedFor_iff.mp hq, hrank.1, ?_⟩
    have hyes := hrank.2
    split at hyes
    · rename_i b hb
      rw [hb, hyes]
    · cases hyes
  · rintro ⟨q, hq, hrank, heligible⟩
    refine ⟨q, mem_queuedFor_iff.mpr hq, ?_⟩
    rw [heligible]
    simpa using hrank

/-- A claim that stood aside leaves its device free, in every reachable state. -/
theorem not_heldBack_requeued {cfg : Config} {reqs : List Request}
    (hok : Along (step cfg) HostLocksOnly .empty reqs) (hr : (after cfg reqs).job? id = some r)
    (hc : r.status = .claimed) {holder : String} (hby : r.claimed_by = some holder)
    (hidle : r.executor = .device →
      busyElsewhere (claimantContext (after cfg reqs) .device holder).beacon
        (claimantContext (after cfg reqs) .device holder).beaconAgeS cfg.collectorId = none) :
    ¬heldBack cfg.collectorId (requeued (after cfg reqs) id resumeFrom) r.executor holder := by
  rintro ⟨hdev, hlock | hbusy⟩
  · have hheld := held cfg hok id r holder hr hdev hc hby
    rw [Db.lockOf_dropLocks, Db.lockOf_updateJob, if_pos hheld] at hlock
    cases hlock
  · rw [hdev] at hbusy
    have hsame : claimantContext (requeued (after cfg reqs) id resumeFrom) .device holder =
        claimantContext (after cfg reqs) .device holder := rfl
    rw [hsame, hidle hdev] at hbusy
    cases hbusy

/-- Standing aside is never for nothing, and never refused for nothing: the claimant's next
claim goes to a job that outranks the one it gave up exactly when preemption was pending. -/
theorem preempted_claim_iff (cfg : Config) (reqs : List Request)
    (hok : Along (step cfg) HostLocksOnly .empty reqs) (hr : (after cfg reqs).job? id = some r)
    (hc : r.status = .claimed) {holder : String} (hby : r.claimed_by = some holder)
    (hholder : holder ≠ "") (hpre : (r.spec.prop "preemptible").any Json.isTrue = true)
    (hidle : r.executor = .device →
      busyElsewhere (claimantContext (after cfg reqs) .device holder).beacon
        (claimantContext (after cfg reqs) .device holder).beaconAgeS cfg.collectorId = none)
    {final : Json} {stood : Db}
    (hstood : requeuePreemptedTx (after cfg reqs) id final = some (stood, resumeFrom))
    {db' : Db} {out : Option Json}
    (hclaim : claimTx cfg.js cfg.collectorId stood r.executor holder = .ok (db', out)) :
    preemptionPending cfg.js (after cfg reqs) r = true ↔
      ∃ q, Queued (after cfg reqs) r.executor q ∧ r.priority < q.priority ∧ out = some q.spec ∧
        db' = grantClaim stood r.executor holder q.job_id := by
  rw [requeuePreemptedTx_of_claimed hr hc] at hstood
  obtain ⟨rfl, hfrom⟩ := Prod.mk.inj (Option.some.inj hstood)
  rw [hfrom] at hclaim ⊢
  rw [preemptionPending_iff hby hholder hpre]
  have hfree : ¬heldBack cfg.collectorId (requeued (after cfg reqs) id resumeFrom) r.executor
      holder := not_heldBack_requeued hok hr hc hby hidle
  constructor
  · rintro ⟨q, hq, hrank, heligible⟩
    have hqueued : Queued (requeued (after cfg reqs) id resumeFrom) r.executor q :=
      (queued_requeued_iff hr hc).mpr (Or.inl hq)
    rcases claimed_in_order hclaim with ⟨-, -, hheld | hnone⟩ | ⟨-, p, hp, hout, hdb⟩
    · exact absurd hheld hfree
    · have hno := hnone q hqueued
      exact absurd (hno.symm.trans heligible) (by simp)
    · have hfirst : ¬offeredBefore q p := by
        intro hbefore
        have hno := hp.before q hqueued hbefore
        exact absurd (hno.symm.trans heligible) (by simp)
      have hrank' : r.priority < p.priority := by
        unfold offeredBefore at hfirst
        omega
      rcases (queued_requeued_iff hr hc).mp hp.queued with hold | ⟨rfl, -⟩
      · exact ⟨p, hold, hrank', hout, hdb⟩
      · exact absurd hrank' (lt_irrefl r.priority)
  · rintro ⟨q, hq, hrank, hout, -⟩
    rcases claimed_in_order hclaim with ⟨hnone, -⟩ | ⟨-, p, hp, hout', -⟩
    · rw [hnone] at hout
      cases hout
    · have hspec : q.spec = p.spec := Option.some.inj (hout.symm.trans hout')
      refine ⟨q, hq, hrank, ?_⟩
      rw [hspec]
      exact hp.eligible

/-- A batch job that may be preempted gives way to an urgent one. -/
theorem preempted_claim_urgent :
    let reqs : List Request := [.enqueue (Sample.job "a" [] [("preemptible", .bool true)]),
      .register (Sample.registration "d1" []) none, .nextJob "d1",
      .enqueue (Sample.job "b" [] [("priority", .num 5)])]
    ∃ stood db' out q, requeuePreemptedTx (after .plain reqs) "a" (Sample.preempted "d1" "a") =
        some (stood, none) ∧ claimTx .plain "brain" stood .device "d1" = .ok (db', out) ∧
      Queued (after .plain reqs) .device q ∧ out = some q.spec ∧ 0 < q.priority := by
  intro reqs
  obtain ⟨hrow, hidle, hstood, hreturns⟩ :
      ((after .plain reqs).job? "a").any (fun r => decide (r.status = .claimed ∧
        r.executor = .device ∧ r.claimed_by = some "d1" ∧ r.priority = 0) &&
        (r.spec.prop "preemptible").any Json.isTrue &&
        preemptionPending .plain (after .plain reqs) r) = true ∧
      busyElsewhere (claimantContext (after .plain reqs) .device "d1").beacon
        (claimantContext (after .plain reqs) .device "d1").beaconAgeS "brain" = none ∧
      (requeuePreemptedTx (after .plain reqs) "a" (Sample.preempted "d1" "a")).any
        (fun s => decide (s.2 = none)) = true ∧
      okAnd (claimTx .plain "brain" (requeued (after .plain reqs) "a" none) .device "d1")
        (fun _ => true) = true := by
    decide +kernel
  obtain ⟨r, hr, hrow⟩ := Db.exists_job_of_any hrow
  simp only [Bool.and_eq_true, decide_eq_true_eq] at hrow
  obtain ⟨⟨⟨hc, hdev, hby, hzero⟩, hpre⟩, hpending⟩ := hrow
  obtain ⟨⟨db', out⟩, hclaim, -⟩ := exists_of_okAnd hreturns
  have hstands : requeuePreemptedTx (after .plain reqs) "a" (Sample.preempted "d1" "a") =
      some (requeued (after .plain reqs) "a" none, none) := by
    rw [requeuePreemptedTx_of_claimed hr hc] at hstood ⊢
    have hnone : firstArtifactSha (Sample.preempted "d1" "a") = none := of_decide_eq_true hstood
    rw [hnone]
  have hok : Along (step .plain) HostLocksOnly .empty reqs := by
    simp [reqs, HostLocksOnly]
  obtain ⟨q, hq, hrank, hout, -⟩ := (preempted_claim_iff .plain reqs hok hr hc hby (by decide) hpre
    (fun _ => hidle) hstands (by rw [hdev]; exact hclaim)).mp hpending
  refine ⟨_, db', out, q, hstands, hclaim, hdev ▸ hq, hout, ?_⟩
  rw [← hzero]
  exact hrank

end Preempted

end FleetRunner
