import FleetRunner.Lifecycle

/-!
# No stranded chain

A waiting job is only ever looked at again when one of its dependencies closes,
so it must never wait once they decide it. Every transaction that closes a job
settles what waits on it, in the same write; the sweep, when it gives up on a
job, does not.
-/

namespace FleetRunner

open Library

/-! ## Dependencies come first -/

theorem Change.depends_on_eq {cfg : Config} {db : Db} {req : Request} {r r' : Job}
    (h : Change cfg db req r r') : r'.depends_on = r.depends_on := by
  cases h with
  | renewed =>
      unfold renewRow
      split <;> rfl
  | swept =>
      unfold sweepRow
      simp only
      split <;> rfl
  | settled _ _ _ hs => cases hs <;> rfl
  | _ => rfl

/-- A waiting row that was waiting before. -/
theorem Change.waiting {cfg : Config} {db : Db} {req : Request} {r r' : Job}
    (h : Change cfg db req r r') (hwait : r'.status = .waiting) :
    r.status = .waiting ∧ r'.depends_on = r.depends_on := by
  refine ⟨?_, h.depends_on_eq⟩
  cases h with
  | same => exact hwait
  | claimed => simp [claimRow] at hwait
  | renewed => simpa using hwait
  | swept =>
      rw [sweepRow_status] at hwait
      split at hwait <;> cases hwait
  | released => simp [releaseRow] at hwait
  | preempted => simp [preemptRow] at hwait
  | closed => exact absurd hwait (Status.ne_waiting_of_terminal (closeRow_terminal _ _ _))
  | cancelled => simp [closedRow] at hwait
  | settled _ _ hw => exact hw
  | prioritised => exact hwait

/-- The dependencies a plan carries were in the table before it. -/
theorem Plan.dep_mem {db : Db} (p : Plan db) {d : String} (hd : d ∈ p.deps.ids) : d ∈ order db := by
  obtain ⟨r, hr, hid⟩ := Table.contains_iff.mp (p.deps.exist d hd)
  exact List.mem_map.mpr ⟨r, hr, hid⟩

theorem Plan.exists_dep {db : Db} (p : Plan db) {d : String} (hd : d ∈ p.deps.ids) :
    ∃ r, db.job? d = some r := by
  cases hr : db.job? d with
  | none => exact absurd (p.dep_mem hd) (job?_eq_none_iff.mp hr)
  | some r => exact ⟨r, rfl⟩

theorem order_step_enqueue (cfg : Config) (db : Db) (input : Json) :
    ∃ added, order (step cfg db (.enqueue input)) = order db ++ added := by
  simp only [step]
  split
  · rename_i queued out hout
    obtain ⟨p, rows, -, -, rfl⟩ := enqueueJob_ok hout
    exact order_insertJobs db rows
  · exact ⟨[], by simp⟩

theorem order_step_append (cfg : Config) (db : Db) (req : Request) :
    ∃ added, order (step cfg db req) = order db ++ added := by
  by_cases hreq : ∀ spec, req ≠ .enqueue spec
  · exact ⟨[], by simp [order_step db hreq]⟩
  · simp only [not_forall, not_not] at hreq
    obtain ⟨input, rfl⟩ := hreq
    exact order_step_enqueue cfg db input

theorem Ordered.step {cfg : Config} {db : Db} (h : Ordered db) (req : Request) :
    Ordered (step cfg db req) := by
  obtain ⟨added, hadded⟩ := order_step_append cfg db req
  intro id r' hr' d hd
  rw [hadded]
  cases hr : db.job? id with
  | some r =>
      obtain ⟨q, hq, hchange⟩ := step_row cfg db req hr
      obtain rfl : q = r' := Option.some.inj (hq.symm.trans hr')
      rw [hchange.depends_on_eq] at hd
      have hlt := h id r hr d hd
      have hdep : d ∈ order db :=
        List.idxOf_lt_length_iff.mp
          (Nat.lt_trans hlt (List.idxOf_lt_length_iff.mpr (mem_order hr)))
      rwa [List.idxOf_append_of_mem hdep, List.idxOf_append_of_mem (mem_order hr)]
  | none =>
      obtain ⟨-, -, p, spec, rfl⟩ := step_new hr hr'
      have hdep : d ∈ order db := p.dep_mem hd
      rw [List.idxOf_append_of_mem hdep, List.idxOf_append_of_notMem (job?_eq_none_iff.mp hr)]
      have hlt := List.idxOf_lt_length_iff.mpr hdep
      omega

theorem ordered (cfg : Config) (reqs : List Request) : Ordered (after cfg reqs) := by
  have hempty : Ordered .empty := by
    intro id r h
    simp at h
  have hstep : ∀ db req, Ordered db → Ordered (step cfg db req) := fun _ req h => h.step req
  exact @invariant_all _ _ _ Ordered hstep _ hempty reqs

/-! ## Nothing due waits -/

/-- No waiting job is decided by its dependencies already. -/
def NoneDue (db : Db) : Prop := DueOnly db fun _ => False

/-- Two statuses a waiting job makes the same of. -/
def SameToWaiters (s s' : Option Status) : Prop :=
  spoiled s' = spoiled s ∧ (s' = some .done ↔ s = some .done)

theorem SameToWaiters.refl (s : Option Status) : SameToWaiters s s := ⟨rfl, Iff.rfl⟩

theorem SameToWaiters.of_live {s s' : Status} (hs : s.live = true) (hs' : s'.live = true) :
    SameToWaiters (some s) (some s') := by
  cases s <;> cases s' <;> simp_all [SameToWaiters, spoiled, Status.broken, Status.live]

theorem due_congr {db db' : Db} {w w' : Job} (hdeps : w'.depends_on = w.depends_on)
    (h : ∀ d ∈ w.depends_on, SameToWaiters (db.status? d) (db'.status? d)) :
    Due db' w' ↔ Due db w := by
  have hspoiled : SpoiledDep db' w' ↔ SpoiledDep db w := by
    unfold SpoiledDep
    rw [hdeps]
    exact exists_congr fun d => and_congr_right fun hd => by rw [(h d hd).1]
  have hdone : AllDone db' w' ↔ AllDone db w := by
    unfold AllDone
    rw [hdeps]
    exact forall₂_congr fun d hd => (h d hd).2
  exact or_congr hspoiled hdone

/-- Rows that look the same to every waiting job leave none due. -/
theorem NoneDue.of_same {db db' : Db} (h : NoneDue db)
    (hrow : ∀ id w', db'.job? id = some w' → w'.status = .waiting →
      ∃ w, db.job? id = some w ∧ w.status = .waiting ∧ w'.depends_on = w.depends_on ∧
        ∀ d ∈ w.depends_on, SameToWaiters (db.status? d) (db'.status? d)) : NoneDue db' := by
  intro id w' hw' hwait hdue
  obtain ⟨w, hw, hwait', hdeps, hsame⟩ := hrow id w' hw' hwait
  exact h id w hw hwait' ((due_congr hdeps hsame).mp hdue)

/-- A change that closes nothing: the status stands, or was and is on the way. -/
def Calm (r r' : Job) : Prop :=
  r'.status = r.status ∨
    r.status.live = true ∧ r'.status.live = true ∧ r.status ≠ .waiting ∧ r'.status ≠ .waiting

theorem Change.calm {cfg : Config} {db : Db} {req : Request} {r r' : Job}
    (h : Change cfg db req r r') (hcloses : ∀ id, ¬Closes db id req) (hr : db.job? r.job_id = some r)
    (hsweep : req = .sweep → leaseLapsed db.sqlNow r = true → r.attempts < r.max_attempts) :
    Calm r r' := by
  cases h with
  | same => exact Or.inl rfl
  | claimed _ hq => exact Or.inr (by simp [hq, claimRow, Status.live])
  | renewed => exact Or.inl (by simp)
  | swept hl =>
      have hc : r.status = .claimed := by
        simp only [leaseLapsed, Bool.and_eq_true, decide_eq_true_eq] at hl
        exact hl.1
      have hlt := hsweep rfl hl
      refine Or.inr ?_
      simp [sweepRow, Nat.not_le.mpr hlt, requeueSwept, hc, Status.live]
  | released hc => exact Or.inr (by simp [hc, releaseRow, Status.live])
  | preempted _ _ _ _ hc => exact Or.inr (by simp [hc, preemptRow, Status.live])
  | closed hpost hfinal hid hnot =>
      refine absurd ?_ (hcloses r.job_id)
      refine ⟨_, hpost, hfinal, hid, fun q hq => ?_⟩
      obtain rfl : r = q := Option.some.inj (hr.symm.trans hq)
      exact hnot
  | cancelled hlive => exact absurd ⟨rfl, r, hr, hlive⟩ (hcloses r.job_id)
  | settled hc => exact absurd hc (hcloses _)
  | prioritised => exact Or.inl rfl

theorem Calm.sameToWaiters {r r' : Job} (h : Calm r r') :
    SameToWaiters (some r.status) (some r'.status) := by
  rcases h with h | ⟨hr, hr', -, -⟩
  · rw [h]
    exact .refl _
  · exact .of_live hr hr'

/-- What a plan leaves waiting is not due. -/
theorem dependencyStateFrom_waiting {db : Db} {allDone : Bool} {skipped : Option String}
    {deps : List String} (h : dependencyStateFrom db allDone skipped deps = .waiting) :
    skipped = none ∧ (∀ d ∈ deps, ∀ s, db.status? d = some s → s.broken = false) ∧
      (allDone = false ∨ ∃ d ∈ deps, db.status? d ≠ some .done) := by
  induction deps generalizing allDone skipped with
  | nil =>
      cases skipped with
      | some d => simp [dependencyStateFrom] at h
      | none => cases allDone <;> simp_all [dependencyStateFrom]
  | cons d rest ih =>
      rw [dependencyStateFrom] at h
      split at h
      · cases h
      · cases h
      · have hskip := (ih h).1
        cases skipped <;> simp at hskip
      · rename_i hd
        obtain ⟨hskip, hgood, hopen⟩ := ih h
        refine ⟨hskip, ?_, ?_⟩
        · simp only [List.mem_cons, forall_eq_or_imp, hd, Option.some.injEq, forall_eq']
          exact ⟨rfl, hgood⟩
        · rcases hopen with hnone | ⟨e, he, hne⟩
          · exact Or.inl hnone
          · exact Or.inr ⟨e, List.mem_cons_of_mem d he, hne⟩
      · rename_i hfailed hcancelled hskipped hdone
        obtain ⟨hskip, hgood, -⟩ := ih h
        refine ⟨hskip, ?_, Or.inr ⟨d, List.mem_cons_self, hdone⟩⟩
        intro e he s hs
        rcases List.mem_cons.mp he with rfl | he
        · cases s <;> simp_all [Status.broken]
        · exact hgood e he s hs

theorem not_due_newJob {db : Db} (p : Plan db) (id : String) (spec : Json)
    (hwait : (newJob p id spec).status = .waiting) : ¬Due db (newJob p id spec) := by
  have hstate : dependencyState db p.deps.ids = .waiting := by
    change p.state = .waiting
    change p.state.status = .waiting at hwait
    cases hp : p.state <;> simp_all [DepState.status]
  obtain ⟨-, hgood, hopen⟩ := dependencyStateFrom_waiting hstate
  rintro (⟨d, hd, hs⟩ | hall)
  · obtain ⟨r, hr⟩ := p.exists_dep hd
    have hbroken := hgood d hd r.status (by simp [Db.status?, hr])
    simp [Db.status?, hr, spoiled, hbroken] at hs
  · rcases hopen with h | ⟨d, hd, hne⟩
    · cases h
    · exact hne (hall d hd)

/-- The sweep gives up on no job that another is waiting for. -/
def SweepSpares (db : Db) (req : Request) : Prop :=
  req = .sweep → ∀ id r, db.job? id = some r → leaseLapsed db.sqlNow r = true →
    r.max_attempts ≤ r.attempts →
    ∀ j w, db.job? j = some w → w.status = .waiting → id ∉ w.depends_on

theorem NoneDue.enqueue {cfg : Config} {db : Db} (ho : Ordered db) (h : NoneDue db)
    (input : Json) : NoneDue (step cfg db (.enqueue input)) := by
  have hkept : ∀ d, (∃ r, db.job? d = some r) →
      SameToWaiters (db.status? d) ((FleetRunner.step cfg db (.enqueue input)).status? d) := by
    rintro d ⟨r, hr⟩
    rw [Db.status?, Db.status?, hr, job?_step_enqueue cfg hr input]
    exact .refl _
  intro id w hw hwait hdue
  cases hr : db.job? id with
  | some r =>
      obtain rfl : r = w := Option.some.inj ((job?_step_enqueue cfg hr input).symm.trans hw)
      exact h id r hr hwait ((due_congr rfl fun d hd => hkept d (ho.exists_dep hr hd)).mp hdue)
  | none =>
      obtain ⟨-, -, p, spec, rfl⟩ := step_new hr hw
      exact not_due_newJob p id spec hwait
        ((due_congr rfl fun d hd => hkept d (p.exists_dep hd)).mp hdue)

/-- Closing a row does not disturb the order. -/
theorem Ordered.closed {db base : Db} (ho : Ordered db) (hsame : SameQueue db base) (id : String)
    (f : Job → Job) (hf : ∀ r, (f r).job_id = r.job_id)
    (hdeps : ∀ r, (f r).depends_on = r.depends_on) :
    Ordered ((base.updateJob id f hf).dropLocks id) := by
  intro j r hr d hd
  rw [order_dropLocks, order_updateJob, hsame.order_eq]
  rw [Db.job?_dropLocks, Db.job?_updateJob, hsame.job?] at hr
  split at hr
  · obtain ⟨q, hq, rfl⟩ := Option.map_eq_some_iff.mp hr
    exact ho j q hq d (hdeps q ▸ hd)
  · exact ho j r hr d hd

theorem NoneDue.closes {cfg : Config} {db : Db} (ho : Ordered db) (h : NoneDue db) {id : String}
    {req : Request} (hcloses : Closes db id req) : NoneDue (step cfg db req) := by
  obtain ⟨base, f, hf, hsame, hrow, hstep⟩ := step_closes cfg hcloses
  rw [hstep]
  have hbase : DueOnly base fun w => w.job_id = id ∨ False := by
    intro j w hw hwait hdue
    refine (h j w (by rw [← hsame.job?, hw]) hwait ?_).elim
    refine (due_congr rfl fun d _ => ?_).mp hdue
    rw [Db.status?, Db.status?, hsame.job?]
    exact .refl _
  refine settle_due cfg.js (ho.closed hsame id f hf fun r => (hrow r).2) ?_
  exact @DueOnly.updateJob base _ id f hf hbase fun r => Status.ne_waiting_of_terminal (hrow r).1

theorem NoneDue.step {cfg : Config} {db : Db} (ho : Ordered db) (h : NoneDue db) {req : Request}
    (hspares : SweepSpares db req) : NoneDue (step cfg db req) := by
  by_cases hcloses : ∃ id, Closes db id req
  · obtain ⟨id, hcloses⟩ := hcloses
    exact h.closes ho hcloses
  · by_cases henq : ∃ input, req = .enqueue input
    · obtain ⟨input, rfl⟩ := henq
      exact h.enqueue ho input
    · have hnoclose : ∀ id, ¬Closes db id req := fun id hc => hcloses ⟨id, hc⟩
      refine h.of_same fun id w' hw' hwait => ?_
      cases hr : db.job? id with
      | none =>
          obtain ⟨input, rfl, -⟩ := step_new hr hw'
          exact absurd ⟨input, rfl⟩ henq
      | some w =>
          obtain ⟨q, hq, hchange⟩ := step_row cfg db req hr
          obtain rfl : q = w' := Option.some.inj (hq.symm.trans hw')
          obtain ⟨hw, hdeps⟩ := hchange.waiting hwait
          refine ⟨w, rfl, hw, hdeps, fun d hd => ?_⟩
          obtain ⟨r, hr₁⟩ := ho.exists_dep hr hd
          obtain ⟨r', hr', hdchange⟩ := step_row cfg db req hr₁
          simp only [Db.status?, hr₁, hr', Option.map_some]
          refine (hdchange.calm hnoclose (Db.job_id_of_job? hr₁ ▸ hr₁) ?_).sameToWaiters
          intro hreq hl
          by_contra hmax
          exact hspares hreq d r hr₁ hl (Nat.not_lt.mp hmax) id w hr hw hd

/-! ## Runs -/

/-- In a run whose sweeps spare what others wait for, no waiting job is due. -/
theorem noneDue (cfg : Config) {reqs : List Request}
    (hok : Along (step cfg) SweepSpares .empty reqs) : NoneDue (after cfg reqs) := by
  have hempty : Ordered .empty ∧ NoneDue .empty := by
    constructor <;> intro id r h <;> simp at h
  have hstep : ∀ db req, Ordered db ∧ NoneDue db → SweepSpares db req →
      Ordered (step cfg db req) ∧ NoneDue (step cfg db req) :=
    fun _ req h hspares => ⟨h.1.step req, h.2.step h.1 hspares⟩
  exact (@invariant _ _ _ (fun db => Ordered db ∧ NoneDue db) SweepSpares hstep _ _ hempty hok).2

/-- No stranded chain: a waiting job has no failed, cancelled or skipped
dependency, and one that is still under way. -/
theorem no_stranded_waiter (cfg : Config) (reqs : List Request)
    (hok : Along (step cfg) SweepSpares .empty reqs) (id : String) (w : Job)
    (hw : (after cfg reqs).job? id = some w) (hwait : w.status = .waiting) :
    (∀ d ∈ w.depends_on, ∀ s, (after cfg reqs).status? d = some s →
      s ≠ .failed ∧ s ≠ .cancelled ∧ s ≠ .skipped) ∧
    ∃ d ∈ w.depends_on, ∃ s, (after cfg reqs).status? d = some s ∧
      (s = .waiting ∨ s = .queued ∨ s = .claimed) := by
  have hnot : ¬Due (after cfg reqs) w := noneDue cfg hok id w hw hwait
  constructor
  · intro d hd s hs
    have hgood : spoiled ((after cfg reqs).status? d) ≠ true :=
      fun h => hnot (Or.inl ⟨d, hd, h⟩)
    rw [hs] at hgood
    cases s <;> simp_all [spoiled, Status.broken]
  · obtain ⟨d, hd, s, hs, hlive⟩ := exists_live_of_not_due hnot
    refine ⟨d, hd, s, hs, ?_⟩
    cases s <;> simp_all [Status.live]

/-- A build that may be tried once, and a test that waits for it. -/
def chain : List Request :=
  [.enqueue (Sample.job "build" [] [("lease", .obj [("max_attempts", .num 1)])]),
    .enqueue (Sample.job "test" ["build"] []),
    .register (Sample.registration "d1" []) none, .nextJob "d1"]

/-- The test waits for the build, and still does when the sweep has failed the build. -/
theorem waiting_chain :
    (∃ w, (after .plain chain).job? "test" = some w ∧ w.status = .waiting) ∧
    (∃ w, (after .plain (chain ++ [.tick 601000, .sweep])).job? "test" = some w ∧
      w.status = .waiting ∧ w.depends_on = ["build"]) ∧
    (after .plain (chain ++ [.tick 601000, .sweep])).status? "build" = some .failed := by
  obtain ⟨hclaimed, hswept, hfailed⟩ :
      ((after .plain chain).job? "test").any (fun w => decide (w.status = .waiting)) = true ∧
      ((after .plain (chain ++ [.tick 601000, .sweep])).job? "test").any
        (fun w => decide (w.status = .waiting ∧ w.depends_on = ["build"])) = true ∧
      (after .plain (chain ++ [.tick 601000, .sweep])).status? "build" = some .failed := by
    decide +kernel
  obtain ⟨w, hw, hwait⟩ := Db.exists_job_of_any hclaimed
  obtain ⟨v, hv, hrow⟩ := Db.exists_job_of_any hswept
  exact ⟨⟨w, hw, of_decide_eq_true hwait⟩, ⟨v, hv, of_decide_eq_true hrow⟩, hfailed⟩

/-- While the build is claimed the test waits for something under way. -/
theorem no_stranded_waiter_claimed : ∃ w, (after .plain chain).job? "test" = some w ∧
    ∃ d ∈ w.depends_on, ∃ s, (after .plain chain).status? d = some s ∧
      (s = .waiting ∨ s = .queued ∨ s = .claimed) := by
  obtain ⟨w, hw, hwait⟩ := waiting_chain.1
  have hspares : Along (step .plain) SweepSpares .empty chain :=
    ⟨by simp [SweepSpares], by simp [SweepSpares], by simp [SweepSpares], by simp [SweepSpares],
      trivial⟩
  exact ⟨w, hw, (no_stranded_waiter .plain chain hspares "test" w hw hwait).2⟩

/-- The device dies: the sweep fails the build, and the test waits for good. -/
theorem stranded_waiter :
    ¬∀ (cfg : Config) (reqs : List Request) (id : String) (w : Job),
      (after cfg reqs).job? id = some w → w.status = .waiting →
        (∀ d ∈ w.depends_on, ∀ s, (after cfg reqs).status? d = some s →
          s ≠ .failed ∧ s ≠ .cancelled ∧ s ≠ .skipped) ∧
        ∃ d ∈ w.depends_on, ∃ s, (after cfg reqs).status? d = some s ∧
          (s = .waiting ∨ s = .queued ∨ s = .claimed) := by
  intro h
  obtain ⟨-, ⟨w, hw, hwait, hdeps⟩, hbuild⟩ := waiting_chain
  have hgood := (h .plain _ "test" w hw hwait).1 "build" (by simp [hdeps]) .failed hbuild
  exact hgood.1 rfl

end FleetRunner
