import FleetRunner.Chains
import FleetRunner.Locks

/-!
# Posting a result again

A runner that does not hear back posts its row again. The row itself is
written over; what a final row does beside that is done again, to the job as
it is by then. `RepostSafe` is the state in which all of it is already so.
-/

namespace FleetRunner

open Library

/-- What a retry must leave as it was. -/
def workOf (r : Job) : Status × Option String × Nat × Json :=
  (r.status, r.claimed_by, r.attempts, r.spec)

/-- Timestamps and reasons aside, the queue and the locks are the same. -/
structure SameWork (db db' : Db) : Prop where
  jobs : ∀ id, (db'.job? id).map workOf = (db.job? id).map workOf
  locks : ∀ d, db'.lockOf d = db.lockOf d

theorem SameQueue.sameWork {db db' : Db} (h : SameQueue db db') : SameWork db db' :=
  ⟨fun id => by rw [h.job?], fun d => h.lockOf d⟩

theorem SameWork.status? {db db' : Db} (h : SameWork db db') (id : String) :
    db'.status? id = db.status? id := by
  have hstatus := congrArg (Option.map Prod.fst) (h.jobs id)
  simpa [Db.status?, workOf, Function.comp_def] using hstatus

/-- Posting the row finds everything done: it is not final, or its job has the
status it closes with, holds no lock, and nothing waiting on it is to be failed
or skipped. -/
structure RepostSafe (db : Db) (p : ResultPost) : Prop where
  status : ∀ r, db.job? p.job_id = some r → r.status = (finalClosing
    (recordResult db p.job_id p.device_id p.iter p.body) p.job_id p.body).status
  unlocked : ∀ d, db.lockOf d ≠ some p.job_id
  waiters : ∀ id w, db.job? id = some w → w.status = .waiting → p.job_id ∈ w.depends_on →
    ¬SpoiledDep db w

/-! ## A waiting job always has something to wait for -/

def NoneComplete (db : Db) : Prop :=
  ∀ id w, db.job? id = some w → w.status = .waiting → ¬AllDone db w

/-- Only a close makes a job done. -/
theorem Change.done {cfg : Config} {db : Db} {req : Request} {r r' : Job}
    (h : Change cfg db req r r') (hcloses : ∀ id, ¬Closes db id req) (hr : db.job? r.job_id = some r)
    (hdone : r'.status = .done) : r.status = .done := by
  cases h with
  | same => exact hdone
  | claimed => simp [claimRow] at hdone
  | renewed => simpa using hdone
  | swept =>
      rw [sweepRow_status] at hdone
      split at hdone <;> cases hdone
  | released => simp [releaseRow] at hdone
  | preempted => simp [preemptRow] at hdone
  | closed hpost hfinal hid hnot =>
      refine absurd ?_ (hcloses r.job_id)
      refine ⟨_, hpost, hfinal, hid, fun q hq => ?_⟩
      obtain rfl : r = q := Option.some.inj (hr.symm.trans hq)
      exact hnot
  | cancelled => simp [closedRow] at hdone
  | settled hc => exact absurd hc (hcloses _)
  | prioritised => exact hdone

theorem NoneComplete.closes {cfg : Config} {db : Db} (ho : Ordered db) (h : NoneComplete db)
    {id : String} {req : Request} (hcloses : Closes db id req) :
    NoneComplete (step cfg db req) := by
  obtain ⟨base, f, hf, hsame, hrow, hstep⟩ := step_closes cfg hcloses
  have hord := ho.closed hsame id f hf fun r => (hrow r).2
  generalize hclosed : (base.updateJob id f hf).dropLocks id = closed at hstep hord
  have hsettling : Settling cfg.js closed (settle cfg.js closed id).1 := settling_settle _ _ _
  rw [hstep]
  intro j w hw hwait hall
  -- what is due after the settlement was due before it, and does not name the closed job
  have honly : DueOnly closed fun v => id ∈ v.depends_on ∨ (id ∉ v.depends_on ∧ Due closed v) := by
    intro k v _ _ hdue
    by_cases hid : id ∈ v.depends_on
    · exact Or.inl hid
    · exact Or.inr ⟨hid, hdue⟩
  obtain ⟨hid, hdue⟩ := settle_due cfg.js hord honly j w hw hwait (Or.inr hall)
  rcases hdue with hspoiled | hdone
  · exact not_allDone_of_spoiledDep (hsettling.keeps.spoiledDep hspoiled) hall
  · have hw₀ : closed.job? j = some w := hsettling.waiting hw hwait
    have hne : j ≠ id := by
      rintro rfl
      rw [← hclosed, Db.job?_dropLocks, Db.job?_updateJob_self] at hw₀
      obtain ⟨q, -, rfl⟩ := Option.map_eq_some_iff.mp hw₀
      exact Status.ne_waiting_of_terminal (hrow q).1 hwait
    have hkeep : ∀ d, d ≠ id → closed.status? d = db.status? d := by
      intro d hd
      rw [← hclosed, Db.status?, Db.job?_dropLocks, Db.job?_updateJob_of_ne _ hd, hsame.job?]
      rfl
    have hw₁ : db.job? j = some w := by
      rwa [← hclosed, Db.job?_dropLocks, Db.job?_updateJob_of_ne _ hne, hsame.job?] at hw₀
    refine h j w hw₁ hwait fun d hd => ?_
    rw [← hkeep d fun heq => hid (heq ▸ hd)]
    exact hdone d hd

theorem NoneComplete.step {cfg : Config} {db : Db} (ho : Ordered db) (h : NoneComplete db)
    (req : Request) : NoneComplete (step cfg db req) := by
  by_cases hcloses : ∃ id, Closes db id req
  · obtain ⟨id, hcloses⟩ := hcloses
    exact h.closes ho hcloses
  · have hnoclose : ∀ id, ¬Closes db id req := fun id hc => hcloses ⟨id, hc⟩
    have hdone : ∀ d r, db.job? d = some r →
        (FleetRunner.step cfg db req).status? d = some .done → db.status? d = some .done := by
      intro d r hr hd
      obtain ⟨r', hr', hchange⟩ := step_row cfg db req hr
      have hrow : r'.status = .done := by simpa [Db.status?, hr'] using hd
      have hr₀ : r.status = .done :=
        hchange.done hnoclose (Db.job_id_of_job? hr ▸ hr) hrow
      simp [Db.status?, hr, hr₀]
    intro id w' hw' hwait hall
    cases hr : db.job? id with
    | none =>
        obtain ⟨input, rfl, p, spec, rfl⟩ := step_new hr hw'
        refine not_due_newJob p id spec hwait (Or.inr fun d hd => ?_)
        obtain ⟨q, hq⟩ := p.exists_dep hd
        exact hdone d q hq (hall d hd)
    | some w =>
        obtain ⟨q, hq, hchange⟩ := step_row cfg db req hr
        obtain rfl : q = w' := Option.some.inj (hq.symm.trans hw')
        obtain ⟨hw, hdeps⟩ := hchange.waiting hwait
        refine h id w hr hw fun d hd => ?_
        obtain ⟨r, hr₁⟩ := ho.exists_dep hr hd
        exact hdone d r hr₁ (hall d (hdeps ▸ hd))

theorem noneComplete (cfg : Config) (reqs : List Request) : NoneComplete (after cfg reqs) := by
  have hempty : Ordered .empty ∧ NoneComplete .empty := by
    constructor <;> intro id r h <;> simp at h
  have hstep : ∀ db req, Ordered db ∧ NoneComplete db →
      Ordered (step cfg db req) ∧ NoneComplete (step cfg db req) :=
    fun _ req h => ⟨h.1.step req, h.2.step h.1 req⟩
  exact (@invariant_all _ _ _ (fun db => Ordered db ∧ NoneComplete db) hstep _ hempty reqs).2

/-! ## When a retry is safe -/

section

variable {cfg : Config} {db : Db} {p : ResultPost} {body : Json}

/-- The state in which a final row has closed its job and nothing is settled yet. -/
def closedBy (db : Db) (p : ResultPost) : Db :=
  ((recordResult db p.job_id p.device_id p.iter p.body).updateJob p.job_id
    (closeRow db.sqlNow (finalClosing (recordResult db p.job_id p.device_id p.iter p.body) p.job_id
      p.body)) (closeRow_job_id _ _)).dropLocks p.job_id

theorem job?_closedBy_self {r : Job} (hr : db.job? p.job_id = some r) :
    (closedBy db p).job? p.job_id = some (closeRow db.sqlNow (finalClosing
      (recordResult db p.job_id p.device_id p.iter p.body) p.job_id p.body) r) := by
  rw [closedBy, Db.job?_dropLocks, Db.job?_updateJob_self, (sameQueue_recordResult _ _ _ _).job?, hr]
  rfl

theorem job?_closedBy_of_ne {id : String} (hne : id ≠ p.job_id) :
    (closedBy db p).job? id = db.job? id := by
  rw [closedBy, Db.job?_dropLocks, Db.job?_updateJob_of_ne _ hne,
    (sameQueue_recordResult _ _ _ _).job?]

theorem lockOf_closedBy (d : String) : (closedBy db p).lockOf d =
    if db.lockOf d = some p.job_id then none else db.lockOf d := by
  rw [closedBy, Db.lockOf_dropLocks, Db.lockOf_updateJob, (sameQueue_recordResult _ _ _ _).lockOf]

/-- Where the job has the status it closes with, closing it changes no status. -/
theorem status?_closedBy (hstatus : ∀ r, db.job? p.job_id = some r → r.status = (finalClosing
    (recordResult db p.job_id p.device_id p.iter p.body) p.job_id p.body).status) (d : String) :
    (closedBy db p).status? d = db.status? d := by
  by_cases hd : d = p.job_id
  · subst hd
    cases hr : db.job? p.job_id with
    | none =>
        have hnone : (closedBy db p).job? p.job_id = none := by
          rw [closedBy, Db.job?_dropLocks, Db.job?_updateJob_self,
            (sameQueue_recordResult _ _ _ _).job?, hr]
          rfl
        simp [Db.status?, hr, hnone]
    | some r =>
        simp only [Db.status?, hr, job?_closedBy_self hr, Option.map_some, hstatus r hr]
        rfl
  · rw [Db.status?, job?_closedBy_of_ne hd]
    rfl

/-- A final row that agrees with its job goes the way of the close. -/
theorem step_eq_settle (cfg : Config) (hpost : readPost body = .ok (.result p)) (hfinal : p.final = true)
    (hnot : ∀ r, db.job? p.job_id = some r → ¬(isPreempted p.body = true ∧ r.status = .claimed)) :
    step cfg db (.results body) = (settle cfg.js (closedBy db p) p.job_id).1 :=
  step_final cfg hpost hfinal hnot

theorem not_preempted_of_status {r : Job} (hstatus : r.status = (finalClosing
    (recordResult db p.job_id p.device_id p.iter p.body) p.job_id p.body).status) :
    ¬(isPreempted p.body = true ∧ r.status = .claimed) := by
  rintro ⟨-, hc⟩
  exact Status.ne_claimed_of_terminal (Closing.terminal_status _) (hstatus.symm.trans hc)

/-- Nothing to do again: the retry leaves the work as it was. -/
theorem sameWork_of_safe (hcomplete : NoneComplete db) (hpost : readPost body = .ok (.result p))
    (hfinal : p.final = true) (hsafe : RepostSafe db p) :
    SameWork db (step cfg db (.results body)) := by
  have hstatus := status?_closedBy hsafe.status
  have hsettle : (settle cfg.js (closedBy db p) p.job_id).1 = closedBy db p := by
    refine settle_eq_self fun w hw hdue => ?_
    obtain ⟨⟨hrow, hwait⟩, hdep⟩ := snapshot_of_mem_waitersOn hw
    have hne : w.job_id ≠ p.job_id := by
      intro hid
      rw [hid] at hrow
      cases hr : db.job? p.job_id with
      | none => simp [closedBy, (sameQueue_recordResult _ _ _ _).job?, hr] at hrow
      | some r =>
          obtain rfl := Option.some.inj ((job?_closedBy_self hr).symm.trans hrow)
          exact Status.ne_waiting_of_terminal (closeRow_terminal _ _ _) hwait
    rw [job?_closedBy_of_ne hne] at hrow
    have hdue' : Due db w := by
      refine (due_congr rfl fun d _ => ?_).mp hdue
      rw [hstatus d]
      exact .refl _
    exact hdue'.elim (hsafe.waiters _ w hrow hwait hdep) (hcomplete _ w hrow hwait)
  rw [step_eq_settle cfg hpost hfinal fun r hr => not_preempted_of_status (hsafe.status r hr), hsettle]
  refine ⟨fun id => ?_, fun d => ?_⟩
  · by_cases hid : id = p.job_id
    · subst hid
      cases hr : db.job? p.job_id with
      | none => simp [closedBy, (sameQueue_recordResult _ _ _ _).job?, hr]
      | some r =>
          simp only [job?_closedBy_self hr, Option.map_some, workOf, hsafe.status r hr]
          rfl
    · rw [job?_closedBy_of_ne hid]
  · rw [lockOf_closedBy, if_neg (hsafe.unlocked d)]

/-- A final row that changes no work was safe to post. -/
theorem safe_of_sameWork (ho : Ordered db) (hpost : readPost body = .ok (.result p))
    (hfinal : p.final = true) (hsame : SameWork db (step cfg db (.results body))) :
    RepostSafe db p := by
  have hnot : ∀ r, db.job? p.job_id = some r →
      ¬(isPreempted p.body = true ∧ r.status = .claimed) := by
    rintro r hr ⟨hp, hc⟩
    have hstatus := hsame.status? p.job_id
    rw [step_preempted cfg hpost hfinal hr hp hc] at hstatus
    simp only [Db.status?, Db.job?_dropLocks, Db.job?_updateJob_self,
      (sameQueue_recordResult _ _ _ _).job?, hr, Option.map_some, preemptRow, hc] at hstatus
    cases hstatus
  have hstep := step_eq_settle cfg hpost hfinal hnot
  have hsettling := settling_settle cfg.js (closedBy db p) p.job_id
  have hstatus : ∀ r, db.job? p.job_id = some r → r.status = (finalClosing
      (recordResult db p.job_id p.device_id p.iter p.body) p.job_id p.body).status := by
    intro r hr
    have hrow := hsettling.of_not_waiting (job?_closedBy_self hr)
      (Status.ne_waiting_of_terminal (closeRow_terminal _ _ _))
    have hkeep := hsame.status? p.job_id
    rw [hstep] at hkeep
    simp only [Db.status?, hrow, hr, Option.map_some, Option.some_inj] at hkeep
    exact hkeep.symm
  refine ⟨hstatus, ?_, ?_⟩
  · intro d hd
    have hlock := hsame.locks d
    rw [hstep, lockOf_settle, lockOf_closedBy, if_pos hd, hd] at hlock
    cases hlock
  · intro id w hw hwait hdep hspoiled
    have hne : id ≠ p.job_id := by
      rintro rfl
      exact Nat.lt_irrefl _ (ho _ w hw _ hdep)
    have hw' : (closedBy db p).job? id = some w := by rw [job?_closedBy_of_ne hne, hw]
    have hdue : Due (closedBy db p) w := by
      refine (due_congr rfl fun d _ => ?_).mpr (Or.inl hspoiled)
      rw [status?_closedBy hstatus d]
      exact .refl _
    have hord : Ordered (closedBy db p) :=
      ho.closed (sameQueue_recordResult _ _ _ _) _ _ _ fun _ => rfl
    have hkeep := hsame.status? id
    rw [hstep] at hkeep
    obtain ⟨r, hr, hrs⟩ := Db.status?_eq_some.mp
      (hkeep.trans (Db.status?_eq_some.mpr ⟨w, hw, hwait⟩))
    rw [← Db.job_id_of_job? hw'] at hr
    exact not_waiting_after_settle hord (mem_waitersOn hw' hwait hdep) hdue hr hrs

end

/-- Posting a result leaves the work as it was exactly when it is not final, or
finds everything a final row does already done. -/
theorem repost_sameWork_iff (cfg : Config) (reqs : List Request) (body : Json) (p : ResultPost)
    (hpost : readPost body = .ok (.result p)) :
    SameWork (after cfg reqs) (step cfg (after cfg reqs) (.results body)) ↔
      (p.final = true → RepostSafe (after cfg reqs) p) := by
  constructor
  · intro hsame hfinal
    exact safe_of_sameWork (ordered cfg reqs) hpost hfinal hsame
  · intro hsafe
    by_cases hfinal : p.final = true
    · exact sameWork_of_safe (noneComplete cfg reqs) hpost hfinal (hsafe hfinal)
    · rw [step_iteration cfg hpost (by simpa using hfinal)]
      exact (sameQueue_recordResult _ _ _ _).sameWork

/-- A final row posted twice in a row closes its job once. -/
theorem repost_sameWork_final :
    let reqs : List Request := [.enqueue (Sample.job "a" [] []),
      .register (Sample.registration "d1" []) none, .nextJob "d1",
      .results (Sample.final "d1" "a")]
    SameWork (after .plain reqs) (step .plain (after .plain reqs)
      (.results (Sample.final "d1" "a"))) := by
  intro reqs
  have hpost : readPost (Sample.final "d1" "a") = .ok (.result
      { job_id := "a", device_id := "d1", iter := 0, final := true, body := Sample.final "d1" "a" }) := by
    rfl
  obtain ⟨hstatus, hlocks, hwaiting⟩ :
      ((after .plain reqs).job? "a").all (fun r => decide (r.status = (finalClosing
        (recordResult (after .plain reqs) "a" "d1" 0 (Sample.final "d1" "a")) "a"
        (Sample.final "d1" "a")).status)) = true ∧
      (after .plain reqs).device_locks.rows.isEmpty = true ∧
      (after .plain reqs).jobs.rows.all (fun r => decide (r.status ≠ .waiting)) = true := by
    decide +kernel
  refine (repost_sameWork_iff .plain reqs _ _ hpost).mpr fun _ => ⟨?_, ?_, ?_⟩
  · intro r hr
    rw [hr] at hstatus
    simpa using hstatus
  · intro d
    rw [List.isEmpty_iff] at hlocks
    simp [Db.lockOf, Table.find?, hlocks]
  · intro id w hw hwait
    have hrow := List.all_eq_true.mp hwaiting w (Table.find?_eq_some_iff.mp hw).1
    exact absurd hwait (of_decide_eq_true hrow)

/-- The device claims the job again after it was preempted; the preempted row,
sent once more, takes the new claim from it. -/
theorem repost_not_sameWork :
    ¬∀ (cfg : Config) (reqs : List Request) (body : Json) (p : ResultPost),
      readPost body = .ok (.result p) → Request.results body ∈ reqs →
        SameWork (after cfg reqs) (step cfg (after cfg reqs) (.results body)) := by
  let reqs : List Request := [.enqueue (Sample.job "a" [] []),
    .register (Sample.registration "d1" []) none, .nextJob "d1",
    .results (Sample.preempted "d1" "a"), .nextJob "d1"]
  have hpost : readPost (Sample.preempted "d1" "a") = .ok (.result
      { job_id := "a", device_id := "d1", iter := 0, final := true,
        body := Sample.preempted "d1" "a" }) := by
    rfl
  obtain ⟨hbefore, hafter⟩ : (after .plain reqs).status? "a" = some .claimed ∧
      (step .plain (after .plain reqs) (.results (Sample.preempted "d1" "a"))).status? "a" =
        some .queued := by
    decide +kernel
  intro h
  have hsame := (h .plain reqs _ _ hpost (by simp [reqs])).status? "a"
  rw [hbefore, hafter] at hsame
  cases hsame

end FleetRunner
