import FleetRunner.Locks

/-!
# Whose claim it is

A runner whose lease lapsed keeps working until its next beacon, so its final
row may arrive while another device holds the job. A release reads the holder
before it hands anything back; a final row does not.
-/

namespace FleetRunner

open Library

/-- The device id a posted body carries. -/
def Post.device_id : Post → String
  | .beacon deviceId _ => deviceId
  | .result p => p.device_id

/-- A request in the name of another device than `d`. -/
def FromOther (d : String) : Request → Prop
  | .results body => ∃ post, readPost body = .ok post ∧ post.device_id ≠ d
  | .release _ who => ∃ e, who = some e ∧ e ≠ d
  | _ => False

/-- A final row that names this job, preempted or not. -/
def FinalFor (id : String) : Request → Prop
  | .results body => ∃ p, readPost body = .ok (.result p) ∧ p.final = true ∧ p.job_id = id
  | _ => False

/-- The claim a row shows is the same one after: holder, attempts, spec, locks. -/
def Kept (db db' : Db) (r : Job) : Prop :=
  (∃ r', db'.job? r.job_id = some r' ∧ r'.status = .claimed ∧ r'.claimed_by = r.claimed_by ∧
    r'.attempts = r.attempts ∧ r'.spec = r.spec) ∧
  ∀ e, db'.lockOf e = some r.job_id ↔ db.lockOf e = some r.job_id

theorem Kept.refl {db : Db} {r : Job} (hr : db.job? r.job_id = some r) (hc : r.status = .claimed) :
    Kept db db r :=
  ⟨⟨r, hr, hc, rfl, rfl, rfl⟩, fun _ => Iff.rfl⟩

/-- Neither the row nor the locks of another job are of any matter. -/
theorem Kept.of_same {db db' : Db} {r : Job} (hr : db'.job? r.job_id = some r)
    (hc : r.status = .claimed)
    (hl : ∀ e, db'.lockOf e = some r.job_id ↔ db.lockOf e = some r.job_id) : Kept db db' r :=
  ⟨⟨r, hr, hc, rfl, rfl, rfl⟩, hl⟩

/-- Dropping the locks of one job leaves those of another. -/
theorem lock_iff_of_drop {l l' : Option String} {j id : String} (hne : j ≠ id)
    (h : l' = if l = some j then none else l) : l' = some id ↔ l = some id := by
  subst h
  by_cases hl : l = some j
  · simp [hl, hne]
  · simp [hl]

section

variable {cfg : Config} {db : Db} {id d : String} {r : Job}

/-- A final row always ends the claim of the job it names. -/
theorem not_kept_of_final (hr : db.job? id = some r) {req : Request} (hreq : FinalFor id req) :
    ¬Kept db (step cfg db req) r := by
  have hid := Db.job_id_of_job? hr
  cases req with
  | results body =>
      obtain ⟨p, hpost, hfinal, rfl⟩ := hreq
      rintro ⟨⟨r', hr', hc, -⟩, -⟩
      rw [hid] at hr'
      have hrec : (recordResult db p.job_id p.device_id p.iter p.body).job? p.job_id = some r := hr
      by_cases hp : isPreempted p.body = true ∧ r.status = .claimed
      · rw [step_preempted cfg hpost hfinal hr hp.1 hp.2, Db.job?_dropLocks,
          Db.job?_updateJob_self, hrec] at hr'
        cases hr'
        simp [preemptRow] at hc
      · rw [step_final cfg hpost hfinal fun q hq => Option.some.inj (hr.symm.trans hq) ▸ hp,
          job?_closeJobTx_self hrec] at hr'
        cases hr'
        exact Status.ne_claimed_of_terminal (closeRow_terminal _ _ _) hc
  | _ => exact hreq.elim

/-- A post that is no final row of the job keeps its claim. -/
theorem kept_of_post (hr : db.job? id = some r) (hc : r.status = .claimed) {body : Json}
    (hnot : ¬FinalFor id (.results body)) : Kept db (step cfg db (.results body)) r := by
  obtain rfl := Db.job_id_of_job? hr
  cases hpost : readPost body with
  | error e =>
      simp only [step, postResults, hpost]
      exact .refl hr hc
  | ok post =>
      cases post with
      | beacon deviceId b =>
          simp only [step, postResults, hpost, postBeacon_eq]
          split
          · exact .of_same hr hc fun _ => Iff.rfl
          · rename_i jobId _
            by_cases hid : r.job_id = jobId
            · subst hid
              refine ⟨⟨renewRow db.sqlNow r, ?_, by simp [hc], by simp, by simp, by simp⟩,
                fun _ => Iff.rfl⟩
              rw [renewLease, Db.job?_updateJob_self, (sameQueue_recordBeacon _ _).job?, hr]
              rfl
            · refine .of_same ?_ hc fun _ => Iff.rfl
              rw [renewLease, Db.job?_updateJob_of_ne _ hid, (sameQueue_recordBeacon _ _).job?, hr]
      | result p =>
          by_cases hfinal : p.final = true
          · have hne : p.job_id ≠ r.job_id := fun hid => hnot ⟨p, hpost, hfinal, hid⟩
            have hrec : (recordResult db p.job_id p.device_id p.iter p.body).job? r.job_id =
                some r := hr
            by_cases hp : ∃ q, db.job? p.job_id = some q ∧ isPreempted p.body = true ∧
                q.status = .claimed
            · obtain ⟨q, hq, hp, hcq⟩ := hp
              rw [step_preempted cfg hpost hfinal hq hp hcq]
              refine .of_same ?_ hc fun e => lock_iff_of_drop hne ?_
              · rw [Db.job?_dropLocks, Db.job?_updateJob_of_ne _ hne.symm, hrec]
              · rw [Db.lockOf_dropLocks, Db.lockOf_updateJob, (sameQueue_recordResult _ _ _ _).lockOf]
            · rw [step_final cfg hpost hfinal fun q hq hpq => hp ⟨q, hq, hpq⟩]
              refine .of_same ?_ hc fun e => lock_iff_of_drop hne ?_
              · refine (settling_settle cfg.js _ p.job_id).of_not_waiting ?_ (by simp [hc])
                rw [Db.job?_dropLocks, Db.job?_updateJob_of_ne _ hne.symm, hrec]
              · rw [lockOf_closeJobTx, (sameQueue_recordResult _ _ _ _).lockOf]
          · rw [step_iteration cfg hpost (by simpa using hfinal)]
            exact .of_same hr hc fun _ => Iff.rfl

/-- A release that names another device hands nothing back. -/
theorem kept_of_release (hr : db.job? id = some r) (hc : r.status = .claimed)
    (hd : r.claimed_by = some d) {e : String} (hne : e ≠ d) (jobId : String) :
    Kept db (step cfg db (.release jobId (some e))) r := by
  obtain rfl := Db.job_id_of_job? hr
  cases hout : releaseTx db jobId (some e) with
  | error why =>
      simp only [step, hout]
      exact .refl hr hc
  | ok res =>
      obtain ⟨released, was⟩ := res
      obtain ⟨q, hq, -, hholder, rfl⟩ := releaseTx_ok hout
      simp only [step, hout]
      have hjob : jobId ≠ r.job_id := by
        rintro rfl
        obtain rfl : r = q := Option.some.inj (hr.symm.trans hq)
        simp [hd, hne.symm] at hholder
      refine .of_same ?_ hc fun d' => lock_iff_of_drop hjob ?_
      · rw [Db.job?_dropLocks, Db.job?_updateJob_of_ne _ hjob.symm, hr]
      · rw [Db.lockOf_dropLocks, Db.lockOf_updateJob]

/-- What the row of a claim shows of its holder's work. -/
def SameClaim (r r' : Job) : Prop :=
  r'.status = .claimed ∧ r'.claimed_by = r.claimed_by ∧ r'.attempts = r.attempts ∧ r'.spec = r.spec

/-- The ways a claim may end that do not go through a posted row. -/
def EndsClaim (db : Db) (r : Job) : Request → Prop
  | .sweep => leaseLapsed db.sqlNow r = true
  | .release jobId who => jobId = r.job_id ∧ (who = none ∨ r.claimed_by = none ∨ r.claimed_by = who)
  | .cancel jobId _ => jobId = r.job_id
  | _ => False

theorem Change.sameClaim_or {req : Request} {r' : Job} (hc : r.status = .claimed)
    (h : Change cfg db req r r') :
    SameClaim r r' ∨ EndsClaim db r req ∨ FinalFor r.job_id req := by
  cases h with
  | same => exact Or.inl ⟨hc, rfl, rfl, rfl⟩
  | claimed _ hq => simp [hc] at hq
  | renewed => exact Or.inl ⟨by simp [hc], by simp, by simp, by simp⟩
  | swept hl => exact Or.inr (Or.inl hl)
  | released _ hholder => exact Or.inr (Or.inl ⟨rfl, hholder⟩)
  | preempted hpost hfinal hid => exact Or.inr (Or.inr ⟨_, hpost, hfinal, hid⟩)
  | closed hpost hfinal hid => exact Or.inr (Or.inr ⟨_, hpost, hfinal, hid⟩)
  | cancelled => exact Or.inr (Or.inl rfl)
  | settled _ _ hw => simp [hc] at hw
  | prioritised => exact Or.inl ⟨hc, rfl, rfl, rfl⟩

end

/-- A claim outlives every request in another device's name but a final row
that names its job; and it ends by its holder, a release that names nobody, a
cancel, its lease lapsing, or such a row. -/
theorem claim_kept_iff (cfg : Config) (reqs : List Request) (id d : String) (r : Job)
    (hr : (after cfg reqs).job? id = some r) (hc : r.status = .claimed)
    (hd : r.claimed_by = some d) :
    (∀ req, FromOther d req →
      (Kept (after cfg reqs) (step cfg (after cfg reqs) req) r ↔ ¬FinalFor id req)) ∧
    ∀ req, (∃ r', (step cfg (after cfg reqs) req).job? id = some r' ∧ SameClaim r r') ∨
      EndsClaim (after cfg reqs) r req ∨ FinalFor id req := by
  obtain rfl := Db.job_id_of_job? hr
  constructor
  · intro req hreq
    constructor
    · intro hkept hfinal
      exact not_kept_of_final hr hfinal hkept
    · intro hnot
      cases req with
      | results body => exact kept_of_post hr hc hnot
      | release jobId who =>
          obtain ⟨e, rfl, hne⟩ := hreq
          exact kept_of_release hr hc hd hne jobId
      | _ => exact hreq.elim
  · intro req
    obtain ⟨r', hr', hchange⟩ := step_row cfg (after cfg reqs) req hr
    exact (hchange.sameClaim_or hc).imp_left fun hsame => ⟨r', hr', hsame⟩

/-- Two devices, and a job whose first lease lapsed before the second claimed it. -/
def reclaimed : List Request :=
  [.enqueue (Sample.job "a" [] []), .register (Sample.registration "d1" []) none,
    .register (Sample.registration "d2" []) none, .nextJob "d1", .tick 601000, .sweep,
    .nextJob "d2"]

theorem claimed_reclaimed : ∃ r, (after .plain reclaimed).job? "a" = some r ∧
    r.status = .claimed ∧ r.claimed_by = some "d2" ∧ r.executor = .device := by
  have h : ((after .plain reclaimed).job? "a").any (fun r => decide (r.status = .claimed ∧
      r.claimed_by = some "d2" ∧ r.executor = .device)) = true := by
    decide +kernel
  obtain ⟨r, hr, hrow⟩ := Db.exists_job_of_any h
  exact ⟨r, hr, of_decide_eq_true hrow⟩

/-- The earlier holder hands back what it no longer holds, and changes nothing. -/
theorem claim_kept_release : ∃ r, (after .plain reclaimed).job? "a" = some r ∧
    Kept (after .plain reclaimed)
      (step .plain (after .plain reclaimed) (.release "a" (some "d1"))) r := by
  obtain ⟨r, hr, hc, hd, -⟩ := claimed_reclaimed
  refine ⟨r, hr, ?_⟩
  exact ((claim_kept_iff .plain reclaimed "a" "d2" r hr hc hd).1 (.release "a" (some "d1"))
    ⟨"d1", rfl, by decide⟩).mpr fun h => h

/-- Its late final row closes the job under the device that holds it now. -/
theorem claim_not_kept :
    ¬∀ (cfg : Config) (reqs : List Request) (id d : String) (r : Job),
      (after cfg reqs).job? id = some r → r.executor = .device → r.status = .claimed →
        r.claimed_by = some d → ∀ req, FromOther d req →
          Kept (after cfg reqs) (step cfg (after cfg reqs) req) r := by
  intro h
  obtain ⟨r, hr, hc, hd, hdev⟩ := claimed_reclaimed
  have hpost : readPost (Sample.final "d1" "a") = .ok (.result
      { job_id := "a", device_id := "d1", iter := 0, final := true, body := Sample.final "d1" "a" }) := by
    rfl
  have hfinal : FinalFor "a" (.results (Sample.final "d1" "a")) := ⟨_, hpost, rfl, rfl⟩
  exact not_kept_of_final hr hfinal
    (h .plain reclaimed "a" "d2" r hr hdev hc hd (.results (Sample.final "d1" "a"))
      ⟨_, hpost, by decide⟩)

end FleetRunner
