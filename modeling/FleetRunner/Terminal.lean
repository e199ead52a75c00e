import FleetRunner.Lifecycle

/-!
# Closed jobs

A cancel and a sweep close a job while its runner may still be working, so a
final row often arrives for a job that is closed already. Every transaction but
the close itself reads the status first; the close writes whatever the row
says. A closed job keeps its status exactly as long as no such row says
something else.
-/

namespace FleetRunner

open Library

/-- A final row for this job, when it is closed, says the status it has. -/
def FinalAgrees (id : String) (db : Db) (req : Request) : Prop :=
  ∀ body p r, req = .results body → readPost body = .ok (.result p) → p.final = true →
    p.job_id = id → db.job? id = some r → r.status.terminal = true →
    (finalClosing (recordResult db p.job_id p.device_id p.iter p.body) p.job_id p.body).status =
      r.status

variable {cfg : Config}

/-- Only the close itself alters the status of a closed job. -/
theorem Change.status_of_terminal {db : Db} {req : Request} {r r' : Job}
    (hc : Change cfg db req r r') (ht : r.status.terminal = true) :
    r'.status = r.status ∨ ∃ body p, req = .results body ∧ readPost body = .ok (.result p) ∧
      p.final = true ∧ p.job_id = r.job_id ∧ r'.status = (finalClosing
        (recordResult db p.job_id p.device_id p.iter p.body) p.job_id p.body).status := by
  cases hc with
  | same => exact Or.inl rfl
  | renewed => exact Or.inl (renewRow_status _ _)
  | prioritised => exact Or.inl rfl
  | claimed _ hq => simp [hq, Status.terminal] at ht
  | swept hl =>
      simp only [leaseLapsed, Bool.and_eq_true, decide_eq_true_eq] at hl
      simp [hl.1, Status.terminal] at ht
  | released hcl => simp [hcl, Status.terminal] at ht
  | preempted _ _ _ _ hcl => simp [hcl, Status.terminal] at ht
  | cancelled hlive => simp [Status.terminal_eq_false_iff.mpr hlive] at ht
  | settled _ _ hw => simp [hw, Status.terminal] at ht
  | closed hpost hfinal hid => exact Or.inr ⟨_, _, rfl, hpost, hfinal, hid, rfl⟩

/-- One request keeps a closed job's status exactly when its final row agrees. -/
theorem step_status_iff {db : Db} {id : String} {r : Job} (hr : db.job? id = some r)
    (ht : r.status.terminal = true) (req : Request) :
    (step cfg db req).status? id = some r.status ↔ FinalAgrees id db req := by
  obtain ⟨r', hr', hc⟩ := step_row cfg db req hr
  have hid := Db.job_id_of_job? hr
  have hstatus : (step cfg db req).status? id = some r'.status := by simp [Db.status?, hr']
  rw [hstatus, Option.some_inj]
  constructor
  · rintro hkeep body p q rfl hpost hfinal rfl hq -
    obtain rfl : r = q := Option.some.inj (hr.symm.trans hq)
    have hnot : ∀ q, db.job? p.job_id = some q →
        ¬(isPreempted p.body = true ∧ q.status = .claimed) := by
      rintro q hq ⟨-, hcl⟩
      obtain rfl : r = q := Option.some.inj (hr.symm.trans hq)
      exact Status.ne_claimed_of_terminal ht hcl
    rw [step_final cfg hpost hfinal hnot,
      job?_closeJobTx_self (by rw [(sameQueue_recordResult _ _ _ _).job?, hr])] at hr'
    rw [← hkeep, ← Option.some.inj hr']
    rfl
  · intro hagrees
    rcases hc.status_of_terminal ht with hsame | ⟨body, p, rfl, hpost, hfinal, hpid, hs⟩
    · exact hsame
    · rw [hs]
      exact hagrees body p r rfl hpost hfinal (hpid.trans hid) hr ht

/-- A closed job keeps its status along a run exactly when every final row that
still arrives for it agrees with that status. -/
theorem terminal_absorbing_iff (cfg : Config) (before later : List Request) (id : String)
    (s : Status) (hs : (after cfg before).status? id = some s) (ht : s.terminal = true) :
    (∀ past, past <+: later → (after cfg (before ++ past)).status? id = some s) ↔
      Along (step cfg) (FinalAgrees id) (after cfg before) later := by
  have hstep : ∀ db req, True → db.status? id = some s →
      ((step cfg db req).status? id = some s ↔ FinalAgrees id db req) := by
    intro db req _ hstatus
    obtain ⟨r, hr, rfl⟩ := Db.status?_eq_some.mp hstatus
    exact step_status_iff hr ht req
  have happend : ∀ past, after cfg (before ++ past) = run (step cfg) (after cfg before) past :=
    fun past => run_append _ _ _ _
  simp only [happend]
  exact steps_iff (I := fun _ => True) (P := fun db : Db => db.status? id = some s)
    (fun _ _ _ => trivial) hstep trivial hs later

/-- A job is cancelled, then its runner posts the final row it was working on. -/
def lateFinal : List Request :=
  [.enqueue (Sample.job "a" [] []), .register (Sample.registration "d1" []) none, .nextJob "d1",
    .cancel "a" "no longer needed"]

/-- The iteration row of a cancelled job leaves it cancelled. -/
theorem terminal_absorbing_iteration :
    (after .plain (lateFinal ++ [.results (Sample.post "result" "d1" "a" [])])).status? "a" =
      some .cancelled := by
  refine (terminal_absorbing_iff .plain lateFinal _ "a" .cancelled (by decide +kernel) rfl).mpr ?_
    _ (List.prefix_refl _)
  refine ⟨?_, trivial⟩
  rintro body p r hreq hpost hfinal
  obtain rfl := Request.results.inj hreq
  have hread : (readPost (Sample.post "result" "d1" "a" [])).toOption.all
      (fun post => match post with
        | .result p => !p.final
        | .beacon _ _ => true) = true := by decide
  rw [hpost] at hread
  change (!p.final) = true at hread
  simp [hfinal] at hread

/-- A late final row turns a cancelled job into a done one. -/
theorem terminal_not_absorbing :
    ¬∀ (cfg : Config) (before later : List Request) (id : String) (s : Status),
      (after cfg before).status? id = some s → s.terminal = true →
        (after cfg (before ++ later)).status? id = some s := by
  intro h
  obtain ⟨hcancelled, hdone⟩ : (after .plain lateFinal).status? "a" = some .cancelled ∧
      (after .plain (lateFinal ++ [.results (Sample.final "d1" "a")])).status? "a" = some .done := by
    decide +kernel
  have hkept := h .plain lateFinal [.results (Sample.final "d1" "a")] "a" .cancelled hcancelled rfl
  rw [hdone] at hkept
  cases hkept

end FleetRunner
