import FleetRunner.Registry

/-!
# What a claim survives

A claim ends with a final row, a hand-back, a cancel or a sweep that finds its
lease run out. Every other request, from whatever party, leaves it to its
holder; the only thing that may change is that the lease ends later.
-/

namespace FleetRunner

open Library

/-- Requests that end the claim of a job, or hand the job on. -/
def ClosesClaim (id : String) : Request → Prop
  | .results body => ∃ p, readPost body = .ok (.result p) ∧ p.final = true ∧ p.job_id = id
  | .release jobId _ => jobId = id
  | .cancel jobId _ => jobId = id
  | _ => False

/-- The same claim of the same job. -/
structure KeepsClaim (r r' : Job) : Prop where
  status : r'.status = .claimed
  claimed_by : r'.claimed_by = r.claimed_by
  claimed_at : r'.claimed_at = r.claimed_at
  attempts : r'.attempts = r.attempts
  spec : r'.spec = r.spec
  lease_ttl_s : r'.lease_ttl_s = r.lease_ttl_s

theorem KeepsClaim.refl {r : Job} (hc : r.status = .claimed) : KeepsClaim r r :=
  ⟨hc, rfl, rfl, rfl, rfl, rfl⟩

theorem KeepsClaim.trans {r s t : Job} (hrs : KeepsClaim r s) (hst : KeepsClaim s t) :
    KeepsClaim r t where
  status := hst.status
  claimed_by := hst.claimed_by.trans hrs.claimed_by
  claimed_at := hst.claimed_at.trans hrs.claimed_at
  attempts := hst.attempts.trans hrs.attempts
  spec := hst.spec.trans hrs.spec
  lease_ttl_s := hst.lease_ttl_s.trans hrs.lease_ttl_s

theorem keepsClaim_renewRow {r : Job} (hc : r.status = .claimed) (now : Nat) :
    KeepsClaim r (renewRow now r) := by
  unfold renewRow
  rw [if_pos hc]
  exact ⟨hc, rfl, rfl, rfl, rfl, rfl⟩

/-- A request that does not end the claim keeps it, if no sweep comes after the lease. -/
theorem keepsClaim_step (cfg : Config) {db : Db} {req : Request} {id : String} {r : Job}
    (h : db.job? id = some r) (hc : r.status = .claimed) (hquiet : ¬ClosesClaim id req)
    (hsweep : req = .sweep → leaseLapsed db.sqlNow r = false) :
    ∃ r', (step cfg db req).job? id = some r' ∧ KeepsClaim r r' ∧
      (r'.lease_deadline = r.lease_deadline ∨
        r'.lease_deadline = some (db.sqlNow + r.lease_ttl_s)) := by
  obtain ⟨r', hr', hchange⟩ := step_row cfg db req h
  refine ⟨r', hr', ?_⟩
  obtain rfl : r.job_id = id := Db.job_id_of_job? h
  cases hchange with
  | same => exact ⟨.refl hc, Or.inl rfl⟩
  | claimed _ hqueued => exact absurd (hqueued.symm.trans hc) (by simp)
  | renewed =>
      refine ⟨keepsClaim_renewRow hc _, Or.inr ?_⟩
      unfold renewRow
      rw [if_pos hc]
  | swept hlapsed => exact absurd hlapsed (by simp [hsweep rfl])
  | released => exact absurd rfl hquiet
  | preempted hpost hfinal hid => exact absurd ⟨_, hpost, hfinal, hid⟩ hquiet
  | closed hpost hfinal hid => exact absurd ⟨_, hpost, hfinal, hid⟩ hquiet
  | cancelled => exact absurd rfl hquiet
  | settled _ _ hwaiting => exact absurd (hwaiting.symm.trans hc) (by simp)
  | prioritised priority => exact ⟨⟨hc, rfl, rfl, rfl, rfl, rfl⟩, Or.inl rfl⟩

/-- The clock does not move in a request, but for the tick. -/
theorem now_step_le (cfg : Config) (db : Db) (req : Request) :
    db.now ≤ (step cfg db req).now :=
  (registryChange_step cfg db req).now

end FleetRunner
