import FleetRunner.Findings.Machine

/-!
# The duplicate graph

A duplicate points at a root: `setVerdict` follows the finding it is given to
its own root before it writes. It looks only at where the new pointer goes, so
the graph keeps depth one exactly as long as nothing points at the finding that
is marked.
-/

namespace FleetRunner.Findings

open Library

/-- A duplicate names a finding that is there and is no duplicate itself. -/
def DepthOne (db : FindingsDb) : Prop :=
  ∀ id r, db.row? id = some r → r.verdict = some .duplicate →
    ∃ root t, r.duplicate_of = some root ∧ db.row? root = some t ∧ t.verdict ≠ some .duplicate

/-- Where a finding points: at itself, unless it is a duplicate. -/
def pointsAt (t : FindingRow) : Option Nat :=
  if t.verdict = some .duplicate then t.duplicate_of else some t.id

/-- The request marks this finding a duplicate of one that is there and does not
come down to the finding itself. -/
def Marks (db : FindingsDb) (req : Request) (id : Nat) : Prop :=
  ∃ note target who read t, req = .verdict id (some .duplicate) note (some target) who read ∧
    (db.row? id).isSome = true ∧ (∀ n, note = some n → jsLength n ≤ LIMITS.note) ∧
    db.row? target = some t ∧ pointsAt t ≠ some id

/-- No duplicate points at a finding that the request marks. -/
def NoChain (db : FindingsDb) (req : Request) : Prop :=
  ∀ id, Marks db req id → ∀ j q, db.row? j = some q → q.verdict = some .duplicate →
    q.duplicate_of ≠ some id

/-- In a graph of depth one, the walk to the root takes at most one hop. -/
theorem followRoot_of_depthOne {db : FindingsDb} (hd : DepthOne db) {d : Nat} {t : FindingRow}
    (ht : db.row? d = some t) :
    db.row? (followRoot db 20 t).id = some (followRoot db 20 t) ∧
      (followRoot db 20 t).verdict ≠ some .duplicate ∧
      pointsAt t = some (followRoot db 20 t).id := by
  have hid := FindingsDb.id_of_row? ht
  by_cases hdup : t.verdict = some .duplicate
  · obtain ⟨root, u, hroot, hu, hnot⟩ := hd d t ht hdup
    have huid := FindingsDb.id_of_row? hu
    have hwalk : followRoot db 20 t = u := by
      simp [followRoot, hdup, hroot, hu, hnot]
    rw [hwalk, huid]
    exact ⟨hu, hnot, by simp [pointsAt, hdup, hroot]⟩
  · have hwalk : followRoot db 20 t = t := by
      simp [followRoot, hdup]
    rw [hwalk, hid]
    exact ⟨ht, hdup, by simp [pointsAt, hdup, hid]⟩

section OneVerdict

variable {db : FindingsDb} {id : Nat} {note : Option String} {duplicateOf : Option Nat}
variable (who : Who) (read : ReadArtifact)

/-- A duplicate verdict that is accepted marks its finding, and points it at a root. -/
theorem marks_of_checkVerdict (hd : DepthOne db) {target : Option Nat}
    (h : checkVerdict db id (some .duplicate) note duplicateOf = .ok target) :
    Marks db (.verdict id (some .duplicate) note duplicateOf who read) id ∧
      ∃ root t, target = some root ∧ root ≠ id ∧ db.row? root = some t ∧
        t.verdict ≠ some .duplicate := by
  unfold checkVerdict at h
  cases hr : db.row? id with
  | none => simp [hr] at h
  | some r =>
      by_cases hlong : (note.any fun n => decide (LIMITS.note < jsLength n)) = true
      · simp [hr, hlong] at h
      · cases duplicateOf with
        | none => simp [hr, hlong, duplicateTarget, Except.map] at h
        | some d =>
            cases ht : db.row? d with
            | none => simp [hr, hlong, duplicateTarget, ht, Except.map] at h
            | some t =>
                obtain ⟨hu, hnot, hpoints⟩ := followRoot_of_depthOne hd ht
                by_cases hself : (followRoot db 20 t).id = id
                · simp [hr, hlong, duplicateTarget, ht, Except.map, hself] at h
                · have htarget : target = some (followRoot db 20 t).id := by
                    simpa [hr, hlong, duplicateTarget, ht, Except.map, hself, eq_comm] using h
                  refine ⟨⟨note, d, who, read, t, rfl, by simp [hr], ?_, ht, ?_⟩,
                    _, _, htarget, hself, hu, hnot⟩
                  · rintro n rfl
                    simpa using hlong
                  · rw [hpoints]
                    exact fun h => hself (Option.some.inj h)

/-- A request that marks a finding is accepted. -/
theorem checkVerdict_of_marks (hd : DepthOne db)
    (h : Marks db (.verdict id (some .duplicate) note duplicateOf who read) id) :
    ∃ target, checkVerdict db id (some .duplicate) note duplicateOf = .ok target := by
  obtain ⟨note', d, who', read', t, hreq, hfound, hnote, ht, hpoints⟩ := h
  obtain ⟨-, -, rfl, rfl, -, -⟩ := Request.verdict.inj hreq
  obtain ⟨r, hr⟩ := Option.isSome_iff_exists.mp hfound
  obtain ⟨-, -, hroot⟩ := followRoot_of_depthOne hd ht
  have hself : (followRoot db 20 t).id ≠ id := by
    rintro rfl
    exact hpoints hroot
  have hshort : (note.any fun n => decide (LIMITS.note < jsLength n)) = false := by
    cases note with
    | none => rfl
    | some n => simpa using hnote n rfl
  exact ⟨some (followRoot db 20 t).id, by
    simp [checkVerdict, hr, hshort, duplicateTarget, ht, hself, Except.map]⟩

end OneVerdict

/-- A row of a finding that is no duplicate stays none, unless the request marks it. -/
theorem marks_of_new_duplicate {db : FindingsDb} (hd : DepthOne db) {req : Request}
    {r r' : FindingRow} (hc : RowChange db req r r') (hnot : r.verdict ≠ some .duplicate)
    (hdup : r'.verdict = some .duplicate) : Marks db req r.id := by
  rcases hc.verdict with ⟨hv, -⟩ | ⟨v, note, duplicateOf, who, read, target, rfl, hcheck, rfl⟩ |
      ⟨reg, run, -, -, -, rfl⟩
  · exact absurd (hv ▸ hdup) hnot
  · obtain rfl : v = some .duplicate := hdup
    exact (marks_of_checkVerdict who read hd hcheck).1
  · cases hdup

/-- From a graph of depth one, a request leaves one exactly when it builds no chain. -/
theorem depthOne_step_iff {db : FindingsDb} (hn : Numbered db) (hd : DepthOne db) (req : Request) :
    DepthOne (step db req) ↔ NoChain db req := by
  constructor
  · intro hd' id hmarks j q hq hdup hof
    have hchain : j ≠ id := by
      rintro rfl
      obtain ⟨root, t, hroot, ht, hnot⟩ := hd j q hq hdup
      obtain rfl := Option.some.inj (hof.symm.trans hroot)
      obtain rfl := Option.some.inj (hq.symm.trans ht)
      exact hnot hdup
    have hmarks' := hmarks
    obtain ⟨note, d, who, read, t, rfl, hfound, -, -, -⟩ := hmarks
    obtain ⟨target, hcheck⟩ := checkVerdict_of_marks who read hd hmarks'
    obtain ⟨r, hr⟩ := Option.isSome_iff_exists.mp hfound
    have hrow := row?_step_verdict hcheck hr who read
    have hq' := (hrow j).trans ((if_neg hchain).trans hq)
    obtain ⟨root, s, hroot, hs, hsnot⟩ := hd' j q hq' hdup
    obtain rfl := Option.some.inj (hof.symm.trans hroot)
    rw [hrow, if_pos rfl] at hs
    obtain rfl := Option.some.inj hs
    exact hsnot rfl
  · intro hno id r' hr' hdup
    cases hr : db.row? id with
    | none =>
        obtain ⟨f, opts, rfl, hs, rfl, rfl⟩ := step_new hn req hr hr'
        obtain ⟨issue, state, at_, hrow⟩ := plannedRow_eq db f opts
        rw [hrow, sightedRow_of_none hs] at hdup
        cases hdup
    | some r =>
        obtain ⟨q, hq, hc⟩ := step_row hn req hr
        obtain rfl := Option.some.inj (hq.symm.trans hr')
        -- a root that was no duplicate becomes one only by being marked
        have hroots : ∀ root t, db.row? root = some t → t.verdict ≠ some .duplicate →
            ¬Marks db req root →
            ∃ t', (step db req).row? root = some t' ∧ t'.verdict ≠ some .duplicate := by
          intro root t ht hnot hunmarked
          obtain ⟨t', ht', hct⟩ := step_row hn req ht
          refine ⟨t', ht', fun hbad => hunmarked ?_⟩
          rw [← FindingsDb.id_of_row? ht]
          exact marks_of_new_duplicate hd hct hnot hbad
        rcases hc.verdict with ⟨hv, hof⟩ |
            ⟨v, note, duplicateOf, who, read, target, rfl, hcheck, rfl⟩ | ⟨_, _, -, -, -, rfl⟩
        · rw [hv] at hdup
          obtain ⟨root, t, hroot, ht, hnot⟩ := hd id r hr hdup
          obtain ⟨t', ht', hnot'⟩ := hroots root t ht hnot fun hm => hno root hm id r hr hdup hroot
          exact ⟨root, t', by rw [hof, hroot], ht', hnot'⟩
        · obtain rfl : v = some .duplicate := hdup
          obtain ⟨-, root, t, rfl, hne, ht, hnot⟩ := marks_of_checkVerdict who read hd hcheck
          have hother : ¬Marks db (.verdict r.id (some .duplicate) note duplicateOf who read) root := by
            rintro ⟨_, _, _, _, _, hreq, -⟩
            exact hne (Request.verdict.inj hreq).1.symm
          obtain ⟨t', ht', hnot'⟩ := hroots root t ht hnot hother
          exact ⟨root, t', rfl, ht', hnot'⟩
        · cases hdup

/-- Every duplicate is one hop from a finding that is none, in every state of a run,
exactly when no request marks a finding that a duplicate points at. -/
theorem duplicates_depth_one_iff (reqs : List Request) :
    (∀ past, past <+: reqs → DepthOne (after past)) ↔ Along step NoChain .empty reqs := by
  have hstep : ∀ db req, Numbered db → DepthOne db → (DepthOne (step db req) ↔ NoChain db req) :=
    fun _ req hn hd => depthOne_step_iff hn hd req
  exact steps_iff (fun _ req hn => hn.step req) hstep numbered_empty (fun _ _ h => by cases h) reqs

/-- One finding is marked a duplicate of a second, which is then marked a duplicate
of a third. -/
def remarked : List Request :=
  [.post (Sample.finding "a") Sample.dark, .post (Sample.finding "b") Sample.dark,
    .post (Sample.finding "c") Sample.dark, Sample.verdict 1 (some .duplicate) (some 2),
    Sample.verdict 2 (some .duplicate) (some 3)]

/-- The first of them is two hops from its root. -/
theorem duplicates_chain : ¬∀ reqs, DepthOne (after reqs) := by
  intro h
  have hrows : ∀ id root, ((after remarked).row? id).any (fun r =>
      decide (r.verdict = some .duplicate) && decide (r.duplicate_of = some root)) = true →
      ∃ r, (after remarked).row? id = some r ∧ r.verdict = some .duplicate ∧
        r.duplicate_of = some root := by
    intro id root hany
    cases hr : (after remarked).row? id with
    | none => simp [hr] at hany
    | some r => exact ⟨r, rfl, by simpa [hr] using hany⟩
  obtain ⟨r, hr, hdup, hof⟩ := hrows 1 2 (by decide)
  obtain ⟨q, hq, hqdup, -⟩ := hrows 2 3 (by decide)
  obtain ⟨root, t, hroot, ht, hnot⟩ := h remarked 1 r hr hdup
  obtain rfl := Option.some.inj (hof.symm.trans hroot)
  obtain rfl := Option.some.inj (hq.symm.trans ht)
  exact hnot hqdup

end FleetRunner.Findings
