import FleetRunner.Findings.Machine

/-!
# A finding, its history and its regression test

Five verdicts, reopening by hand or by a nightly run, and three states of a
regression test that may not be there. What holds between them holds because
`setVerdict` moves the test with every verdict, and because the one way round
"fixed comes only after real" is a test that is active, which a fixed verdict
made so.
-/

namespace FleetRunner.Findings

open Library

/-- The state of a finding's regression test, if it has one. -/
def testState (db : FindingsDb) (id : Nat) : Option RegressionState :=
  (db.regression? id).map (·.state)

/-- How a verdict moves the regression test. -/
inductive TestMoves :
    Option Verdict → Option RegressionState → Option RegressionState → Prop
  | untouched (s : Option RegressionState) : TestMoves none s s
  | absent (v : Option Verdict) : TestMoves v none none
  | kept : TestMoves (some .real) none (some .candidate)
  | revived : TestMoves (some .real) (some .retired) (some .candidate)
  | stays {s : RegressionState} : s ≠ .retired → TestMoves (some .real) (some s) (some s)
  | keptActive : TestMoves (some .fixed) none (some .active)
  | activated (s : RegressionState) : TestMoves (some .fixed) (some s) (some .active)
  | retired {v : Verdict} (s : RegressionState) : v ≠ .real → v ≠ .fixed →
      TestMoves (some v) (some s) (some .retired)

/-- Neither real nor fixed: it is not a test of anything. -/
def Dismissed (v : Option Verdict) : Prop :=
  v = some .duplicate ∨ v = some .not_a_bug ∨ v = some .agent_mistake

section Verdicts

variable {v : Option Verdict} {s s' : Option RegressionState}

theorem TestMoves.dismissed (h : TestMoves v s s') (hv : Dismissed v) :
    s' = none ∨ s' = some .retired := by
  cases h <;> simp_all [Dismissed]

theorem TestMoves.real (h : TestMoves (some .real) s s') :
    s' = none ∨ s' = some .candidate ∨ s' = some .active := by
  cases h with
  | absent => exact Or.inl rfl
  | kept => exact Or.inr (Or.inl rfl)
  | revived => exact Or.inr (Or.inl rfl)
  | @stays t ht =>
      cases t with
      | candidate => exact Or.inr (Or.inl rfl)
      | active => exact Or.inr (Or.inr rfl)
      | retired => exact absurd rfl ht
  | retired _ hreal => exact absurd rfl hreal

theorem TestMoves.fixed (h : TestMoves (some .fixed) s s') : s' = none ∨ s' = some .active := by
  cases h with
  | absent => exact Or.inl rfl
  | keptActive => exact Or.inr rfl
  | activated => exact Or.inr rfl
  | retired _ _ hfixed => exact absurd rfl hfixed

/-- A test is active after a verdict only if it was before, or the verdict is fixed. -/
theorem TestMoves.active (h : TestMoves v s (some .active)) : s = some .active ∨ v = some .fixed := by
  cases h with
  | untouched => exact Or.inl rfl
  | stays => exact Or.inl rfl
  | keptActive => exact Or.inr rfl
  | activated => exact Or.inr rfl

end Verdicts

section Moves

variable (db : FindingsDb) (f : FindingRow) (read : ReadArtifact)

theorem testState_updateRegression {id : Nat} {reg : RegressionRow}
    (h : db.regression? id = some reg) (g : RegressionRow → RegressionRow)
    (hg : ∀ r, (g r).finding_id = r.finding_id) :
    testState (db.updateRegression id g hg) id = some (g reg).state := by
  simp [testState, FindingsDb.regression?_updateRegression, h]

/-- A flow is kept in the state asked for, or not at all. -/
theorem testState_keepFlow (h : db.regression? f.id = none) (state : RegressionState) :
    testState (keepFlow db f state read).1 f.id = none ∨
      testState (keepFlow db f state read).1 f.id = some state := by
  have hnone : testState db f.id = none := by simp [testState, h]
  rcases keepFlow_cases db f state read with hkeep | ⟨sha, text, -, -, -, hkeep⟩ <;> rw [hkeep]
  · exact Or.inl hnone
  · refine Or.inr ?_
    change ((db.regressions.insertNew (newRegression db.sqlNow f state sha text)).find?
      f.id).map _ = _
    have hfind : db.regressions.find? f.id = none := h
    simp [Table.find?_insertNew, hfind, newRegression]

/-- A verdict moves its own finding's test in one of the ways listed. -/
theorem moveRegression_moves (v : Option Verdict) :
    TestMoves v (testState db f.id) (testState (moveRegression db f v read).1 f.id) := by
  cases hreg : db.regression? f.id with
  | none =>
      have hnone : testState db f.id = none := by simp [testState, hreg]
      cases v with
      | none =>
          have hsame : (moveRegression db f none read).1 = db := by simp [moveRegression]
          rw [hsame]
          exact .untouched _
      | some v =>
          rw [hnone]
          cases v with
          | real =>
              have hmove : (moveRegression db f (some .real) read).1 =
                  (keepFlow db f .candidate read).1 := by simp [moveRegression, hreg]
              rw [hmove]
              rcases testState_keepFlow db f read hreg .candidate with h | h <;> rw [h]
              · exact .absent _
              · exact .kept
          | fixed =>
              have hmove : (moveRegression db f (some .fixed) read).1 =
                  (keepFlow db f .active read).1 := by simp [moveRegression, hreg]
              rw [hmove]
              rcases testState_keepFlow db f read hreg .active with h | h <;> rw [h]
              · exact .absent _
              · exact .keptActive
          | duplicate | not_a_bug | agent_mistake =>
              simp only [moveRegression, hreg, hnone]
              exact .absent _
  | some reg =>
      have hsome : testState db f.id = some reg.state := by simp [testState, hreg]
      cases v with
      | none =>
          have hsame : (moveRegression db f none read).1 = db := by simp [moveRegression]
          rw [hsame]
          exact .untouched _
      | some v =>
          rw [hsome]
          cases v with
          | real =>
              by_cases hret : reg.state = .retired
              · simp only [moveRegression, hreg, if_pos hret]
                rw [testState_updateRegression db hreg, hret]
                exact .revived
              · simp only [moveRegression, hreg, if_neg hret]
                rw [hsome]
                exact .stays hret
          | fixed =>
              by_cases hact : reg.state = .active
              · simp only [moveRegression, hreg, if_pos hact]
                rw [hsome, hact]
                exact .activated _
              · simp only [moveRegression, hreg, if_neg hact]
                rw [testState_updateRegression db hreg]
                exact .activated _
          | duplicate | not_a_bug | agent_mistake =>
              by_cases hret : reg.state = .retired
              · simp only [moveRegression, hreg, hret, ne_eq, not_true_eq_false, if_false]
                rw [hsome, hret]
                exact .retired _ (by simp) (by simp)
              · simp only [moveRegression, hreg, ne_eq, hret, not_false_eq_true, if_true]
                rw [testState_updateRegression db hreg]
                exact .retired _ (by simp) (by simp)

/-- No other finding's test moves. -/
theorem testState_moveRegression_of_ne (v : Option Verdict) {id : Nat} (hid : id ≠ f.id) :
    testState (moveRegression db f v read).1 id = testState db id := by
  have hupdate : ∀ g hg, testState (db.updateRegression f.id g hg) id = testState db id := by
    intro g hg
    simp [testState, FindingsDb.regression?_updateRegression, hid]
  have hkeep : ∀ state, testState (keepFlow db f state read).1 id = testState db id := by
    intro state
    rcases keepFlow_cases db f state read with h | ⟨sha, text, -, -, -, h⟩ <;> rw [h]
    have hne : (newRegression db.sqlNow f state sha text).finding_id ≠ id := fun h => hid h.symm
    change ((db.regressions.insertNew _).find? id).map _ = _
    rw [Table.find?_insertNew, if_neg hne, Option.or_none]
    rfl
  unfold moveRegression
  split
  · exact hkeep _
  · split
    · exact hupdate _ _
    · rfl
  · exact hkeep _
  · split
    · rfl
    · exact hupdate _ _
  · split
    · exact hupdate _ _
    · rfl
  · rfl
  · rfl

end Moves

/-! ## One step -/

/-- What one request can do to a finding, its history and its test taken together. -/
inductive DeskChange (db : FindingsDb) (id : Nat) (db' : FindingsDb) : Prop
  | quiet : db'.history id = db.history id → testState db' id = testState db id →
      (∀ r', db'.row? id = some r' →
        r'.verdict = none ∨ ∃ r, db.row? id = some r ∧ r'.verdict = r.verdict) →
      DeskChange db id db'
  | judged {r : FindingRow} {v : Option Verdict} (note : Option String) (target : Option Nat)
      (who : Who) : db.row? id = some r → (v = some .fixed → fixedRefused db r = false) →
      db'.row? id = some (judge db.sqlNow v note target r) →
      db'.history id = db.history id ++ [verdictEntry db.sqlNow id v note who] →
      TestMoves v (testState db id) (testState db' id) → DeskChange db id db'
  | reopened {r : FindingRow} (run : RegressionRun) : db.row? id = some r →
      db'.row? id = some (reopen db.sqlNow run r) →
      db'.history id = db.history id ++ [regressedEntry db.sqlNow id run] →
      testState db' id = testState db id → DeskChange db id db'

/-- A fixed verdict that is accepted met its guard. -/
theorem fixed_of_checkVerdict {db : FindingsDb} {id : Nat} {r : FindingRow} {v : Option Verdict}
    {note : Option String} {duplicateOf target : Option Nat} (hr : db.row? id = some r)
    (h : checkVerdict db id v note duplicateOf = .ok target) (hv : v = some .fixed) :
    fixedRefused db r = false := by
  subst hv
  by_contra hrefused
  rw [Bool.not_eq_false] at hrefused
  unfold checkVerdict at h
  by_cases hlong : (note.any fun n => decide (LIMITS.note < jsLength n)) = true
  · simp [hr, hlong] at h
  · simp [hr, hlong, hrefused] at h

theorem step_desk {db : FindingsDb} (hn : Numbered db) (req : Request) (id : Nat) :
    DeskChange db id (step db req) := by
  -- a request that is neither a verdict nor a reopening leaves the verdict of every row
  have hverdicts : (∀ v note dup who read, req ≠ .verdict id v note dup who read) →
      (∀ run, req ≠ .regressionRun id run) → ∀ r', (step db req).row? id = some r' →
        r'.verdict = none ∨ ∃ r, db.row? id = some r ∧ r'.verdict = r.verdict := by
    intro hnov hnor r' hr'
    cases hr : db.row? id with
    | none =>
        obtain ⟨f, opts, rfl, hs, -, rfl⟩ := step_new hn req hr hr'
        obtain ⟨issue, state, at_, hrow⟩ := plannedRow_eq db f opts
        rw [hrow, sightedRow_of_none hs]
        exact Or.inl rfl
    | some r =>
        obtain ⟨q, hq, hc⟩ := step_row hn req hr
        obtain rfl := Option.some.inj (hq.symm.trans hr')
        have hid := FindingsDb.id_of_row? hr
        rcases hc.verdict with ⟨hv, -⟩ | ⟨v, note, dup, who, read, _, hreq, -, -⟩ |
            ⟨_, run, hreq, -, -, -⟩
        · exact Or.inr ⟨r, rfl, hv⟩
        · exact absurd (hid ▸ hreq) (hnov v note dup who read)
        · exact absurd (hid ▸ hreq) (hnor run)
  cases req with
  | tick ms => exact .quiet rfl rfl (hverdicts (by simp) (by simp))
  | post f opts =>
      obtain ⟨findings, seq, filing, hframe⟩ := postFinding_frame db f opts
      have hstep : step db (.post f opts) = _ := hframe
      refine .quiet ?_ ?_ (hverdicts (by simp) (by simp)) <;> rw [hstep] <;> rfl
  | github j reply =>
      refine .quiet ?_ ?_ (hverdicts (by simp) (by simp))
      · simp only [step, finishFiling]
        split <;> rfl
      · simp only [step, finishFiling]
        split <;> rfl
  | verdict j v note dup who read =>
      rcases step_verdict db j v note dup who read with hsame | ⟨target, r, hcheck, hr, hstep⟩
      · rw [hsame]
        exact .quiet rfl rfl fun r' hr' => Or.inr ⟨r', hr', rfl⟩
      · have hrid : (judge db.sqlNow v note target r).id = j :=
          (judge_id _ _ _ _ r).trans (FindingsDb.id_of_row? hr)
        by_cases hid : id = j
        · subst hid
          have hmoves := moveRegression_moves (writeVerdict db id v note target who)
            (judge db.sqlNow v note target r) read v
          rw [hrid] at hmoves
          refine .judged note target who hr (fixed_of_checkVerdict hr hcheck) ?_ ?_ ?_
          · rw [row?_step_verdict hcheck hr, if_pos rfl]
          · rw [hstep, history_moveRegression, writeVerdict, FindingsDb.history_addVerdict,
              FindingsDb.history_updateRow]
            simp [verdictEntry]
          · rw [hstep]
            exact hmoves
        · refine .quiet ?_ ?_ (hverdicts ?_ (by simp))
          · rw [hstep, history_moveRegression, writeVerdict, FindingsDb.history_addVerdict,
              FindingsDb.history_updateRow]
            have hne : ¬(verdictEntry db.sqlNow j v note who).finding_id = id := fun h => hid h.symm
            simp [hne]
          · rw [hstep, testState_moveRegression_of_ne _ _ _ _ (by rw [hrid]; exact hid)]
            rfl
          · intro _ _ _ _ _ hreq
            exact hid (Request.verdict.inj hreq).1.symm
  | regressionRun j run =>
      rcases step_regressionRun db j run with hsame | ⟨reg, r, hreg, hr, hrun⟩
      · rw [hsame]
        exact .quiet rfl rfl fun r' hr' => Or.inr ⟨r', hr', rfl⟩
      · have hrecorded : ∀ k, testState
            (db.updateRegression j (recordRun db.sqlNow run) (recordRun_id _ _)) k =
              testState db k := by
          intro k
          by_cases hk : k = j
          · subst hk
            rw [testState_updateRegression db hreg]
            simp [testState, hreg, recordRun]
          · simp [testState, FindingsDb.regression?_updateRegression, hk]
        rcases hrun with ⟨-, hstep⟩ | ⟨-, hstep⟩
        · by_cases hid : id = j
          · subst hid
            refine .reopened run hr ?_ ?_ ?_
            · rw [hstep, FindingsDb.row?_addVerdict, FindingsDb.row?_updateRow_self,
                FindingsDb.row?_updateRegression, hr]
              rfl
            · rw [hstep, FindingsDb.history_addVerdict]
              simp [regressedEntry]
            · rw [hstep]
              exact hrecorded id
          · refine .quiet ?_ ?_ (hverdicts (by simp) ?_)
            · rw [hstep, FindingsDb.history_addVerdict]
              have hne : ¬(regressedEntry db.sqlNow j run).finding_id = id := fun h => hid h.symm
              simp [hne]
            · rw [hstep]
              exact hrecorded id
            · intro _ hreq
              exact hid (Request.regressionRun.inj hreq).1.symm
        · rw [hstep]
          exact .quiet rfl (hrecorded id) fun r' hr' => Or.inr ⟨r', hr', rfl⟩

/-! ## What holds in every state -/

/-- The history holds this verdict. -/
def Judged (h : List VerdictEntry) (v : Verdict) : Prop := ∃ e ∈ h, e.verdict = some v

/-- Every fixed entry has a real one before it. -/
def FixedAfterReal (h : List VerdictEntry) : Prop :=
  ∀ before e later, h = before ++ e :: later → e.verdict = some .fixed → Judged before .real

/-- A finding, its history and its regression test agree. -/
structure Agree (db : FindingsDb) (id : Nat) : Prop where
  fixed_after_real : FixedAfterReal (db.history id)
  dismissed : ∀ r, db.row? id = some r → Dismissed r.verdict →
    testState db id = none ∨ testState db id = some .retired
  real : ∀ r, db.row? id = some r → r.verdict = some .real →
    testState db id = none ∨ testState db id = some .candidate ∨ testState db id = some .active
  fixed : ∀ r, db.row? id = some r → r.verdict = some .fixed →
    testState db id = none ∨ testState db id = some .active
  active : testState db id = some .active → Judged (db.history id) .fixed

/-- What carries the first of these: a verdict that opens the fixed guard is in the history. -/
structure Backed (db : FindingsDb) (id : Nat) : Prop extends Agree db id where
  real_judged : ∀ r, db.row? id = some r → r.verdict = some .real → Judged (db.history id) .real
  fixed_judged : ∀ r, db.row? id = some r → r.verdict = some .fixed → Judged (db.history id) .fixed

theorem Judged.append {h : List VerdictEntry} {v : Verdict} (hj : Judged h v)
    (more : List VerdictEntry) : Judged (h ++ more) v := by
  obtain ⟨e, he, hv⟩ := hj
  exact ⟨e, List.mem_append_left _ he, hv⟩

theorem FixedAfterReal.judged_real {h : List VerdictEntry} (hf : FixedAfterReal h)
    (hj : Judged h .fixed) : Judged h .real := by
  obtain ⟨e, he, hv⟩ := hj
  obtain ⟨before, later, rfl⟩ := List.append_of_mem he
  exact (hf before e later rfl hv).append _

/-- One more entry keeps the order, when a fixed one finds a real one there. -/
theorem FixedAfterReal.concat {h : List VerdictEntry} (hf : FixedAfterReal h) {e : VerdictEntry}
    (he : e.verdict = some .fixed → Judged h .real) : FixedAfterReal (h ++ [e]) := by
  intro before x later hsplit hx
  rcases List.eq_nil_or_concat later with rfl | ⟨rest, y, rfl⟩
  · obtain ⟨rfl, hlast⟩ := List.append_inj' hsplit rfl
    obtain rfl := (List.cons.inj hlast).1
    exact he hx
  · rw [List.concat_eq_append, ← List.cons_append, ← List.append_assoc] at hsplit
    obtain ⟨rfl, -⟩ := List.append_inj' hsplit rfl
    exact hf before x rest rfl hx

/-- The guard of a fixed verdict opens only where a real one was given. -/
theorem Backed.real_of_not_refused {db : FindingsDb} {id : Nat} (hb : Backed db id)
    {r : FindingRow} (hr : db.row? id = some r) (h : fixedRefused db r = false) :
    Judged (db.history id) .real := by
  have hid := FindingsDb.id_of_row? hr
  by_cases hreal : r.verdict = some .real
  · exact hb.real_judged r hr hreal
  · by_cases hfixed : r.verdict = some .fixed
    · exact hb.fixed_after_real.judged_real (hb.fixed_judged r hr hfixed)
    · have hactive : testState db id = some .active := by
        rw [← hid]
        cases hreg : db.regression? r.id with
        | none => simp [fixedRefused, hreal, hfixed, hreg] at h
        | some reg =>
            have hstate : reg.state = .active := by
              simpa [fixedRefused, hreal, hfixed, hreg] using h
            simp [testState, hreg, hstate]
      exact hb.fixed_after_real.judged_real (hb.active hactive)

/-- What one request preserves. -/
theorem Backed.step {db : FindingsDb} (hn : Numbered db) {id : Nat} (hb : Backed db id)
    (req : Request) : Backed (step db req) id := by
  cases step_desk hn req id with
  | quiet hhist htest hverdict =>
      -- a row with a verdict had it before
      have hold : ∀ {P : Option Verdict → Prop} {Q : Prop}, ¬P none →
          (∀ r, db.row? id = some r → P r.verdict → Q) →
          ∀ r', (Findings.step db req).row? id = some r' → P r'.verdict → Q := by
        intro P Q hnone h r' hr' hp
        rcases hverdict r' hr' with hv | ⟨r, hr, hv⟩
        · exact absurd (hv ▸ hp) hnone
        · exact h r hr (hv ▸ hp)
      refine ⟨⟨?_, ?_, ?_, ?_, ?_⟩, ?_, ?_⟩
      · rw [hhist]
        exact hb.fixed_after_real
      · rw [htest]
        exact hold (P := Dismissed) (by simp [Dismissed]) hb.dismissed
      · rw [htest]
        exact hold (P := (· = some .real)) (by simp) hb.real
      · rw [htest]
        exact hold (P := (· = some .fixed)) (by simp) hb.fixed
      · rw [htest, hhist]
        exact hb.active
      · rw [hhist]
        exact hold (P := (· = some .real)) (by simp) hb.real_judged
      · rw [hhist]
        exact hold (P := (· = some .fixed)) (by simp) hb.fixed_judged
  | @judged r v note target who hr hguard hrow hhist hmoves =>
      have hnew : ∀ r', (Findings.step db req).row? id = some r' → r'.verdict = v := by
        intro r' hr'
        obtain rfl := Option.some.inj (hrow.symm.trans hr')
        rfl
      have hlast : ∀ w, v = some w →
          Judged (db.history id ++ [verdictEntry db.sqlNow id v note who]) w := by
        rintro w rfl
        exact ⟨_, List.mem_append_right _ (List.mem_singleton_self _), rfl⟩
      refine ⟨⟨?_, ?_, ?_, ?_, ?_⟩, ?_, ?_⟩
      · rw [hhist]
        exact hb.fixed_after_real.concat fun hv => hb.real_of_not_refused hr (hguard hv)
      · intro r' hr' hd
        exact hmoves.dismissed (hnew r' hr' ▸ hd)
      · intro r' hr' hv
        obtain rfl := (hnew r' hr').symm.trans hv
        exact hmoves.real
      · intro r' hr' hv
        obtain rfl := (hnew r' hr').symm.trans hv
        exact hmoves.fixed
      · rw [hhist]
        intro hactive
        rw [hactive] at hmoves
        rcases hmoves.active with hbefore | hv
        · exact (hb.active hbefore).append _
        · exact hlast .fixed hv
      · intro r' hr' hv
        rw [hnew r' hr'] at hv
        rw [hhist]
        exact hlast .real hv
      · intro r' hr' hv
        rw [hnew r' hr'] at hv
        rw [hhist]
        exact hlast .fixed hv
  | @reopened r run hr hrow hhist htest =>
      have hnone : ∀ r', (Findings.step db req).row? id = some r' → r'.verdict = none := by
        intro r' hr'
        obtain rfl := Option.some.inj (hrow.symm.trans hr')
        rfl
      refine ⟨⟨?_, ?_, ?_, ?_, ?_⟩, ?_, ?_⟩
      · rw [hhist]
        exact hb.fixed_after_real.concat fun hv => by cases hv
      · intro r' hr' hd
        rw [hnone r' hr'] at hd
        simp [Dismissed] at hd
      · intro r' hr' hv
        cases (hnone r' hr').symm.trans hv
      · intro r' hr' hv
        cases (hnone r' hr').symm.trans hv
      · rw [htest, hhist]
        exact fun h => (hb.active h).append _
      · intro r' hr' hv
        cases (hnone r' hr').symm.trans hv
      · intro r' hr' hv
        cases (hnone r' hr').symm.trans hv

theorem backed_empty (id : Nat) : Backed .empty id where
  fixed_after_real := fun before e later h => by simp at h
  dismissed := fun r h => by cases h
  real := fun r h => by cases h
  fixed := fun r h => by cases h
  active := fun h => by cases h
  real_judged := fun r h => by cases h
  fixed_judged := fun r h => by cases h

theorem backed (reqs : List Request) (id : Nat) : Backed (after reqs) id :=
  invariant_numbered (I := fun db => Backed db id) (fun _ req hn hb => hb.step hn req)
    (backed_empty id) reqs

/-- In every state, every finding's verdict, history and regression test agree, and a
finding has one regression test at most. -/
theorem findings_agree (reqs : List Request) :
    (∀ id, Agree (after reqs) id) ∧
      ∀ reg ∈ (after reqs).regressions.rows, ∀ reg' ∈ (after reqs).regressions.rows,
        reg.finding_id = reg'.finding_id → reg = reg' := by
  refine ⟨fun id => (backed reqs id).toAgree, fun reg h reg' h' hid => ?_⟩
  have hfind := Table.mem_rows_iff.mp h
  have hfind' := Table.mem_rows_iff.mp h'
  rw [hid, hfind'] at hfind
  exact (Option.some.inj hfind).symm

end FleetRunner.Findings
