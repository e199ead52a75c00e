import FleetRunner.Findings.Reopening
import FleetRunner.Library.Maximum

/-!
# Sightings of one finding

What the row of a fingerprint says after any run: the words of the first
sighting, the count and the builds of all of them, the highest severity, and
the replay that is the best evidence.
-/

namespace FleetRunner.Findings

open Library

variable (fp : String)

/-- The findings posted under a fingerprint. -/
def sightings (reqs : List Request) : List ExploreFinding :=
  reqs.filterMap fun req =>
    match req with
    | .post f _ => if f.fingerprint = fp then some f else none
    | _ => none

/-- The run reopens the finding of this fingerprint. -/
def reopensSighted (db : FindingsDb) (id : Nat) (run : RegressionRun) : Bool :=
  (db.sighted? fp).any (fun r => decide (r.id = id)) && reopened id db run

/-- How often a regression run reopened the finding. -/
def regressions (reqs : List Request) : Nat :=
  total step (fun db req =>
    match req with
    | .regressionRun id run => if reopensSighted fp db id run then 1 else 0
    | _ => 0) .empty reqs

/-- The builds it was sighted or reopened on, in order. -/
def seenOn (reqs : List Request) : List String :=
  watch step (fun db req _ builds =>
    match req with
    | .post f _ => if f.fingerprint = fp then builds ++ [f.build] else builds
    | .regressionRun id run => if reopensSighted fp db id run then builds ++ [run.build] else builds
    | _ => builds) .empty [] reqs

def moreSevere (f g : ExploreFinding) : Bool := decide (f.severity.rank < g.severity.rank)

/-- The sighting whose replay counts are stored. -/
def kept (reqs : List Request) : Option ExploreFinding :=
  firstBest (fun f g => betterReplay f.replay g.replay) (sightings fp reqs)

/-- What the stored row has from its sightings, of which `f` was the first. -/
structure Merged (reqs : List Request) (f : ExploreFinding) (r : FindingRow) : Prop where
  text : r.title = f.title ∧ r.detail = f.detail ∧ r.steps = f.steps ∧ r.screen = f.screen
  origin : r.build = f.build ∧ r.job_id = f.job_id
  count : r.seen_count = (sightings fp reqs).length + regressions fp reqs
  builds : r.builds_seen = (seenOn fp reqs).eraseDups
  severity : ∃ g, firstBest moreSevere (sightings fp reqs) = some g ∧ r.severity = g.severity
  replay : ∃ g, kept fp reqs = some g ∧ r.replay = g.replay

/-! ## The history of a fingerprint -/

section History

variable {fp} (past : List Request)

theorem sightings_post (f : ExploreFinding) (opts : IssueOptions) (h : f.fingerprint = fp) :
    sightings fp (past ++ [.post f opts]) = sightings fp past ++ [f] := by
  simp [sightings, h]

theorem kept_post (f : ExploreFinding) (opts : IssueOptions) (h : f.fingerprint = fp) :
    kept fp (past ++ [.post f opts]) =
      pick (fun f g => betterReplay f.replay g.replay) (kept fp past) f := by
  simp only [kept, sightings_post past f opts h, firstBest_concat]

theorem seenOn_post (f : ExploreFinding) (opts : IssueOptions) (h : f.fingerprint = fp) :
    seenOn fp (past ++ [.post f opts]) = seenOn fp past ++ [f.build] := by
  simp [seenOn, watch_concat, h]

theorem regressions_post (f : ExploreFinding) (opts : IssueOptions) :
    regressions fp (past ++ [.post f opts]) = regressions fp past := by
  simp [regressions, total_concat]

theorem seenOn_regressionRun (id : Nat) (run : RegressionRun) :
    seenOn fp (past ++ [.regressionRun id run]) =
      if reopensSighted fp (after past) id run then seenOn fp past ++ [run.build]
      else seenOn fp past := by
  simp [seenOn, watch_concat]

theorem regressions_regressionRun (id : Nat) (run : RegressionRun) :
    regressions fp (past ++ [.regressionRun id run]) =
      regressions fp past + if reopensSighted fp (after past) id run then 1 else 0 := by
  simp [regressions, total_concat]

/-- A request that neither sights nor reopens the finding. -/
def Quiet (fp : String) (db : FindingsDb) : Request → Prop
  | .post f _ => f.fingerprint ≠ fp
  | .regressionRun id run => reopensSighted fp db id run = false
  | _ => True

theorem history_of_quiet {req : Request} (h : Quiet fp (after past) req) :
    sightings fp (past ++ [req]) = sightings fp past ∧
      regressions fp (past ++ [req]) = regressions fp past ∧
      seenOn fp (past ++ [req]) = seenOn fp past := by
  cases req with
  | post f opts =>
      have hne : ¬f.fingerprint = fp := h
      exact ⟨by simp [sightings, hne], regressions_post past f opts,
        by simp [seenOn, watch_concat, hne]⟩
  | regressionRun id run =>
      have hclosed : reopensSighted fp (after past) id run = false := h
      exact ⟨by simp [sightings], by simp [regressions_regressionRun, hclosed],
        by simp [seenOn_regressionRun, hclosed]⟩
  | tick _ => exact ⟨by simp [sightings], by simp [regressions, total_concat],
      by simp [seenOn, watch_concat]⟩
  | verdict _ _ _ _ _ _ => exact ⟨by simp [sightings], by simp [regressions, total_concat],
      by simp [seenOn, watch_concat]⟩
  | github _ _ => exact ⟨by simp [sightings], by simp [regressions, total_concat],
      by simp [seenOn, watch_concat]⟩

/-- Nothing in the columns of the merge depends on a quiet request. -/
theorem Merged.quiet {past : List Request} {req : Request} {f : ExploreFinding} {r : FindingRow}
    (hm : Merged fp past f r) (h : Quiet fp (after past) req) : Merged fp (past ++ [req]) f r := by
  obtain ⟨hs, hr, hb⟩ := history_of_quiet past h
  refine ⟨hm.text, hm.origin, ?_, ?_, ?_, ?_⟩
  · rw [hs, hr]
    exact hm.count
  · rw [hb]
    exact hm.builds
  · rw [hs]
    exact hm.severity
  · rw [kept, hs]
    exact hm.replay

end History

/-! ## One request -/

section OneRequest

variable {fp} {db : FindingsDb}

theorem reopened_iff {id : Nat} {run : RegressionRun} :
    reopened id db run = true ↔ ∃ reg r, db.regression? id = some reg ∧ db.row? id = some r ∧
      reopens reg run = true := by
  unfold reopened recordRegressionRun
  cases hreg : db.regression? id with
  | none => simp
  | some reg =>
      cases hrow : db.row? id with
      | none => simp
      | some r => by_cases hre : reopens reg run = true <;> simp [hre]

theorem sighted?_step_post (hn : Numbered db) {f : ExploreFinding} (opts : IssueOptions)
    (h : f.fingerprint = fp) :
    (step db (.post f opts)).sighted? fp = some (plannedRow db f opts) := by
  change (postFinding db f opts).sighted? fp = _
  rw [sighted?_postFinding, sighted?_storeFinding hn, if_pos h.symm]

theorem sighted?_step_reopening {id : Nat} {run : RegressionRun}
    (h : reopensSighted fp db id run = true) :
    ∃ r, db.sighted? fp = some r ∧
      (step db (.regressionRun id run)).sighted? fp = some (reopen db.sqlNow run r) := by
  rw [reopensSighted, Bool.and_eq_true, Option.any_eq_true] at h
  obtain ⟨⟨r, hs, hid⟩, hopen⟩ := h
  obtain rfl : r.id = id := by simpa using hid
  obtain ⟨reg, q, hreg, hq, hre⟩ := reopened_iff.mp hopen
  refine ⟨r, hs, ?_⟩
  have hout : recordRegressionRun db r.id run = .ok
      (((db.updateRegression r.id (recordRun db.sqlNow run) (recordRun_id _ _)).updateRow r.id
        (reopen db.sqlNow run) (reopen_id _ _)).addVerdict (regressedEntry db.sqlNow r.id run),
        true) := by
    simp [recordRegressionRun, hreg, hq, hre]
  have hrow := FindingsDb.sighted?_updateRow
    (db.updateRegression r.id (recordRun db.sqlNow run) (recordRun_id _ _)) r.id
    (reopen db.sqlNow run) (reopen_id _ _) (fun _ => rfl) fp
  rw [FindingsDb.sighted?_updateRegression, hs] at hrow
  simp only [step, hout, FindingsDb.sighted?_addVerdict]
  rw [hrow]
  simp

/-- A quiet request leaves the columns of the merge as they are. -/
theorem Merged.row {reqs : List Request} {req : Request} {f : ExploreFinding} {r r' : FindingRow}
    (hm : Merged fp reqs f r) (hs : db.sighted? fp = some r) (hc : RowChange db req r r')
    (hq : Quiet fp db req) : Merged fp reqs f r' := by
  cases hc with
  | same => exact hm
  | sighted opts hs' =>
      have hne : _ ≠ fp := hq
      exact absurd ((FindingsDb.fingerprint_of_sighted? hs').symm.trans
        (FindingsDb.fingerprint_of_sighted? hs)) hne
  | judged who read hcheck =>
      exact ⟨hm.text, hm.origin, hm.count, hm.builds, hm.severity, hm.replay⟩
  | @reopened _ reg run hreg hre =>
      have hopen : reopened r.id db run = true :=
        reopened_iff.mpr ⟨reg, r, hreg, FindingsDb.row?_of_sighted? hs, hre⟩
      have hclosed : reopensSighted fp db r.id run = false := hq
      simp [reopensSighted, hs, hopen] at hclosed
  | answered reply hmem =>
      exact ⟨hm.text, hm.origin, hm.count, hm.builds, hm.severity, hm.replay⟩

/-- Planning an issue leaves the columns of the merge as they are. -/
theorem Merged.planned {reqs : List Request} {f g : ExploreFinding} (opts : IssueOptions)
    (hm : Merged fp reqs f (sightedRow db g)) : Merged fp reqs f (plannedRow db g opts) := by
  obtain ⟨issue, state, at_, hrow⟩ := plannedRow_eq db g opts
  rw [hrow]
  exact ⟨hm.text, hm.origin, hm.count, hm.builds, hm.severity, hm.replay⟩

end OneRequest

theorem addBuild_eraseDups (builds : List String) (build : String) :
    addBuild builds.eraseDups build = (builds ++ [build]).eraseDups := by
  rw [List.eraseDups_append]
  by_cases h : build ∈ builds <;> simp [addBuild, List.removeAll, List.eraseDups_cons, h]

/-! ## Any run -/

/-- The table agrees with the history of a fingerprint. -/
inductive Agrees (past : List Request) (db : FindingsDb) : Prop
  | unseen : sightings fp past = [] → seenOn fp past = [] → regressions fp past = 0 →
      db.sighted? fp = none → Agrees past db
  | seen {f : ExploreFinding} {r : FindingRow} : (sightings fp past).head? = some f →
      db.sighted? fp = some r → Merged fp past f r → Agrees past db

section AnyRun

variable {fp}

/-- A first sighting. -/
theorem Agrees.first {past : List Request} {f : ExploreFinding} (opts : IssueOptions)
    (hfp : f.fingerprint = fp) (hs : sightings fp past = []) (hb : seenOn fp past = [])
    (hr : regressions fp past = 0) (hnone : (after past).sighted? fp = none) :
    Agrees fp (past ++ [.post f opts]) (step (after past) (.post f opts)) := by
  have hfirst : sightings fp (past ++ [.post f opts]) = [f] := by
    rw [sightings_post past f opts hfp, hs]
    rfl
  have hrow : sightedRow (after past) f = newRow (after past).sqlNow ((after past).seq + 1) f :=
    sightedRow_of_none (by rw [hfp, hnone])
  refine .seen (by rw [hfirst]; rfl) (sighted?_step_post (numbered past) opts hfp)
    (Merged.planned opts ?_)
  rw [hrow]
  refine ⟨⟨rfl, rfl, rfl, rfl⟩, ⟨rfl, rfl⟩, ?_, ?_, ⟨f, ?_, rfl⟩, ⟨f, ?_, rfl⟩⟩
  · rw [hfirst, regressions_post, hr]
    rfl
  · rw [seenOn_post past f opts hfp, hb]
    rfl
  · rw [hfirst]
    rfl
  · rw [kept, hfirst]
    rfl

/-- A repeat folds the new sighting into the row. -/
theorem Agrees.repeated {past : List Request} {f g : ExploreFinding} {r : FindingRow}
    (opts : IssueOptions) (hfp : g.fingerprint = fp) (hhead : (sightings fp past).head? = some f)
    (hs : (after past).sighted? fp = some r) (hm : Merged fp past f r) :
    Agrees fp (past ++ [.post g opts]) (step (after past) (.post g opts)) := by
  have hlist := sightings_post past g opts hfp
  have hrow : sightedRow (after past) g = mergeSighting (after past).sqlNow g r :=
    sightedRow_of_some (by rw [hfp, hs])
  refine .seen (by rw [hlist, List.head?_append, hhead]; rfl)
    (sighted?_step_post (numbered past) opts hfp) (Merged.planned opts ?_)
  rw [hrow]
  obtain ⟨worst, hworst, hsev⟩ := hm.severity
  obtain ⟨best, hbest, hrep⟩ := hm.replay
  refine ⟨hm.text, hm.origin, ?_, ?_, ?_, ?_⟩
  · have hcount := hm.count
    rw [hlist, regressions_post]
    simp only [mergeSighting, List.length_append, List.length_singleton]
    omega
  · rw [seenOn_post past g opts hfp, ← addBuild_eraseDups, ← hm.builds]
    rfl
  · rw [hlist, firstBest_concat, hworst]
    by_cases hmore : moreSevere worst g = true
    · have hrank : r.severity.rank < g.severity.rank := by simpa [moreSevere, hsev] using hmore
      exact ⟨g, by simp [pick, hmore], by simp [mergeSighting, hrank]⟩
    · have hrank : ¬r.severity.rank < g.severity.rank := by simpa [moreSevere, hsev] using hmore
      refine ⟨worst, by simp [pick, hmore], ?_⟩
      rw [← hsev]
      exact if_neg hrank
  · rw [kept_post past g opts hfp, hbest]
    by_cases hbetter : betterReplay best.replay g.replay = true
    · exact ⟨g, by simp [pick, hbetter], by simp [mergeSighting, hrep, hbetter]⟩
    · exact ⟨best, by simp [pick, hbetter], by simp [mergeSighting, hrep, hbetter]⟩

/-- A reopening raises the count and adds its build. -/
theorem Agrees.reopening {past : List Request} {f : ExploreFinding} {r : FindingRow} {id : Nat}
    {run : RegressionRun} (hopen : reopensSighted fp (after past) id run = true)
    (hhead : (sightings fp past).head? = some f) (hs : (after past).sighted? fp = some r)
    (hm : Merged fp past f r) :
    Agrees fp (past ++ [.regressionRun id run]) (step (after past) (.regressionRun id run)) := by
  obtain ⟨q, hq, hrow⟩ := sighted?_step_reopening hopen
  obtain rfl := Option.some.inj (hs.symm.trans hq)
  have hlist : sightings fp (past ++ [.regressionRun id run]) = sightings fp past := by
    simp [sightings]
  refine .seen (by rw [hlist, hhead]) hrow ⟨hm.text, hm.origin, ?_, ?_, ?_, ?_⟩
  · have hcount := hm.count
    rw [hlist, regressions_regressionRun, if_pos hopen]
    simp only [reopen]
    omega
  · rw [seenOn_regressionRun, if_pos hopen, ← addBuild_eraseDups, ← hm.builds]
    rfl
  · rw [hlist]
    exact hm.severity
  · rw [kept, hlist]
    exact hm.replay

theorem Agrees.step {past : List Request} (h : Agrees fp past (after past)) (req : Request) :
    Agrees fp (past ++ [req]) (step (after past) req) := by
  have hn := numbered past
  by_cases hquiet : Quiet fp (after past) req
  · obtain ⟨hs', hr', hb'⟩ := history_of_quiet past hquiet
    cases h with
    | unseen hs hb hr hnone =>
        refine .unseen (hs'.trans hs) (hb'.trans hb) (hr'.trans hr) (step_unsighted hnone ?_ hn)
        rintro f opts rfl
        exact hquiet
    | seen hhead hs hm =>
        obtain ⟨r', hrow, hc⟩ := step_sighted hn req hs
        exact .seen (by rw [hs', hhead]) hrow ((hm.quiet hquiet).row hs hc hquiet)
  · cases req with
    | post f opts =>
        have hfp : f.fingerprint = fp := not_not.mp hquiet
        cases h with
        | unseen hs hb hr hnone => exact .first opts hfp hs hb hr hnone
        | seen hhead hs hm => exact .repeated opts hfp hhead hs hm
    | regressionRun id run =>
        have hopen : reopensSighted fp (after past) id run = true :=
          (Bool.not_eq_false _).mp hquiet
        cases h with
        | unseen hs hb hr hnone =>
            obtain ⟨r, hsome, -⟩ := sighted?_step_reopening hopen
            cases hnone.symm.trans hsome
        | seen hhead hs hm => exact .reopening hopen hhead hs hm
    | tick _ => exact absurd trivial hquiet
    | verdict _ _ _ _ _ _ => exact absurd trivial hquiet
    | github _ _ => exact absurd trivial hquiet

end AnyRun

theorem agrees (reqs : List Request) : Agrees fp reqs (after reqs) := by
  have hempty : Agrees fp [] .empty := .unseen rfl rfl rfl rfl
  exact history_invariant (I := Agrees fp) hempty (fun past req h _ => h.step req)
    (along_of_forall (fun _ _ => trivial) _ reqs)

/-- The row in terms of its sightings, without the scans that pick among them. -/
structure Folded (reqs : List Request) (f : ExploreFinding) (r : FindingRow) : Prop where
  text : r.title = f.title ∧ r.detail = f.detail ∧ r.steps = f.steps ∧ r.screen = f.screen
  origin : r.build = f.build ∧ r.job_id = f.job_id
  count : r.seen_count = (sightings fp reqs).length + regressions fp reqs
  builds : r.builds_seen = (seenOn fp reqs).eraseDups
  severity : (∃ g ∈ sightings fp reqs, r.severity = g.severity) ∧
    ∀ g ∈ sightings fp reqs, g.severity.rank ≤ r.severity.rank
  replay : (∃ g ∈ sightings fp reqs, r.replay = g.replay) ∧
    ∀ g ∈ sightings fp reqs, betterReplay r.replay g.replay = false

section Folded

variable {fp}

theorem firstMax_kept {reqs : List Request} {g : ExploreFinding} (h : kept fp reqs = some g) :
    FirstMax (fun x => weight x.replay) (sightings fp reqs) g :=
  firstMax_of_firstBest (fun a b => betterReplay_iff a.replay b.replay) h

theorem Merged.folded {reqs : List Request} {f : ExploreFinding} {r : FindingRow}
    (h : Merged fp reqs f r) : Folded fp reqs f r := by
  obtain ⟨worst, hworst, hsev⟩ := h.severity
  obtain ⟨best, hbest, hrep⟩ := h.replay
  have hmax : FirstMax (fun x => x.severity.rank) (sightings fp reqs) worst :=
    firstMax_of_firstBest (fun a b => by simp [moreSevere]) hworst
  have hkept := firstMax_kept hbest
  refine ⟨h.text, h.origin, h.count, h.builds, ⟨⟨worst, hmax.mem, hsev⟩, fun g hg => ?_⟩,
    ⟨best, hkept.mem, hrep⟩, fun g hg => ?_⟩
  · rw [hsev]
    exact hmax.le hg
  · rw [not_betterReplay_iff, hrep]
    exact hkept.le hg

/-- The row a fingerprint names was folded from its sightings. -/
theorem folded_of_sighted {reqs : List Request} {r : FindingRow}
    (h : (after reqs).sighted? fp = some r) :
    ∃ f g, (sightings fp reqs).head? = some f ∧ Folded fp reqs f r ∧ kept fp reqs = some g ∧
      r.replay = g.replay := by
  cases agrees fp reqs with
  | unseen hs hb hr hnone => cases hnone.symm.trans h
  | seen hhead hs hm =>
      obtain rfl := Option.some.inj (hs.symm.trans h)
      obtain ⟨g, hkept, hrep⟩ := hm.replay
      exact ⟨_, g, hhead, hm.folded, hkept, hrep⟩

/-- A sighting leaves the verdict of every row as it was. -/
theorem verdict_post {reqs : List Request} (f : ExploreFinding) (opts : IssueOptions) {id : Nat}
    {r : FindingRow} (h : (after reqs).row? id = some r) :
    ∃ r', (after (reqs ++ [.post f opts])).row? id = some r' ∧ r'.verdict = r.verdict ∧
      r'.verdict_note = r.verdict_note ∧ r'.verdict_at = r.verdict_at ∧
      r'.duplicate_of = r.duplicate_of := by
  obtain ⟨r', hr', hc⟩ := step_row (numbered reqs) (.post f opts) h
  refine ⟨r', by rw [after, run_concat]; exact hr', ?_⟩
  cases hc with
  | same => exact ⟨rfl, rfl, rfl, rfl⟩
  | sighted opts hs =>
      obtain ⟨issue, state, at_, hrow⟩ := plannedRow_eq (after reqs) f opts
      rw [hrow, sightedRow_of_some hs]
      exact ⟨rfl, rfl, rfl, rfl⟩

end Folded

/-- However its sightings, verdicts and regression runs are interleaved, a finding is its
first sighting with the evidence of all of them; the order of the sightings decides only
between replays of equal weight, and none of them touches a verdict. -/
theorem sightings_merge (reqs : List Request) :
    (∀ f rest, sightings fp reqs = f :: rest →
      ∃ r, (after reqs).sighted? fp = some r ∧ Folded fp reqs f r) ∧
    (∀ others r q, (sightings fp others).Perm (sightings fp reqs) →
      (after reqs).sighted? fp = some r → (after others).sighted? fp = some q →
      betterReplay r.replay q.replay = false ∧ betterReplay q.replay r.replay = false) ∧
    (∀ f opts id r, (after reqs).row? id = some r →
      ∃ r', (after (reqs ++ [.post f opts])).row? id = some r' ∧ r'.verdict = r.verdict ∧
        r'.verdict_note = r.verdict_note ∧ r'.verdict_at = r.verdict_at ∧
        r'.duplicate_of = r.duplicate_of) := by
  refine ⟨?_, ?_, fun f opts id r h => verdict_post f opts h⟩
  · intro f rest hlist
    cases agrees fp reqs with
    | unseen hs hb hr hnone => cases hs.symm.trans hlist
    | seen hhead hs hm =>
        rw [hlist] at hhead
        obtain rfl := Option.some.inj hhead
        exact ⟨_, hs, hm.folded⟩
  · intro others r q hperm hr hq
    obtain ⟨-, g, -, -, hg, hrep⟩ := folded_of_sighted hr
    obtain ⟨-, g', -, -, hg', hrep'⟩ := folded_of_sighted hq
    have heq := (firstMax_kept hg').key_eq_of_perm (firstMax_kept hg) hperm
    simp only [not_betterReplay_iff, hrep, hrep']
    exact ⟨heq.le, heq.ge⟩

end FleetRunner.Findings
