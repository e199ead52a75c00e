import FleetRunner.Findings.Sightings
import FleetRunner.Findings.States

/-!
# The file next to the counts

The row keeps the counts of its best replay and one replay file, which is to be
the file those counts describe: it is what a person opens, and what a verdict
pins as the regression test. The counts move by comparison and the file by
filling a gap, so the two stay together only under a condition on what each
sighting carries.
-/

namespace FleetRunner.Findings

open Library

variable (fp : String)

/-- A stored file next to stored counts came with them. -/
def FileBelongs (past : List Request) : Prop :=
  ∀ r counts file, (after past).sighted? fp = some r → r.replay = some counts →
    r.artifacts.replay = some file → ∃ g, kept fp past = some g ∧ g.artifacts.replay = some file

/-- The flow a sighting posts with its counts. -/
def postedFlow (g : ExploreFinding) : Option String :=
  (g.replay.bind (·.sha256)).or g.artifacts.replay

def postedKind (g : ExploreFinding) : Option RegressionKind :=
  g.replay.bind fun counts =>
    match counts.kind with
    | .maestro => some .maestro
    | .tvloop => some .tvloop
    | .none => none

/-- A regression test pinned next to stored counts is the flow that came with them. -/
def FlowBelongs (past : List Request) (req : Request) : Prop :=
  ∀ r counts reg, (after past).sighted? fp = some r → r.replay = some counts →
    (after past).regression? r.id = none →
    (after (past ++ [req])).regression? r.id = some reg →
    ∃ g, kept fp past = some g ∧ g.replay = some counts ∧ reg.flow_sha256 = postedFlow g ∧
      some reg.kind = postedKind g

/-- A sighting whose counts are taken brings its file, or there is none to replace; one
whose counts are not taken fills no gap next to counts. -/
def FileFollows (db : FindingsDb) : Request → Prop
  | .post f _ => f.fingerprint = fp → ∀ r, db.sighted? fp = some r →
    if betterReplay r.replay f.replay then
      (heldHash? f.artifacts.replay).isSome ∨ r.artifacts.replay = none ∨
        f.artifacts.replay = r.artifacts.replay
    else r.replay = none ∨ r.artifacts.replay.isSome ∨ f.artifacts.replay = none
  | _ => True

/-! ## The file of the kept sighting -/

section Kept

variable {fp}

/-- Not a sighting of this fingerprint. -/
def Elsewhere (fp : String) (req : Request) : Prop :=
  ∀ f opts, req = .post f opts → f.fingerprint ≠ fp

theorem sightings_elsewhere {req : Request} (h : Elsewhere fp req) (past : List Request) :
    sightings fp (past ++ [req]) = sightings fp past := by
  cases req with
  | post f opts => simp [sightings, h f opts rfl]
  | tick _ | verdict _ _ _ _ _ _ | regressionRun _ _ | github _ _ => simp [sightings]

/-- Elsewhere nothing moves the counts or the file. -/
theorem evidence_elsewhere {db : FindingsDb} {req : Request} (h : Elsewhere fp req)
    {r r' : FindingRow} (hs : db.sighted? fp = some r) (hc : RowChange db req r r') :
    r'.replay = r.replay ∧ r'.artifacts = r.artifacts := by
  cases hc with
  | same | judged | reopened | answered => exact ⟨rfl, rfl⟩
  | sighted opts hs' =>
      exact absurd ((FindingsDb.fingerprint_of_sighted? hs').symm.trans
        (FindingsDb.fingerprint_of_sighted? hs)) (h _ opts rfl)

/-- The row a step leaves under a fingerprint, read back from the row before it. -/
theorem sighted_elsewhere {past : List Request} {req : Request} (h : Elsewhere fp req)
    {r' : FindingRow} (hs' : (after (past ++ [req])).sighted? fp = some r') :
    ∃ r, (after past).sighted? fp = some r ∧ r'.replay = r.replay ∧
      r'.artifacts = r.artifacts := by
  rw [after, run_concat] at hs'
  cases hs : (after past).sighted? fp with
  | none =>
      rw [step_unsighted hs h (numbered past)] at hs'
      cases hs'
  | some r =>
      obtain ⟨q, hq, hc⟩ := step_sighted (numbered past) req hs
      obtain rfl := Option.some.inj (hq.symm.trans hs')
      exact ⟨r, rfl, evidence_elsewhere h hs hc⟩

/-- The counts and the file a sighting of the fingerprint leaves. -/
theorem sighted_post (past : List Request) {f : ExploreFinding} (opts : IssueOptions)
    (hfp : f.fingerprint = fp) :
    ∃ r', (after (past ++ [.post f opts])).sighted? fp = some r' ∧
      r'.replay = (sightedRow (after past) f).replay ∧
      r'.artifacts = (sightedRow (after past) f).artifacts := by
  obtain ⟨issue, state, at_, hrow⟩ := plannedRow_eq (after past) f opts
  refine ⟨plannedRow (after past) f opts, ?_, by rw [hrow], by rw [hrow]⟩
  rw [after, run_concat]
  exact sighted?_step_post (numbered past) opts hfp

/-- A file the kept sighting brought is never lost, though another may stand in its place. -/
theorem file_of_kept (reqs : List Request) {r : FindingRow} {g : ExploreFinding}
    (hs : (after reqs).sighted? fp = some r) (hg : kept fp reqs = some g)
    (hfile : g.artifacts.replay.isSome) : r.artifacts.replay.isSome := by
  induction reqs using List.reverseRecOn generalizing r g with
  | nil => cases hs
  | append_singleton past req ih =>
      by_cases helse : Elsewhere fp req
      · obtain ⟨q, hq, -, hart⟩ := sighted_elsewhere helse hs
        rw [kept, sightings_elsewhere helse] at hg
        rw [hart]
        exact ih hq hg hfile
      · obtain ⟨f, opts, rfl, hfp⟩ : ∃ f opts, req = .post f opts ∧ f.fingerprint = fp := by
          simpa [Elsewhere] using helse
        obtain ⟨r', hr', -, hart⟩ := sighted_post past opts hfp
        obtain rfl := Option.some.inj (hr'.symm.trans hs)
        rw [kept_post past f opts hfp] at hg
        rw [hart]
        cases hq : (after past).sighted? fp with
        | none =>
            have hnone : kept fp past = none := by
              cases agrees fp past with
              | unseen hnil => simp [kept, hnil]
              | seen _ hsome => cases hq.symm.trans hsome
            rw [hnone] at hg
            obtain rfl := Option.some.inj hg
            rw [sightedRow_of_none (by rw [hfp, hq])]
            exact hfile
        | some q =>
            obtain ⟨-, b, -, -, hb, hrep⟩ := folded_of_sighted hq
            rw [sightedRow_of_some (by rw [hfp, hq])]
            rw [hb] at hg
            have hfill : (q.artifacts.fill f.artifacts).replay.isSome := by
              by_cases hbetter : betterReplay b.replay f.replay = true
              · obtain rfl : f = g := by simpa [pick, hbetter] using hg
                simp [Artifacts.fill, hfile]
              · obtain rfl : b = g := by simpa [pick, hbetter] using hg
                simp [Artifacts.fill, ih hq hb hfile]
            simp only [mergeSighting, mergeArtifacts]
            split
            · rename_i htaken
              have hheld := (Bool.and_eq_true_iff.mp htaken).2
              cases hsha : f.artifacts.replay with
              | none => simp [hsha, heldHash?] at hheld
              | some sha => rfl
            · exact hfill

end Kept

/-! ## Pinning -/

/-- A verdict that pins a regression test where there was none keeps the row's flow. -/
theorem pinned_of_moveRegression {db : FindingsDb} {f : FindingRow} {v : Option Verdict}
    {read : ReadArtifact} {reg : RegressionRow} (hnone : db.regression? f.id = none)
    (h : (moveRegression db f v read).1.regression? f.id = some reg) :
    ∃ sha text, heldHash? (flowShaOf f) = some sha ∧
      ¬f.replay.any (fun r => decide (r.kind = .none)) = true ∧
      reg.flow_sha256 = some sha ∧ reg.kind = flowKind f text := by
  have hkeep : ∀ state, (keepFlow db f state read).1.regression? f.id = some reg →
      ∃ sha text, heldHash? (flowShaOf f) = some sha ∧
        ¬f.replay.any (fun r => decide (r.kind = .none)) = true ∧
        reg.flow_sha256 = some sha ∧ reg.kind = flowKind f text := by
    intro state hk
    rcases keepFlow_cases db f state read with hsame | ⟨sha, text, hsha, hkind, -, hkept⟩
    · rw [hsame, hnone] at hk
      cases hk
    · have hfree : db.regressions.find? f.id = none := hnone
      rw [hkept] at hk
      change (db.regressions.insertNew (newRegression db.sqlNow f state sha text)).find? f.id =
        some reg at hk
      rw [Table.find?_insertNew, hfree, Option.none_or] at hk
      have hown : (newRegression db.sqlNow f state sha text).finding_id = f.id := rfl
      rw [if_pos hown] at hk
      obtain rfl := Option.some.inj hk
      exact ⟨sha, text, hsha, hkind, rfl, rfl⟩
  cases v with
  | none =>
      simp only [moveRegression, hnone] at h
      cases h
  | some v =>
      cases v with
      | real =>
          simp only [moveRegression, hnone] at h
          exact hkeep _ h
      | fixed =>
          simp only [moveRegression, hnone] at h
          exact hkeep _ h
      | duplicate | not_a_bug | agent_mistake =>
          simp only [moveRegression, hnone] at h
          cases h

/-- A request that pins a regression test keeps the flow of the row it found. -/
theorem pinned_of_step {db : FindingsDb} {req : Request} {r : FindingRow} {reg : RegressionRow}
    (hr : db.row? r.id = some r) (hnone : db.regression? r.id = none)
    (h : (step db req).regression? r.id = some reg) :
    ∃ sha text, heldHash? (flowShaOf r) = some sha ∧
      ¬r.replay.any (fun x => decide (x.kind = .none)) = true ∧
      reg.flow_sha256 = some sha ∧ reg.kind = flowKind r text := by
  cases req with
  | tick ms => cases hnone.symm.trans h
  | post f opts =>
      obtain ⟨findings, seq, filing, hframe⟩ := postFinding_frame db f opts
      change (postFinding db f opts).regression? r.id = _ at h
      rw [hframe] at h
      cases hnone.symm.trans h
  | verdict j v note duplicateOf who read =>
      rcases step_verdict db j v note duplicateOf who read with hstep | ⟨target, q, -, hq, hstep⟩
      · rw [hstep] at h
        cases hnone.symm.trans h
      · rw [hstep] at h
        have hqid := FindingsDb.id_of_row? hq
        by_cases hid : r.id = j
        · subst hid
          obtain rfl := Option.some.inj (hr.symm.trans hq)
          have hnone' : (writeVerdict db r.id v note target who).regression?
              (judge db.sqlNow v note target r).id = none := hnone
          exact pinned_of_moveRegression hnone' h
        · have hne : r.id ≠ (judge db.sqlNow v note target q).id := by
            rwa [judge_id, hqid]
          have hstay := testState_moveRegression_of_ne (writeVerdict db j v note target who)
            (judge db.sqlNow v note target q) read v hne
          have hbefore : testState (writeVerdict db j v note target who) r.id = none := by
            change (db.regression? r.id).map _ = none
            rw [hnone]
            rfl
          rw [hbefore, testState, h] at hstay
          cases hstay
  | regressionRun j run =>
      rcases step_regressionRun db j run with hstep | ⟨other, q, hother, -, hrecorded⟩
      · rw [hstep] at h
        cases hnone.symm.trans h
      · have hne : r.id ≠ j := by
          rintro rfl
          cases hnone.symm.trans hother
        rcases hrecorded with ⟨-, hstep⟩ | ⟨-, hstep⟩
        · rw [hstep, FindingsDb.regression?_addVerdict, FindingsDb.regression?_updateRow,
            FindingsDb.regression?_updateRegression, if_neg hne] at h
          cases hnone.symm.trans h
        · rw [hstep, FindingsDb.regression?_updateRegression, if_neg hne] at h
          cases hnone.symm.trans h
  | github j reply =>
      change (finishFiling db j reply).regression? r.id = _ at h
      unfold finishFiling at h
      split at h
      · cases hnone.symm.trans h
      · cases hnone.symm.trans h

/-! ## One more request -/

section OneMore

variable {fp}

theorem fileBelongs_iff {past : List Request} {r : FindingRow} {g : ExploreFinding}
    (hs : (after past).sighted? fp = some r) (hg : kept fp past = some g) :
    FileBelongs fp past ↔ (r.replay.isSome → ∀ file, r.artifacts.replay = some file →
      g.artifacts.replay = some file) := by
  constructor
  · intro h hcounts file hfile
    obtain ⟨counts, hcounts⟩ := Option.isSome_iff_exists.mp hcounts
    obtain ⟨k, hk, hown⟩ := h r counts file hs hcounts hfile
    obtain rfl := Option.some.inj (hg.symm.trans hk)
    exact hown
  · intro h q counts file hq hcounts hfile
    obtain rfl := Option.some.inj (hs.symm.trans hq)
    exact ⟨g, hg, h (by simp [hcounts]) file hfile⟩

theorem fileBelongs_of_unseen {past : List Request} (hs : (after past).sighted? fp = none) :
    FileBelongs fp past := by
  intro r counts file hr
  cases hs.symm.trans hr

theorem heldHash?_eq_some {sha : Option String} {s : String} (h : heldHash? sha = some s) :
    sha = some s :=
  (Option.filter_eq_some_iff.mp h).1

/-- A sighting elsewhere moves neither the counts nor the file. -/
theorem fileBelongs_elsewhere {past : List Request} {req : Request} (h : Elsewhere fp req)
    (hb : FileBelongs fp past) : FileBelongs fp (past ++ [req]) := by
  intro r' counts file hs' hcounts hfile
  obtain ⟨r, hs, hrep, hart⟩ := sighted_elsewhere h hs'
  rw [kept, sightings_elsewhere h]
  exact hb r counts file hs (hrep.symm.trans hcounts) (by rw [← hart]; exact hfile)

/-- A sighting keeps file and counts together exactly when it follows the condition. -/
theorem fileBelongs_post_iff {past : List Request} {f : ExploreFinding} (opts : IssueOptions)
    (hfp : f.fingerprint = fp) (hb : FileBelongs fp past) :
    FileBelongs fp (past ++ [.post f opts]) ↔ FileFollows fp (after past) (.post f opts) := by
  obtain ⟨r', hs', hrep', hart'⟩ := sighted_post past opts hfp
  have hkept := kept_post past f opts hfp
  cases hs : (after past).sighted? fp with
  | none =>
      refine iff_of_true ?_ fun _ r hr => by cases hs.symm.trans hr
      have hnone : kept fp past = none := by
        cases agrees fp past with
        | unseen hnil => simp [kept, hnil]
        | seen _ hsome => cases hs.symm.trans hsome
      rw [hnone] at hkept
      rw [fileBelongs_iff hs' hkept, hart', sightedRow_of_none (by rw [hfp, hs])]
      exact fun _ file hfile => hfile
  | some r =>
      obtain ⟨-, b, -, -, hkb, hrep⟩ := folded_of_sighted hs
      rw [sightedRow_of_some (by rw [hfp, hs])] at hrep' hart'
      have hcond : FileFollows fp (after past) (.post f opts) ↔
          if betterReplay r.replay f.replay then
            (heldHash? f.artifacts.replay).isSome ∨ r.artifacts.replay = none ∨
              f.artifacts.replay = r.artifacts.replay
          else r.replay = none ∨ r.artifacts.replay.isSome ∨ f.artifacts.replay = none := by
        constructor
        · exact fun h => h hfp r hs
        · intro h _ q hq
          obtain rfl := Option.some.inj (hs.symm.trans hq)
          exact h
      rw [hcond]
      rw [hkb, pick, ← hrep] at hkept
      by_cases hbetter : betterReplay r.replay f.replay = true
      · -- the counts are taken: the file has to come with them
        rw [if_pos hbetter] at hkept ⊢
        have hcounts : r'.replay.isSome := by
          have htaken : r'.replay = f.replay := hrep'.trans (if_pos hbetter)
          rw [htaken]
          cases hf : f.replay with
          | none => simp [betterReplay, hf] at hbetter
          | some n => rfl
        have hfile : r'.artifacts.replay = if (heldHash? f.artifacts.replay).isSome then
            f.artifacts.replay else r.artifacts.replay.or f.artifacts.replay := by
          rw [hart']
          by_cases hheld : (heldHash? f.artifacts.replay).isSome <;>
            simp [mergeSighting, mergeArtifacts, hbetter, hheld, Artifacts.fill]
        rw [fileBelongs_iff hs' hkept, hfile]
        by_cases hheld : (heldHash? f.artifacts.replay).isSome
        · simp [hheld]
        · cases hr : r.artifacts.replay with
          | none => simp
          | some old =>
              simp only [hheld, hcounts, Option.some_or, Option.some.injEq, forall_const,
                forall_eq', reduceCtorEq, false_or, if_false, Bool.false_eq_true]
      · -- the counts stay: a file may only fill a gap that has no counts
        rw [if_neg hbetter] at hkept ⊢
        have hcounts : r'.replay = r.replay := by simp [hrep', mergeSighting, hbetter]
        have hfile : r'.artifacts.replay = r.artifacts.replay.or f.artifacts.replay := by
          simp [hart', mergeSighting, mergeArtifacts, hbetter, Artifacts.fill]
        rw [fileBelongs_iff hs' hkept, hfile, hcounts]
        cases hr : r.artifacts.replay with
        | some old =>
            refine iff_of_true (fun hc file hf => ?_) (by simp)
            exact (fileBelongs_iff hs hkb).mp hb hc file (by simpa [hr] using hf)
        | none =>
            have hown : b.artifacts.replay = none := by
              by_contra hsome
              have hkeeps := file_of_kept past hs hkb (Option.isSome_iff_ne_none.mpr hsome)
              rw [hr] at hkeeps
              cases hkeeps
            cases hc : r.replay with
            | none => simp
            | some counts => cases hf : f.artifacts.replay <;> simp [hown]

/-- A pinned flow came with the counts, where the file does. -/
theorem flowBelongs_of_fileBelongs {past : List Request} (hb : FileBelongs fp past)
    (req : Request) : FlowBelongs fp past req := by
  intro r counts reg hs hcounts hnone hreg
  rw [after, run_concat] at hreg
  obtain ⟨sha, text, hsha, hkind, hflow, hreg⟩ :=
    pinned_of_step (FindingsDb.row?_of_sighted? hs) hnone hreg
  obtain ⟨-, g, -, -, hkept, hrep⟩ := folded_of_sighted hs
  have hg : g.replay = some counts := hrep.symm.trans hcounts
  refine ⟨g, hkept, hg, ?_, ?_⟩
  · rw [hflow]
    have hrow := heldHash?_eq_some hsha
    rw [flowShaOf, hcounts, Option.bind_some] at hrow
    rw [postedFlow, hg, Option.bind_some]
    cases hown : counts.sha256 with
    | some own => rw [hown] at hrow; exact hrow.symm
    | none =>
        rw [hown, Option.none_or] at hrow
        obtain ⟨k, hk, hfile⟩ := hb r counts sha hs hcounts hrow
        obtain rfl := Option.some.inj (hkept.symm.trans hk)
        exact hfile.symm
  · rw [hreg, postedKind, hg, flowKind, hcounts, Option.bind_some]
    rw [hcounts] at hkind
    cases hcase : counts.kind with
    | maestro => simp [hcase]
    | tvloop => simp [hcase]
    | none => simp [hcase] at hkind

end OneMore

/-- The stored replay file, and with it the flow a verdict pins, is the one that came with
the stored counts, in every state of a run, exactly when every sighting of the run follows
the condition. -/
theorem replay_file_belongs_iff (reqs : List Request) :
    ((∀ past, past <+: reqs → FileBelongs fp past) ∧
      ∀ past req, past ++ [req] <+: reqs → FlowBelongs fp past req) ↔
      Along step (FileFollows fp) .empty reqs := by
  have hstep : ∀ past req, FileBelongs fp past →
      (FileBelongs fp (past ++ [req]) ↔ FileFollows fp (after past) req) := by
    intro past req hb
    by_cases helse : Elsewhere fp req
    · refine iff_of_true (fileBelongs_elsewhere helse hb) ?_
      cases req with
      | post f opts => exact fun hfp => absurd hfp (helse f opts rfl)
      | tick _ | verdict _ _ _ _ _ _ | regressionRun _ _ | github _ _ => trivial
    · obtain ⟨f, opts, rfl, hfp⟩ : ∃ f opts, req = .post f opts ∧ f.fingerprint = fp := by
        simpa [Elsewhere] using helse
      exact fileBelongs_post_iff opts hfp hb
  have hfile := prefixes_iff (P := FileBelongs fp) (s := FindingsDb.empty) (fileBelongs_of_unseen rfl)
    hstep reqs
  rw [← hfile, and_iff_left_iff_imp]
  intro h past req hpast
  exact flowBelongs_of_fileBelongs (h past ((List.prefix_append past [req]).trans hpast)) req

/-- Two replays out of two, whose file could not be uploaded. -/
def unfiled : ExploreFinding :=
  { Sample.finding "a" with
    replay := (Sample.finding "a").replay.map fun r => { r with sha256 := none } }

/-- One out of two, with its file. -/
def flaky : ExploreFinding :=
  { Sample.finding "a" with
    replay := some ⟨.maestro, some "f2", 2, 1, Sample.two_attempts, by decide⟩
    artifacts := { Artifacts.empty with replay := some "f2" } }

/-- The file of the worse replay stands next to the counts of the better one. -/
theorem replay_file_of_another : ¬∀ fp reqs,
    (∀ past, past <+: reqs → FileBelongs fp past) ∧
      ∀ past req, past ++ [req] <+: reqs → FlowBelongs fp past req := by
  intro h
  let reqs : List Request := [.post unfiled Sample.dark, .post flaky Sample.dark]
  have hrow : ((after reqs).sighted? "a").any (fun r =>
      decide (r.replay = unfiled.replay) && decide (r.artifacts.replay = some "f2")) = true := by
    decide
  obtain ⟨r, hr, hboth⟩ := (Option.any_eq_true _ _).mp hrow
  obtain ⟨hcounts, hfile⟩ : r.replay = unfiled.replay ∧ r.artifacts.replay = some "f2" := by
    simpa using hboth
  have hkept : (kept "a" reqs).any (fun g => decide (g.artifacts.replay = none)) = true := by
    decide
  obtain ⟨g, hg, hown⟩ := (h "a" reqs).1 reqs List.prefix_rfl r _ "f2" hr hcounts hfile
  rw [hg] at hkept
  simp [hown] at hkept

end FleetRunner.Findings
