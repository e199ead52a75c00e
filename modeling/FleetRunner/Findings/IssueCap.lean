import FleetRunner.Findings.Machine
import Mathlib.Data.Finset.Card

/-!
# The issue cap

An issue is settled when it is a dry run, pending, filed or failed; a settled
issue is never planned again, so each finding settles once. The cap counts what
settled in the last 24 hours, and holds in every window of that length.

## Implementation notes

A finding enters the settled states when its issue is planned: going on from
pending to filed or failed, it is settled already.
-/

namespace FleetRunner.Findings

open Library

/-- The issue of a finding is in a settled state. -/
def settled (db : FindingsDb) (id : Nat) : Bool :=
  ((db.row? id).bind (·.issue_state)).any IssueState.settled

/-- The issue of a finding of the app settles with this request. -/
def Settles (app : String) (db : FindingsDb) (req : Request) (id : Nat) : Prop :=
  settled db id = false ∧ settled (step db req) id = true ∧
    ∃ r, (step db req).row? id = some r ∧ r.app = app

def day : Nat := 24 * 3600000

/-- The findings of the app that settle in the 24 hours from `start` on. -/
def SettlesWithin (app : String) (start : Nat) (reqs : List Request) (id : Nat) : Prop :=
  ∃ past req, past ++ [req] <+: reqs ∧ start ≤ (after past).now ∧
    (after past).now ≤ start + day ∧ Settles app (after past) req id

def pending (db : FindingsDb) (id : Nat) : Bool :=
  decide ((db.row? id).bind (·.issue_state) = some .pending)

/-- How often a finding becomes pending. -/
def pendings (id : Nat) (reqs : List Request) : Nat :=
  total step (fun db req => if !pending db id && pending (step db req) id then 1 else 0) .empty reqs

/-- The requests for a finding's issue that are with GitHub. -/
def inFlight (db : FindingsDb) (id : Nat) : Nat := db.filing.countP fun p => decide (p.1 = id)

/-- How many issues are posted for a finding. -/
def posted (id : Nat) (reqs : List Request) : Nat :=
  total step (fun db req => inFlight (step db req) id - inFlight db id) .empty reqs

/-! ## What is with GitHub -/

/-- Every request that is out is for a finding whose issue is settled. -/
def Filed (db : FindingsDb) : Prop := ∀ p ∈ db.filing, settled db p.1 = true

section Requests

variable {db : FindingsDb}

/-- Only a sighting sends a request. -/
theorem filing_step (db : FindingsDb) {req : Request} (h : ∀ f opts, req ≠ .post f opts) :
    (step db req).filing.Sublist db.filing := by
  cases req with
  | tick ms => exact List.Sublist.refl _
  | post f opts => exact absurd rfl (h f opts)
  | verdict j v note duplicateOf who read =>
      rcases step_verdict db j v note duplicateOf who read with hstep | ⟨target, q, -, -, hstep⟩
      · rw [hstep]
      · obtain ⟨regressions, hmove⟩ := moveRegression_frame
          (writeVerdict db j v note target who) (judge db.sqlNow v note target q) v read
        rw [hstep, hmove]
        exact List.Sublist.refl _
  | regressionRun j run =>
      rcases step_regressionRun db j run with hstep | ⟨_, _, -, -, ⟨-, hstep⟩ | ⟨-, hstep⟩⟩
      · rw [hstep]
      · rw [hstep]
        exact List.Sublist.refl _
      · rw [hstep]
        exact List.Sublist.refl _
  | github j reply =>
      change (finishFiling db j reply).filing.Sublist db.filing
      unfold finishFiling
      split
      · exact List.Sublist.refl _
      · exact List.eraseP_sublist

theorem filing_storeFinding (db : FindingsDb) (f : ExploreFinding) (opts : IssueOptions) :
    (storeFinding db f opts).1.filing = db.filing := by
  rw [storeFinding_fst]
  unfold maybePlanIssue writeSighting
  cases db.sighted? f.fingerprint <;> split <;> rfl

/-- A sighting sends at most one request, for the pending issue it planned. -/
theorem filing_post (db : FindingsDb) (f : ExploreFinding) (opts : IssueOptions) :
    (step db (.post f opts)).filing = db.filing ∨
      plansIssue (sightedRow db f) = true ∧
        (planIssue (writeSighting db f) (sightedRow db f) opts).state = .pending ∧
        ∃ record, (step db (.post f opts)).filing =
          db.filing ++ [((sightedRow db f).id, record)] := by
  change (postFinding db f opts).filing = _ ∨ _ ∧ _ ∧ ∃ record, (postFinding db f opts).filing = _
  have hstore := filing_storeFinding db f opts
  by_cases hplan : plansIssue (sightedRow db f) = true
  · have hpost : postFinding db f opts = startFiling (storeFinding db f opts).1 (sightedRow db f).id
        (planIssue (writeSighting db f) (sightedRow db f) opts) opts := by
      simp [postFinding, storeFinding, maybePlanIssue, hplan]
    rw [hpost, startFiling]
    split
    · exact Or.inl hstore
    · rename_i hsend
      have hpending : (planIssue (writeSighting db f) (sightedRow db f) opts).state = .pending := by
        by_contra hne
        exact hsend (Or.inl hne)
      exact Or.inr ⟨hplan, hpending, _, by rw [hstore]⟩
  · have hpost : postFinding db f opts = (storeFinding db f opts).1 := by
      simp [postFinding, storeFinding, maybePlanIssue, hplan]
    rw [hpost]
    exact Or.inl hstore

end Requests

/-! ## Settling -/

section Settling

variable {db : FindingsDb}

theorem settled_of_row {id : Nat} {r : FindingRow} (h : db.row? id = some r) :
    settled db id = r.issue_state.any IssueState.settled := by
  simp [settled, h]

theorem answered_ne_pending (record : IssueRecord) (reply : GithubReply) :
    (answered record reply).state ≠ .pending := by
  cases reply with
  | responded status url number =>
      by_cases hok : 200 ≤ status ∧ status ≤ 299 <;> simp [answered, hok]
  | failed message => simp [answered]

/-- A settled issue stays settled, with the time it was planned at. -/
theorem settled_stays (hn : Numbered db) (req : Request) {r : FindingRow}
    (hr : db.row? r.id = some r) (hs : r.issue_state.any IssueState.settled = true) :
    ∃ r', (step db req).row? r.id = some r' ∧ r'.issue_state.any IssueState.settled = true ∧
      (r'.issue_state = some .pending → r.issue_state = some .pending) ∧
      r'.issue_at = r.issue_at ∧ r'.app = r.app := by
  obtain ⟨r', hr', hc⟩ := step_row hn req hr
  refine ⟨r', hr', ?_⟩
  cases hc with
  | same | judged | reopened => exact ⟨hs, fun h => h, rfl, rfl⟩
  | @sighted f opts _ hs' =>
      have hrow := sightedRow_of_some hs'
      have hnot : ¬plansIssue (sightedRow db f) = true := by
        rw [hrow]
        simp [plansIssue, mergeSighting, hs]
      rw [plannedRow, if_neg hnot, hrow]
      exact ⟨hs, fun h => h, rfl, rfl⟩
  | answered reply hmem =>
      refine ⟨by simp [withAnswer, answered_settled], fun h => ?_, rfl, rfl⟩
      exact absurd (Option.some.inj h) (answered_ne_pending _ reply)

theorem settled_step (hn : Numbered db) (req : Request) {id : Nat} (h : settled db id = true) :
    settled (step db req) id = true := by
  cases hr : db.row? id with
  | none => simp [settled, hr] at h
  | some r =>
      obtain rfl := FindingsDb.id_of_row? hr
      rw [settled_of_row hr] at h
      obtain ⟨r', hr', hs', -, -, -⟩ := settled_stays hn req hr h
      rw [settled_of_row hr', hs']

/-- The row of a finding that is planned had no settled issue. -/
theorem unsettled_of_plans (hn : Numbered db) {f : ExploreFinding}
    (h : plansIssue (sightedRow db f) = true) : settled db (sightedRow db f).id = false := by
  cases hs : db.sighted? f.fingerprint with
  | none =>
      have hfree : db.row? (sightedRow db f).id = none := by
        rw [sightedRow_of_none hs]
        exact hn.free
      simp [settled, hfree]
  | some r =>
      have hrow := sightedRow_of_some hs
      rw [hrow, mergeSighting_id, settled_of_row (FindingsDb.row?_of_sighted? hs)]
      rw [hrow] at h
      have hunset : (!(mergeSighting db.sqlNow f r).issue_state.any IssueState.settled) = true := by
        simp only [plansIssue, Bool.and_eq_true] at h
        exact h.1.1
      simpa [mergeSighting] using hunset

/-- The row as a plan leaves it, where its issue was not settled before. -/
theorem plannedRow_of_settled {f : ExploreFinding} {opts : IssueOptions}
    (hbefore : (sightedRow db f).issue_state.any IssueState.settled = false)
    (hafter : (plannedRow db f opts).issue_state.any IssueState.settled = true) :
    (planIssue (writeSighting db f) (sightedRow db f) opts).state.settled = true ∧
      plannedRow db f opts =
        withIssue (planIssue (writeSighting db f) (sightedRow db f) opts) (sightedRow db f) := by
  by_cases hplan : plansIssue (sightedRow db f) = true
  · have hrow : plannedRow db f opts =
        withIssue (planIssue (writeSighting db f) (sightedRow db f) opts) (sightedRow db f) :=
      if_pos hplan
    rw [hrow] at hafter
    exact ⟨by simpa [withIssue] using hafter, hrow⟩
  · have hrow : plannedRow db f opts = sightedRow db f := if_neg hplan
    rw [hrow, hbefore] at hafter
    cases hafter

/-- An issue settles when a sighting of its finding plans it, under the cap of that moment. -/
theorem post_of_settles (hn : Numbered db) (hf : Filed db) {req : Request} {id : Nat}
    (hbefore : settled db id = false) (hafter : settled (step db req) id = true) :
    ∃ f opts, req = .post f opts ∧ id = (sightedRow db f).id ∧
      (planIssue (writeSighting db f) (sightedRow db f) opts).state.settled = true ∧
      (step db req).row? id =
        some (withIssue (planIssue (writeSighting db f) (sightedRow db f) opts)
          (sightedRow db f)) := by
  cases hr : db.row? id with
  | none =>
      cases hr' : (step db req).row? id with
      | none => simp [settled, hr'] at hafter
      | some r' =>
          obtain ⟨f, opts, rfl, hs, hid, rfl⟩ := step_new hn req hr hr'
          have hrow := sightedRow_of_none hs
          rw [settled_of_row hr'] at hafter
          obtain ⟨hset, heq⟩ := plannedRow_of_settled (by simp [hrow, newRow]) hafter
          exact ⟨f, opts, rfl, by rw [hrow]; exact hid, hset, by rw [heq]⟩
  | some r =>
      obtain rfl := FindingsDb.id_of_row? hr
      rw [settled_of_row hr] at hbefore
      obtain ⟨r', hr', hc⟩ := step_row hn req hr
      rw [settled_of_row hr'] at hafter
      cases hc with
      | same | judged | reopened => exact absurd hafter (by simp [hbefore, judge, reopen])
      | @sighted f opts _ hs =>
          have hrow := sightedRow_of_some hs
          obtain ⟨hset, heq⟩ :=
            plannedRow_of_settled (by simp [hrow, mergeSighting, hbefore]) hafter
          exact ⟨f, opts, rfl, by rw [hrow]; rfl, hset, by rw [hr', heq]⟩
      | answered reply hmem =>
          have hset := hf _ hmem
          rw [settled_of_row hr, hbefore] at hset
          cases hset

end Settling

/-! ## Each finding settles once -/

section Once

variable {db : FindingsDb}

/-- A request that goes out is for a finding that settles with it. -/
theorem settles_of_filing_post (hn : Numbered db) {f : ExploreFinding} {opts : IssueOptions}
    (hplan : plansIssue (sightedRow db f) = true)
    (hpending : (planIssue (writeSighting db f) (sightedRow db f) opts).state = .pending) :
    settled db (sightedRow db f).id = false ∧
      settled (step db (.post f opts)) (sightedRow db f).id = true := by
  refine ⟨unsettled_of_plans hn hplan, ?_⟩
  have hrow : (step db (.post f opts)).row? (sightedRow db f).id = some (plannedRow db f opts) := by
    change (postFinding db f opts).row? _ = _
    rw [row?_postFinding, row?_storeFinding hn, if_pos rfl]
  rw [settled_of_row hrow, plannedRow, if_pos hplan]
  simp [withIssue, hpending, IssueState.settled]

theorem Filed.step (hn : Numbered db) (hf : Filed db) (req : Request) : Filed (step db req) := by
  intro p hp
  by_cases hpost : ∃ f opts, req = .post f opts
  · obtain ⟨f, opts, rfl⟩ := hpost
    rcases filing_post db f opts with hsame | ⟨hplan, hpending, record, hsent⟩
    · rw [hsame] at hp
      exact settled_step hn _ (hf p hp)
    · rw [hsent] at hp
      rcases List.mem_append.mp hp with hp | hp
      · exact settled_step hn _ (hf p hp)
      · obtain rfl := List.mem_singleton.mp hp
        exact (settles_of_filing_post hn hplan hpending).2
  · have hsub := filing_step db fun f opts heq => hpost ⟨f, opts, heq⟩
    exact settled_step hn req (hf p (hsub.subset hp))

/-- What the desk keeps along every run. -/
def Consistent (db : FindingsDb) : Prop := Numbered db ∧ Filed db

theorem Consistent.step (h : Consistent db) (req : Request) : Consistent (step db req) :=
  ⟨h.1.step req, h.2.step h.1 req⟩

theorem consistent_empty : Consistent .empty :=
  ⟨numbered_empty, fun p hp => by cases hp⟩

/-- More requests are in flight only for a finding that settles. -/
theorem inFlight_step (h : Consistent db) (req : Request) (id : Nat) :
    inFlight (step db req) id - inFlight db id ≤
      if ¬settled db id = true ∧ settled (step db req) id = true then 1 else 0 := by
  by_cases hpost : ∃ f opts, req = .post f opts
  · obtain ⟨f, opts, rfl⟩ := hpost
    rcases filing_post db f opts with hsame | ⟨hplan, hpending, record, hsent⟩
    · simp [inFlight, hsame]
    · obtain ⟨hbefore, hafter⟩ := settles_of_filing_post h.1 hplan hpending
      by_cases hid : (sightedRow db f).id = id
      · subst hid
        simp [inFlight, hsent, hbefore, hafter]
      · simp [inFlight, hsent, hid]
  · have hsub := filing_step db fun f opts heq => hpost ⟨f, opts, heq⟩
    have hle : inFlight (step db req) id ≤ inFlight db id := hsub.countP_le
    omega

theorem settled_of_pending {id : Nat} (h : pending db id = true) : settled db id = true := by
  have hstate : (db.row? id).bind (·.issue_state) = some .pending := by simpa [pending] using h
  simp [settled, hstate, IssueState.settled]

/-- No finding becomes pending but by settling. -/
theorem pending_step (h : Consistent db) (req : Request) (id : Nat) :
    (if (!pending db id && pending (step db req) id) = true then 1 else 0) ≤
      if ¬settled db id = true ∧ settled (step db req) id = true then 1 else 0 := by
  by_cases hnow : (!pending db id && pending (step db req) id) = true
  · obtain ⟨hwas, his⟩ := Bool.and_eq_true_iff.mp hnow
    by_cases hset : settled db id = true
    · cases hr : db.row? id with
      | none => simp [settled, hr] at hset
      | some r =>
          obtain rfl := FindingsDb.id_of_row? hr
          rw [settled_of_row hr] at hset
          obtain ⟨r', hr', -, hback, -, -⟩ := settled_stays h.1 req hr hset
          have hpending : r.issue_state = some .pending := hback (by simpa [pending, hr'] using his)
          simp [pending, hr, hpending] at hwas
    · rw [if_pos hnow, if_pos ⟨hset, settled_of_pending his⟩]
  · rw [if_neg hnow]
    exact Nat.zero_le _

end Once

/-- Nothing that happens on settling only happens to a finding twice. -/
theorem once {count : FindingsDb → Request → Nat} {id : Nat}
    (hcount : ∀ db req, Consistent db →
      count db req ≤ if ¬settled db id = true ∧ settled (step db req) id = true then 1 else 0)
    (reqs : List Request) : total step count .empty reqs ≤ 1 :=
  total_le_one (I := Consistent) (S := fun db => settled db id = true) (fun _ req h => h.step req)
    (fun _ req h => settled_step h.1 req) hcount consistent_empty reqs

/-! ## The cap -/

/-- What settled at a time is on record with it. -/
def Recorded (app : String) (ms : Nat) (db : FindingsDb) (id : Nat) : Prop :=
  ∃ r, db.row? id = some r ∧ r.app = app ∧ r.issue_state.any IssueState.settled = true ∧
    r.issue_at = some (ms / 1000)

theorem Recorded.step {app : String} {ms id : Nat} {db : FindingsDb} (hn : Numbered db)
    (h : Recorded app ms db id) (req : Request) : Recorded app ms (step db req) id := by
  obtain ⟨r, hr, happ, hset, hat⟩ := h
  obtain rfl := FindingsDb.id_of_row? hr
  obtain ⟨r', hr', hset', -, hat', happ'⟩ := settled_stays hn req hr hset
  exact ⟨r', hr', happ'.trans happ, hset', hat'.trans hat⟩

theorem recorded_of_settles {app : String} {id : Nat} {db : FindingsDb} {req : Request}
    (h : Consistent db) (hs : Settles app db req id) : Recorded app db.now (step db req) id := by
  obtain ⟨hbefore, hafter, r, hr, happ⟩ := hs
  obtain ⟨f, opts, -, -, hset, hrow⟩ := post_of_settles h.1 h.2 hbefore hafter
  obtain rfl := Option.some.inj (hr.symm.trans hrow)
  exact ⟨_, hr, happ, hset, by simp [withIssue]⟩

/-- Findings of the app settled in the last 24 hours are counted. -/
theorem card_le_filedToday {db : FindingsDb} {f : FindingRow} {ids : Finset Nat}
    (h : ∀ id ∈ ids, id ≠ f.id ∧ ∃ ms, db.now ≤ ms + day ∧ Recorded f.app ms db id) :
    ids.card ≤ filedToday db f := by
  unfold filedToday
  rw [← List.length_map FindingRow.id]
  refine le_trans (Finset.card_le_card fun id hid => ?_) (List.toFinset_card_le _)
  obtain ⟨hne, ms, hms, r, hr, happ, hset, hat⟩ := h id hid
  obtain ⟨hmem, hkey⟩ := Table.find?_eq_some_iff.mp hr
  have htime : ((db.now : Int) - 86400000) / 1000 ≤ ((ms / 1000 : Nat) : Int) := by
    simp only [day] at hms
    omega
  rw [List.mem_toFinset, List.mem_map]
  refine ⟨r, List.mem_filter.mpr ⟨hmem, ?_⟩, hkey⟩
  rw [happ, hkey, hset, hat, Option.any_some, decide_eq_true htime]
  simp [hne]

section Cap

variable {app : String} {start : Nat}

theorem consistent (reqs : List Request) : Consistent (after reqs) :=
  invariant_all (fun _ req h => h.step req) consistent_empty reqs

theorem settlesWithin_concat {past : List Request} {req : Request} {id : Nat} :
    SettlesWithin app start (past ++ [req]) id ↔ SettlesWithin app start past id ∨
      start ≤ (after past).now ∧ (after past).now ≤ start + day ∧
        Settles app (after past) req id := by
  constructor
  · rintro ⟨older, q, holder, hwhen⟩
    rcases List.prefix_concat_iff.mp holder with heq | hpre
    · obtain ⟨rfl, hq⟩ := List.append_inj' heq rfl
      cases hq
      exact Or.inr hwhen
    · exact Or.inl ⟨older, q, hpre, hwhen⟩
  · rintro (⟨older, q, hpre, hwhen⟩ | hwhen)
    · exact ⟨older, q, hpre.trans (List.prefix_append past [req]), hwhen⟩
    · exact ⟨past, req, List.prefix_rfl, hwhen⟩

theorem not_settlesWithin_nil {id : Nat} : ¬SettlesWithin app start [] id := by
  rintro ⟨past, req, hpre, -⟩
  simp at hpre

/-- What settled in the window is on record after the run. -/
theorem recorded_of_settlesWithin (reqs : List Request) {id : Nat}
    (h : SettlesWithin app start reqs id) : ∃ ms, start ≤ ms ∧ Recorded app ms (after reqs) id := by
  induction reqs using List.reverseRecOn with
  | nil => exact absurd h not_settlesWithin_nil
  | append_singleton past req ih =>
      rw [after, run_concat]
      rcases settlesWithin_concat.mp h with hpast | ⟨hstart, -, hset⟩
      · obtain ⟨ms, hms, hrec⟩ := ih hpast
        exact ⟨ms, hms, hrec.step (numbered past) req⟩
      · exact ⟨_, hstart, recorded_of_settles (consistent past) hset⟩

/-- At most `cap` findings of an app settle in any 24 hours. -/
theorem card_le_cap {cap : Nat} (reqs : List Request)
    (hcap : ∀ f opts, Request.post f opts ∈ reqs → opts.capPerDay ≤ cap) (ids : Finset Nat)
    (hall : ∀ id ∈ ids, SettlesWithin app start reqs id) : ids.card ≤ cap := by
  induction reqs using List.reverseRecOn with
  | nil =>
      have hnone : ids = ∅ := Finset.eq_empty_of_forall_notMem fun id hid =>
        not_settlesWithin_nil (hall id hid)
      simp [hnone]
  | append_singleton past req ih =>
      by_cases hlast : ∃ id ∈ ids, Settles app (after past) req id ∧ start ≤ (after past).now ∧
          (after past).now ≤ start + day
      · -- the last of them to settle stayed under the cap with all the others on record
        obtain ⟨id, hid, hset, hstart, hend⟩ := hlast
        have hc := consistent past
        obtain ⟨hbefore, hafter, r, hr, happ⟩ := hset
        obtain ⟨f, opts, rfl, rfl, hplan, hrow⟩ := post_of_settles hc.1 hc.2 hbefore hafter
        obtain rfl := Option.some.inj (hr.symm.trans hrow)
        have hroom : (ids.erase (sightedRow (after past) f).id).card < opts.capPerDay := by
          refine lt_of_le_of_lt (card_le_filedToday fun j hj => ?_) (under_cap_of_settled hplan)
          obtain ⟨hne, hj⟩ := Finset.mem_erase.mp hj
          refine ⟨hne, ?_⟩
          rcases settlesWithin_concat.mp (hall j hj) with hpast | ⟨-, -, hnow⟩
          · obtain ⟨ms, hms, q, hq, hq'⟩ := recorded_of_settlesWithin past hpast
            refine ⟨ms, by rw [now_writeSighting]; omega, q, ?_, by rw [← happ] at hq'; exact hq'⟩
            rw [row?_writeSighting hc.1, if_neg hne, hq]
          · obtain ⟨g, gopts, heq, rfl, -⟩ := post_of_settles hc.1 hc.2 hnow.1 hnow.2.1
            cases heq
            exact absurd rfl hne
        have hle : opts.capPerDay ≤ cap := hcap f opts (by simp)
        have herase := Finset.card_erase_add_one hid
        omega
      · refine ih (fun f opts hmem => hcap f opts (List.mem_append_left _ hmem)) fun id hid => ?_
        rcases settlesWithin_concat.mp (hall id hid) with hpast | ⟨hstart, hend, hset⟩
        · exact hpast
        · exact absurd ⟨id, hid, hset, hstart, hend⟩ hlast

end Cap

/-- In any 24 hours at most `cap` issues of an app are settled, and over a run a finding
becomes pending once at most and has one issue posted at most, whatever is sighted, judged
or answered in between. -/
theorem issue_cap (cap : Nat) (reqs : List Request)
    (hcap : ∀ f opts, Request.post f opts ∈ reqs → opts.capPerDay ≤ cap) :
    (∀ app start (ids : Finset Nat), (∀ id ∈ ids, SettlesWithin app start reqs id) →
      ids.card ≤ cap) ∧
    ∀ id, pendings id reqs ≤ 1 ∧ posted id reqs ≤ 1 := by
  refine ⟨fun app start ids hall => card_le_cap reqs hcap ids hall, fun id => ⟨?_, ?_⟩⟩
  · exact once (fun _ req h => pending_step h req id) reqs
  · exact once (fun _ req h => inFlight_step h req id) reqs

/-- One finding of an app that has a repository, at an armed collector. -/
def filedOnce : List Request :=
  [.post (Sample.finding "a")
    { Sample.dark with repos := fun _ => some "garden/plants", armed := true, token := some "t" }]

theorem issue_cap_filedOnce :
    ({1} : Finset Nat).card ≤ 5 ∧ pendings 1 filedOnce ≤ 1 ∧ posted 1 filedOnce ≤ 1 := by
  have hcap : ∀ f opts, Request.post f opts ∈ filedOnce → opts.capPerDay ≤ 5 := by
    intro f opts hmem
    obtain ⟨rfl, rfl⟩ := Request.post.inj (List.mem_singleton.mp hmem)
    exact le_rfl
  have hsettles : SettlesWithin "plants" 0 filedOnce 1 :=
    ⟨[], _, List.prefix_rfl, Nat.zero_le _, Nat.zero_le _, by decide, by decide,
      _, rfl, rfl⟩
  have hall : ∀ id ∈ ({1} : Finset Nat), SettlesWithin "plants" 0 filedOnce id := by
    intro id hid
    obtain rfl := Finset.mem_singleton.mp hid
    exact hsettles
  have h := issue_cap 5 filedOnce hcap
  exact ⟨h.1 "plants" 0 {1} hall, h.2 1⟩

end FleetRunner.Findings
