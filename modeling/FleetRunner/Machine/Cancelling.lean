import FleetRunner.Machine.Gate

/-!
# Who a refusal to renew cancels (`agent.ts`, `cancellation.ts`)

The slot holds a job's id, and two collectors may give one id to two jobs. A
refusal that arrives late is read by whatever runs under its id by then, and
one that no run clears stays for the next job of that name.
-/

namespace FleetRunner.Machine

open Library

namespace Agent

/-! ## Cancellation -/

/-- A running job is marked cancelled only if its own collector refused to renew its claim. -/
def RightlyCancelled (s : Agent) : Prop :=
  ∀ c h, s.claims c = .running h → s.isCancelled h.job_id = true → (h.collector, h) ∈ s.denied

/-- Whatever runs under this id is what the answer is about, or has been refused itself. -/
def Heeded (s : Agent) (jobId : String) (r : Reply) : Prop :=
  r.renewed = false → ∀ c h, s.claims c = .running h → h.job_id = jobId →
    r.about = some h ∨ (h.collector, h) ∈ s.denied

/-- No refusal is heard by a run it is not about, and no job starts under a
cancellation that is left over. -/
def Timely (js : Js) (s : Agent) : Event → Prop
  | .go c sample => ∀ h, s.claims c = .checking h → constraintError js h.constraints sample = none →
      s.isCancelled h.job_id = false ∨ (h.collector, h) ∈ s.denied
  | .beat c => ∀ b r, s.beacons c = .answered b r → ∀ jobId, b.job_id = some jobId → s.Heeded jobId r
  | .hearTick i => ∀ t r, s.ticks[i]? = some t → t.reply = some r → s.Heeded t.job_id r
  | _ => True

/-- A refusal on its way is on record, under the collector whose job it is about. -/
def OnRecord (s : Agent) (r : Reply) : Prop :=
  r.renewed = false → ∀ h, r.about = some h → (h.collector, h) ∈ s.denied

structure Recorded (s : Agent) : Prop where
  beacons : ∀ c b r, s.beacons c = .answered b r → s.OnRecord r
  ticks : ∀ t ∈ s.ticks, ∀ r, t.reply = some r → s.OnRecord r

theorem recorded_start : Recorded start := ⟨nofun, nofun⟩

section Replies

variable {s : Agent}

/-- What a collector answers is about a claim of its own. -/
theorem collector_of_lastHanded {c jobId : String} {h : Handed} (hh : s.lastHanded c jobId = some h) :
    h.collector = c := by
  have hfound := List.find?_some hh
  exact (of_decide_eq_true hfound).1

theorem onRecord_judged (s : Agent) (c : String) (jobId : Option String) (renewed : Bool) :
    (s.judged c jobId renewed).1.OnRecord (s.judged c jobId renewed).2 := by
  intro hrenewed h habout
  cases renewed with
  | true => cases hrenewed
  | false =>
      change jobId.bind (s.lastHanded c) = some h at habout
      have hown : h.collector = c := by
        obtain ⟨id, -, hid⟩ := Option.bind_eq_some_iff.mp habout
        exact collector_of_lastHanded hid
      simp [judged, habout, hown]

theorem denied_judged {c : String} {jobId : Option String} {renewed : Bool} :
    ∀ x ∈ s.denied, x ∈ (s.judged c jobId renewed).1.denied := by
  intro x hx
  cases renewed with
  | true => exact hx
  | false => exact List.mem_append_right _ hx

/-- What is on record stays there. -/
theorem OnRecord.mono {s' : Agent} (hdenied : ∀ x ∈ s.denied, x ∈ s'.denied) {r : Reply}
    (h : s.OnRecord r) : s'.OnRecord r :=
  fun hr j hj => hdenied _ (h hr j hj)

theorem hear_beacons (jobId : Option String) (r : Reply) :
    (s.hear jobId r).beacons = s.beacons ∧ (s.hear jobId r).ticks = s.ticks ∧
      (s.hear jobId r).denied = s.denied := by
  unfold hear
  cases jobId with
  | none => exact ⟨rfl, rfl, rfl⟩
  | some id =>
      simp only
      split <;> exact ⟨rfl, rfl, rfl⟩

theorem recorded_claimStep {s' : Agent} {c : String} (h : ClaimStep s s' c) (hs : Recorded s) :
    Recorded s' := by
  have hkeep : ∀ {r}, s.OnRecord r → s'.OnRecord r := OnRecord.mono fun x hx => by rwa [h.denied]
  constructor
  · rw [h.beacons]
    exact fun c b r hr => hkeep (hs.beacons c b r hr)
  · rw [h.ticks]
    exact fun t ht r hr => hkeep (hs.ticks t ht r hr)

theorem recorded_setBeacon (hs : Recorded s) (c : String) {l : BeaconLoop}
    (hl : ∀ b r, l = .answered b r → s.OnRecord r) : Recorded (s.setBeacon c l) := by
  refine ⟨fun c' b r hr => ?_, hs.ticks⟩
  change Function.update s.beacons c l c' = _ at hr
  by_cases hc : c' = c
  · rw [hc, Function.update_self] at hr
    exact hl b r hr
  · rw [Function.update_of_ne hc] at hr
    exact hs.beacons c' b r hr

theorem recorded_hear (hs : Recorded s) (jobId : Option String) (r : Reply) :
    Recorded (s.hear jobId r) := by
  obtain ⟨hbeacons, hticks, hdenied⟩ := hear_beacons (s := s) jobId r
  have hkeep : ∀ {r'}, s.OnRecord r' → (s.hear jobId r).OnRecord r' :=
    OnRecord.mono fun x hx => by rwa [hdenied]
  constructor
  · rw [hbeacons]
    exact fun c b r' hr => hkeep (hs.beacons c b r' hr)
  · rw [hticks]
    exact fun t ht r' hr => hkeep (hs.ticks t ht r' hr)

theorem recorded_judged (hs : Recorded s) (c : String) (jobId : Option String) (renewed : Bool) :
    Recorded (s.judged c jobId renewed).1 := by
  have hkeep : ∀ {r}, s.OnRecord r → (s.judged c jobId renewed).1.OnRecord r :=
    OnRecord.mono denied_judged
  cases renewed <;>
    exact ⟨fun c' b r hr => hkeep (hs.beacons c' b r hr), fun t ht r hr => hkeep (hs.ticks t ht r hr)⟩

theorem recorded_beat (hs : Recorded s) (c : String) : Recorded (s.beat c) := by
  unfold beat
  cases s.beacons c with
  | resting => exact recorded_setBeacon hs c nofun
  | sampling mine => exact recorded_setBeacon hs c nofun
  | posted b => exact hs
  | answered b r =>
      have hresting : Recorded (s.setBeacon c .resting) := recorded_setBeacon hs c nofun
      exact recorded_hear hresting b.job_id r

theorem recorded_answer (hs : Recorded s) (c : String) (renewed : Bool) :
    Recorded (s.answer c renewed) := by
  unfold answer
  cases s.beacons c with
  | posted b =>
      apply recorded_setBeacon (recorded_judged hs c b.job_id renewed)
      rintro b' r ⟨⟩
      exact onRecord_judged s c b.job_id renewed
  | _ => exact hs

theorem recorded_tick (hs : Recorded s) (c : String) : Recorded (s.tick c) := by
  unfold tick
  cases s.claims c with
  | running h =>
      refine ⟨hs.beacons, fun t ht r hr => ?_⟩
      rcases List.mem_append.mp ht with hold | hnew
      · exact hs.ticks t hold r hr
      · rw [List.mem_singleton.mp hnew] at hr
        cases hr
  | _ => exact hs

theorem recorded_answerTick (hs : Recorded s) (i : Nat) (renewed : Bool) :
    Recorded (s.answerTick i renewed) := by
  unfold answerTick
  split
  · rename_i t _
    split
    · exact hs
    · have hjudged := recorded_judged hs t.collector (some t.job_id) renewed
      refine ⟨hjudged.beacons, fun t' ht' r hr => ?_⟩
      rcases List.mem_or_eq_of_mem_set ht' with hold | rfl
      · exact OnRecord.mono denied_judged (hs.ticks t' hold r hr)
      · cases hr
        exact onRecord_judged s t.collector (some t.job_id) renewed
  · exact hs

theorem recorded_hearTick (hs : Recorded s) (i : Nat) : Recorded (s.hearTick i) := by
  unfold hearTick
  split
  · rename_i t _
    split
    · rename_i r _
      have herased : Recorded { s with ticks := s.ticks.eraseIdx i } :=
        ⟨hs.beacons, fun t' ht' => hs.ticks t' (List.mem_of_mem_eraseIdx ht')⟩
      exact recorded_hear herased (some t.job_id) r
    · exact hs
  · exact hs

theorem recorded_step (js : Js) (hs : Recorded s) (e : Event) : Recorded (step js s e) := by
  cases e with
  | go c sample => exact recorded_claimStep (claimStep_go js s c sample) hs
  | hand c jobId constraints => exact recorded_claimStep (claimStep_hand s c jobId constraints) hs
  | expire c => exact recorded_claimStep (claimStep_expire s c) hs
  | beat c => exact recorded_beat hs c
  | answer c renewed => exact recorded_answer hs c renewed
  | tick c => exact recorded_tick hs c
  | answerTick i renewed => exact recorded_answerTick hs i renewed
  | hearTick i => exact recorded_hearTick hs i

end Replies

section Cancelling

variable {s : Agent}

/-- Nothing new runs, no flag is raised and no refusal forgotten. -/
theorem RightlyCancelled.mono {s' : Agent} (hs : RightlyCancelled s)
    (hrun : ∀ c h, s'.claims c = .running h → s.claims c = .running h)
    (hflag : ∀ id, s'.isCancelled id = true → s.isCancelled id = true)
    (hdenied : ∀ x ∈ s.denied, x ∈ s'.denied) : RightlyCancelled s' :=
  fun c h hc hh => hdenied _ (hs c h (hrun c h hc) (hflag _ hh))

/-- A loop that moves anywhere but into a workload cancels nothing. -/
theorem RightlyCancelled.claimStep {s' : Agent} {c : String} (hs : RightlyCancelled s)
    (h : ClaimStep s s' c) (hidle : ∀ j, s'.claims c ≠ .running j) : RightlyCancelled s' := by
  apply hs.mono
  · intro c' j hc'
    by_cases hc : c' = c
    · rw [hc] at hc'
      exact absurd hc' (hidle j)
    · rwa [← h.claims c' hc]
  · exact h.flag
  · exact fun x hx => by rwa [h.denied]

theorem RightlyCancelled.setClaim (hs : RightlyCancelled s) (c : String) {l : ClaimLoop}
    (hidle : ∀ j, l ≠ .running j) : RightlyCancelled (s.setClaim c l) := by
  apply hs.claimStep (claimStep_setClaim s c l)
  rwa [claims_setClaim_self]

/-- A workload is started in one place, after the constraints are met. -/
theorem checking_of_running_go {js : Js} {c : String} {sample : PowerSample} {h : Handed}
    (hgo : (s.go js c sample).claims c = .running h) :
    s.claims c = .checking h ∧ constraintError js h.constraints sample = none := by
  revert hgo
  unfold go
  cases hc : s.claims c with
  | ready =>
      simp only
      split
      · simp [hc]
      · simp
  | polling => simp [hc]
  | answered j =>
      simp only [takeOrRelease]
      cases s.gate <;> simp [setClaim]
  | checking j =>
      simp only
      split
      · simp
      · rename_i hok
        simp only [claims_setClaim_self, ClaimLoop.running.injEq, ClaimLoop.checking.injEq]
        rintro rfl
        exact ⟨rfl, by simpa using hok⟩
  | releasing j => simp [setClaim]
  | refusing j => simp [setClaim, releaseGate]
  | running j => simp [setClaim]
  | reported j => simp [setClaim, releaseGate]

/-- What a workload reads when it starts is for it exactly when nothing was left over. -/
theorem rightlyCancelled_go_iff (js : Js) (hs : RightlyCancelled s) (c : String)
    (sample : PowerSample) :
    RightlyCancelled (s.go js c sample) ↔ Timely js s (.go c sample) := by
  simp only [Timely]
  by_cases hstart : ∃ h, s.claims c = .checking h ∧ constraintError js h.constraints sample = none
  · obtain ⟨h, hc, hok⟩ := hstart
    have hgo : s.go js c sample = s.setClaim c (.running h) := by
      simp [go, hc, hok]
    rw [hgo]
    simp only [hc, ClaimLoop.checking.injEq, forall_eq', hok, true_imp_iff]
    constructor
    · intro hafter
      cases hflag : s.isCancelled h.job_id with
      | false => exact .inl rfl
      | true => exact .inr (hafter c h (claims_setClaim_self s c _) hflag)
    · rintro htimely c' j hc' hflag
      by_cases hcc : c' = c
      · rw [hcc, claims_setClaim_self] at hc'
        cases hc'
        change s.isCancelled h.job_id = true at hflag
        exact htimely.resolve_left (by simp [hflag])
      · rw [claims_setClaim_of_ne s hcc] at hc'
        exact hs c' j hc' hflag
  · refine iff_of_true ?_ fun h hc hok => absurd ⟨h, hc, hok⟩ hstart
    apply hs.claimStep (claimStep_go js s c sample)
    exact fun j hj => hstart ⟨j, checking_of_running_go hj⟩

/-- A refusal that is heard cancels what runs under the id, whoever it is about. -/
theorem rightlyCancelled_hear_iff (hs : RightlyCancelled s) {r : Reply} (hr : s.OnRecord r)
    (jobId : String) : RightlyCancelled (s.hear (some jobId) r) ↔ s.Heeded jobId r := by
  cases hrenewed : r.renewed with
  | true =>
      have hsame : s.hear (some jobId) r = s := by simp [hear, hrenewed]
      rw [hsame]
      exact iff_of_true hs fun hfalse => nomatch hrenewed.symm.trans hfalse
  | false =>
      have hcancel : s.hear (some jobId) r =
          { s with cancelledJobId := JobCancellation.cancel jobId } := by
        simp [hear, hrenewed]
      rw [hcancel]
      constructor
      · rintro hafter - c h hc rfl
        exact .inr (hafter c h hc (by simp [isCancelled, JobCancellation.isCancelled,
          JobCancellation.cancel]))
      · intro hheeded c h hc hflag
        have hid : jobId = h.job_id := by
          simpa [isCancelled, JobCancellation.isCancelled, JobCancellation.cancel] using hflag
        rcases hheeded hrenewed c h hc hid.symm with habout | hdenied
        · exact hr hrenewed h habout
        · exact hdenied

theorem rightlyCancelled_judged (hs : RightlyCancelled s) (c : String) (jobId : Option String)
    (renewed : Bool) : RightlyCancelled (s.judged c jobId renewed).1 := by
  apply hs.mono
  · rw [(beaconStep_judged s c jobId renewed).claims]
    exact fun _ _ h => h
  · cases renewed <;> exact fun _ h => h
  · exact denied_judged

theorem rightlyCancelled_hand (hs : RightlyCancelled s) (c jobId : String)
    (constraints : Option Json) : RightlyCancelled (s.hand c jobId constraints) := by
  unfold hand
  cases s.claims c with
  | polling => exact hs.setClaim c (by rintro _ ⟨⟩)
  | _ => exact hs

theorem rightlyCancelled_expire (hs : RightlyCancelled s) (c : String) :
    RightlyCancelled (s.expire c) := by
  unfold expire
  cases s.claims c with
  | polling => exact hs.setClaim c (by rintro _ ⟨⟩)
  | _ => exact hs

theorem rightlyCancelled_beat_iff (js : Js) (hrec : Recorded s) (hs : RightlyCancelled s)
    (c : String) : RightlyCancelled (s.beat c) ↔ Timely js s (.beat c) := by
  simp only [beat, Timely]
  cases hb : s.beacons c with
  | answered b r =>
      have hresting : RightlyCancelled (s.setBeacon c .resting) := hs
      cases hmine : b.job_id with
      | none =>
          simp only [hmine]
          refine iff_of_true hresting ?_
          rintro b' r' ⟨⟩ jobId hjob
          rw [hmine] at hjob
          cases hjob
      | some jobId =>
          simp only [hmine]
          refine (rightlyCancelled_hear_iff hresting (hrec.beacons c b r hb) jobId).trans ?_
          constructor
          · rintro hheeded b' r' ⟨⟩ jobId' hjob
            rw [hmine] at hjob
            cases hjob
            exact hheeded
          · exact fun h => h b r rfl jobId hmine
  | _ => exact iff_of_true hs (by rintro _ _ ⟨⟩)

theorem rightlyCancelled_answer (hs : RightlyCancelled s) (c : String) (renewed : Bool) :
    RightlyCancelled (s.answer c renewed) := by
  unfold answer
  cases s.beacons c with
  | posted b => exact rightlyCancelled_judged hs c b.job_id renewed
  | _ => exact hs

theorem rightlyCancelled_tick (hs : RightlyCancelled s) (c : String) :
    RightlyCancelled (s.tick c) := by
  unfold tick
  cases s.claims c <;> exact hs

theorem rightlyCancelled_answerTick (hs : RightlyCancelled s) (i : Nat) (renewed : Bool) :
    RightlyCancelled (s.answerTick i renewed) := by
  unfold answerTick
  split
  · rename_i t _
    split
    · exact hs
    · exact rightlyCancelled_judged hs t.collector (some t.job_id) renewed
  · exact hs

theorem rightlyCancelled_hearTick_iff (js : Js) (hrec : Recorded s) (hs : RightlyCancelled s)
    (i : Nat) : RightlyCancelled (s.hearTick i) ↔ Timely js s (.hearTick i) := by
  simp only [hearTick, Timely]
  cases ht : s.ticks[i]? with
  | none => exact iff_of_true hs (by rintro _ _ ⟨⟩)
  | some t =>
      cases hreply : t.reply with
      | none =>
          refine iff_of_true ?_ ?_
          · simp only [hreply]
            exact hs
          · rintro t' r ⟨⟩ hr
            rw [hreply] at hr
            cases hr
      | some r =>
          have herased : RightlyCancelled { s with ticks := s.ticks.eraseIdx i } := hs
          have hknown : OnRecord { s with ticks := s.ticks.eraseIdx i } r :=
            hrec.ticks t (List.mem_of_getElem? ht) r hreply
          simp only [hreply]
          refine (rightlyCancelled_hear_iff herased hknown t.job_id).trans ?_
          constructor
          · rintro hheeded t' r' ⟨⟩ hr
            rw [hreply] at hr
            cases hr
            exact hheeded
          · exact fun h => h t r rfl hreply

theorem rightlyCancelled_step_iff (js : Js) (hrec : Recorded s) (hs : RightlyCancelled s)
    (e : Event) : RightlyCancelled (step js s e) ↔ Timely js s e := by
  cases e with
  | go c sample => exact rightlyCancelled_go_iff js hs c sample
  | hand c jobId constraints =>
      exact iff_of_true (rightlyCancelled_hand hs c jobId constraints) trivial
  | expire c => exact iff_of_true (rightlyCancelled_expire hs c) trivial
  | beat c => exact rightlyCancelled_beat_iff js hrec hs c
  | answer c renewed => exact iff_of_true (rightlyCancelled_answer hs c renewed) trivial
  | tick c => exact iff_of_true (rightlyCancelled_tick hs c) trivial
  | answerTick i renewed => exact iff_of_true (rightlyCancelled_answerTick hs i renewed) trivial
  | hearTick i => exact rightlyCancelled_hearTick_iff js hrec hs i

end Cancelling

/-- What an agent that serves several collectors owes them, after these events. -/
structure ServesWell (js : Js) (past : List Event) : Prop where
  oneJob : ∀ c c', ((after js past).claims c).taken?.isSome = true →
    ((after js past).claims c').taken?.isSome = true → c = c'
  noneLost : ∀ h ∈ (after js past).handed, ∀ more, 3 ≤ more.countP (goesOn h.collector) →
    (after js (past ++ more)).Settled h
  once : ∀ h ∈ (after js past).closed, ∀ whom, (whom, h) ∉ (after js past).released
  givenBack : ∀ r ∈ (after js past).released, r.1 = r.2.collector ∧ r.2 ∈ (after js past).handed
  cancelled : RightlyCancelled (after js past)

/-- A job in hand is settled by the time its loop has gone on three times. -/
theorem settled_of_goesOn (js : Js) {past more : List Event} {h : Handed}
    (hmem : h ∈ (after js past).handed) (hmore : 3 ≤ more.countP (goesOn h.collector)) :
    (after js (past ++ more)).Settled h := by
  rw [after, run_append]
  apply settled_run
  refine (((gated_after js past).loops h.collector).settled h hmem rfl).imp_right fun hopen => ?_
  exact ⟨hopen, Nat.le_trans (ClaimLoop.left_le _) hmore⟩

/-- In every run the agent has one job at a time and loses none, and it cancels rightly
exactly when no refusal is heard late and no cancellation left over. -/
theorem serves_well_iff (js : Js) (events : List Event) :
    (∀ past, past <+: events → ServesWell js past) ↔
      Along (step js) (Timely js) start events := by
  have hserves : ∀ past, ServesWell js past ↔ RightlyCancelled (after js past) := by
    intro past
    have hgated := gated_after js past
    refine ⟨fun h => h.cancelled, fun hcancelled => ?_⟩
    exact { oneJob := fun _ _ => hgated.one, noneLost := fun h hmem more => settled_of_goesOn js hmem
            once := fun h hh => (hgated.closed h hh).2, givenBack := hgated.released
            cancelled := hcancelled }
  simp only [hserves]
  apply steps_iff (I := Recorded) (P := RightlyCancelled)
  · exact fun s e hs => recorded_step js hs e
  · exact fun s e hrec hs => rightlyCancelled_step_iff js hrec hs e
  · exact recorded_start
  · exact nofun

/-- A sample of a machine without a battery. -/
def mains : PowerSample := ⟨none, some true, none⟩

/-- Two collectors hand over a job of the same name, one after the other. The first
judges a beacon once its job is done, and the answer arrives during the second's. -/
def lateAnswer : List Event :=
  [.go "a" mains, .hand "a" "nightly" none, .go "a" mains, .go "a" mains, .beat "a", .beat "a",
    .go "a" mains, .go "a" mains, .answer "a" false, .go "b" mains, .hand "b" "nightly" none,
    .go "b" mains, .go "b" mains, .beat "a"]

/-- Does the job of this collector run under a cancellation it never asked for? -/
def strayCancel (s : Agent) (c : String) : Bool :=
  match s.claims c with
  | .running h => s.isCancelled h.job_id && s.denied.all fun d => decide (d.1 ≠ h.collector)
  | _ => false

/-- The second collector never refused anything, and its job is marked cancelled. -/
theorem cancelled_by_another :
    ¬∀ (js : Js) (events : List Event) (c : String) (h : Handed),
      (after js events).claims c = .running h → (after js events).isCancelled h.job_id = true →
        (h.collector, h) ∈ (after js events).denied := by
  intro hclaim
  have hstray : strayCancel (after .plain lateAnswer) "b" = true := by decide
  unfold strayCancel at hstray
  split at hstray
  · rename_i h hrun
    obtain ⟨hflag, hnone⟩ := (Bool.and_eq_true _ _).mp hstray
    have hdenied := List.all_eq_true.mp hnone _ (hclaim .plain lateAnswer "b" h hrun hflag)
    exact of_decide_eq_true hdenied rfl
  · cases hstray

end Agent

end FleetRunner.Machine
