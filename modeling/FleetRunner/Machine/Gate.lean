import FleetRunner.Machine.Agent

/-!
# The claim gate (`agent.ts`)

Reading the gate and setting it is one step, so one job is held at a time. A
job that was handed over stays in the hands of its collector's loop until its
final row is posted or it is given back.
-/

namespace FleetRunner.Machine

open Library

namespace Agent

/-! ## The claim loops -/

/-- A final row has been posted for the job, or it went back to its own collector. -/
def Settled (s : Agent) (h : Handed) : Prop := h ∈ s.closed ∨ (h.collector, h) ∈ s.released

/-- What a claim loop and the gate keep between them. -/
structure LoopOk (s : Agent) (c : String) (l : ClaimLoop) : Prop where
  own : ∀ h, l.job? = some h → h.collector = c ∧ h ∈ s.handed
  gate : ∀ h, h.collector = c → (s.gate = some h ↔ l.taken? = some h)
  fresh : ∀ h, l.open? = some h → h ∉ s.closed ∧ ∀ whom, (whom, h) ∉ s.released
  settled : ∀ h ∈ s.handed, h.collector = c → s.Settled h ∨ l.open? = some h

structure Gated (s : Agent) : Prop where
  loops : ∀ c, LoopOk s c (s.claims c)
  numbered : ∀ h ∈ s.handed, h.claim < s.handed.length
  closed : ∀ h ∈ s.closed, h ∈ s.handed ∧ ∀ whom, (whom, h) ∉ s.released
  released : ∀ r ∈ s.released, r.1 = r.2.collector ∧ r.2 ∈ s.handed

theorem gated_start : Gated start where
  loops := fun _ => ⟨nofun, fun _ _ => ⟨nofun, nofun⟩, nofun, nofun⟩
  numbered := nofun
  closed := nofun
  released := nofun

/-- Nothing has happened to this job. -/
structure Same (s s' : Agent) (h : Handed) : Prop where
  handed : h ∈ s'.handed ↔ h ∈ s.handed
  gate : s'.gate = some h ↔ s.gate = some h
  closed : h ∈ s'.closed ↔ h ∈ s.closed
  released : ∀ whom, (whom, h) ∈ s'.released ↔ (whom, h) ∈ s.released

theorem job?_of_open? {l : ClaimLoop} {h : Handed} (hopen : l.open? = some h) :
    l.job? = some h := by
  cases l with
  | reported _ => cases hopen
  | _ => exact hopen

/-- A loop is as it was when nothing has happened to its collector's jobs. -/
theorem LoopOk.of_same {s s' : Agent} {c : String} {l : ClaimLoop} (h : LoopOk s c l)
    (hsame : ∀ j, j.collector = c → Same s s' j) : LoopOk s' c l := by
  refine ⟨?_, ?_, ?_, ?_⟩
  · intro j hj
    obtain ⟨hown, hmem⟩ := h.own j hj
    exact ⟨hown, (hsame j hown).handed.mpr hmem⟩
  · intro j hj
    exact (hsame j hj).gate.trans (h.gate j hj)
  · intro j hj
    have hown := (h.own j (job?_of_open? hj)).1
    obtain ⟨hclosed, hreleased⟩ := h.fresh j hj
    refine ⟨fun hc => hclosed ((hsame j hown).closed.mp hc), fun whom hr => ?_⟩
    exact hreleased whom (((hsame j hown).released whom).mp hr)
  · intro j hj hc
    refine (h.settled j ((hsame j hc).handed.mp hj) hc).imp_left fun hsettled => ?_
    exact hsettled.imp (hsame j hc).closed.mpr ((hsame j hc).released _).mpr

/-- One loop moves; what happens concerns its collector's jobs only. -/
theorem loops_of_move {s s' : Agent} {c : String} (hs : Gated s)
    (hclaims : ∀ c', c' ≠ c → s'.claims c' = s.claims c')
    (hsame : ∀ j, j.collector ≠ c → Same s s' j) (hhere : LoopOk s' c (s'.claims c)) (c' : String) :
    LoopOk s' c' (s'.claims c') := by
  by_cases hc : c' = c
  · rw [hc]
    exact hhere
  · rw [hclaims c' hc]
    apply (hs.loops c').of_same
    rintro j rfl
    exact hsame j hc

section Moves

variable {s : Agent} {c : String}

/-- A loop that goes on with the same job in hand moves nothing else. -/
theorem gated_setClaim (hs : Gated s) {l : ClaimLoop} (htaken : l.taken? = (s.claims c).taken?)
    (hopen : l.open? = (s.claims c).open?)
    (hjob : ∀ h, l.job? = some h → (s.claims c).job? = some h) : Gated (s.setClaim c l) := by
  obtain ⟨own, gate, fresh, settled⟩ := hs.loops c
  refine { loops := ?_, numbered := hs.numbered, closed := hs.closed, released := hs.released }
  apply loops_of_move hs (fun c' hc' => claims_setClaim_of_ne s hc' l)
  · exact fun j _ => ⟨.rfl, .rfl, .rfl, fun _ => .rfl⟩
  rw [claims_setClaim_self]
  refine ⟨fun h hh => own h (hjob h hh), ?_, ?_, ?_⟩
  · rwa [htaken]
  · rwa [hopen]
  · rwa [hopen]

/-- The check and the set of the gate are one step, so no other loop gets past it. -/
theorem gated_take (hs : Gated s) {h : Handed} (hc : s.claims c = .answered h)
    (hg : s.gate = none) : Gated { s.setClaim c (.checking h) with gate := some h } := by
  have hhere := hs.loops c
  rw [hc] at hhere
  obtain ⟨own, gate, fresh, settled⟩ := hhere
  refine { loops := ?_, numbered := hs.numbered, closed := hs.closed, released := hs.released }
  refine loops_of_move (c := c) hs ?_ ?_ ?_
  · exact fun c' hc' => claims_setClaim_of_ne s hc' _
  · intro j hj
    refine ⟨.rfl, ?_, .rfl, fun _ => .rfl⟩
    have hne : h ≠ j := by
      rintro rfl
      exact hj (own h rfl).1
    simp [hg, hne]
  · change LoopOk _ c ((s.setClaim c (.checking h)).claims c)
    rw [claims_setClaim_self]
    exact ⟨own, fun _ _ => .rfl, fresh, settled⟩

/-- The collector has its job back. -/
theorem gated_released (hs : Gated s) {h : Handed} (hc : s.claims c = .releasing h) :
    Gated { s.setClaim c .ready with released := (c, h) :: s.released } := by
  have hhere := hs.loops c
  rw [hc] at hhere
  obtain ⟨own, gate, fresh, settled⟩ := hhere
  obtain ⟨hown, hmem⟩ := own h rfl
  obtain ⟨hclosed, -⟩ := fresh h rfl
  refine { loops := ?_, numbered := hs.numbered, closed := ?_, released := ?_ }
  · refine loops_of_move (c := c) hs ?_ ?_ ?_
    · exact fun c' hc' => claims_setClaim_of_ne s hc' _
    · intro j hj
      refine ⟨.rfl, .rfl, .rfl, fun whom => ?_⟩
      have hne : j ≠ h := by
        rintro rfl
        exact hj hown
      simp [hne]
    · change LoopOk _ c ((s.setClaim c .ready).claims c)
      rw [claims_setClaim_self]
      refine ⟨nofun, gate, nofun, fun j hj hjc => .inl ?_⟩
      rcases settled j hj hjc with hset | hopen
      · exact hset.imp_right (List.mem_cons_of_mem _)
      · cases hopen
        exact .inr (by simp [hown])
  · intro j hj
    refine ⟨(hs.closed j hj).1, fun whom hwhom => ?_⟩
    rcases List.mem_cons.mp hwhom with heq | hold
    · cases heq
      exact hclosed hj
    · exact (hs.closed j hj).2 whom hold
  · intro r hr
    rcases List.mem_cons.mp hr with rfl | hold
    · exact ⟨hown.symm, hmem⟩
    · exact hs.released r hold

/-- A final row has been posted, and the gate is still held. -/
theorem gated_closed (hs : Gated s) {h : Handed} (htaken : (s.claims c).taken? = some h)
    (hopen : (s.claims c).open? = some h) :
    Gated { s.setClaim c (.reported h) with closed := h :: s.closed } := by
  obtain ⟨own, gate, fresh, settled⟩ := hs.loops c
  obtain ⟨hown, hmem⟩ := own h (job?_of_open? hopen)
  refine { loops := ?_, numbered := hs.numbered, closed := ?_, released := hs.released }
  · refine loops_of_move (c := c) hs ?_ ?_ ?_
    · exact fun c' hc' => claims_setClaim_of_ne s hc' _
    · intro j hj
      refine ⟨.rfl, .rfl, ?_, fun _ => .rfl⟩
      have hne : j ≠ h := by
        rintro rfl
        exact hj hown
      simp [hne]
    · change LoopOk _ c ((s.setClaim c (.reported h)).claims c)
      rw [claims_setClaim_self]
      refine ⟨?_, ?_, nofun, fun j hj hjc => .inl ?_⟩
      · rintro j ⟨⟩
        exact ⟨hown, hmem⟩
      · intro j hj
        exact (gate j hj).trans (by rw [htaken]; rfl)
      · rcases settled j hj hjc with hset | hstill
        · exact hset.imp_left (List.mem_cons_of_mem _)
        · rw [hopen] at hstill
          cases hstill
          exact .inl List.mem_cons_self
  · intro j hj
    rcases List.mem_cons.mp hj with rfl | hold
    · exact ⟨hmem, (fresh j hopen).2⟩
    · exact hs.closed j hold

/-- The loop that holds the gate lets it go. -/
theorem gated_dropped (hs : Gated s) {h : Handed} (hc : s.claims c = .reported h)
    (flag : Option String) :
    Gated { (s.setClaim c .ready).releaseGate with cancelledJobId := flag } := by
  have hhere := hs.loops c
  rw [hc] at hhere
  obtain ⟨own, gate, fresh, settled⟩ := hhere
  have hown := (own h rfl).1
  have hheld : s.gate = some h := (gate h hown).mpr rfl
  refine { loops := ?_, numbered := hs.numbered, closed := hs.closed, released := hs.released }
  refine loops_of_move (c := c) hs ?_ ?_ ?_
  · exact fun c' hc' => claims_setClaim_of_ne s hc' _
  · intro j hj
    refine ⟨.rfl, ?_, .rfl, fun _ => .rfl⟩
    have hne : h ≠ j := by
      rintro rfl
      exact hj hown
    simp [releaseGate, hheld, hne]
  · change LoopOk _ c ((s.setClaim c .ready).claims c)
    rw [claims_setClaim_self]
    exact ⟨nofun, fun _ _ => ⟨nofun, nofun⟩, nofun, settled⟩

/-- A job is handed over under a number no other has. -/
theorem gated_hand (hs : Gated s) (c jobId : String) (constraints : Option Json) :
    Gated (s.hand c jobId constraints) := by
  unfold hand
  cases hc : s.claims c with
  | polling =>
      have hhere := hs.loops c
      rw [hc] at hhere
      obtain ⟨own, gate, fresh, settled⟩ := hhere
      simp only
      generalize hh : Handed.mk c jobId constraints s.handed.length = h
      have hnew : h ∉ s.handed := by
        intro hmem
        have hlt := hs.numbered h hmem
        rw [← hh] at hlt
        exact Nat.lt_irrefl _ hlt
      have hcol : h.collector = c := by rw [← hh]
      refine { loops := ?_, numbered := ?_, closed := ?_, released := ?_ }
      · refine loops_of_move (c := c) hs ?_ ?_ ?_
        · exact fun c' hc' => claims_setClaim_of_ne s hc' _
        · intro j hj
          refine ⟨?_, .rfl, .rfl, fun _ => .rfl⟩
          have hne : j ≠ h := by
            rintro rfl
            exact hj hcol
          simp [hne]
        · change LoopOk _ c ((s.setClaim c (.answered h)).claims c)
          rw [claims_setClaim_self]
          refine ⟨?_, gate, ?_, ?_⟩
          · rintro j ⟨⟩
            exact ⟨hcol, List.mem_cons_self⟩
          · rintro j ⟨⟩
            refine ⟨fun hclosed => hnew (hs.closed h hclosed).1, fun whom hwhom => ?_⟩
            exact hnew (hs.released _ hwhom).2
          · intro j hj hjc
            rcases List.mem_cons.mp hj with rfl | hold
            · exact .inr rfl
            · exact (settled j hold hjc).imp_right nofun
      · intro j hj
        rw [List.length_cons]
        rcases List.mem_cons.mp hj with rfl | hold
        · rw [← hh]
          exact Nat.lt_succ_self _
        · exact Nat.lt_succ_of_lt (hs.numbered j hold)
      · exact fun j hj => ⟨List.mem_cons_of_mem _ (hs.closed j hj).1, (hs.closed j hj).2⟩
      · exact fun r hr => ⟨(hs.released r hr).1, List.mem_cons_of_mem _ (hs.released r hr).2⟩
  | _ => exact hs

theorem gated_go (js : Js) (hs : Gated s) (c : String) (sample : PowerSample) :
    Gated (s.go js c sample) := by
  unfold go
  cases hc : s.claims c with
  | ready =>
      simp only
      split
      · exact hs
      · exact gated_setClaim hs (by rw [hc]; rfl) (by rw [hc]; rfl) nofun
  | polling => exact hs
  | answered h =>
      simp only [takeOrRelease]
      cases hg : s.gate with
      | none => exact gated_take hs hc hg
      | some held =>
          exact gated_setClaim hs (by rw [hc]; rfl) (by rw [hc]; rfl) (fun j hj => by rwa [hc])
  | releasing h => exact gated_released hs hc
  | checking h =>
      simp only
      split
      · exact gated_setClaim hs (by rw [hc]; rfl) (by rw [hc]; rfl) (fun j hj => by rwa [hc])
      · exact gated_setClaim hs (by rw [hc]; rfl) (by rw [hc]; rfl) (fun j hj => by rwa [hc])
  | refusing h =>
      -- the row is posted and the gate let go without a stop between them
      have hclosed := gated_closed hs (h := h) (by rw [hc]; rfl) (by rw [hc]; rfl)
      have hdropped := gated_dropped hclosed (c := c) (h := h) (claims_setClaim_self s c _)
        s.cancelledJobId
      simpa [setClaim, releaseGate, Function.update_idem] using hdropped
  | running h => exact gated_closed hs (by rw [hc]; rfl) (by rw [hc]; rfl)
  | reported h => exact gated_dropped hs hc _

end Moves

theorem gated_expire {s : Agent} (hs : Gated s) (c : String) : Gated (s.expire c) := by
  unfold expire
  cases hc : s.claims c with
  | polling => exact gated_setClaim hs (by rw [hc]; rfl) (by rw [hc]; rfl) nofun
  | _ => exact hs

theorem BeaconStep.gated {s s' : Agent} (h : BeaconStep s s') (hs : Gated s) : Gated s' := by
  obtain ⟨gate, claims, handed, closed, released⟩ := h
  have hsame : ∀ j, Same s s' j := by
    exact fun j => ⟨by rw [handed], by rw [gate], by rw [closed], fun _ => by rw [released]⟩
  refine { loops := fun c => ?_, numbered := ?_, closed := ?_, released := ?_ }
  · rw [claims]
    exact (hs.loops c).of_same fun j _ => hsame j
  · rw [handed]
    exact hs.numbered
  · rw [closed, released, handed]
    exact hs.closed
  · rw [released, handed]
    exact hs.released

theorem gated_step (js : Js) {s : Agent} (hs : Gated s) (e : Event) : Gated (step js s e) := by
  cases e with
  | go c sample => exact gated_go js hs c sample
  | hand c jobId constraints => exact gated_hand hs c jobId constraints
  | expire c => exact gated_expire hs c
  | beat c => exact (beaconStep_beat s c).gated hs
  | answer c renewed => exact (beaconStep_answer s c renewed).gated hs
  | tick c => exact (beaconStep_tick s c).gated hs
  | answerTick i renewed => exact (beaconStep_answerTick s i renewed).gated hs
  | hearTick i => exact (beaconStep_hearTick s i).gated hs

theorem gated_after (js : Js) (events : List Event) : Gated (after js events) :=
  invariant_all (I := Gated) (fun _ e hs => gated_step js hs e) gated_start events

/-! ## One job at a time -/

/-- The gate holds one job, so two loops that got past it are one. -/
theorem Gated.one {s : Agent} (hs : Gated s) {c c' : String}
    (hc : (s.claims c).taken?.isSome = true) (hc' : (s.claims c').taken?.isSome = true) :
    c = c' := by
  have hheld : ∀ {c}, (s.claims c).taken?.isSome = true → ∃ h, s.gate = some h ∧ h.collector = c := by
    intro c hc
    obtain ⟨h, hh⟩ := Option.isSome_iff_exists.mp hc
    have hjob : (s.claims c).job? = some h := by
      revert hh
      cases s.claims c <;> first | exact id | exact nofun
    have hown := ((hs.loops c).own h hjob).1
    exact ⟨h, ((hs.loops c).gate h hown).mpr hh, hown⟩
  obtain ⟨h, hg, rfl⟩ := hheld hc
  obtain ⟨h', hg', rfl⟩ := hheld hc'
  rw [hg] at hg'
  rw [Option.some.inj hg']

/-! ## No job is lost -/

/-- The claim loop of this collector goes on. -/
def goesOn (c : String) : Event → Bool
  | .go c' _ => decide (c' = c)
  | _ => false

theorem settled_step (js : Js) {s : Agent} {h : Handed} (hs : s.Settled h) (e : Event) :
    (step js s e).Settled h := by
  have hclaim : ∀ {s' c}, ClaimStep s s' c → s'.Settled h := fun hstep =>
    hs.imp (hstep.closed h) (hstep.released _)
  have hbeacon : ∀ {s'}, BeaconStep s s' → s'.Settled h := by
    intro s' hstep
    unfold Settled
    rw [hstep.closed, hstep.released]
    exact hs
  cases e with
  | go c sample => exact hclaim (claimStep_go js s c sample)
  | hand c jobId constraints => exact hclaim (claimStep_hand s c jobId constraints)
  | expire c => exact hclaim (claimStep_expire s c)
  | beat c => exact hbeacon (beaconStep_beat s c)
  | answer c renewed => exact hbeacon (beaconStep_answer s c renewed)
  | tick c => exact hbeacon (beaconStep_tick s c)
  | answerTick i renewed => exact hbeacon (beaconStep_answerTick s i renewed)
  | hearTick i => exact hbeacon (beaconStep_hearTick s i)

/-- Whenever its loop goes on, a job in hand is settled or a step nearer to it. -/
theorem nearer_go (js : Js) {s : Agent} {c : String} {h : Handed} (hown : h.collector = c)
    (hopen : (s.claims c).open? = some h) (sample : PowerSample) :
    (s.go js c sample).Settled h ∨
      (((s.go js c sample).claims c).open? = some h ∧
        ((s.go js c sample).claims c).left + 1 ≤ (s.claims c).left) := by
  unfold go
  cases hc : s.claims c with
  | ready => rw [hc] at hopen; cases hopen
  | polling => rw [hc] at hopen; cases hopen
  | reported j => rw [hc] at hopen; cases hopen
  | answered j =>
      rw [hc] at hopen
      refine .inr ?_
      simp only [takeOrRelease]
      cases s.gate with
      | none =>
          change ((s.setClaim c (.checking j)).claims c).open? = _ ∧ ((s.setClaim c _).claims c).left + 1 ≤ _
          rw [claims_setClaim_self]
          exact ⟨hopen, Nat.le_refl 3⟩
      | some held =>
          simp only [claims_setClaim_self]
          exact ⟨hopen, Nat.le_succ 2⟩
  | releasing j =>
      rw [hc] at hopen
      cases hopen
      exact .inl (.inr (by simp [hown]))
  | checking j =>
      rw [hc] at hopen
      refine .inr ?_
      simp only
      split
      · rw [claims_setClaim_self]
        exact ⟨hopen, Nat.le_refl 2⟩
      · rw [claims_setClaim_self]
        exact ⟨hopen, Nat.le_refl 2⟩
  | refusing j =>
      rw [hc] at hopen
      cases hopen
      exact .inl (.inl List.mem_cons_self)
  | running j =>
      rw [hc] at hopen
      cases hopen
      exact .inl (.inl List.mem_cons_self)

/-- No event takes a job out of its loop's hands unsettled. -/
theorem nearer_step (js : Js) {s : Agent} {h : Handed} (hopen : (s.claims h.collector).open? = some h)
    (e : Event) :
    (step js s e).Settled h ∨
      (((step js s e).claims h.collector).open? = some h ∧
        ((step js s e).claims h.collector).left + (if goesOn h.collector e then 1 else 0) ≤
          (s.claims h.collector).left) := by
  have hstill : ∀ s' : Agent, s'.claims h.collector = s.claims h.collector →
      s'.Settled h ∨ ((s'.claims h.collector).open? = some h ∧
        (s'.claims h.collector).left + 0 ≤ (s.claims h.collector).left) := by
    intro s' heq
    rw [heq]
    exact .inr ⟨hopen, Nat.le_refl _⟩
  cases e with
  | go c sample =>
      by_cases hc : c = h.collector
      · subst hc
        simp only [goesOn, decide_true, if_true]
        exact nearer_go js rfl hopen sample
      · simp only [goesOn, hc, decide_false, Bool.false_eq_true, if_false]
        exact hstill _ ((claimStep_go js s c sample).claims _ (Ne.symm hc))
  | hand c jobId constraints =>
      by_cases hc : c = h.collector
      · subst hc
        refine hstill _ ?_
        simp only [step, hand]
        split
        · rename_i hpolling
          rw [hpolling] at hopen
          cases hopen
        · rfl
      · exact hstill _ ((claimStep_hand s c jobId constraints).claims _ (Ne.symm hc))
  | expire c =>
      by_cases hc : c = h.collector
      · subst hc
        refine hstill _ ?_
        simp only [step, expire]
        split
        · rename_i hpolling
          rw [hpolling] at hopen
          cases hopen
        · rfl
      · exact hstill _ ((claimStep_expire s c).claims _ (Ne.symm hc))
  | beat c => exact hstill _ (congrFun (beaconStep_beat s c).claims _)
  | answer c renewed => exact hstill _ (congrFun (beaconStep_answer s c renewed).claims _)
  | tick c => exact hstill _ (congrFun (beaconStep_tick s c).claims _)
  | answerTick i renewed => exact hstill _ (congrFun (beaconStep_answerTick s i renewed).claims _)
  | hearTick i => exact hstill _ (congrFun (beaconStep_hearTick s i).claims _)

/-- A job in hand is settled once its loop has gone on often enough, whatever else happens. -/
theorem settled_run (js : Js) (more : List Event) {s : Agent} {h : Handed}
    (hs : s.Settled h ∨ ((s.claims h.collector).open? = some h ∧
      (s.claims h.collector).left ≤ more.countP (goesOn h.collector))) :
    (run (step js) s more).Settled h := by
  induction more generalizing s with
  | nil =>
      rcases hs with hset | ⟨hopen, hleft⟩
      · exact hset
      · have hpos := ClaimLoop.left_pos hopen
        simp only [List.countP_nil, Nat.le_zero] at hleft
        omega
  | cons e rest ih =>
      apply ih
      rcases hs with hset | ⟨hopen, hleft⟩
      · exact .inl (settled_step js hset e)
      · refine (nearer_step js hopen e).imp_right fun ⟨hstill, hnearer⟩ => ⟨hstill, ?_⟩
        rw [List.countP_cons] at hleft
        omega

end Agent

end FleetRunner.Machine
