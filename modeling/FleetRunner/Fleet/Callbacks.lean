import FleetRunner.Fleet.Invariant

/-!
# What each callback keeps

A start, a restart timer, an exit before and after `stop`, and `stop` itself:
each concerns one child, or takes pending restarts away.
-/

namespace FleetRunner

open Library

namespace Fleet

open Supervisor

section

variable {t : Timings} {fs : String → List Failure} {skip : String → Prop} {s : Supervisor}

/-! ## The callbacks -/

theorem start_eq {e : Entry} (he : e ∈ s.children.rows) (hrun : s.stopping = false)
    (l : Launch) : s.start e.name l =
      ({ s with
          next := s.next + 1
          spawned := s.spawned ++ [Proc.mk s.next e.name e.state l]
          live := s.live ++ [Proc.mk s.next e.name e.state l] }.setState e.state
        { s.states e.state with
          process := some (Proc.mk s.next e.name e.state l)
          startedAt := some l.time }).report
          e.name "start" ("pid " ++ optText toString "?" l.pid) := by
  unfold Supervisor.start
  rw [Table.mem_rows_iff.mp he]
  simp only [hrun, Bool.false_eq_true, if_false]

/-- A child that has none of the three gets a process. -/
theorem Sound.start {e : Entry} (h : Sound t fs (fun c => c = e.name) s)
    (he : e ∈ s.children.rows) (hrun : s.stopping = false)
    (hprocess : (s.states e.state).process = none)
    (htimer : (s.states e.state).restartTimer = none)
    (hgave : (s.states e.state).gaveUpAt = none)
    (hcount : (s.states e.state).restarts = countSince t (fs e.name))
    (hlimit : ¬t.giveUpAfter < (s.states e.state).restarts) (l : Launch) :
    Sound t fs nobody (s.start e.name l) := by
  have hlive := h.no_live he hprocess
  have htimers := h.no_timer he htimer
  rw [start_eq he hrun]
  refine h.touch he ⟨rfl, rfl, ?_, rfl, Nat.le_succ _, ?_, fun _ _ => .rfl⟩ (fun _ _ => rfl)
    ?_ ?_ ?_
  · exact fun i hi => Function.update_of_ne hi _ _
  · intro p hname
    change p ∈ s.live ++ [_] ↔ _
    rw [List.mem_append, List.mem_singleton]
    exact ⟨fun hp => hp.resolve_right fun heq => hname (congrArg Proc.name heq), Or.inl⟩
  · intro p hp hname
    rcases List.mem_append.mp hp with hold | hnew
    · exact absurd hname (hlive p hold)
    · rw [List.mem_singleton.mp hnew]
      refine ⟨Nat.lt_succ_self _, he, ?_, ?_⟩
      · exact congrArg ChildState.process (Function.update_self e.state _ s.states)
      · exact congrArg ChildState.startedAt (Function.update_self e.state _ s.states)
  · exact fun k hk hname => absurd hname (htimers k hk)
  · intro _
    change ChildSound t _ _ _ (Function.update s.states e.state _ e.state)
    rw [Function.update_self]
    refine ⟨?_, ?_, ?_, hcount, ?_⟩
    · intro p hp
      cases hp
      exact ⟨rfl, htimer, hgave, Or.inr (List.mem_append_right _ (List.mem_singleton_self _))⟩
    · intro k hk
      rw [htimer] at hk
      cases hk
    · intro _ hnone
      cases hnone
    · rw [hgave]
      simpa using hlimit

theorem gaveUpAt_start (c : String) (l : Launch) (i : Nat) :
    ((s.start c l).states i).gaveUpAt = (s.states i).gaveUpAt := by
  unfold Supervisor.start
  split
  · rfl
  · rename_i e _
    split
    · rfl
    · change (Function.update s.states e.state _ i).gaveUpAt = _
      by_cases hi : i = e.state
      · rw [hi, Function.update_self]
      · rw [Function.update_of_ne hi]

theorem Marked.start (h : Marked s) (c : String) (l : Launch) : Marked (s.start c l) := by
  have hfields : (s.start c l).children = s.children ∧ (s.start c l).gaveUp = s.gaveUp ∧
      (s.start c l).waited = s.waited := by
    unfold Supervisor.start
    split
    · exact ⟨rfl, rfl, rfl⟩
    · split <;> exact ⟨rfl, rfl, rfl⟩
  exact h.congr hfields.1 (gaveUpAt_start c l) hfields.2.1 hfields.2.2

/-- A timer that fires starts its child again. -/
theorem Sound.onTimer (h : Sound t fs nobody s) (hrun : s.stopping = false) {k : Timer}
    (hk : k ∈ s.timers) (l : Launch) : Sound t fs nobody (s.onTimer k l) := by
  obtain ⟨hentry, htimer⟩ := h.timers k hk
  have hc := h.child _ hentry id
  obtain ⟨-, hgave, -⟩ := hc.armed k htimer
  have hprocess : (s.states k.state).process = none := by
    cases hp : (s.states k.state).process with
    | none => rfl
    | some p =>
        rw [(hc.held p hp).2.1] at htimer
        cases htimer
  have hstate := Function.update_self k.state
    { s.states k.state with restartTimer := none } s.states
  have hmid : Sound t fs (fun c => c = k.name)
      ({ s with timers := s.timers.filter fun j => j ≠ k }.setState k.state
        { s.states k.state with restartTimer := none }) := by
    refine (h.writing _).touch hentry ⟨rfl, rfl, ?_, rfl, Nat.le_refl _, fun _ _ => .rfl, ?_⟩
      (fun _ _ => rfl) ?_ ?_ fun hne => absurd rfl hne
    · exact fun i hi => Function.update_of_ne hi _ _
    · intro j hname
      change j ∈ s.timers.filter _ ↔ _
      rw [List.mem_filter, decide_eq_true_eq]
      exact ⟨And.left, fun hj => ⟨hj, fun heq => hname (congrArg Timer.name heq)⟩⟩
    · exact fun p hp hname => absurd hname (h.no_live hentry hprocess p hp)
    · intro j hj hname
      obtain ⟨hmem, hne⟩ := List.mem_filter.mp hj
      refine absurd ?_ (decide_eq_true_eq.mp hne)
      have heq : j.state = k.state :=
        congrArg Entry.state (eq_of_name hentry (h.timers j hmem).entry hname)
      have hheld := (h.timers j hmem).timer
      rw [heq, htimer] at hheld
      exact (Option.some.inj hheld).symm
  unfold Supervisor.onTimer
  refine hmid.start (e := ⟨k.name, k.state⟩) hentry hrun ?_ ?_ ?_ ?_ ?_ l
  · exact (congrArg ChildState.process hstate).trans hprocess
  · exact congrArg ChildState.restartTimer hstate
  · exact (congrArg ChildState.gaveUpAt hstate).trans hgave
  · exact (congrArg ChildState.restarts hstate).trans hc.count
  · have hlimit := hc.limit
    rw [hgave] at hlimit
    change ¬_ < ChildState.restarts (Function.update s.states k.state _ k.state)
    rw [hstate]
    simpa using hlimit

/-- Who has given up, and what has been reported or signalled, is not part of it. -/
theorem Sound.congr {s' : Supervisor} (h : Sound t fs skip s) (hmade : s'.made = s.made)
    (hchildren : s'.children = s.children) (hstates : s'.states = s.states)
    (hstopping : s.stopping = s'.stopping) (hnext : s'.next = s.next) (hlive : s'.live = s.live)
    (htimers : s'.timers = s.timers) : Sound t fs skip s' where
  index := by
    rw [hchildren, hmade]
    exact h.index
  apart := by
    rw [hchildren]
    exact h.apart
  live := by
    rw [hlive]
    intro p hp
    obtain ⟨hfresh, hentry, hprocess, hstarted⟩ := h.live p hp
    refine ⟨?_, ?_, ?_, ?_⟩
    · rwa [hnext]
    · rwa [hchildren]
    · rwa [hstates]
    · rwa [hstates]
  timers := by
    rw [htimers]
    intro k hk
    obtain ⟨hentry, htimer⟩ := h.timers k hk
    refine ⟨?_, ?_⟩
    · rwa [hchildren]
    · rwa [hstates]
  child := by
    rw [hchildren, hstates]
    intro e he hskip
    apply (h.child e he hskip).frame hstopping
    · exact fun q hq _ => by rwa [hlive]
    · exact fun j hj _ => by rwa [htimers]

theorem mem_filter_ne {α : Type} [DecidableEq α] {x y : α} {xs : List α} :
    y ∈ xs.filter (fun z => z ≠ x) ↔ y ∈ xs ∧ y ≠ x := by
  rw [List.mem_filter, decide_eq_true_eq]

/-- One failure more, and what it makes of a child that was running. -/
theorem Sound.afterFailure (logFile : String → String) {gs : String → List Failure}
    (h : Sound t fs nobody s) {s₁ : Supervisor} {p : Proc} (hp : p ∈ s.live)
    (hgs : ∀ c, c ≠ p.name → gs c = fs c) (hmade : s₁.made = s.made)
    (hchildren : s₁.children = s.children) (hstates : s₁.states = s.states)
    (hstopping : s.stopping = s₁.stopping) (hnext : s₁.next = s.next)
    (hlive : s₁.live = s.live.filter fun q => q ≠ p) (htimers : s₁.timers = s.timers)
    {st : ChildState} (hprocess : st.process = none) (htimer : st.restartTimer = none)
    (hgave : st.gaveUpAt = none) (hcount : st.restarts = countSince t (gs p.name)) (now : Int) :
    Sound t gs nobody (Supervisor.afterFailure t logFile s₁ p st now) := by
  obtain ⟨-, hentry, hheld, -⟩ := h.live p hp
  have hnoLive : ∀ q ∈ s₁.live, q.name ≠ p.name := by
    rw [hlive]
    intro q hq hname
    obtain ⟨hmem, hne⟩ := mem_filter_ne.mp hq
    exact hne (h.single hmem hp hname)
  have hnoTimer : ∀ k ∈ s.timers, k.name ≠ p.name :=
    h.no_timer hentry ((h.child _ hentry id).held p hheld).2.1
  have hlive' : ∀ q, q.name ≠ p.name → (q ∈ s₁.live ↔ q ∈ s.live) := by
    intro q hname
    rw [hlive, mem_filter_ne]
    exact ⟨And.left, fun hq => ⟨hq, fun heq => hname (congrArg Proc.name heq)⟩⟩
  unfold Supervisor.afterFailure
  split
  · rename_i hlimit
    have hmid : Sound t gs nobody (Supervisor.giveUp t logFile s₁ p st now) := by
      refine (h.writing _).touch hentry ⟨hmade, hchildren, ?_, hstopping, Nat.le_of_eq hnext.symm,
        hlive', fun k _ => by rw [← htimers]; exact .rfl⟩ hgs ?_ ?_ ?_
      · intro i hi
        rw [← hstates]
        exact Function.update_of_ne hi _ _
      · exact fun q hq hname => absurd hname (hnoLive q hq)
      · exact fun k hk hname => absurd hname (hnoTimer k (by rw [← htimers]; exact hk))
      · intro _
        change ChildSound t _ _ _ (Function.update s₁.states p.state _ p.state)
        rw [Function.update_self]
        refine ⟨?_, ?_, fun _ _ _ => rfl, hcount, ?_⟩
        · intro q hq
          rw [hprocess] at hq
          cases hq
        · intro k hk
          rw [htimer] at hk
          cases hk
        · exact ⟨fun _ => hlimit, fun _ => rfl⟩
    unfold resolveWait
    split
    · exact hmid.congr rfl rfl rfl rfl rfl rfl rfl
    · exact hmid
  · rename_i hlimit
    refine (h.writing _).touch hentry ⟨hmade, hchildren, ?_, hstopping, ?_, hlive', ?_⟩ hgs
      ?_ ?_ ?_
    · intro i hi
      rw [← hstates]
      exact Function.update_of_ne hi _ _
    · rw [← hnext]
      exact Nat.le_succ _
    · intro k hname
      change k ∈ s₁.timers ++ [_] ↔ _
      rw [htimers, List.mem_append, List.mem_singleton]
      exact ⟨fun hk => hk.resolve_right fun heq => hname (congrArg Timer.name heq), Or.inl⟩
    · exact fun q hq hname => absurd hname (hnoLive q hq)
    · intro k hk hname
      rcases List.mem_append.mp hk with hold | hnew
      · rw [htimers] at hold
        exact absurd hname (hnoTimer k hold)
      · rw [List.mem_singleton.mp hnew]
        refine ⟨?_, ?_⟩
        · rw [← hchildren] at hentry
          exact hentry
        · exact congrArg ChildState.restartTimer (Function.update_self p.state _ s₁.states)
    · intro _
      change ChildSound t _ _ _ (Function.update s₁.states p.state _ p.state)
      rw [Function.update_self]
      refine ⟨?_, ?_, ?_, hcount, ?_⟩
      · intro q hq
        rw [hprocess] at hq
        cases hq
      · intro k hk
        cases hk
        exact ⟨rfl, hgave, List.mem_append_right _ (List.mem_singleton_self _)⟩
      · intro _ _ hnone
        cases hnone
      · rw [hgave]
        simpa using hlimit

/-- All have given up exactly when the two sizes agree. -/
theorem Marked.size_iff (hnodup : s.gaveUp.Nodup) (hset : ∀ c, c ∈ s.gaveUp ↔ s.GaveUp c) :
    s.gaveUp.length = s.children.rows.length ↔ ∀ c, s.IsChild c → s.GaveUp c := by
  have hnames : ∀ c, c ∈ s.children.rows.map Entry.name ↔ s.IsChild c := by
    intro c
    rw [List.mem_map]
    rfl
  have hsub : s.gaveUp ⊆ s.children.rows.map Entry.name := by
    intro c hc
    obtain ⟨e, he, hname, -⟩ := (hset c).mp hc
    exact (hnames c).mpr ⟨e, he, hname⟩
  rw [← List.length_map Entry.name]
  constructor
  · intro hlen c hchild
    have hperm := (List.subperm_of_subset hnodup hsub).perm_of_length_le (Nat.le_of_eq hlen.symm)
    exact (hset c).mp (hperm.mem_iff.mpr ((hnames c).mpr hchild))
  · intro hall
    have hback : s.children.rows.map Entry.name ⊆ s.gaveUp := fun c hc =>
      (hset c).mpr (hall c ((hnames c).mp hc))
    have hle := (List.subperm_of_subset hnodup hsub).length_le
    have hge := (List.subperm_of_subset s.children.nodup hback).length_le
    exact Nat.le_antisymm hle hge

theorem Marked.afterFailure (logFile : String → String) (h : Marked s)
    {p : Proc} (hentry : (⟨p.name, p.state⟩ : Entry) ∈ s.children.rows)
    (happart : ∀ e ∈ s.children.rows, ∀ e' ∈ s.children.rows, e.state = e'.state → e = e')
    (hfree : (s.states p.state).gaveUpAt = none) {st : ChildState} (hgave : st.gaveUpAt = none)
    (now : Int) : Marked (Supervisor.afterFailure t logFile s p st now) := by
  unfold Supervisor.afterFailure
  split
  · have hnot : ¬s.GaveUp p.name := by
      have hiff := gaveUp_iff (s := s) hentry
      rw [hfree] at hiff
      simpa using hiff
    have hmem : p.name ∉ s.gaveUp := fun hmem => hnot ((h.gaveUp _).mp hmem)
    have hset : (Supervisor.giveUp t logFile s p st now).gaveUp = s.gaveUp ++ [p.name] :=
      if_neg hmem
    have hstates : (Supervisor.giveUp t logFile s p st now).states =
        Function.update s.states p.state { st with gaveUpAt := some now } := rfl
    have hchildren : (Supervisor.giveUp t logFile s p st now).children = s.children := rfl
    have hwaited : (Supervisor.giveUp t logFile s p st now).waited = false := by
      change s.waited = false
      rw [Bool.eq_false_iff]
      intro hwait
      exact hnot ((h.waited.mp hwait).2 p.name ⟨_, hentry, rfl⟩)
    generalize Supervisor.giveUp t logFile s p st now = s' at hset hstates hchildren hwaited
    have hgaveUp : ∀ c, s'.GaveUp c ↔ s.GaveUp c ∨ c = p.name := by
      intro c
      constructor
      · rintro ⟨e, he, rfl, hsome⟩
        rw [hchildren] at he
        by_cases hname : e.name = p.name
        · exact Or.inr hname
        · have hne : e.state ≠ p.state := fun hstate =>
            hname (congrArg Entry.name (happart e he _ hentry hstate))
          rw [hstates, Function.update_of_ne hne] at hsome
          exact Or.inl ⟨e, he, rfl, hsome⟩
      · rintro (⟨e, he, rfl, hsome⟩ | rfl)
        · refine ⟨e, by rw [hchildren]; exact he, rfl, ?_⟩
          rw [hstates]
          by_cases hstate : e.state = p.state
          · rw [hstate, Function.update_self]
            rfl
          · rwa [Function.update_of_ne hstate]
        · refine ⟨_, by rw [hchildren]; exact hentry, rfl, ?_⟩
          rw [hstates, Function.update_self]
          rfl
    have hnodup : s'.gaveUp.Nodup := by
      rw [hset]
      exact List.nodup_append.mpr ⟨h.nodup, List.nodup_singleton _, by
        rintro a ha b hb rfl
        exact hmem (List.mem_singleton.mp hb ▸ ha)⟩
    have hmarks : ∀ c, c ∈ s'.gaveUp ↔ s'.GaveUp c := by
      intro c
      rw [hset, List.mem_append, List.mem_singleton, h.gaveUp, hgaveUp]
    have hne : s'.children.rows ≠ [] := by
      rw [hchildren]
      exact List.ne_nil_of_mem hentry
    unfold resolveWait
    split
    · rename_i hsize
      exact ⟨hnodup, hmarks, iff_of_true rfl ⟨hne, (Marked.size_iff hnodup hmarks).mp hsize⟩⟩
    · rename_i hsize
      refine ⟨hnodup, hmarks, iff_of_false ?_ ?_⟩
      · simp [hwaited]
      · exact fun hall => hsize ((Marked.size_iff hnodup hmarks).mpr hall.2)
  · refine h.congr rfl ?_ rfl rfl
    intro i
    change (Function.update s.states p.state _ i).gaveUpAt = _
    by_cases hi : i = p.state
    · rw [hi, Function.update_self, hfree]
      exact hgave
    · rw [Function.update_of_ne hi]

/-- The three parts of the invariant. -/
structure Good (t : Timings) (fs : String → List Failure) (s : Supervisor) : Prop where
  sound : Sound t fs nobody s
  marked : Marked s
  stopped : Stopped s

theorem afterFailure_fields (logFile : String → String) (s : Supervisor) (p : Proc)
    (st : ChildState) (now : Int) :
    (Supervisor.afterFailure t logFile s p st now).stopping = s.stopping ∧
      (Supervisor.afterFailure t logFile s p st now).stops = s.stops ∧
        (Supervisor.afterFailure t logFile s p st now).children = s.children := by
  unfold Supervisor.afterFailure resolveWait
  split
  · split <;> exact ⟨rfl, rfl, rfl⟩
  · exact ⟨rfl, rfl, rfl⟩

theorem onExit_running (logFile : String → String) (hrun : s.stopping = false) {p : Proc}
    (hstarted : (s.states p.state).startedAt = some p.launch.time) (x : Exit) :
    s.onExit t logFile p x = Supervisor.afterFailure t logFile
      ((s.ended p).report p.name "exit" (exitDetail x (x.time - p.launch.time))) p
      (countFailure t (exited (s.states p.state) x) (x.time - p.launch.time)) x.time := by
  have hran : (exited (s.states p.state) x).startedAt.getD x.time = p.launch.time := by
    change (s.states p.state).startedAt.getD x.time = _
    rw [hstarted, Option.getD_some]
  unfold Supervisor.onExit
  simp only [ended, hrun, Bool.false_eq_true, if_false, hran]

/-- A run that ended while the supervisor was at work is a failure of its child. -/
theorem Good.exit_running (logFile : String → String) {gs : String → List Failure}
    (h : Good t fs s) (hrun : s.stopping = false) {p : Proc} (hp : p ∈ s.live) (x : Exit)
    (hgs : ∀ c, c ≠ p.name → gs c = fs c)
    (hgp : gs p.name = fs p.name ++ [.run (x.time - p.launch.time)]) :
    Good t gs (s.onExit t logFile p x) := by
  obtain ⟨-, hentry, hheld, hstarted⟩ := h.sound.live p hp
  have hc := h.sound.child _ hentry id
  obtain ⟨-, htimer, hgave, -⟩ := hc.held p hheld
  have hcount : (countFailure t (exited (s.states p.state) x) (x.time - p.launch.time)).restarts =
      countSince t (gs p.name) := by
    rw [hgp, countSince_concat, ← hc.count]
    simp [countFailure, exited, Failure.long]
  rw [onExit_running logFile hrun hstarted]
  refine ⟨?_, ?_, ?_⟩
  · apply h.sound.afterFailure logFile hp hgs
    case hcount => exact hcount
    case htimer => exact htimer
    case hgave => exact hgave
    all_goals rfl
  · have hreported : Marked
        ((s.ended p).report p.name "exit" (exitDetail x (x.time - p.launch.time))) :=
      h.marked.congr rfl (fun _ => rfl) rfl rfl
    apply hreported.afterFailure logFile hentry h.sound.apart hgave
    exact hgave
  · obtain ⟨hstopping, hstops, -⟩ := afterFailure_fields (t := t) logFile
      ((s.ended p).report p.name "exit" (exitDetail x (x.time - p.launch.time))) p
      (countFailure t (exited (s.states p.state) x) (x.time - p.launch.time)) x.time
    exact .of_running (hstopping.trans hrun) (hstops.trans (h.stopped.running hrun))

theorem onExit_stopping (logFile : String → String) (hstop : s.stopping = true) (p : Proc)
    (x : Exit) : s.onExit t logFile p x =
      { (s.ended p).setState p.state (exited (s.states p.state) x) with
        stops := s.stops.map fun ws => ws.filter fun q => q ≠ p } := by
  unfold Supervisor.onExit
  simp only [ended, hstop, if_true]

/-- An exit that `stop` waits for. -/
theorem Good.exit_stopping (logFile : String → String) (h : Good t fs s)
    (hstop : s.stopping = true) {p : Proc} (hp : p ∈ s.live) (x : Exit)
    (hok : (∃ q ∈ s.live, q ≠ p) ∨
      ∀ e ∈ s.children.rows, ∀ q, (s.states e.state).process = some q → q ∈ s.live) :
    Good t fs (s.onExit t logFile p x) := by
  obtain ⟨-, hentry, hheld, -⟩ := h.sound.live p hp
  have hc := h.sound.child _ hentry id
  obtain ⟨-, htimer, hgave, -⟩ := hc.held p hheld
  rw [onExit_stopping logFile hstop]
  have hother : ∀ e ∈ s.children.rows, ∀ q, e.name ≠ p.name →
      (s.states e.state).process = some q → q ≠ p := by
    rintro e he q hname hq rfl
    exact hname ((h.sound.child e he id).held q hq).1.symm
  have hstates : ∀ e ∈ s.children.rows, e.name ≠ p.name →
      Function.update s.states p.state (exited (s.states p.state) x) e.state =
        s.states e.state := by
    intro e he hname
    refine Function.update_of_ne (fun hstate => hname ?_) _ _
    exact congrArg Entry.name (h.sound.apart e he _ hentry hstate)
  have hself : ∀ e ∈ s.children.rows, e.name = p.name →
      (Function.update s.states p.state (exited (s.states p.state) x) e.state).process =
        none := by
    intro e he hname
    have hstate : e.state = p.state := congrArg Entry.state (eq_of_name hentry he hname)
    rw [hstate, Function.update_self]
    rfl
  refine ⟨?_, ?_, ?_⟩
  · refine (h.sound.writing _).touch hentry ⟨rfl, rfl, ?_, rfl, Nat.le_refl _, ?_,
      fun _ _ => .rfl⟩ (fun _ _ => rfl) ?_ ?_ ?_
    · exact fun i hi => Function.update_of_ne hi _ _
    · intro q hname
      change q ∈ s.live.filter _ ↔ _
      rw [mem_filter_ne]
      exact ⟨And.left, fun hq => ⟨hq, fun heq => hname (congrArg Proc.name heq)⟩⟩
    · intro q hq hname
      obtain ⟨hmem, hne⟩ := mem_filter_ne.mp hq
      exact absurd (h.sound.single hmem hp hname) hne
    · intro k hk hname
      exact absurd hname (h.sound.no_timer hentry htimer k hk)
    · intro _
      change ChildSound t _ _ _ (Function.update s.states p.state _ p.state)
      rw [Function.update_self]
      refine ⟨?_, ?_, ?_, hc.count, hc.limit⟩
      · rintro q ⟨⟩
      · intro k hk
        rw [show (exited (s.states p.state) x).restartTimer = none from htimer] at hk
        cases hk
      · intro hrun
        rw [show s.stopping = false from hrun] at hstop
        cases hstop
  · refine h.marked.congr rfl ?_ rfl rfl
    intro i
    change (Function.update s.states p.state _ i).gaveUpAt = _
    by_cases hi : i = p.state
    · rw [hi, Function.update_self]
      rfl
    · rw [Function.update_of_ne hi]
  · constructor
    · exact h.stopped.halted
    · intro hrun
      rw [show s.stopping = false from hrun] at hstop
      cases hstop
    · exact fun _ hnil => h.stopped.called hstop (List.map_eq_nil_iff.mp hnil)
    · intro ws hws q
      obtain ⟨old, hold, rfl⟩ := List.mem_map.mp hws
      rw [mem_filter_ne, h.stopped.stops old hold]
      constructor
      · rintro ⟨⟨e, he, hq⟩, hne⟩
        refine ⟨e, he, ?_⟩
        by_cases hname : e.name = p.name
        · have hstate : e.state = p.state := congrArg Entry.state (eq_of_name hentry he hname)
          rw [hstate, hheld] at hq
          exact absurd (Option.some.inj hq).symm hne
        · exact (congrArg ChildState.process (hstates e he hname)).trans hq
      · rintro ⟨e, he, hq⟩
        by_cases hname : e.name = p.name
        · have hnone := hself e he hname
          rw [show (Function.update s.states p.state _ e.state).process = some q from hq] at hnone
          cases hnone
        · have hq' : (s.states e.state).process = some q :=
            (congrArg ChildState.process (hstates e he hname)).symm.trans hq
          exact ⟨⟨e, he, hq'⟩, hother e he q hname hq'⟩
    · intro hlive _ e he
      change s.live.filter _ = [] at hlive
      by_cases hname : e.name = p.name
      · exact hself e he hname
      · refine (congrArg ChildState.process (hstates e he hname)).trans ?_
        cases hq : (s.states e.state).process with
        | none => rfl
        | some q =>
            exfalso
            have hnone : ∀ r ∈ s.live, r = p := by
              intro r hr
              by_contra hne
              have hmem := mem_filter_ne.mpr ⟨hr, hne⟩
              rw [hlive] at hmem
              cases hmem
            rcases hok with ⟨r, hr, hne⟩ | hall
            · exact hne (hnone r hr)
            · exact hother e he q hname hq (hnone q (hall e he q hq))

/-- A start that fails once everything is being stopped, while another process is there. -/
theorem Good.error_stopping (h : Good t fs s) (hstop : s.stopping = true) {p : Proc}
    (hp : p ∈ s.live) (message : String) (hok : ∃ q ∈ s.live, q ≠ p) :
    Good t fs (s.onError p message) := by
  obtain ⟨-, hentry, hheld, -⟩ := h.sound.live p hp
  have hc := h.sound.child _ hentry id
  obtain ⟨hname, htimer, hgave, -⟩ := hc.held p hheld
  refine ⟨?_, h.marked.congr rfl (fun _ => rfl) rfl rfl, h.stopped.halted, h.stopped.running,
    h.stopped.called, h.stopped.stops, ?_⟩
  · refine (h.sound.writing _).touch hentry ⟨rfl, rfl, fun _ _ => rfl, rfl, Nat.le_refl _, ?_,
      fun _ _ => .rfl⟩ (fun _ _ => rfl) ?_ ?_ ?_
    · intro q hqname
      change q ∈ s.live.filter _ ↔ _
      rw [mem_filter_ne]
      exact ⟨And.left, fun hq => ⟨hq, fun heq => hqname (congrArg Proc.name heq)⟩⟩
    · intro q hq hqname
      obtain ⟨hmem, hne⟩ := mem_filter_ne.mp hq
      exact absurd (h.sound.single hmem hp hqname) hne
    · intro k hk hkname
      exact absurd hkname (h.sound.no_timer hentry htimer k hk)
    · intro _
      refine ⟨?_, hc.armed, hc.idle, hc.count, hc.limit⟩
      intro q hq
      obtain ⟨hqname, hqtimer, hqgave, -⟩ := hc.held q hq
      exact ⟨hqname, hqtimer, hqgave, Or.inl hstop⟩
  · intro hlive
    obtain ⟨q, hq, hne⟩ := hok
    have hmem : q ∈ s.live.filter fun r => r ≠ p := mem_filter_ne.mpr ⟨hq, hne⟩
    rw [show s.live.filter (fun r => decide (r ≠ p)) = [] from hlive] at hmem
    cases hmem

/-! ## Stopping -/

/-- Clearing restarts takes timers away and nothing else. -/
structure Cleared (s s' : Supervisor) : Prop where
  children : s'.children = s.children
  stopping : s'.stopping = s.stopping
  gaveUp : s'.gaveUp = s.gaveUp
  waited : s'.waited = s.waited
  stops : s'.stops = s.stops
  spawned : s'.spawned = s.spawned
  live : s'.live = s.live
  process : ∀ i, (s'.states i).process = (s.states i).process
  gaveUpAt : ∀ i, (s'.states i).gaveUpAt = (s.states i).gaveUpAt
  restart : ∀ i, (s.states i).restartTimer = none → (s'.states i).restartTimer = none

theorem Cleared.refl (s : Supervisor) : Cleared s s :=
  ⟨rfl, rfl, rfl, rfl, rfl, rfl, rfl, fun _ => rfl, fun _ => rfl, fun _ h => h⟩

theorem Cleared.trans {s₁ s₂ s₃ : Supervisor} (h : Cleared s₁ s₂) (h' : Cleared s₂ s₃) :
    Cleared s₁ s₃ where
  children := h'.children.trans h.children
  stopping := h'.stopping.trans h.stopping
  gaveUp := h'.gaveUp.trans h.gaveUp
  waited := h'.waited.trans h.waited
  stops := h'.stops.trans h.stops
  spawned := h'.spawned.trans h.spawned
  live := h'.live.trans h.live
  process := fun i => (h'.process i).trans (h.process i)
  gaveUpAt := fun i => (h'.gaveUpAt i).trans (h.gaveUpAt i)
  restart := fun i hi => h'.restart i (h.restart i hi)

theorem cleared_clearRestart (s : Supervisor) (e : Entry) :
    Cleared s (s.clearRestart e) ∧ ((s.clearRestart e).states e.state).restartTimer = none := by
  unfold clearRestart
  split
  · rename_i hnone
    exact ⟨Cleared.refl s, hnone⟩
  · rename_i k _
    have hfield : ∀ (i : Nat) {β : Type} (f : ChildState → β),
        f { s.states e.state with restartTimer := none } = f (s.states e.state) →
        f (Function.update s.states e.state { s.states e.state with restartTimer := none } i) =
          f (s.states i) := by
      intro i β f hf
      by_cases hi : i = e.state
      · rw [hi, Function.update_self, hf]
      · rw [Function.update_of_ne hi]
    refine ⟨⟨rfl, rfl, rfl, rfl, rfl, rfl, rfl, ?_, ?_, ?_⟩, ?_⟩
    · exact fun i => hfield i ChildState.process rfl
    · exact fun i => hfield i ChildState.gaveUpAt rfl
    · intro i hi
      change (Function.update s.states e.state _ i).restartTimer = none
      by_cases heq : i = e.state
      · rw [heq, Function.update_self]
      · rwa [Function.update_of_ne heq]
    · change (Function.update s.states e.state _ e.state).restartTimer = none
      rw [Function.update_self]

theorem Sound.clearRestart (h : Sound t fs nobody s) (hstop : s.stopping = true) {e : Entry}
    (he : e ∈ s.children.rows) : Sound t fs nobody (s.clearRestart e) := by
  unfold Supervisor.clearRestart
  split
  · exact h
  · rename_i k hk
    have hc := h.child e he id
    obtain ⟨hname, hgave, hmem⟩ := hc.armed k hk
    have hprocess : (s.states e.state).process = none := by
      cases hp : (s.states e.state).process with
      | none => rfl
      | some p =>
          rw [(hc.held p hp).2.1] at hk
          cases hk
    refine (h.writing _).touch he ⟨rfl, rfl, ?_, rfl, Nat.le_refl _, fun _ _ => .rfl, ?_⟩
      (fun _ _ => rfl) ?_ ?_ ?_
    · exact fun i hi => Function.update_of_ne hi _ _
    · intro j hjname
      change j ∈ s.timers.filter _ ↔ _
      rw [mem_filter_ne]
      exact ⟨And.left, fun hj => ⟨hj, fun heq => hjname (heq ▸ hname)⟩⟩
    · exact fun p hp hpname => absurd hpname (h.no_live he hprocess p hp)
    · intro j hj hjname
      obtain ⟨hjmem, hne⟩ := mem_filter_ne.mp hj
      have hentry := eq_of_name he (h.timers j hjmem).entry hjname
      have hheld := (h.timers j hjmem).timer
      rw [show j.state = e.state from congrArg Entry.state hentry, hk] at hheld
      exact absurd (Option.some.inj hheld).symm hne
    · intro _
      change ChildSound t _ _ _ (Function.update s.states e.state _ e.state)
      rw [Function.update_self]
      refine ⟨?_, ?_, ?_, hc.count, hc.limit⟩
      · intro p hp
        rw [show (s.states e.state).process = some p from hp] at hprocess
        cases hprocess
      · rintro j ⟨⟩
      · intro hrun
        rw [show s.stopping = false from hrun] at hstop
        cases hstop

theorem Sound.clearRestarts (es : List Entry) (h : Sound t fs nobody s)
    (hstop : s.stopping = true) (hes : ∀ e ∈ es, e ∈ s.children.rows) :
    Sound t fs nobody (es.foldl Supervisor.clearRestart s) ∧
      Cleared s (es.foldl Supervisor.clearRestart s) ∧ ∀ e ∈ es,
        ((es.foldl Supervisor.clearRestart s).states e.state).restartTimer = none := by
  induction es generalizing s with
  | nil => exact ⟨h, Cleared.refl s, by rintro e ⟨⟩⟩
  | cons e rest ih =>
      obtain ⟨hcleared, hnone⟩ := cleared_clearRestart s e
      have hsound := h.clearRestart hstop (hes e List.mem_cons_self)
      obtain ⟨hsound', hcleared', hnone'⟩ := ih hsound (hcleared.stopping.trans hstop) (by
        intro e' he'
        rw [hcleared.children]
        exact hes e' (List.mem_cons_of_mem _ he'))
      refine ⟨hsound', hcleared.trans hcleared', ?_⟩
      intro e' he'
      rcases List.mem_cons.mp he' with rfl | hrest
      · exact hcleared'.restart _ hnone
      · exact hnone' e' hrest

/-- From here on a child may be without any of the three. -/
theorem Sound.stopping (h : Sound t fs nobody s) :
    Sound t fs nobody { s with stopping := true } where
  index := h.index
  apart := h.apart
  live := by
    intro p hp
    obtain ⟨hfresh, hentry, hprocess, hstarted⟩ := h.live p hp
    exact ⟨hfresh, hentry, hprocess, hstarted⟩
  timers := by
    intro k hk
    obtain ⟨hentry, htimer⟩ := h.timers k hk
    exact ⟨hentry, htimer⟩
  child := by
    intro e he hskip
    obtain ⟨held, armed, -, count, limit⟩ := h.child e he hskip
    refine ⟨?_, armed, ?_, count, limit⟩
    · intro p hp
      obtain ⟨hname, htimer, hgave, -⟩ := held p hp
      exact ⟨hname, htimer, hgave, Or.inl rfl⟩
    · rintro ⟨⟩

/-- A call of `stop` waits for what the children hold then. -/
theorem Good.stop (h : Good t fs s) : Good t fs s.stop := by
  obtain ⟨hsound, hcleared, hnone⟩ :=
    h.sound.stopping.clearRestarts s.children.rows rfl fun _ he => he
  unfold Supervisor.stop
  generalize s.children.rows.foldl Supervisor.clearRestart { s with stopping := true } = s₁
    at hsound hcleared hnone
  have hchildren : s₁.children = s.children := hcleared.children
  have hstopping : s₁.stopping = true := hcleared.stopping
  have htimers : s₁.timers = [] := by
    refine List.eq_nil_iff_forall_not_mem.mpr fun k hk => ?_
    obtain ⟨hentry, htimer⟩ := hsound.timers k hk
    rw [hchildren] at hentry
    have hcleared' := hnone _ hentry
    rw [show (s₁.states k.state).restartTimer = some k from htimer] at hcleared'
    cases hcleared'
  have hstops : ∀ ws ∈ s₁.stops, ∀ p, p ∈ ws ↔
      ∃ e ∈ s₁.children.rows, (s₁.states e.state).process = some p := by
    rw [hchildren]
    intro ws hws p
    simp only [hcleared.process]
    rw [hcleared.stops] at hws
    exact h.stopped.stops ws hws p
  refine ⟨hsound.congr rfl rfl rfl rfl rfl rfl rfl, ?_, ?_⟩
  · have hmarked : Marked s₁ :=
      h.marked.congr hchildren hcleared.gaveUpAt hcleared.gaveUp hcleared.waited
    exact hmarked.congr rfl (fun _ => rfl) rfl rfl
  · constructor
    · exact fun _ => htimers
    · intro hrun
      rw [show s₁.stopping = false from hrun] at hstopping
      cases hstopping
    · exact fun _ hnil => by simp at hnil
    · intro ws hws p
      rcases List.mem_append.mp hws with hold | hnew
      · exact hstops ws hold p
      · rw [List.mem_singleton.mp hnew]
        exact List.mem_filterMap
    · intro hlive _ e he
      change s₁.live = [] at hlive
      change e ∈ s₁.children.rows at he
      change (s₁.states e.state).process = none
      rw [hcleared.process]
      rw [hchildren] at he
      rw [show s₁.live = s.live from hcleared.live] at hlive
      cases hp : (s.states e.state).process with
      | none => rfl
      | some p =>
          rcases ((h.sound.child e he id).held p hp).2.2.2 with hstop | hmem
          · rw [h.stopped.reaped hlive hstop e he] at hp
            cases hp
          · rw [hlive] at hmem
            cases hmem

end

end Fleet

end FleetRunner
