import FleetRunner.Fleet.Callbacks

/-!
# No child is lost silently

The first starts establish the invariant and the events keep it, unless one
loses a child: the handler of `error` only reports, so a start that fails takes
the process away and leaves neither a restart nor the mark, and a later `stop`
waits for an exit that does not come.
-/

namespace FleetRunner

open Library

namespace Fleet

open Supervisor

section

variable {t : Timings} {fs : String → List Failure} {skip : String → Prop} {s : Supervisor}

/-! ## The first starts -/

theorem adopt_fields (hrun : s.stopping = false) (spec : ChildSpec) (l : Launch) :
    (s.adopt spec l).stopping = false ∧ (s.adopt spec l).next = s.next + 1 ∧
      (s.adopt spec l).live = s.live ++ [Proc.mk s.next spec.name s.made l] := by
  have hfound : (s.children.upsert ⟨spec.name, s.made⟩).find? spec.name =
      some ⟨spec.name, s.made⟩ := by
    rw [Table.find?_upsert, if_pos rfl]
  have hentry : (⟨spec.name, s.made⟩ : Entry) ∈ (s.enter spec).children.rows :=
    Table.mem_rows_iff.mpr hfound
  have hstart := start_eq hentry (show (s.enter spec).stopping = false from hrun) l
  change ((s.enter spec).start spec.name l).stopping = false ∧
    ((s.enter spec).start spec.name l).next = s.next + 1 ∧
      ((s.enter spec).start spec.name l).live = _
  rw [hstart]
  exact ⟨hrun, rfl, rfl⟩

theorem live_adopts (specs : List (ChildSpec × Launch)) (hrun : s.stopping = false)
    (hids : ∀ p ∈ s.live, p.id < s.next) (hnodup : s.live.Nodup) :
    (specs.foldl (fun s c => s.adopt c.1 c.2) s).live.Nodup ∧
      (specs.foldl (fun s c => s.adopt c.1 c.2) s).live.map Proc.name =
        s.live.map Proc.name ++ specs.map fun c => c.1.name := by
  induction specs generalizing s with
  | nil => exact ⟨hnodup, (List.append_nil _).symm⟩
  | cons c rest ih =>
      obtain ⟨hrun', hnext, hlive⟩ := adopt_fields hrun c.1 c.2
      have hids' : ∀ p ∈ (s.adopt c.1 c.2).live, p.id < (s.adopt c.1 c.2).next := by
        rw [hnext, hlive]
        intro p hp
        rcases List.mem_append.mp hp with hold | hnew
        · exact Nat.lt_succ_of_lt (hids p hold)
        · rw [List.mem_singleton.mp hnew]
          exact Nat.lt_succ_self _
      have hnodup' : (s.adopt c.1 c.2).live.Nodup := by
        rw [hlive]
        refine List.nodup_append.mpr ⟨hnodup, List.nodup_singleton _, ?_⟩
        rintro p hp q hq rfl
        have hlt := hids p hp
        rw [List.mem_singleton.mp hq] at hlt
        exact Nat.lt_irrefl _ hlt
      obtain ⟨hdone, hnames⟩ := ih hrun' hids' hnodup'
      refine ⟨hdone, ?_⟩
      rw [List.foldl_cons, hnames, hlive, List.map_append, List.append_assoc]
      rfl

/-- A child that has been entered and not yet started. -/
theorem Sound.enter (h : Sound t (fun _ => []) nobody s) {spec : ChildSpec}
    (hfree : s.children.find? spec.name = none) :
    Sound t (fun _ => []) (fun c => c = spec.name) (s.enter spec) ∧
      (s.enter spec).children.rows = s.children.rows ++ [⟨spec.name, s.made⟩] ∧
        ∀ e ∈ s.children.rows, (s.enter spec).states e.state = s.states e.state := by
  have hrows : (s.enter spec).children.rows = s.children.rows ++ [⟨spec.name, s.made⟩] :=
    Table.rows_upsert_of_free (t := s.children) (r := ⟨spec.name, s.made⟩) hfree
  have hstates : ∀ i, i < s.made → (s.enter spec).states i = s.states i := fun i hi =>
    Function.update_of_ne (Nat.ne_of_lt hi) _ _
  refine ⟨⟨?_, ?_, ?_, ?_, ?_⟩, hrows, fun e he => hstates _ (h.index e he)⟩
  · rw [hrows]
    intro e he
    change e.state < s.made + 1
    rcases List.mem_append.mp he with hold | hnew
    · exact Nat.lt_succ_of_lt (h.index e hold)
    · rw [List.mem_singleton.mp hnew]
      exact Nat.lt_succ_self _
  · rw [hrows]
    intro e he e' he' hstate
    rcases List.mem_append.mp he with hold | hnew <;> rcases List.mem_append.mp he' with hold' | hnew'
    · exact h.apart e hold e' hold' hstate
    · have hlt := h.index e hold
      rw [hstate, List.mem_singleton.mp hnew'] at hlt
      exact absurd hlt (Nat.lt_irrefl _)
    · have hlt := h.index e' hold'
      rw [← hstate, List.mem_singleton.mp hnew] at hlt
      exact absurd hlt (Nat.lt_irrefl _)
    · rw [List.mem_singleton.mp hnew, List.mem_singleton.mp hnew']
  · intro p hp
    obtain ⟨hfresh, hentry, hprocess, hstarted⟩ := h.live p hp
    have hstate := hstates p.state (h.index _ hentry)
    refine ⟨hfresh, ?_, ?_, ?_⟩
    · rw [hrows]
      exact List.mem_append_left _ hentry
    · rwa [hstate]
    · rwa [hstate]
  · intro k hk
    obtain ⟨hentry, htimer⟩ := h.timers k hk
    have hstate := hstates k.state (h.index _ hentry)
    refine ⟨?_, ?_⟩
    · rw [hrows]
      exact List.mem_append_left _ hentry
    · rwa [hstate]
  · rw [hrows]
    intro e he hskip
    rcases List.mem_append.mp he with hold | hnew
    · rw [hstates e.state (h.index e hold)]
      exact (h.child e hold id).frame rfl (fun _ hq _ => hq) fun _ hj _ => hj
    · rw [List.mem_singleton.mp hnew] at hskip
      exact absurd rfl hskip

/-- Nobody has given up yet. -/
structure Fresh (s : Supervisor) : Prop where
  running : s.stopping = false
  states : ∀ i, (s.states i).gaveUpAt = none
  gaveUp : s.gaveUp = []
  waited : s.waited = false
  stops : s.stops = []

theorem Fresh.not_gaveUp (h : Fresh s) (c : String) : ¬s.GaveUp c := by
  rintro ⟨e, -, -, hsome⟩
  rw [h.states] at hsome
  cases hsome

theorem Fresh.adopt (h : Fresh s) (spec : ChildSpec) (l : Launch) : Fresh (s.adopt spec l) := by
  have hfields : (s.adopt spec l).gaveUp = s.gaveUp ∧ (s.adopt spec l).waited = s.waited ∧
      (s.adopt spec l).stops = s.stops := by
    unfold Supervisor.adopt Supervisor.start
    split
    · exact ⟨rfl, rfl, rfl⟩
    · split <;> exact ⟨rfl, rfl, rfl⟩
  refine ⟨(adopt_fields h.running spec l).1, ?_, hfields.1.trans h.gaveUp,
    hfields.2.1.trans h.waited, hfields.2.2.trans h.stops⟩
  intro i
  refine (gaveUpAt_start spec.name l i).trans ?_
  change (Function.update s.states s.made (freshState spec) i).gaveUpAt = none
  by_cases hi : i = s.made
  · rw [hi, Function.update_self]
    rfl
  · rw [Function.update_of_ne hi]
    exact h.states i

/-- The marks and the promises are those of a supervisor nothing has happened to. -/
theorem Fresh.good (h : Fresh s) (hsound : Sound t (fun _ => []) nobody s)
    (hne : s.children.rows ≠ []) : Good t (fun _ => []) s := by
  refine ⟨hsound, ⟨?_, ?_, ?_⟩, .of_running h.running h.stops⟩
  · rw [h.gaveUp]
    exact List.nodup_nil
  · intro c
    rw [h.gaveUp]
    exact iff_of_false List.not_mem_nil (h.not_gaveUp c)
  · rw [h.waited]
    refine iff_of_false Bool.false_ne_true fun hall => ?_
    obtain ⟨e, he⟩ := List.exists_mem_of_ne_nil _ hne
    exact h.not_gaveUp e.name (hall.2 e.name ⟨e, he, rfl⟩)

theorem Sound.adopt (h : Sound t (fun _ => []) nobody s) (hs : Fresh s) {spec : ChildSpec}
    (hfree : s.children.find? spec.name = none) (l : Launch) :
    Sound t (fun _ => []) nobody (s.adopt spec l) ∧
      (s.adopt spec l).children.rows = s.children.rows ++ [⟨spec.name, s.made⟩] := by
  obtain ⟨hsound, hrows, -⟩ := h.enter hfree
  have hentry : (⟨spec.name, s.made⟩ : Entry) ∈ (s.enter spec).children.rows := by
    rw [hrows]
    exact List.mem_append_right _ (List.mem_singleton_self _)
  have hstate : (s.enter spec).states s.made = freshState spec := Function.update_self _ _ _
  have hrun : (s.enter spec).stopping = false := hs.running
  constructor
  · refine hsound.start hentry hrun ?_ ?_ ?_ ?_ ?_ l
    · exact congrArg ChildState.process hstate
    · exact congrArg ChildState.restartTimer hstate
    · exact congrArg ChildState.gaveUpAt hstate
    · exact congrArg ChildState.restarts hstate
    · change ¬t.giveUpAfter < ((s.enter spec).states s.made).restarts
      rw [hstate]
      exact Nat.not_lt_zero _
  · have hstart : s.adopt spec l = (s.enter spec).start spec.name l := rfl
    rw [hstart, start_eq hentry hrun]
    exact hrows

theorem sound_adopts (specs : List (ChildSpec × Launch)) (h : Sound t (fun _ => []) nobody s)
    (hs : Fresh s) (hnodup : (specs.map fun c => c.1.name).Nodup)
    (hfree : ∀ c ∈ specs, s.children.find? c.1.name = none) :
    Sound t (fun _ => []) nobody (specs.foldl (fun s c => s.adopt c.1 c.2) s) ∧
      Fresh (specs.foldl (fun s c => s.adopt c.1 c.2) s) ∧
        (specs.foldl (fun s c => s.adopt c.1 c.2) s).children.rows.length =
          s.children.rows.length + specs.length := by
  induction specs generalizing s with
  | nil => exact ⟨h, hs, rfl⟩
  | cons c rest ih =>
      rw [List.map_cons, List.nodup_cons] at hnodup
      obtain ⟨hsound, hrows⟩ := h.adopt hs (hfree c List.mem_cons_self) c.2
      obtain ⟨hsound', hs', hlen⟩ := ih hsound (hs.adopt c.1 c.2) hnodup.2 (by
        intro d hd
        rw [Table.find?_eq_none_iff, hrows]
        intro e he hname
        rcases List.mem_append.mp he with hold | hnew
        · exact Table.find?_eq_none_iff.mp (hfree d (List.mem_cons_of_mem _ hd)) e hold hname
        · rw [List.mem_singleton.mp hnew] at hname
          exact hnodup.1 (List.mem_map.mpr ⟨d, hd, hname.symm⟩))
      refine ⟨hsound', hs', ?_⟩
      rw [List.foldl_cons, hlen, hrows]
      simp only [List.length_append, List.length_cons, List.length_nil]
      omega

/-- Children of different names start out well. -/
theorem good_supervise {specs : List (ChildSpec × Launch)} (hne : specs ≠ [])
    (hnodup : (specs.map fun c => c.1.name).Nodup) :
    Good t (fun _ => []) (supervise specs) ∧ (supervise specs).children.rows ≠ [] := by
  have hidle : Sound t (fun _ => []) nobody idle := by
    constructor
    · rintro e ⟨⟩
    · rintro e ⟨⟩
    · rintro p ⟨⟩
    · rintro k ⟨⟩
    · rintro e ⟨⟩
  obtain ⟨hsound, hs, hlen⟩ := sound_adopts specs hidle ⟨rfl, fun _ => rfl, rfl, rfl, rfl⟩ hnodup
    fun _ _ => rfl
  have hrows : (supervise specs).children.rows ≠ [] := by
    intro hnil
    have hzero : 0 = 0 + specs.length := by
      rw [← show (supervise specs).children.rows.length = 0 + specs.length from hlen, hnil]
      rfl
    rw [Nat.zero_add] at hzero
    exact hne (List.length_eq_zero_iff.mp hzero.symm)
  exact ⟨hs.good hsound hrows, hrows⟩

end

/-! ## Runs -/

/-- The event leaves no child with a process that is gone: no start fails, unless everything
is being stopped and another process is there; and the last process to exit then leaves no
child that holds one whose start has failed. -/
def NotLost (s : Supervisor) : Event → Prop
  | .error p _ => p ∈ s.live → p.launch.pid = none →
    s.stopping = true ∧ ∃ q ∈ s.live, q ≠ p
  | .exit p _ => p ∈ s.live → p.launch.pid ≠ none → s.stopping = true →
    (∃ q ∈ s.live, q ≠ p) ∨
      ∀ e ∈ s.children.rows, ∀ q, (s.states e.state).process = some q → q ∈ s.live
  | _ => True

section

variable {t : Timings} {logFile : String → String}

theorem failures_concat (s : Supervisor) (past : List Event) (e : Event) (c : String) :
    failures t logFile s (past ++ [e]) c =
      failures t logFile s past c ++ (failure? c (run (step t logFile) s past) e).toList :=
  watch_concat _ s [] past e

theorem failures_of_none {s : Supervisor} {past : List Event} {e : Event}
    (h : ∀ c, failure? c (run (step t logFile) s past) e = none) :
    failures t logFile s (past ++ [e]) = failures t logFile s past := by
  funext c
  rw [failures_concat, h c]
  exact List.append_nil _

theorem children_start (s : Supervisor) (c : String) (l : Launch) :
    (s.start c l).children = s.children := by
  unfold Supervisor.start
  split
  · rfl
  · split <;> rfl

theorem children_onExit (s : Supervisor) (p : Proc) (x : Exit) :
    (s.onExit t logFile p x).children = s.children := by
  cases hstop : s.stopping with
  | true =>
      rw [onExit_stopping logFile hstop]
      rfl
  | false =>
      unfold onExit
      simp only [ended, hstop, Bool.false_eq_true, if_false]
      exact (afterFailure_fields logFile _ p _ x.time).2.2

theorem cleared_foldl (es : List Entry) (s : Supervisor) :
    Cleared s (es.foldl Supervisor.clearRestart s) := by
  induction es generalizing s with
  | nil => exact Cleared.refl s
  | cons e rest ih => exact (cleared_clearRestart s e).1.trans (ih _)

theorem children_step (s : Supervisor) (e : Event) :
    (step t logFile s e).children = s.children := by
  cases e with
  | error p message => simp only [step]; split <;> rfl
  | exit p x =>
      simp only [step]
      split
      · exact children_onExit s p x
      · rfl
  | timer k l =>
      simp only [step]
      split
      · exact children_start _ k.name l
      · rfl
  | grace p => simp only [step]; split <;> rfl
  | stop => exact (cleared_foldl s.children.rows { s with stopping := true }).children

theorem children_run (s : Supervisor) (past : List Event) :
    (run (step t logFile) s past).children = s.children :=
  invariant_all (I := fun s' => s'.children = s.children)
    (fun s' e h => (children_step s' e).trans h) rfl past

/-- Once everything is being stopped it stays so, and no process is started. -/
theorem stopping_step {s : Supervisor} (h : s.stopping = true) (e : Event) :
    (step t logFile s e).stopping = true ∧ (step t logFile s e).spawned = s.spawned := by
  cases e with
  | error p message => simp only [step]; split <;> exact ⟨h, rfl⟩
  | exit p x =>
      simp only [step]
      split
      · rw [onExit_stopping logFile h]
        exact ⟨h, rfl⟩
      · exact ⟨h, rfl⟩
  | timer k l =>
      simp only [step]
      split
      · unfold Supervisor.onTimer Supervisor.start
        split
        · exact ⟨h, rfl⟩
        · split
          · exact ⟨h, rfl⟩
          · rename_i hrun
            exact absurd h hrun
      · exact ⟨h, rfl⟩
  | grace p => simp only [step]; split <;> exact ⟨h, rfl⟩
  | stop =>
      have hcleared := cleared_foldl s.children.rows { s with stopping := true }
      exact ⟨hcleared.stopping, hcleared.spawned⟩

theorem spawned_of_stopping {s : Supervisor} (h : s.stopping = true) (events : List Event) :
    (run (step t logFile) s events).spawned = s.spawned := by
  have hboth : (run (step t logFile) s events).stopping = true ∧
      (run (step t logFile) s events).spawned = s.spawned :=
    invariant_all (I := fun s' : Supervisor => s'.stopping = true ∧ s'.spawned = s.spawned)
      (fun s' e hs' => ⟨(stopping_step hs'.1 e).1, (stopping_step hs'.1 e).2.trans hs'.2⟩)
      ⟨h, rfl⟩ events
  exact hboth.2

/-- The events that do not lose a child keep the invariant. -/
theorem Good.step {s₀ : Supervisor} {past : List Event}
    (h : Good t (failures t logFile s₀ past) (run (step t logFile) s₀ past)) {e : Event}
    (hok : NotLost (run (step t logFile) s₀ past) e) :
    Good t (failures t logFile s₀ (past ++ [e]))
      (Fleet.step t logFile (run (step t logFile) s₀ past) e) := by
  generalize hs : run (Fleet.step t logFile) s₀ past = s at h hok
  cases e with
  | error p message =>
      simp only [Fleet.step]
      split
      · rename_i hp
        obtain ⟨hstop, hother⟩ := hok hp.1 hp.2
        rw [failures_of_none fun c => by simp [hs, failure?, hstop]]
        exact h.error_stopping hstop hp.1 message hother
      · rename_i hp
        rw [failures_of_none fun c => by
          rw [hs]
          exact if_neg fun hall => hp ⟨hall.1, hall.2.1⟩]
        exact h
  | exit p x =>
      simp only [Fleet.step]
      split
      · rename_i hp
        cases hstop : s.stopping with
        | true =>
            rw [failures_of_none fun c => by simp [hs, failure?, hstop]]
            exact h.exit_stopping logFile hstop hp.1 x (hok hp.1 hp.2 hstop)
        | false =>
            apply h.exit_running logFile hstop hp.1 x
            · intro c hc
              rw [failures_concat, hs]
              simp [failure?, hc.symm]
            · rw [failures_concat, hs]
              simp [failure?, hp.1, hp.2, hstop]
      · rename_i hp
        rw [failures_of_none fun c => by
          rw [hs]
          exact if_neg fun hall => hp ⟨hall.1, hall.2.1⟩]
        exact h
  | timer k l =>
      rw [failures_of_none fun c => rfl]
      simp only [Fleet.step]
      split
      · rename_i hk
        cases hstop : s.stopping with
        | true =>
            rw [h.stopped.halted hstop] at hk
            cases hk
        | false =>
            have hmarked : Marked (s.onTimer k l) := by
              apply Marked.start
              refine h.marked.congr rfl ?_ rfl rfl
              intro i
              change (Function.update s.states k.state _ i).gaveUpAt = _
              by_cases hi : i = k.state
              · rw [hi, Function.update_self]
              · rw [Function.update_of_ne hi]
            refine ⟨h.sound.onTimer hstop hk l, hmarked, .of_running ?_ ?_⟩
            · unfold onTimer Supervisor.start
              split
              · exact hstop
              · split <;> exact hstop
            · have hstops := h.stopped.running hstop
              unfold onTimer Supervisor.start
              split
              · exact hstops
              · split <;> exact hstops
      · exact h
  | grace p =>
      rw [failures_of_none fun c => rfl]
      simp only [Fleet.step]
      split
      · refine ⟨h.sound.congr rfl rfl rfl rfl rfl rfl rfl, h.marked.congr rfl (fun _ => rfl) rfl rfl,
          ?_⟩
        obtain ⟨halted, running, called, stops, reaped⟩ := h.stopped
        exact ⟨halted, running, called, stops, reaped⟩
      · exact h
  | stop =>
      rw [failures_of_none fun c => rfl]
      exact h.stop

/-- An event that loses a child breaks what is promised. -/
theorem Good.lost {fs gs : String → List Failure} {s : Supervisor} (h : Good t fs s) {e : Event}
    (hkept : Supervised t gs (Fleet.step t logFile s e)) : NotLost s e := by
  cases e with
  | error p message =>
      intro hp hpid
      have hstep : Fleet.step t logFile s (.error p message) = s.onError p message :=
        if_pos ⟨hp, hpid⟩
      rw [hstep] at hkept
      obtain ⟨-, hentry, hheld, -⟩ := h.sound.live p hp
      have hc := h.sound.child _ hentry id
      obtain ⟨-, htimer, hgave, -⟩ := hc.held p hheld
      cases hstop : s.stopping with
      | false =>
          exfalso
          have hruns : ¬(s.onError p message).Runs p.name := by
            rintro ⟨q, hq, hname⟩
            obtain ⟨hmem, hne⟩ := mem_filter_ne.mp hq
            exact hne (h.sound.single hmem hp hname)
          have hpends : ¬(s.onError p message).Pends p.name := by
            rintro ⟨k, hk, hname⟩
            exact h.sound.no_timer hentry htimer k hk hname
          have hgaveUp : ¬(s.onError p message).GaveUp p.name := by
            intro hgiven
            have hsome := (gaveUp_iff (s := s) hentry).mp hgiven
            rw [hgave] at hsome
            cases hsome
          rcases hkept.one hstop p.name ⟨_, hentry, rfl⟩ with hone | hone | hone
          · exact hruns hone.1
          · exact hpends hone.2.1
          · exact hgaveUp hone.2.2
      | true =>
          refine ⟨rfl, ?_⟩
          by_contra hother
          obtain ⟨ws, hws⟩ := List.exists_mem_of_ne_nil _ (h.stopped.called hstop)
          have hmem : p ∈ ws := (h.stopped.stops ws hws p).mpr ⟨_, hentry, hheld⟩
          have hlive : (s.onError p message).live = [] := by
            refine List.eq_nil_iff_forall_not_mem.mpr fun q hq => hother ?_
            exact ⟨q, mem_filter_ne.mp hq⟩
          rw [(hkept.stop ws hws).mpr hlive] at hmem
          cases hmem
  | exit p x =>
      intro hp hpid hstop
      have hstep : Fleet.step t logFile s (.exit p x) = s.onExit t logFile p x :=
        if_pos ⟨hp, hpid⟩
      rw [hstep, onExit_stopping logFile hstop] at hkept
      by_contra hnot
      obtain ⟨hother, hheld⟩ := not_or.mp hnot
      obtain ⟨ws, hws⟩ := List.exists_mem_of_ne_nil _ (h.stopped.called hstop)
      have hlive : s.live.filter (fun q => q ≠ p) = [] := by
        refine List.eq_nil_iff_forall_not_mem.mpr fun q hq => hother ?_
        exact ⟨q, mem_filter_ne.mp hq⟩
      have hnil := (hkept.stop _ (List.mem_map.mpr ⟨ws, hws, rfl⟩)).mpr hlive
      refine hheld fun e he q hq => ?_
      by_contra hgone
      have hmem : q ∈ ws.filter fun r => r ≠ p :=
        mem_filter_ne.mpr ⟨(h.stopped.stops ws hws q).mpr ⟨e, he, hq⟩, fun heq => hgone (heq ▸ hp)⟩
      rw [hnil] at hmem
      cases hmem
  | _ => trivial

end

variable (t : Timings) (logFile : String → String)

theorem kept_of_good {s₀ : Supervisor} {past : List Event}
    (h : Good t (failures t logFile s₀ past) (run (step t logFile) s₀ past))
    (hne : s₀.children.rows ≠ []) : Kept t logFile s₀ past where
  supervised := h.sound.supervised h.marked h.stopped (by rwa [children_run])
  halted := by
    rintro older ⟨rest, rfl⟩ hstop
    rw [run_append]
    exact spawned_of_stopping hstop rest

/-- What is promised of a supervisor holds after every part of a run exactly when its children
are there and have different names, and no event loses one of them. -/
theorem kept_iff (specs : List (ChildSpec × Launch)) (events : List Event) :
    (∀ past, past <+: events → Kept t logFile (supervise specs) past) ↔
      specs ≠ [] ∧ (specs.map fun c => c.1.name).Nodup ∧
        Along (step t logFile) NotLost (supervise specs) events := by
  constructor
  · intro h
    have hstart := (h [] List.nil_prefix).supervised
    have hne : specs ≠ [] := by
      rintro rfl
      have hwait := hstart.wait.mpr (by rintro c ⟨e, he, -⟩; cases he)
      cases hwait
    have hnodup : (specs.map fun c => c.1.name).Nodup := by
      obtain ⟨hlive, hnames⟩ := live_adopts (s := idle) specs rfl (by rintro p ⟨⟩) List.nodup_nil
      have hmap : (supervise specs).live.map Proc.name = specs.map fun c => c.1.name := hnames
      rw [← hmap]
      exact hlive.map_on fun p hp q hq hname => hstart.single p hp q hq hname
    obtain ⟨hgood, hrows⟩ := good_supervise (t := t) hne hnodup
    refine ⟨hne, hnodup, ?_⟩
    have hboth : Along (step t logFile) NotLost (supervise specs) events ∧
        Good t (failures t logFile (supervise specs) events)
          (run (step t logFile) (supervise specs) events) := by
      induction events using List.reverseRecOn with
      | nil => exact ⟨trivial, hgood⟩
      | append_singleton past e ih =>
          obtain ⟨hpast, hgoodPast⟩ := ih fun older ho =>
            h older (ho.trans (List.prefix_append past [e]))
          have hlast := (h (past ++ [e]) List.prefix_rfl).supervised
          rw [run_concat] at hlast
          have hok := hgoodPast.lost hlast
          refine ⟨along_append.mpr ⟨hpast, hok, trivial⟩, ?_⟩
          rw [run_concat]
          exact hgoodPast.step hok
    exact hboth.1
  · rintro ⟨hne, hnodup, hok⟩ past ⟨rest, rfl⟩
    obtain ⟨hgood, hrows⟩ := good_supervise (t := t) hne hnodup
    have hpast := (along_append.mp hok).1
    have hall : Good t (failures t logFile (supervise specs) past)
        (run (step t logFile) (supervise specs) past) :=
      history_invariant (I := fun past s => s = run (step t logFile) (supervise specs) past →
        Good t (failures t logFile (supervise specs) past) s) (fun _ => hgood)
        (fun older e ih hstep _ => (ih rfl).step hstep) hpast rfl
    exact kept_of_good t logFile hall hrows

/-- The program of an agent's child has gone: after the `error` it has no process, no restart
is pending, and it has not given up. -/
theorem lost_agent :
    ¬∀ past, past <+: [Event.error ⟨0, "agent", 0, ⟨0, none⟩⟩ "spawn node ENOENT"] →
      Kept DEFAULT_TIMINGS (fun name => "logs/" ++ name ++ ".log")
        (supervise [(⟨"agent", "node", ["agent.ts"]⟩, ⟨0, none⟩)]) past := by
  intro h
  have hone := (h _ List.prefix_rfl).supervised.one rfl "agent"
    ⟨⟨"agent", 0⟩, List.mem_singleton_self _, rfl⟩
  rcases hone with ⟨⟨p, hp, -⟩, -⟩ | ⟨-, ⟨k, hk, -⟩, -⟩ | ⟨-, -, ⟨e, he, -, hsome⟩⟩
  · cases hp
  · cases hk
  · rw [List.mem_singleton.mp he] at hsome
    cases hsome

end Fleet

end FleetRunner
