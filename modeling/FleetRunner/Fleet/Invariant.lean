import FleetRunner.Fleet.Supervisor
import Mathlib.Data.List.Perm.Subperm

/-!
# What a supervisor promises of its children

While it is not stopping, a supervisor has for each child a process, a pending
restart, or the mark that it has given up. The invariant below relates the
fields of a child to what the host has of it, and says what a step that
concerns one child has to be looked at for.
-/

namespace FleetRunner

open Library

namespace Fleet

open Supervisor

namespace Supervisor

def IsChild (s : Supervisor) (c : String) : Prop := ∃ e ∈ s.children.rows, e.name = c

/-- The child has a process whose last event is still to come. -/
def Runs (s : Supervisor) (c : String) : Prop := ∃ p ∈ s.live, p.name = c

def Pends (s : Supervisor) (c : String) : Prop := ∃ k ∈ s.timers, k.name = c

def GaveUp (s : Supervisor) (c : String) : Prop :=
  ∃ e ∈ s.children.rows, e.name = c ∧ (s.states e.state).gaveUpAt.isSome = true

end Supervisor

def ExactlyOne (a b c : Prop) : Prop := (a ∧ ¬b ∧ ¬c) ∨ (¬a ∧ b ∧ ¬c) ∨ (¬a ∧ ¬b ∧ c)

/-- A start that failed, or a run that ended after so many milliseconds. -/
inductive Failure where
  | start
  | run (ms : Int)

def Failure.long (t : Timings) : Failure → Bool
  | .start => false
  | .run ms => decide (t.healthyAfterMs < ms)

/-- The failures since the last long run, newest last, that run's own exit included. -/
def countSince (t : Timings) (fs : List Failure) : Nat :=
  (fs.reverse.takeWhile fun f => !f.long t).length + if fs.any (Failure.long t) then 1 else 0

theorem countSince_concat (t : Timings) (fs : List Failure) (f : Failure) :
    countSince t (fs ++ [f]) = (if f.long t then 0 else countSince t fs) + 1 := by
  cases hf : f.long t with
  | true => simp [countSince, hf]
  | false =>
      simp [countSince, hf]
      omega

/-- The failure of the child `c` that an event is, while nothing is being stopped. -/
def failure? (c : String) (s : Supervisor) : Event → Option Failure
  | .error p _ =>
    if p ∈ s.live ∧ p.launch.pid = none ∧ p.name = c ∧ s.stopping = false then some .start
    else none
  | .exit p e =>
    if p ∈ s.live ∧ p.launch.pid ≠ none ∧ p.name = c ∧ s.stopping = false then
      some (.run (e.time - p.launch.time))
    else none
  | _ => none

/-- What holds of the children between two events, given the failures of each so far. -/
structure Supervised (t : Timings) (fs : String → List Failure) (s : Supervisor) : Prop where
  one : s.stopping = false → ∀ c, s.IsChild c → ExactlyOne (s.Runs c) (s.Pends c) (s.GaveUp c)
  givesUp : ∀ c, s.IsChild c → (s.GaveUp c ↔ t.giveUpAfter < countSince t (fs c))
  single : ∀ p ∈ s.live, ∀ q ∈ s.live, p.name = q.name → p = q
  wait : s.waited = true ↔ ∀ c, s.IsChild c → s.GaveUp c
  stop : ∀ ws ∈ s.stops, ws = [] ↔ s.live = []

variable (t : Timings) (logFile : String → String)

/-- The failures of the child `c` in a run. -/
def failures (s : Supervisor) (past : List Event) (c : String) : List Failure :=
  watch (step t logFile) (fun s e _ fs => fs ++ (failure? c s e).toList) s [] past

/-- What is promised of a supervisor that was started in `s`, after the events `past`. -/
structure Kept (s : Supervisor) (past : List Event) : Prop where
  supervised : Supervised t (failures t logFile s past) (run (step t logFile) s past)
  halted : ∀ older, older <+: past → (run (step t logFile) s older).stopping = true →
    (run (step t logFile) s past).spawned = (run (step t logFile) s older).spawned

/-! ## The invariant -/

/-- What the state of the child `c` says about the host and about its failures. -/
structure ChildSound (fs : List Failure) (s : Supervisor) (c : String) (st : ChildState) : Prop where
  held : ∀ p, st.process = some p → p.name = c ∧ st.restartTimer = none ∧ st.gaveUpAt = none ∧
    (s.stopping = true ∨ p ∈ s.live)
  armed : ∀ k, st.restartTimer = some k → k.name = c ∧ st.gaveUpAt = none ∧ k ∈ s.timers
  idle : s.stopping = false → st.process = none → st.restartTimer = none →
    st.gaveUpAt.isSome = true
  count : st.restarts = countSince t fs
  limit : st.gaveUpAt.isSome = true ↔ t.giveUpAfter < st.restarts

/-- A process whose last event is to come is the one its child holds. -/
structure ProcSound (s : Supervisor) (p : Proc) : Prop where
  fresh : p.id < s.next
  entry : (⟨p.name, p.state⟩ : Entry) ∈ s.children.rows
  process : (s.states p.state).process = some p
  started : (s.states p.state).startedAt = some p.launch.time

structure TimerSound (s : Supervisor) (k : Timer) : Prop where
  entry : (⟨k.name, k.state⟩ : Entry) ∈ s.children.rows
  timer : (s.states k.state).restartTimer = some k

/-- The entries, the processes and the timers belong together; `skip` is a child whose
state is being written. -/
structure Sound (fs : String → List Failure) (skip : String → Prop) (s : Supervisor) : Prop where
  index : ∀ e ∈ s.children.rows, e.state < s.made
  apart : ∀ e ∈ s.children.rows, ∀ e' ∈ s.children.rows, e.state = e'.state → e = e'
  live : ∀ p ∈ s.live, ProcSound s p
  timers : ∀ k ∈ s.timers, TimerSound s k
  child : ∀ e ∈ s.children.rows, ¬skip e.name → ChildSound t (fs e.name) s e.name (s.states e.state)

/-- The set of those that have given up, and the promise of `wait`. -/
structure Marked (s : Supervisor) : Prop where
  nodup : s.gaveUp.Nodup
  gaveUp : ∀ c, c ∈ s.gaveUp ↔ s.GaveUp c
  waited : s.waited = true ↔ s.children.rows ≠ [] ∧ ∀ c, s.IsChild c → s.GaveUp c

/-- What the calls of `stop` wait for is what the children hold. -/
structure Stopped (s : Supervisor) : Prop where
  halted : s.stopping = true → s.timers = []
  running : s.stopping = false → s.stops = []
  called : s.stopping = true → s.stops ≠ []
  stops : ∀ ws ∈ s.stops, ∀ p, p ∈ ws ↔
    ∃ e ∈ s.children.rows, (s.states e.state).process = some p
  reaped : s.live = [] → s.stopping = true → ∀ e ∈ s.children.rows,
    (s.states e.state).process = none

def nobody : String → Prop := fun _ => False

section

variable {t} {fs : String → List Failure} {skip : String → Prop} {s : Supervisor}

theorem eq_of_name {e e' : Entry} (he : e ∈ s.children.rows) (he' : e' ∈ s.children.rows)
    (hname : e'.name = e.name) : e' = e := by
  have hfound := Table.mem_rows_iff.mp he'
  rw [hname, Table.mem_rows_iff.mp he] at hfound
  exact (Option.some.inj hfound).symm

theorem Sound.single (h : Sound t fs skip s) {p q : Proc} (hp : p ∈ s.live) (hq : q ∈ s.live)
    (hname : p.name = q.name) : p = q := by
  have hentry := eq_of_name (h.live q hq).entry (h.live p hp).entry hname
  have hstate : p.state = q.state := congrArg Entry.state hentry
  have hheld := (h.live p hp).process
  rw [hstate, (h.live q hq).process] at hheld
  exact (Option.some.inj hheld).symm

/-- The fields of a child and what the host has of it say the same. -/
theorem Sound.runs_iff (h : Sound t fs nobody s) (hrun : s.stopping = false) {e : Entry}
    (he : e ∈ s.children.rows) :
    s.Runs e.name ↔ ∃ p, (s.states e.state).process = some p := by
  constructor
  · rintro ⟨p, hp, hname⟩
    have hentry := eq_of_name he (h.live p hp).entry hname
    exact ⟨p, by rw [← hentry]; exact (h.live p hp).process⟩
  · rintro ⟨p, hheld⟩
    obtain ⟨hname, -, -, hstop | hlive⟩ := (h.child e he id).held p hheld
    · rw [hstop] at hrun
      cases hrun
    · exact ⟨p, hlive, hname⟩

theorem Sound.pends_iff (h : Sound t fs nobody s) {e : Entry} (he : e ∈ s.children.rows) :
    s.Pends e.name ↔ ∃ k, (s.states e.state).restartTimer = some k := by
  constructor
  · rintro ⟨k, hk, hname⟩
    have hentry := eq_of_name he (h.timers k hk).entry hname
    exact ⟨k, by rw [← hentry]; exact (h.timers k hk).timer⟩
  · rintro ⟨k, harmed⟩
    obtain ⟨hname, -, hmem⟩ := (h.child e he id).armed k harmed
    exact ⟨k, hmem, hname⟩

theorem gaveUp_iff {e : Entry} (he : e ∈ s.children.rows) :
    s.GaveUp e.name ↔ (s.states e.state).gaveUpAt.isSome = true := by
  constructor
  · rintro ⟨e', he', hname, hsome⟩
    rwa [eq_of_name he he' hname] at hsome
  · exact fun hsome => ⟨e, he, rfl, hsome⟩

/-- The invariant is what is promised. -/
theorem Sound.supervised (h : Sound t fs nobody s) (hm : Marked s) (hs : Stopped s)
    (hne : s.children.rows ≠ []) : Supervised t fs s where
  one := by
    rintro hrun c ⟨e, he, rfl⟩
    have hc := h.child e he id
    unfold ExactlyOne
    rw [h.runs_iff hrun he, h.pends_iff he, gaveUp_iff he]
    cases hp : (s.states e.state).process with
    | some p =>
        obtain ⟨-, htimer, hgave, -⟩ := hc.held p hp
        simp [htimer, hgave]
    | none =>
        cases hk : (s.states e.state).restartTimer with
        | some k =>
            obtain ⟨-, hgave, -⟩ := hc.armed k hk
            simp [hgave]
        | none =>
            have hgave := hc.idle hrun hp hk
            simp [hgave]
  givesUp := by
    rintro c ⟨e, he, rfl⟩
    have hc := h.child e he id
    rw [gaveUp_iff he, hc.limit, hc.count]
  single := fun p hp q hq hname => h.single hp hq hname
  wait := by
    rw [hm.waited]
    exact ⟨fun hw => hw.2, fun hall => ⟨hne, hall⟩⟩
  stop := by
    intro ws hws
    have hstop : s.stopping = true := by
      by_contra hnot
      rw [hs.running (Bool.eq_false_iff.mpr hnot)] at hws
      cases hws
    constructor
    · intro hnil
      by_contra hlive
      obtain ⟨p, hp⟩ := List.exists_mem_of_ne_nil _ hlive
      have hmem := (hs.stops ws hws p).mpr ⟨_, (h.live p hp).entry, (h.live p hp).process⟩
      rw [hnil] at hmem
      cases hmem
    · intro hlive
      refine List.eq_nil_iff_forall_not_mem.mpr fun p hp => ?_
      obtain ⟨e, he, hheld⟩ := (hs.stops ws hws p).mp hp
      rw [hs.reaped hlive hstop e he] at hheld
      cases hheld

/-! ## One child at a time -/

/-- A child is as it was when neither its state nor what the host has of it changes. -/
theorem ChildSound.frame {gs : List Failure} {s' : Supervisor} {c : String} {st : ChildState}
    (h : ChildSound t gs s c st) (hstop : s.stopping = s'.stopping)
    (hlive : ∀ q ∈ s.live, q.name = c → q ∈ s'.live)
    (htimers : ∀ j ∈ s.timers, j.name = c → j ∈ s'.timers) : ChildSound t gs s' c st := by
  obtain ⟨held, armed, idle, count, limit⟩ := h
  rw [hstop] at held idle
  refine ⟨?_, ?_, idle, count, limit⟩
  · intro p hp
    obtain ⟨hname, htimer, hgave, hhost⟩ := held p hp
    exact ⟨hname, htimer, hgave, hhost.imp_right fun hq => hlive p hq hname⟩
  · intro k hk
    obtain ⟨hname, hgave, hj⟩ := armed k hk
    exact ⟨hname, hgave, htimers k hj hname⟩

/-- What a step that concerns one child leaves alone. -/
structure Touches (s s' : Supervisor) (e : Entry) : Prop where
  made : s'.made = s.made
  children : s'.children = s.children
  states : ∀ i, i ≠ e.state → s'.states i = s.states i
  stopping : s.stopping = s'.stopping
  next : s.next ≤ s'.next
  live : ∀ p, p.name ≠ e.name → (p ∈ s'.live ↔ p ∈ s.live)
  timers : ∀ k, k.name ≠ e.name → (k ∈ s'.timers ↔ k ∈ s.timers)

theorem Touches.states_of_name {s' : Supervisor} {e e' : Entry} (ht : Touches s s' e)
    (h : Sound t fs skip s) (he : e ∈ s.children.rows) (he' : e' ∈ s.children.rows)
    (hname : e'.name ≠ e.name) : s'.states e'.state = s.states e'.state := by
  refine ht.states _ fun hstate => hname ?_
  exact congrArg Entry.name (h.apart e' he' e he hstate)

/-- A step that concerns one child has to be looked at for that child only. -/
theorem Sound.touch {gs : String → List Failure} {skip' : String → Prop} {s' : Supervisor}
    {e : Entry} (h : Sound t fs (fun c => c = e.name) s) (he : e ∈ s.children.rows) (ht : Touches s s' e)
    (hgs : ∀ c, c ≠ e.name → gs c = fs c)
    (hlive : ∀ p ∈ s'.live, p.name = e.name → ProcSound s' p)
    (htimers : ∀ k ∈ s'.timers, k.name = e.name → TimerSound s' k)
    (hchild : ¬skip' e.name → ChildSound t (gs e.name) s' e.name (s'.states e.state)) : Sound t gs skip' s' where
  index := by
    rw [ht.children, ht.made]
    exact h.index
  apart := by
    rw [ht.children]
    exact h.apart
  live := by
    intro p hp
    by_cases hname : p.name = e.name
    · exact hlive p hp hname
    · obtain ⟨hfresh, hentry, hprocess, hstarted⟩ := h.live p ((ht.live p hname).mp hp)
      have hstate := ht.states_of_name h he hentry hname
      refine ⟨Nat.lt_of_lt_of_le hfresh ht.next, ?_, ?_, ?_⟩
      · rwa [ht.children]
      · exact (congrArg ChildState.process hstate).trans hprocess
      · exact (congrArg ChildState.startedAt hstate).trans hstarted
  timers := by
    intro k hk
    by_cases hname : k.name = e.name
    · exact htimers k hk hname
    · obtain ⟨hentry, htimer⟩ := h.timers k ((ht.timers k hname).mp hk)
      have hstate := ht.states_of_name h he hentry hname
      refine ⟨?_, ?_⟩
      · rwa [ht.children]
      · exact (congrArg ChildState.restartTimer hstate).trans htimer
  child := by
    rw [ht.children]
    intro e' he' hskip
    by_cases hname : e'.name = e.name
    · rw [eq_of_name he he' hname] at hskip ⊢
      exact hchild hskip
    · rw [hgs _ hname, ht.states_of_name h he he' hname]
      apply (h.child e' he' hname).frame ht.stopping
      · exact fun q hq hqname => (ht.live q (hqname ▸ hname)).mpr hq
      · exact fun j hj hjname => (ht.timers j (hjname ▸ hname)).mpr hj

theorem Sound.writing (h : Sound t fs nobody s) (skip : String → Prop) : Sound t fs skip s :=
  { h with child := fun e he _ => h.child e he id }

/-- A child that holds no process has none. -/
theorem Sound.no_live (h : Sound t fs skip s) {e : Entry} (he : e ∈ s.children.rows)
    (hnone : (s.states e.state).process = none) : ∀ p ∈ s.live, p.name ≠ e.name := by
  intro p hp hname
  have hheld := (h.live p hp).process
  have hstate : p.state = e.state :=
    congrArg Entry.state (eq_of_name he (h.live p hp).entry hname)
  rw [hstate, hnone] at hheld
  cases hheld

theorem Sound.no_timer (h : Sound t fs skip s) {e : Entry} (he : e ∈ s.children.rows)
    (hnone : (s.states e.state).restartTimer = none) : ∀ k ∈ s.timers, k.name ≠ e.name := by
  intro k hk hname
  have hheld := (h.timers k hk).timer
  have hstate : k.state = e.state :=
    congrArg Entry.state (eq_of_name he (h.timers k hk).entry hname)
  rw [hstate, hnone] at hheld
  cases hheld

theorem gaveUp_congr {s' : Supervisor} (hchildren : s'.children = s.children)
    (hgave : ∀ i, (s'.states i).gaveUpAt = (s.states i).gaveUpAt) (c : String) :
    s'.GaveUp c ↔ s.GaveUp c := by
  simp only [GaveUp, hchildren, hgave]

theorem Marked.congr {s' : Supervisor} (h : Marked s) (hchildren : s'.children = s.children)
    (hgave : ∀ i, (s'.states i).gaveUpAt = (s.states i).gaveUpAt) (hset : s'.gaveUp = s.gaveUp)
    (hwaited : s'.waited = s.waited) : Marked s' where
  nodup := by
    rw [hset]
    exact h.nodup
  gaveUp := by
    intro c
    rw [hset, gaveUp_congr hchildren hgave]
    exact h.gaveUp c
  waited := by
    simp only [hwaited, IsChild, gaveUp_congr hchildren hgave, hchildren]
    exact h.waited

theorem Stopped.of_running {s' : Supervisor} (hrun : s'.stopping = false) (hstops : s'.stops = []) :
    Stopped s' where
  halted := by
    intro hstop
    rw [hrun] at hstop
    cases hstop
  running := fun _ => hstops
  called := by
    intro hstop
    rw [hrun] at hstop
    cases hstop
  stops := by
    rw [hstops]
    intro ws hws
    cases hws
  reaped := by
    intro _ hstop
    rw [hrun] at hstop
    cases hstop

end

end Fleet

end FleetRunner
