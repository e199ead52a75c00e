import FleetRunner.Library.Runs
import Mathlib.Order.Lattice

/-!
# Taking an Android device off the network (`network-shape.ts`)

An apply reads both radios, writes them to the journal and switches them off; a
restore switches them on again and drops the entry. An apply may be delayed: a
timer starts it later. Each of these waits for `adb` between its steps, so they
run interleaved, and the process may crash.

## Implementation notes

The world is one device that is seen over USB, its journal entry and the
process. A task is a call of `androidOffline` or `restore` that has not come to
its end; it goes on to where it next waits. A setting that is not set counts as
off, and reads of it do not answer. `undone` and `late` are the observer's: which
applies a restore has undone, and whether one of them has switched a radio off
after that.
-/

namespace FleetRunner.Network.Android

open Library

inductive Radio where
  | wifi | data
  deriving DecidableEq

/-- Prior connectivity, as far as it could be read. -/
structure Entry where
  wifi : Option Bool
  data : Option Bool

def Entry.at (e : Entry) : Radio → Option Bool
  | .wifi => e.wifi
  | .data => e.data

/-- Where `androidOffline` is: what it does next. -/
inductive Offline where
  | readWifi
  | readData (wifi : Option Bool)
  | put (prior : Entry)
  | disableWifi
  | disableData
  | verify

/-- Where `restore` is. -/
inductive Restore where
  | get
  | look (entry : Option Entry)
  | enableWifi (entry : Option Entry)
  | enableData (needed : Bool)
  | check
  | drop

inductive Task where
  | offline (id : Nat) (at_ : Offline)
  /-- `since` counts the applies before a restore that was asked for -/
  | restore (since : Option Nat) (at_ : Restore)

structure World where
  radio : Radio → Bool
  journal : Option Entry
  /-- how many applies there have been -/
  next : Nat
  /-- the applies whose timers are armed -/
  timers : List Nat
  /-- the timer that a restore would clear -/
  pending : Option Nat
  tasks : List Task
  undone : Nat
  late : Bool

/-- How an `adb` command ends: whether it returns, and whether it does what it is for. -/
structure Outcome where
  returns : Bool
  effect : Bool

namespace World

variable (s : World)

/-- `androidSetting` -/
def read (r : Radio) (o : Outcome) : Option Bool := if o.returns then some (s.radio r) else none

/-- `svc r enable` -/
def enable (r : Radio) (o : Outcome) : World :=
  if o.effect then { s with radio := fun x => if x = r then true else s.radio x } else s

/-- `svc r disable`, for an apply -/
def disable (id : Nat) (r : Radio) (o : Outcome) : World :=
  if o.effect then
    { s with
      radio := fun x => if x = r then false else s.radio x
      late := s.late || (decide (id < s.undone) && s.radio r) }
  else s

section Switches

variable {s : World} {id : Nat} {r : Radio} {o : Outcome}

@[simp] theorem enable_journal : (s.enable r o).journal = s.journal := by
  unfold enable; split <;> rfl

@[simp] theorem enable_undone : (s.enable r o).undone = s.undone := by
  unfold enable; split <;> rfl

@[simp] theorem enable_timers : (s.enable r o).timers = s.timers := by
  unfold enable; split <;> rfl

@[simp] theorem enable_next : (s.enable r o).next = s.next := by
  unfold enable; split <;> rfl

@[simp] theorem enable_late : (s.enable r o).late = s.late := by
  unfold enable; split <;> rfl

@[simp] theorem disable_journal : (s.disable id r o).journal = s.journal := by
  unfold disable; split <;> rfl

@[simp] theorem disable_undone : (s.disable id r o).undone = s.undone := by
  unfold disable; split <;> rfl

@[simp] theorem disable_timers : (s.disable id r o).timers = s.timers := by
  unfold disable; split <;> rfl

@[simp] theorem disable_next : (s.disable id r o).next = s.next := by
  unfold disable; split <;> rfl

/-- What is on stays on. -/
theorem enable_radio {x : Radio} (h : s.radio x = true) : (s.enable r o).radio x = true := by
  unfold enable
  split
  · change (if x = r then true else s.radio x) = true
    rw [h, ite_self]
  · exact h

theorem enable_radio_self (h : o.effect = true ∨ s.radio r = true) :
    (s.enable r o).radio r = true := by
  rcases h with heffect | hon
  · simp [enable, heffect]
  · exact enable_radio hon

/-- The other radio is left alone. -/
theorem disable_radio {x : Radio} (hx : x ≠ r) : (s.disable id r o).radio x = s.radio x := by
  unfold disable
  split
  · exact if_neg hx
  · rfl

theorem disable_of_not_effect (h : ¬o.effect = true) : s.disable id r o = s := if_neg h

end Switches

end World

/-- `entry?.android?.data === "1"` -/
def dataWasOn (entry : Option Entry) : Bool := decide (entry.bind Entry.data = some true)

def afterData (since : Option Nat) (needed : Bool) : List Task :=
  [.restore since (if needed then .check else .drop)]

def afterWifi (since : Option Nat) (entry : Option Entry) (needed : Bool) : List Task :=
  if dataWasOn entry then [.restore since (.enableData needed)] else afterData since needed

/-- One task goes on: the world after it, and what becomes of the task. -/
def Task.step (s : World) (o : Outcome) : Task → World × List Task
  | .offline id .readWifi => (s, [.offline id (.readData (s.read .wifi o))])
  | .offline id (.readData wifi) => (s, [.offline id (.put ⟨wifi, s.read .data o⟩)])
  | .offline id (.put prior) => ({ s with journal := some prior }, [.offline id .disableWifi])
  | .offline id .disableWifi =>
      (s.disable id .wifi o, if o.returns then [.offline id .disableData] else [])
  | .offline id .disableData => (s.disable id .data o, [.offline id .verify])
  | .offline _ .verify => (s, if s.read .wifi o = some false then [] else [.restore none .get])
  | .restore since .get => (s, [.restore since (.look s.journal)])
  | .restore since (.look entry) =>
      (s, if s.read .wifi o = some false then [.restore since (.enableWifi entry)]
        else afterWifi since entry false)
  | .restore since (.enableWifi entry) =>
      (s.enable .wifi o, if o.returns then afterWifi since entry true else [])
  | .restore since (.enableData needed) => (s.enable .data o, afterData since needed)
  | .restore since .check =>
      (s, if s.read .wifi o = some true then [.restore since .drop] else [])
  | .restore since .drop => ({ s with journal := none, undone := max s.undone (since.getD 0) }, [])

inductive Event where
  | apply (delayed : Bool)
  | fire (id : Nat)
  | restore
  | task (n : Nat) (o : Outcome)
  | crash

def step (s : World) : Event → World
  | .apply delayed =>
      if delayed then
        { s with next := s.next + 1, timers := s.timers ++ [s.next], pending := some s.next }
      else { s with next := s.next + 1, tasks := s.tasks ++ [.offline s.next .readWifi] }
  | .fire id =>
      if id ∈ s.timers then
        { s with
          timers := s.timers.filter fun k => decide (k ≠ id)
          pending := none
          tasks := s.tasks ++ [.offline id .readWifi] }
      else s
  | .restore =>
      { s with
        timers := s.timers.filter fun k => decide (some k ≠ s.pending)
        pending := none
        tasks := s.tasks ++ [.restore (some s.next) .get] }
  | .task n o =>
      match s.tasks[n]? with
      | some t =>
          { (t.step s o).1 with tasks := s.tasks.take n ++ (t.step s o).2 ++ s.tasks.drop (n + 1) }
      | none => s
  | .crash => { s with timers := [], pending := none, tasks := [] }

/-- A device that nothing was applied to. -/
def start (orig : Radio → Bool) : World where
  radio := orig
  journal := none
  next := 0
  timers := []
  pending := none
  tasks := []
  undone := 0
  late := false

/-! ## What must hold -/

/-- The original values, for the radios that were on. -/
def Entry.Keeps (orig : Radio → Bool) (e : Entry) : Prop := ∀ r, orig r = true → e.at r = some true

/-- A restore that will switch the radio on. -/
def Task.restores (r : Radio) : Task → Prop
  | .offline _ _ => False
  | .restore _ .get => r = .wifi
  | .restore _ (.look entry) => r = .wifi ∨ dataWasOn entry = true
  | .restore _ (.enableWifi entry) => r = .wifi ∨ dataWasOn entry = true
  | .restore _ (.enableData _) => r = .data
  | .restore _ .check => False
  | .restore _ .drop => False

/-- No radio is left off without a record of it, and none is switched off by an apply that was
undone. -/
structure Recorded (orig : Radio → Bool) (s : World) : Prop where
  off : ∀ r, orig r = true → s.radio r = false →
    (∃ e, s.journal = some e ∧ e.Keeps orig) ∨ ∃ t ∈ s.tasks, t.restores r
  notLate : s.late = false

/-! ## Which steps keep it -/

/-- The apply that still has a radio to switch off. -/
def Task.ahead : Task → Option Nat
  | .offline _ .verify => none
  | .offline id _ => some id
  | .restore _ _ => none

/-- An apply that has written its entry, and still has a radio to switch off. -/
def Task.journalled : Task → Bool
  | .offline _ .disableWifi => true
  | .offline _ .disableData => true
  | _ => false

/-- A restore that will still switch the radio on, or look whether it is, before it drops the
entry. -/
def Task.minds (r : Radio) : Task → Prop
  | .offline _ _ => True
  | .restore _ .get => True
  | .restore _ (.look entry) => r = .wifi ∨ dataWasOn entry = true
  | .restore _ (.enableWifi entry) => r = .wifi ∨ dataWasOn entry = true
  | .restore _ (.enableData needed) => r = .data ∨ needed = true
  | .restore _ .check => r = .wifi
  | .restore _ .drop => False

/-- What a step of a task must find. -/
def Task.Careful (orig : Radio → Bool) (s : World) (o : Outcome) : Task → Prop
  | .offline _ .readWifi => orig .wifi = true → o.returns = true ∧ s.radio .wifi = true
  | .offline _ (.readData _) => orig .data = true → o.returns = true ∧ s.radio .data = true
  | .offline _ .disableWifi => o.effect = true → orig .wifi = true → ∀ u ∈ s.tasks, u.minds .wifi
  | .offline _ .disableData => o.effect = true → orig .data = true → ∀ u ∈ s.tasks, u.minds .data
  | .restore _ (.look _) => orig .wifi = true → o.returns = true ∨ s.radio .wifi = true
  | .restore _ (.enableData _) => orig .data = true → o.effect = true ∨ s.radio .data = true
  | .restore since .drop =>
      (∀ u ∈ s.tasks, u.journalled = false) ∧
        ∀ n ∈ since, (∀ u ∈ s.tasks, ∀ id ∈ u.ahead, n ≤ id) ∧ ∀ id ∈ s.timers, n ≤ id
  | _ => True

def Careful (orig : Radio → Bool) (s : World) : Event → Prop
  | .task n o => ∀ t ∈ s.tasks[n]?, t.Careful orig s o
  | _ => True

instance (r : Radio) : (t : Task) → Decidable (t.minds r)
  | .offline _ _ => .isTrue trivial
  | .restore _ .get => .isTrue trivial
  | .restore _ (.look _) => inferInstanceAs (Decidable (_ ∨ _))
  | .restore _ (.enableWifi _) => inferInstanceAs (Decidable (_ ∨ _))
  | .restore _ (.enableData _) => inferInstanceAs (Decidable (_ ∨ _))
  | .restore _ .check => inferInstanceAs (Decidable (_ = _))
  | .restore _ .drop => .isFalse id

instance (orig : Radio → Bool) (s : World) (o : Outcome) : (t : Task) → Decidable (t.Careful orig s o)
  | .offline _ .readWifi => inferInstanceAs (Decidable (_ → _ ∧ _))
  | .offline _ (.readData _) => inferInstanceAs (Decidable (_ → _ ∧ _))
  | .offline _ (.put _) => .isTrue trivial
  | .offline _ .disableWifi =>
      inferInstanceAs (Decidable (_ → _ → ∀ u ∈ s.tasks, u.minds .wifi))
  | .offline _ .disableData =>
      inferInstanceAs (Decidable (_ → _ → ∀ u ∈ s.tasks, u.minds .data))
  | .offline _ .verify => .isTrue trivial
  | .restore _ .get => .isTrue trivial
  | .restore _ (.look _) => inferInstanceAs (Decidable (_ → _ ∨ _))
  | .restore _ (.enableWifi _) => .isTrue trivial
  | .restore _ (.enableData _) => inferInstanceAs (Decidable (_ → _ ∨ _))
  | .restore _ .check => .isTrue trivial
  | .restore since .drop =>
      inferInstanceAs (Decidable ((∀ u ∈ s.tasks, u.journalled = false) ∧
        ∀ n ∈ since, (∀ u ∈ s.tasks, ∀ id ∈ u.ahead, n ≤ id) ∧ ∀ id ∈ s.timers, n ≤ id))

instance (orig : Radio → Bool) (s : World) : (e : Event) → Decidable (Careful orig s e)
  | .task n o => inferInstanceAs (Decidable (∀ t ∈ s.tasks[n]?, t.Careful orig s o))
  | .apply _ => .isTrue trivial
  | .fire _ => .isTrue trivial
  | .restore => .isTrue trivial
  | .crash => .isTrue trivial

/-! ## The invariant -/

/-- What an apply has read so far. -/
def Task.Priors (orig : Radio → Bool) : Task → Prop
  | .offline _ (.readData wifi) => orig .wifi = true → wifi = some true
  | .offline _ (.put prior) => prior.Keeps orig
  | _ => True

def Task.since : Task → Option Nat
  | .restore since _ => since
  | .offline _ _ => none

structure Fine (orig : Radio → Bool) (s : World) (t : Task) : Prop where
  priors : t.Priors orig
  recorded : t.journalled = true → s.journal ≠ none
  fresh : ∀ id, t.ahead = some id → s.undone ≤ id
  minds : ∀ r, orig r = true → s.radio r = true ∨ t.minds r
  since_le : ∀ n, t.since = some n → n ≤ s.next

structure Inv (orig : Radio → Bool) (s : World) : Prop where
  keeps : ∀ e, s.journal = some e → e.Keeps orig
  on : s.journal = none → ∀ r, orig r = true → s.radio r = true
  tasks : ∀ t ∈ s.tasks, Fine orig s t
  timers : ∀ id ∈ s.timers, s.undone ≤ id
  undone_le : s.undone ≤ s.next
  notLate : s.late = false

theorem Inv.recorded {orig : Radio → Bool} {s : World} (h : Inv orig s) : Recorded orig s := by
  refine ⟨fun r horig hoff => Or.inl ?_, h.notLate⟩
  cases hjournal : s.journal with
  | none =>
      have hon := h.on hjournal r horig
      rw [hoff] at hon
      cases hon
  | some e => exact ⟨e, rfl, h.keeps e hjournal⟩

theorem inv_start (orig : Radio → Bool) : Inv orig (start orig) := by
  constructor <;> simp [start]

/-- A task is fine as long as what it counts on stays. -/
theorem Fine.frame {orig : Radio → Bool} {s s' : World} {t : Task} (h : Fine orig s t)
    (hjournal : t.journalled = true → s.journal ≠ none → s'.journal ≠ none)
    (hfresh : ∀ id, t.ahead = some id → s.undone ≤ id → s'.undone ≤ id)
    (hradio : ∀ r, orig r = true → s.radio r = true → s'.radio r = true ∨ t.minds r)
    (hnext : s.next ≤ s'.next) : Fine orig s' t where
  priors := h.priors
  recorded hjournalled := hjournal hjournalled (h.recorded hjournalled)
  fresh id hid := hfresh id hid (h.fresh id hid)
  minds r horig := (h.minds r horig).elim (hradio r horig) Or.inr
  since_le n hn := (h.since_le n hn).trans hnext

/-- What a task's step has to leave. -/
structure Leaves (orig : Radio → Bool) (s s' : World) (new : List Task) : Prop where
  keeps : ∀ e, s'.journal = some e → e.Keeps orig
  on : s'.journal = none → ∀ r, orig r = true → s'.radio r = true
  others : ∀ u ∈ s.tasks, Fine orig s' u
  new : ∀ u ∈ new, Fine orig s' u
  timers : ∀ id ∈ s'.timers, s'.undone ≤ id
  undone_le : s'.undone ≤ s'.next
  notLate : s'.late = false

section Steps

variable {orig : Radio → Bool} {s : World} {o : Outcome} {id : Nat} {since : Option Nat}

/-- A step that changes nothing but where its task is. -/
theorem Inv.leaves_same (h : Inv orig s) {new : List Task} (hnew : ∀ u ∈ new, Fine orig s u) :
    Leaves orig s s new :=
  ⟨h.keeps, h.on, h.tasks, hnew, h.timers, h.undone_le, h.notLate⟩

/-- A task that goes on to a place where it counts on nothing more. -/
theorem Fine.goesOn {t u : Task} (h : Fine orig s t) (hpriors : u.Priors orig)
    (hjournalled : u.journalled = true → s.journal ≠ none)
    (hahead : ∀ id, u.ahead = some id → t.ahead = some id)
    (hminds : ∀ r, orig r = true → s.radio r = true ∨ t.minds r → s.radio r = true ∨ u.minds r)
    (hsince : ∀ n, u.since = some n → t.since = some n) : Fine orig s u where
  priors := hpriors
  recorded := hjournalled
  fresh id hid := h.fresh id (hahead id hid)
  minds r horig := hminds r horig (h.minds r horig)
  since_le n hn := h.since_le n (hsince n hn)

theorem leaves_readWifi (h : Inv orig s) (ht : Fine orig s (.offline id .readWifi))
    (hok : orig .wifi = true → o.returns = true ∧ s.radio .wifi = true) :
    Leaves orig s s [.offline id (.readData (s.read .wifi o))] := by
  apply h.leaves_same
  intro u hu
  rw [List.mem_singleton.mp hu]
  refine ht.goesOn ?_ nofun (fun _ h => h) (fun _ _ _ => Or.inr trivial) nofun
  intro horig
  obtain ⟨hreturns, hon⟩ := hok horig
  rw [World.read, if_pos hreturns, hon]

theorem leaves_readData (h : Inv orig s) {wifi : Option Bool}
    (ht : Fine orig s (.offline id (.readData wifi)))
    (hok : orig .data = true → o.returns = true ∧ s.radio .data = true) :
    Leaves orig s s [.offline id (.put ⟨wifi, s.read .data o⟩)] := by
  apply h.leaves_same
  intro u hu
  rw [List.mem_singleton.mp hu]
  refine ht.goesOn ?_ nofun (fun _ h => h) (fun _ _ _ => Or.inr trivial) nofun
  intro r horig
  cases r with
  | wifi => exact ht.priors horig
  | data =>
      obtain ⟨hreturns, hon⟩ := hok horig
      rw [Entry.at, World.read, if_pos hreturns, hon]

theorem leaves_put (h : Inv orig s) {prior : Entry} (ht : Fine orig s (.offline id (.put prior))) :
    Leaves orig s { s with journal := some prior } [.offline id .disableWifi] := by
  constructor
  · intro e he
    obtain rfl := Option.some.inj he
    exact ht.priors
  · intro hnone
    cases hnone
  · intro u hu
    exact (h.tasks u hu).frame (fun _ _ => nofun) (fun _ _ hid => hid)
      (fun _ _ hon => Or.inl hon) (le_refl s.next)
  · intro u hu
    rw [List.mem_singleton.mp hu]
    exact ⟨trivial, fun _ => nofun, ht.fresh, fun _ _ => Or.inr trivial, nofun⟩
  · exact h.timers
  · exact h.undone_le
  · exact h.notLate

/-- Switching a radio off, with an entry in the journal and no restore that would miss it. -/
theorem leaves_disable (h : Inv orig s) {r : Radio} {new : List Task}
    (hjournal : s.journal ≠ none) (hfresh : s.undone ≤ id)
    (hok : o.effect = true → orig r = true → ∀ u ∈ s.tasks, u.minds r)
    (hnew : ∀ u ∈ new, Fine orig s u) (hoffline : ∀ u ∈ new, u.minds r) :
    Leaves orig s (s.disable id r o) new := by
  by_cases heffect : o.effect = true
  · have hframe : ∀ u, Fine orig s u → (orig r = true → u.minds r) →
        Fine orig (s.disable id r o) u := by
      intro u hu hminds
      apply hu.frame
      · simp
      · simp
      · intro x horig hon
        by_cases hx : x = r
        · subst hx
          exact Or.inr (hminds horig)
        · rw [World.disable_radio hx]
          exact Or.inl hon
      · simp
    constructor
    · simpa using h.keeps
    · intro hnone
      rw [World.disable_journal] at hnone
      exact absurd hnone hjournal
    · intro u hu
      exact hframe u (h.tasks u hu) fun horig => hok heffect horig u hu
    · intro u hu
      exact hframe u (hnew u hu) fun _ => hoffline u hu
    · simpa using h.timers
    · simpa using h.undone_le
    · simp [World.disable, heffect, h.notLate, Nat.not_lt.mpr hfresh]
  · rw [World.disable_of_not_effect heffect]
    exact h.leaves_same hnew

theorem leaves_disableWifi (h : Inv orig s) (ht : Fine orig s (.offline id .disableWifi))
    (hok : o.effect = true → orig .wifi = true → ∀ u ∈ s.tasks, u.minds .wifi) :
    Leaves orig s (s.disable id .wifi o) (if o.returns then [.offline id .disableData] else []) := by
  apply leaves_disable h (ht.recorded rfl) (ht.fresh id rfl) hok
  · intro u hu
    split at hu
    · rw [List.mem_singleton.mp hu]
      exact ht.goesOn trivial (fun _ => ht.recorded rfl) (fun _ h => h)
        (fun _ _ _ => Or.inr trivial) nofun
    · cases hu
  · intro u hu
    split at hu
    · rw [List.mem_singleton.mp hu]
      trivial
    · cases hu

theorem leaves_disableData (h : Inv orig s) (ht : Fine orig s (.offline id .disableData))
    (hok : o.effect = true → orig .data = true → ∀ u ∈ s.tasks, u.minds .data) :
    Leaves orig s (s.disable id .data o) [.offline id .verify] := by
  apply leaves_disable h (ht.recorded rfl) (ht.fresh id rfl) hok
  · intro u hu
    rw [List.mem_singleton.mp hu]
    exact ht.goesOn trivial nofun nofun (fun _ _ _ => Or.inr trivial) nofun
  · intro u hu
    rw [List.mem_singleton.mp hu]
    trivial

theorem leaves_enable (h : Inv orig s) {r : Radio} {new : List Task}
    (hnew : ∀ u ∈ new, Fine orig (s.enable r o) u) : Leaves orig s (s.enable r o) new := by
  constructor
  · simpa using h.keeps
  · intro hnone x horig
    rw [World.enable_journal] at hnone
    exact World.enable_radio (h.on hnone x horig)
  · intro u hu
    apply (h.tasks u hu).frame
    · simp
    · simp
    · intro x _ hon
      exact Or.inl (World.enable_radio hon)
    · simp
  · exact hnew
  · simpa using h.timers
  · simpa using h.undone_le
  · simpa using h.notLate

/-- A restore at a place where it minds what is not on yet. -/
theorem fine_restore {s' : World} {at_ : Restore} (hsince : ∀ n, since = some n → n ≤ s'.next)
    (hminds : ∀ r, orig r = true → s'.radio r = true ∨ (Task.restore since at_).minds r) :
    Fine orig s' (.restore since at_) where
  priors := trivial
  recorded := nofun
  fresh _ := nofun
  minds := hminds
  since_le := hsince

/-- The entry says that data was on, or data is on. -/
theorem fine_afterData {s' : World} {needed : Bool} (hsince : ∀ n, since = some n → n ≤ s'.next)
    (hwifi : orig .wifi = true → s'.radio .wifi = true ∨ needed = true)
    (hdata : orig .data = true → s'.radio .data = true) :
    ∀ u ∈ afterData since needed, Fine orig s' u := by
  intro u hu
  rw [List.mem_singleton.mp hu]
  apply fine_restore hsince
  intro r horig
  cases r with
  | data => exact Or.inl (hdata horig)
  | wifi =>
      rcases hwifi horig with hon | hneeded
      · exact Or.inl hon
      · rw [hneeded]
        exact Or.inr rfl

theorem fine_afterWifi {s' : World} {entry : Option Entry} {needed : Bool}
    (hsince : ∀ n, since = some n → n ≤ s'.next)
    (hwifi : orig .wifi = true → s'.radio .wifi = true ∨ needed = true)
    (hdata : orig .data = true → s'.radio .data = true ∨ dataWasOn entry = true) :
    ∀ u ∈ afterWifi since entry needed, Fine orig s' u := by
  unfold afterWifi
  split
  · intro u hu
    rw [List.mem_singleton.mp hu]
    apply fine_restore hsince
    intro r horig
    cases r with
    | data => exact Or.inr (Or.inl rfl)
    | wifi => exact (hwifi horig).imp_right Or.inr
  · rename_i hno
    exact fine_afterData hsince hwifi fun horig => (hdata horig).resolve_right hno

theorem leaves_verify (h : Inv orig s) (wifi : Option Bool) :
    Leaves orig s s (if wifi = some false then [] else [.restore none .get]) := by
  apply h.leaves_same
  intro u hu
  split at hu
  · cases hu
  · rw [List.mem_singleton.mp hu]
    exact fine_restore nofun fun _ _ => Or.inr trivial

theorem leaves_get (h : Inv orig s) (ht : Fine orig s (.restore since .get)) :
    Leaves orig s s [.restore since (.look s.journal)] := by
  apply h.leaves_same
  intro u hu
  rw [List.mem_singleton.mp hu]
  apply fine_restore ht.since_le
  intro r horig
  cases hjournal : s.journal with
  | none => exact Or.inl (h.on hjournal r horig)
  | some e =>
      cases r with
      | wifi => exact Or.inr (Or.inl rfl)
      | data => exact Or.inr (Or.inr (decide_eq_true (h.keeps e hjournal .data horig)))

theorem Fine.data_minded {entry : Option Entry} {at_ : Restore}
    (ht : Fine orig s (.restore since at_))
    (hat : (Task.restore since at_).minds .data → dataWasOn entry = true) :
    orig .data = true → s.radio .data = true ∨ dataWasOn entry = true :=
  fun horig => (ht.minds .data horig).imp_right hat

theorem leaves_look (h : Inv orig s) {entry : Option Entry}
    (ht : Fine orig s (.restore since (.look entry)))
    (hok : orig .wifi = true → o.returns = true ∨ s.radio .wifi = true) :
    Leaves orig s s (if s.read .wifi o = some false then [.restore since (.enableWifi entry)]
      else afterWifi since entry false) := by
  have hdata : orig .data = true → s.radio .data = true ∨ dataWasOn entry = true :=
    ht.data_minded fun hminds => hminds.resolve_left nofun
  apply h.leaves_same
  split
  · intro u hu
    rw [List.mem_singleton.mp hu]
    exact fine_restore ht.since_le ht.minds
  · rename_i hread
    apply fine_afterWifi ht.since_le ?_ hdata
    intro horig
    left
    rcases hok horig with hreturns | hon
    · rw [World.read, if_pos hreturns] at hread
      exact Bool.not_eq_false _ |>.mp fun hoff => hread (congrArg some hoff)
    · exact hon

theorem leaves_enableWifi (h : Inv orig s) {entry : Option Entry}
    (ht : Fine orig s (.restore since (.enableWifi entry))) :
    Leaves orig s (s.enable .wifi o) (if o.returns then afterWifi since entry true else []) := by
  have hdata : orig .data = true → s.radio .data = true ∨ dataWasOn entry = true :=
    ht.data_minded fun hminds => hminds.resolve_left nofun
  apply leaves_enable h
  intro u hu
  split at hu
  · refine fine_afterWifi ?_ (fun _ => Or.inr rfl) ?_ u hu
    · intro n hn
      rw [World.enable_next]
      exact ht.since_le n hn
    · intro horig
      exact (hdata horig).imp_left World.enable_radio
  · cases hu

theorem leaves_enableData (h : Inv orig s) {needed : Bool}
    (ht : Fine orig s (.restore since (.enableData needed)))
    (hok : orig .data = true → o.effect = true ∨ s.radio .data = true) :
    Leaves orig s (s.enable .data o) (afterData since needed) := by
  apply leaves_enable h
  apply fine_afterData
  · intro n hn
    rw [World.enable_next]
    exact ht.since_le n hn
  · intro horig
    rcases ht.minds .wifi horig with hon | hminds
    · exact Or.inl (World.enable_radio hon)
    · exact Or.inr (hminds.resolve_left nofun)
  · intro horig
    exact World.enable_radio_self (hok horig)

theorem leaves_check (h : Inv orig s) (ht : Fine orig s (.restore since .check)) :
    Leaves orig s s (if s.read .wifi o = some true then [.restore since .drop] else []) := by
  apply h.leaves_same
  intro u hu
  split at hu
  · rename_i hread
    rw [List.mem_singleton.mp hu]
    apply fine_restore ht.since_le
    intro r horig
    left
    cases r with
    | data => exact (ht.minds .data horig).resolve_right nofun
    | wifi =>
        unfold World.read at hread
        split at hread
        · exact Option.some.inj hread
        · cases hread
  · cases hu

/-- The entry is dropped with both radios on, and with no apply left that it stood for. -/
theorem leaves_drop (h : Inv orig s) (ht : Fine orig s (.restore since .drop))
    (hok : (∀ u ∈ s.tasks, u.journalled = false) ∧
      ∀ n ∈ since, (∀ u ∈ s.tasks, ∀ id ∈ u.ahead, n ≤ id) ∧ ∀ id ∈ s.timers, n ≤ id) :
    Leaves orig s { s with journal := none, undone := max s.undone (since.getD 0) } [] := by
  have hon : ∀ r, orig r = true → s.radio r = true := fun r horig =>
    (ht.minds r horig).resolve_right id
  have hfresh : ∀ id, s.undone ≤ id → (∀ n, since = some n → n ≤ id) →
      max s.undone (since.getD 0) ≤ id := by
    intro id hundone hsince
    apply max_le hundone
    cases since with
    | none => exact Nat.zero_le id
    | some n => exact hsince n rfl
  constructor
  · intro e he
    cases he
  · exact fun _ => hon
  · intro u hu
    apply (h.tasks u hu).frame
    · intro hjournalled
      rw [hok.1 u hu] at hjournalled
      cases hjournalled
    · intro id hahead hundone
      exact hfresh id hundone fun n hn => (hok.2 n hn).1 u hu id hahead
    · intro r _ hr
      exact Or.inl hr
    · exact le_rfl
  · intro u hu
    cases hu
  · intro id hid
    exact hfresh id (h.timers id hid) fun n hn => (hok.2 n hn).2 id hid
  · exact hfresh s.next h.undone_le ht.since_le
  · exact h.notLate

theorem leaves_task (h : Inv orig s) {t : Task} (hmem : t ∈ s.tasks) (hok : t.Careful orig s o) :
    Leaves orig s (t.step s o).1 (t.step s o).2 := by
  have ht := h.tasks t hmem
  cases t with
  | offline id at_ =>
      cases at_ with
      | readWifi => exact leaves_readWifi h ht hok
      | readData wifi => exact leaves_readData h ht hok
      | put prior => exact leaves_put h ht
      | disableWifi => exact leaves_disableWifi h ht hok
      | disableData => exact leaves_disableData h ht hok
      | verify => exact leaves_verify h _
  | restore since at_ =>
      cases at_ with
      | get => exact leaves_get h ht
      | look entry => exact leaves_look h ht hok
      | enableWifi entry => exact leaves_enableWifi h ht
      | enableData needed => exact leaves_enableData h ht hok
      | check => exact leaves_check h ht
      | drop => exact leaves_drop h ht hok

end Steps

theorem inv_task {orig : Radio → Bool} {s : World} (h : Inv orig s) (n : Nat) {o : Outcome} {t : Task}
    (ht : s.tasks[n]? = some t) (hok : t.Careful orig s o) :
    Inv orig { (t.step s o).1 with
      tasks := s.tasks.take n ++ (t.step s o).2 ++ s.tasks.drop (n + 1) } := by
  have hleaves := leaves_task h (List.mem_of_getElem? ht) hok
  refine ⟨hleaves.keeps, hleaves.on, ?_, hleaves.timers, hleaves.undone_le, hleaves.notLate⟩
  intro u hu
  have hfine : Fine orig (t.step s o).1 u := by
    rcases List.mem_append.mp hu with hu | hu
    · rcases List.mem_append.mp hu with hu | hu
      · exact hleaves.others u (List.mem_of_mem_take hu)
      · exact hleaves.new u hu
    · exact hleaves.others u (List.mem_of_mem_drop hu)
  exact ⟨hfine.priors, hfine.recorded, hfine.fresh, hfine.minds, hfine.since_le⟩

/-- A new task that has not done anything yet. -/
theorem Inv.spawn {orig : Radio → Bool} {s s' : World} (h : Inv orig s) {t : Task}
    (hradio : s'.radio = s.radio) (hjournal : s'.journal = s.journal) (hundone : s'.undone = s.undone)
    (hlate : s'.late = s.late) (hnext : s.next ≤ s'.next) (htasks : ∀ u ∈ s'.tasks, u ∈ s.tasks ∨ u = t)
    (ht : Fine orig s' t) (htimers : ∀ id ∈ s'.timers, s.undone ≤ id) : Inv orig s' := by
  constructor
  · rw [hjournal]
    exact h.keeps
  · rw [hjournal, hradio]
    exact h.on
  · intro u hu
    rcases htasks u hu with hold | rfl
    · apply (h.tasks u hold).frame
      · rw [hjournal]
        exact fun _ hsome => hsome
      · rw [hundone]
        exact fun _ _ hid => hid
      · rw [hradio]
        exact fun _ _ hon => Or.inl hon
      · exact hnext
    · exact ht
  · rw [hundone]
    exact htimers
  · rw [hundone]
    exact h.undone_le.trans hnext
  · rw [hlate]
    exact h.notLate

theorem fine_readWifi {orig : Radio → Bool} {s : World} {id : Nat} (hid : s.undone ≤ id) :
    Fine orig s (.offline id .readWifi) where
  priors := trivial
  recorded := nofun
  fresh k hk := by
    obtain rfl := Option.some.inj hk
    exact hid
  minds _ _ := Or.inr trivial
  since_le _ := nofun

theorem inv_step {orig : Radio → Bool} (s : World) (e : Event) (h : Inv orig s)
    (hok : Careful orig s e) : Inv orig (step s e) := by
  cases e with
  | apply delayed =>
      cases delayed with
      | true =>
          refine ⟨h.keeps, h.on, fun t ht => ?_, fun id hid => ?_, h.undone_le.trans (Nat.le_succ _),
            h.notLate⟩
          · exact (h.tasks t ht).frame (fun _ hsome => hsome) (fun _ _ hid => hid)
              (fun _ _ hon => Or.inl hon) (Nat.le_succ _)
          · rcases List.mem_append.mp hid with hid | hid
            · exact h.timers id hid
            · rw [List.mem_singleton.mp hid]
              exact h.undone_le
      | false =>
          apply h.spawn (t := .offline s.next .readWifi)
          iterate 4 rfl
          · exact Nat.le_succ s.next
          · intro u hu
            exact (List.mem_append.mp hu).imp_right List.mem_singleton.mp
          · exact fine_readWifi h.undone_le
          · exact h.timers
  | fire id =>
      rw [step]
      split
      · rename_i hid
        apply h.spawn (t := .offline id .readWifi)
        iterate 4 rfl
        · exact le_rfl
        · intro u hu
          exact (List.mem_append.mp hu).imp_right List.mem_singleton.mp
        · exact fine_readWifi (h.timers id hid)
        · intro k hk
          exact h.timers k (List.mem_filter.mp hk).1
      · exact h
  | restore =>
      apply h.spawn (t := .restore (some s.next) .get)
      iterate 4 rfl
      · exact le_rfl
      · intro u hu
        exact (List.mem_append.mp hu).imp_right List.mem_singleton.mp
      · apply fine_restore
        · intro n hn
          exact (Option.some.inj hn).ge
        · exact fun _ _ => Or.inr trivial
      · intro k hk
        exact h.timers k (List.mem_filter.mp hk).1
  | task n o =>
      rw [step]
      split
      · rename_i t ht
        exact inv_task h n ht (hok t ht)
      · exact h
  | crash =>
      exact ⟨h.keeps, h.on, by simp [step], by simp [step], h.undone_le, h.notLate⟩

/-- Along a run whose steps are careful no radio is left off without a record, and none is switched
off by an apply that was undone. -/
theorem recorded_of_careful (orig : Radio → Bool) (events : List Event)
    (hok : Along step (Careful orig) (start orig) events) :
    ∀ past, past <+: events → Recorded orig (run step (start orig) past) := by
  rintro past ⟨rest, rfl⟩
  have hpast := (along_append.mp hok).1
  exact (invariant inv_step (inv_start orig) hpast).recorded

def bothOn : Radio → Bool := fun _ => true

def done : Outcome := ⟨true, true⟩

/-- An apply and a restore after it, every command of which works. -/
def cycle : List Event :=
  .apply false :: List.replicate 6 (.task 0 done) ++ .restore :: List.replicate 6 (.task 0 done)

theorem recorded_cycle : Recorded bothOn (run step (start bothOn) cycle) :=
  recorded_of_careful bothOn cycle (by decide) _ List.prefix_rfl

/-- A restore between the timer's journal write and its first command. -/
def lateTimer : List Event :=
  [.apply true, .fire 0, .task 0 done, .task 0 done, .task 0 done, .restore, .task 1 done,
    .task 1 done, .task 1 done, .task 1 done, .task 0 done]

/-- The entry is gone when the timer goes on and switches wifi off. -/
theorem left_off_unrecorded :
    ¬∀ (orig : Radio → Bool) (events : List Event), Recorded orig (run step (start orig) events) := by
  intro h
  have hoff := (h bothOn lateTimer).off .wifi rfl rfl
  rcases hoff with ⟨e, hjournal, -⟩ | ⟨t, ht, hrestores⟩
  · have hnone : (run step (start bothOn) lateTimer).journal = none := rfl
    rw [hnone] at hjournal
    cases hjournal
  · have htasks : (run step (start bothOn) lateTimer).tasks = [.offline 0 .disableData] := rfl
    rw [htasks] at ht
    rw [List.mem_singleton.mp ht] at hrestores
    exact hrestores

end FleetRunner.Network.Android
