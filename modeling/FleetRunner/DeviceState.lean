import FleetRunner.Js.Text
import FleetRunner.Library.Runs

/-!
# Device settings a job changes and must put back (`device-state.ts`)

An apply reads the settings it will change, writes what it read to the journal,
changes them and reads them back. A restore puts every setting of the entry back,
reads it again, and drops the entry when all of them are back.

## Implementation notes

`withState` and `restoreAttachedState` are applies and restores one after the
other. A call on a device goes on from one device command to the next; calls may
overlap, commands may fail or do nothing, and the process may crash. `origin` and
`lost` are the observer's: what each setting was before the first apply that is
not undone, and whether an entry was dropped with a setting that was not back.
An apply is undone for a setting that is back when its entry goes.
-/

namespace FleetRunner.DeviceState

open Library

/-! ## Targets and settings -/

inductive Domain where
  | locale | display
  deriving DecidableEq

inductive TargetKind where
  | device | simulator
  deriving DecidableEq

structure StateTarget where
  id : String
  platform : String
  kind : Option TargetKind

/-- `unmanageableReason(t) !== null` -/
def StateTarget.unmanageable (t : StateTarget) : Bool :=
  !(decide (t.platform = "android") || decide (t.kind = some .simulator))

inductive SettingName where
  | system_locales | font_scale | font_weight_adjustment | uimode_night
  | AppleLanguages | AppleLocale | appearance | content_size
  deriving DecidableEq

def SETTINGS : List SettingName :=
  [.system_locales, .font_scale, .font_weight_adjustment, .uimode_night, .AppleLanguages,
    .AppleLocale, .appearance, .content_size]

theorem mem_SETTINGS (n : SettingName) : n ∈ SETTINGS := by
  cases n <;> decide

/-- What a setting is; `none` when it is unset. -/
abbrev Value := Option String

/-- `simctl ui` has no way to unset a value. -/
def SettingName.needsValue : SettingName → Bool
  | .appearance => true
  | .content_size => true
  | _ => false

/-- What a write sets the setting to; `none` where it sends no command. -/
def written : SettingName → Value → Option Value
  | .uimode_night, v => some (some (v.getD "no"))
  | .appearance, none => none
  | .content_size, none => none
  | _, v => some v

section Same

variable (js : Js)

def normalised (v : Value) : List Char :=
  (js.lower (jsTrim (v.getD ""))).toList.map fun c => if c = '_' then '-' else c

/-- Two values are the same setting when they normalise the same way. -/
def sameValue (a b : Value) : Bool := decide (normalised js a = normalised js b)

variable {js} {a b c : Value}

theorem sameValue_iff : sameValue js a b = true ↔ normalised js a = normalised js b :=
  decide_eq_true_iff

theorem sameValue_symm (h : sameValue js a b = true) : sameValue js b a = true :=
  sameValue_iff.mpr (sameValue_iff.mp h).symm

theorem sameValue_trans (h : sameValue js a b = true) (h' : sameValue js b c = true) :
    sameValue js a c = true :=
  sameValue_iff.mpr ((sameValue_iff.mp h).trans (sameValue_iff.mp h'))

end Same

/-! ## Calls -/

abbrev Prior := List (SettingName × Value)

/-- The settings an apply asks for, each once. -/
structure Wanted where
  settings : List (SettingName × String)
  distinct : (settings.map Prod.fst).Nodup

/-- Where a call is: the next command, or the next change of the journal. -/
inductive At where
  | read (wanted : List (SettingName × String)) (prior : Prior) (todo : List SettingName)
  | put (wanted : List (SettingName × String)) (prior : Prior)
  | write (wanted todo : List (SettingName × String))
  | check (todo : List (SettingName × String))
  | get
  | look (todo : Prior) (bad : Bool)
  | set (n : SettingName) (want : Value) (todo : Prior) (bad : Bool)
  | confirm (n : SettingName) (want : Value) (todo : Prior) (bad : Bool)
  | drop

structure Call where
  domain : Domain
  at_ : At

structure Device where
  values : SettingName → Value
  /-- the prior values of the entry of each domain -/
  journal : Domain → Option Prior
  calls : List Call
  origin : Domain → SettingName → Option Value
  lost : Bool

/-- How a read ends: it throws, answers nothing, or answers the setting. -/
inductive Answer where
  | fails | blank | value
  deriving DecidableEq

/-- How a command ends. A write may return without effect, and have effect without returning. -/
structure Outcome where
  answer : Answer
  returns : Bool
  effect : Bool

namespace Device

variable (d : Device)

/-- `readSetting`; `none` when it throws. -/
def read (n : SettingName) (o : Outcome) : Option Value :=
  match o.answer with
  | .fails => none
  | .blank => some none
  | .value => some (d.values n)

/-- `writeSetting` -/
def write (n : SettingName) (v : Value) (o : Outcome) : Device :=
  match written n v with
  | some w =>
      if o.effect then { d with values := fun m => if m = n then w else d.values m } else d
  | none => d

/-- The observer notes what a setting was before an apply changes it. -/
def note (domain : Domain) (n : SettingName) : Device :=
  { d with origin := fun dom m =>
      if dom = domain ∧ m = n then (d.origin dom m).or (some (d.values m)) else d.origin dom m }

/-- The entry of a domain goes, for another or for none: what is back is undone. -/
def journalled (js : Js) (domain : Domain) (entry : Option Prior) : Device :=
  { d with
    journal := fun dom => if dom = domain then entry else d.journal dom
    origin := fun dom m =>
      if dom = domain then (d.origin dom m).filter fun v => !sameValue js v (d.values m)
      else d.origin dom m }

end Device

/-- Does the write come back? -/
def wrote (n : SettingName) (v : Value) (o : Outcome) : Bool :=
  (written n v).elim true fun _ => o.returns

/-- The next setting of a restore, or its end. -/
def nextLook (todo : Prior) (bad : Bool) : Option At :=
  match todo with
  | [] => if bad then none else some .drop
  | _ :: _ => some (.look todo bad)

section Go

variable (js : Js)

/-- A call goes on: the device after it, and where the call is then, if it has not ended. -/
def go (domain : Domain) (d : Device) (o : Outcome) : At → Device × Option At
  | .read wanted prior [] => (d, some (.put wanted prior))
  | .read wanted prior (n :: todo) =>
      match d.read n o with
      | none => (d, none)
      | some v =>
          if v = none ∧ n.needsValue = true then (d, none)
          else (d, some (.read wanted (prior ++ [(n, v)]) todo))
  | .put wanted prior => (d.journalled js domain (some prior), some (.write wanted wanted))
  | .write wanted [] => (d, some (.check wanted))
  | .write wanted ((n, v) :: todo) =>
      ((d.note domain n).write n (some v) o,
        some (if wrote n (some v) o then .write wanted todo else .get))
  | .check [] => (d, none)
  | .check ((n, v) :: todo) =>
      (d, some (if (d.read n o).any fun got => sameValue js got (some v) then .check todo else .get))
  | .get => (d, (d.journal domain).bind fun prior => nextLook prior false)
  | .look [] bad => (d, nextLook [] bad)
  | .look ((n, want) :: todo) bad =>
      match d.read n o with
      | none => (d, nextLook todo true)
      | some now =>
          if sameValue js now want then (d, nextLook todo bad)
          else (d, some (.set n want todo bad))
  | .set n want todo bad =>
      (d.write n want o,
        if wrote n want o then some (.confirm n want todo bad) else nextLook todo true)
  | .confirm n want todo bad =>
      (d, nextLook todo (!((d.read n o).any fun after => sameValue js after want) || bad))
  | .drop =>
      ({ d.journalled js domain none with
          lost := d.lost || ((d.journal domain).getD []).any fun p =>
            !sameValue js (d.values p.1) p.2 }, none)

abbrev World := String → Device

inductive Event where
  | apply (t : StateTarget) (domain : Domain) (wanted : Wanted)
  | restore (t : StateTarget) (domain : Domain)
  | go (id : String) (n : Nat) (o : Outcome)
  | crash

def World.update (w : World) (id : String) (d : Device) : World := fun x => if x = id then d else w x

def Device.begin (d : Device) (c : Call) : Device := { d with calls := d.calls ++ [c] }

/-- The `n`-th call on a device goes on. -/
def Device.go (js : Js) (d : Device) (n : Nat) (o : Outcome) : Device :=
  match d.calls[n]? with
  | some c =>
      let r := DeviceState.go js c.domain d o c.at_
      { r.1 with
        calls := d.calls.take n ++ (r.2.map fun at_ => ⟨c.domain, at_⟩).toList ++ d.calls.drop (n + 1) }
  | none => d

def step (w : World) : Event → World
  | .apply t domain wanted =>
      if t.unmanageable = true ∨ wanted.settings = [] then w
      else w.update t.id
        ((w t.id).begin ⟨domain, .read wanted.settings [] (wanted.settings.map Prod.fst)⟩)
  | .restore t domain =>
      if t.unmanageable = true then w else w.update t.id ((w t.id).begin ⟨domain, .get⟩)
  | .go id n o => w.update id ((w id).go js n o)
  | .crash => fun id => { w id with calls := [] }

/-! ## What must hold -/

/-- A setting that differs from what it was has its original value in the journal, and no entry was
dropped before all of it was back. -/
structure Restorable (d : Device) : Prop where
  held : ∀ domain n v, d.origin domain n = some v → sameValue js v (d.values n) = false →
    ∃ prior, d.journal domain = some prior ∧ ∃ w, (n, w) ∈ prior ∧ sameValue js w v = true
  notLost : d.lost = false

/-- What a call must find where it is. -/
def CarefulAt (domain : Domain) (d : Device) (o : Outcome) : At → Prop
  | .read _ _ (n :: _) => ∀ v ∈ d.read n o, sameValue js v (d.values n) = true
  | .put _ _ => ∀ n, ∀ v ∈ d.origin domain n, sameValue js v (d.values n) = true
  | .look ((n, want) :: _) _ =>
      ∀ v ∈ d.read n o, sameValue js v want = true → sameValue js (d.values n) want = true
  | .confirm n want _ _ =>
      ∀ v ∈ d.read n o, sameValue js v want = true → sameValue js (d.values n) want = true
  | _ => True

def Careful (w : World) : Event → Prop
  | .apply t _ _ => (w t.id).calls = []
  | .restore t _ => (w t.id).calls = []
  | .go id n o => ∀ c ∈ (w id).calls[n]?, CarefulAt js c.domain (w id) o c.at_
  | .crash => True

instance (domain : Domain) (d : Device) (o : Outcome) : (at_ : At) → Decidable (CarefulAt js domain d o at_)
  | .read _ _ [] => .isTrue trivial
  | .read _ _ (n :: _) =>
      inferInstanceAs (Decidable (∀ v ∈ d.read n o, sameValue js v (d.values n) = true))
  | .put _ _ =>
      decidable_of_iff
        (∀ n ∈ SETTINGS, ∀ v ∈ d.origin domain n, sameValue js v (d.values n) = true)
        ⟨fun h n => h n (mem_SETTINGS n), fun h n _ => h n⟩
  | .write _ _ => .isTrue trivial
  | .check _ => .isTrue trivial
  | .get => .isTrue trivial
  | .look [] _ => .isTrue trivial
  | .look ((n, want) :: _) _ =>
      inferInstanceAs (Decidable (∀ v ∈ d.read n o,
        sameValue js v want = true → sameValue js (d.values n) want = true))
  | .set _ _ _ _ => .isTrue trivial
  | .confirm n want _ _ =>
      inferInstanceAs (Decidable (∀ v ∈ d.read n o,
        sameValue js v want = true → sameValue js (d.values n) want = true))
  | .drop => .isTrue trivial

instance (w : World) : (e : Event) → Decidable (Careful js w e)
  | .apply t _ _ => decidable_of_iff ((w t.id).calls.isEmpty = true) List.isEmpty_iff
  | .restore t _ => decidable_of_iff ((w t.id).calls.isEmpty = true) List.isEmpty_iff
  | .go id n o => inferInstanceAs (Decidable (∀ c ∈ (w id).calls[n]?, CarefulAt js c.domain (w id) o c.at_))
  | .crash => .isTrue trivial

/-- Devices that nothing was applied to. -/
def start (values : String → SettingName → Value) : World := fun id => {
  values := values id
  journal _ := none
  calls := []
  origin _ _ := none
  lost := false }

end Go

/-! ## The invariant -/

section Invariant

variable {js : Js} {d : Device} {domain : Domain} {o : Outcome}

/-- A restore under way: what it has gone through is back, unless something went wrong. -/
def Restoring (js : Js) (d : Device) (domain : Domain) (todo : Prior) (bad : Bool) : Prop :=
  ∃ past, d.journal domain = some (past ++ todo) ∧
    (bad = false → ∀ p ∈ past, sameValue js (d.values p.1) p.2 = true)

/-- Where a call is, the journal and the device are as it counts on. -/
def Fine (js : Js) (d : Device) (domain : Domain) : At → Prop
  | .read wanted prior todo =>
      prior.map Prod.fst ++ todo = wanted.map Prod.fst ∧ (wanted.map Prod.fst).Nodup ∧
        ∀ p ∈ prior, sameValue js p.2 (d.values p.1) = true
  | .put wanted prior =>
      prior.map Prod.fst = wanted.map Prod.fst ∧ (wanted.map Prod.fst).Nodup ∧
        ∀ p ∈ prior, sameValue js p.2 (d.values p.1) = true
  | .write _ todo =>
      (todo.map Prod.fst).Nodup ∧ ∃ prior, d.journal domain = some prior ∧
        ∀ p ∈ todo, d.origin domain p.1 = none ∧
          ∃ w, (p.1, w) ∈ prior ∧ sameValue js w (d.values p.1) = true
  | .check _ => True
  | .get => True
  | .look todo bad => Restoring js d domain todo bad
  | .set n want todo bad => Restoring js d domain ((n, want) :: todo) bad
  | .confirm n want todo bad => Restoring js d domain ((n, want) :: todo) bad
  | .drop => Restoring js d domain [] false

structure Inv (js : Js) (d : Device) : Prop where
  held : ∀ domain n v, d.origin domain n = some v →
    ∃ prior, d.journal domain = some prior ∧ ∃ w, (n, w) ∈ prior ∧ sameValue js w v = true
  distinct : ∀ domain prior, d.journal domain = some prior → (prior.map Prod.fst).Nodup
  single : d.calls.length ≤ 1
  calls : ∀ c ∈ d.calls, Fine js d c.domain c.at_
  notLost : d.lost = false

theorem Inv.restorable (h : Inv js d) : Restorable js d :=
  ⟨fun domain n v horigin _ => h.held domain n v horigin, h.notLost⟩

/-- What a step leaves of a device, but for its calls. -/
structure Leaves (js : Js) (domain : Domain) (d' : Device) (next : Option At) : Prop where
  held : ∀ dom n v, d'.origin dom n = some v →
    ∃ prior, d'.journal dom = some prior ∧ ∃ w, (n, w) ∈ prior ∧ sameValue js w v = true
  distinct : ∀ dom prior, d'.journal dom = some prior → (prior.map Prod.fst).Nodup
  next : ∀ at_ ∈ next, Fine js d' domain at_
  notLost : d'.lost = false

/-- A step that changes nothing but where the call is. -/
theorem Inv.leaves_same (h : Inv js d) {next : Option At}
    (hnext : ∀ at_ ∈ next, Fine js d domain at_) : Leaves js domain d next :=
  ⟨h.held, h.distinct, hnext, h.notLost⟩

theorem fine_nextLook {todo : Prior} {bad : Bool} (h : Restoring js d domain todo bad) :
    ∀ at_ ∈ nextLook todo bad, Fine js d domain at_ := by
  intro at_ hat
  cases todo with
  | nil =>
      cases bad with
      | true => cases hat
      | false =>
          obtain rfl := Option.some.inj hat
          exact h
  | cons p todo =>
      obtain rfl := Option.some.inj hat
      exact h

/-- A setting that the restore has gone through. -/
theorem Restoring.pass {n : SettingName} {want : Value} {todo : Prior} {bad bad' : Bool}
    (h : Restoring js d domain ((n, want) :: todo) bad)
    (hbad : bad' = false → bad = false ∧ sameValue js (d.values n) want = true) :
    Restoring js d domain todo bad' := by
  obtain ⟨past, hjournal, hpast⟩ := h
  refine ⟨past ++ [(n, want)], ?_, ?_⟩
  · rw [hjournal, List.append_assoc]
    rfl
  · intro hgood p hp
    obtain ⟨hold, hback⟩ := hbad hgood
    rcases List.mem_append.mp hp with hp | hp
    · exact hpast hold p hp
    · rw [List.mem_singleton.mp hp]
      exact hback

@[simp] theorem write_journal (n : SettingName) (v : Value) :
    (d.write n v o).journal = d.journal := by
  unfold Device.write
  split
  · split <;> rfl
  · rfl

@[simp] theorem write_origin (n : SettingName) (v : Value) : (d.write n v o).origin = d.origin := by
  unfold Device.write
  split
  · split <;> rfl
  · rfl

@[simp] theorem write_lost (n : SettingName) (v : Value) : (d.write n v o).lost = d.lost := by
  unfold Device.write
  split
  · split <;> rfl
  · rfl

/-- The other settings are left alone. -/
theorem write_values {n m : SettingName} (hne : m ≠ n) (v : Value) :
    (d.write n v o).values m = d.values m := by
  unfold Device.write
  split
  · split
    · exact if_neg hne
    · rfl
  · rfl

@[simp] theorem journalled_journal_self (entry : Option Prior) :
    (d.journalled js domain entry).journal domain = entry := if_pos rfl

theorem journalled_journal_of_ne {dom : Domain} (h : dom ≠ domain) (entry : Option Prior) :
    (d.journalled js domain entry).journal dom = d.journal dom := if_neg h

theorem journalled_origin_self (entry : Option Prior) (n : SettingName) :
    (d.journalled js domain entry).origin domain n =
      (d.origin domain n).filter fun v => !sameValue js v (d.values n) := if_pos rfl

theorem journalled_origin_of_ne {dom : Domain} (h : dom ≠ domain) (entry : Option Prior)
    (n : SettingName) : (d.journalled js domain entry).origin dom n = d.origin dom n := if_neg h

@[simp] theorem journalled_values (entry : Option Prior) :
    (d.journalled js domain entry).values = d.values := rfl

/-! ## An apply -/

theorem leaves_read (h : Inv js d) {wanted : List (SettingName × String)} {prior : Prior}
    {n : SettingName} {todo : List SettingName} (hat : Fine js d domain (.read wanted prior (n :: todo)))
    (hok : ∀ v ∈ d.read n o, sameValue js v (d.values n) = true) :
    Leaves js domain (go js domain d o (.read wanted prior (n :: todo))).1
      (go js domain d o (.read wanted prior (n :: todo))).2 := by
  obtain ⟨hnames, hdistinct, hprior⟩ := hat
  rw [go]
  split
  · exact h.leaves_same nofun
  · rename_i v hread
    split
    · exact h.leaves_same nofun
    · apply h.leaves_same
      intro at_ hnext
      obtain rfl := Option.some.inj hnext
      refine ⟨?_, hdistinct, ?_⟩
      · rw [← hnames, List.map_append, List.append_assoc]
        rfl
      · intro p hp
        rcases List.mem_append.mp hp with hp | hp
        · exact hprior p hp
        · rw [List.mem_singleton.mp hp]
          exact hok v hread

theorem leaves_put (h : Inv js d) {wanted : List (SettingName × String)} {prior : Prior}
    (hat : Fine js d domain (.put wanted prior))
    (hok : ∀ n, ∀ v ∈ d.origin domain n, sameValue js v (d.values n) = true) :
    Leaves js domain (d.journalled js domain (some prior)) (some (.write wanted wanted)) := by
  obtain ⟨hnames, hdistinct, hprior⟩ := hat
  have hundone : ∀ n, (d.journalled js domain (some prior)).origin domain n = none := by
    intro n
    rw [journalled_origin_self]
    apply Option.filter_eq_none_iff.mpr
    intro v hv
    simp [hok n v hv]
  constructor
  · intro dom n v horigin
    by_cases hdom : dom = domain
    · subst hdom
      rw [hundone n] at horigin
      cases horigin
    · rw [journalled_origin_of_ne hdom] at horigin
      rw [journalled_journal_of_ne hdom]
      exact h.held dom n v horigin
  · intro dom q hq
    by_cases hdom : dom = domain
    · subst hdom
      rw [journalled_journal_self] at hq
      obtain rfl := Option.some.inj hq
      rw [hnames]
      exact hdistinct
    · rw [journalled_journal_of_ne hdom] at hq
      exact h.distinct dom q hq
  · intro at_ hnext
    obtain rfl := Option.some.inj hnext
    refine ⟨hdistinct, prior, journalled_journal_self _, ?_⟩
    intro p hp
    refine ⟨hundone p.1, ?_⟩
    have hmem : p.1 ∈ prior.map Prod.fst := by
      rw [hnames]
      exact List.mem_map_of_mem hp
    obtain ⟨⟨n, w⟩, hq, hn⟩ := List.mem_map.mp hmem
    rw [← hn]
    exact ⟨w, hq, hprior (n, w) hq⟩
  · exact h.notLost

theorem leaves_write (h : Inv js d) {wanted : List (SettingName × String)} {n : SettingName}
    {v : String} {todo : List (SettingName × String)}
    (hat : Fine js d domain (.write wanted ((n, v) :: todo))) :
    Leaves js domain ((d.note domain n).write n (some v) o)
      (some (if wrote n (some v) o then .write wanted todo else .get)) := by
  obtain ⟨hdistinct, prior, hjournal, htodo⟩ := hat
  obtain ⟨hnone, w, hw, hsame⟩ := htodo (n, v) List.mem_cons_self
  rw [List.map_cons, List.nodup_cons] at hdistinct
  constructor
  · intro dom m x horigin
    rw [write_origin] at horigin
    rw [write_journal]
    by_cases hnoted : dom = domain ∧ m = n
    · obtain ⟨rfl, rfl⟩ := hnoted
      simp only [Device.note, and_self, if_true, hnone, Option.none_or] at horigin
      obtain rfl := Option.some.inj horigin
      exact ⟨prior, hjournal, w, hw, hsame⟩
    · simp only [Device.note, if_neg hnoted] at horigin
      exact h.held dom m x horigin
  · intro dom q hq
    rw [write_journal] at hq
    exact h.distinct dom q hq
  · intro at_ hnext
    obtain rfl := Option.some.inj hnext
    split
    · refine ⟨hdistinct.2, prior, ?_, ?_⟩
      · rw [write_journal]
        exact hjournal
      · intro p hp
        have hmem : p.1 ∈ todo.map Prod.fst := List.mem_map_of_mem hp
        have hne : p.1 ≠ n := fun heq => hdistinct.1 (heq ▸ hmem)
        rw [write_origin, write_values hne]
        simp only [Device.note, hne, and_false, if_false]
        exact htodo p (List.mem_cons_of_mem _ hp)
    · trivial
  · rw [write_lost]
    exact h.notLost

/-! ## A restore -/

theorem leaves_get (h : Inv js d) :
    Leaves js domain d ((d.journal domain).bind fun prior => nextLook prior false) := by
  apply h.leaves_same
  intro at_ hnext
  obtain ⟨prior, hjournal, hlook⟩ := Option.bind_eq_some_iff.mp hnext
  exact fine_nextLook ⟨[], hjournal, by simp⟩ at_ hlook

theorem leaves_look (h : Inv js d) {n : SettingName} {want : Value} {todo : Prior} {bad : Bool}
    (hat : Restoring js d domain ((n, want) :: todo) bad)
    (hok : ∀ v ∈ d.read n o, sameValue js v want = true → sameValue js (d.values n) want = true) :
    Leaves js domain (go js domain d o (.look ((n, want) :: todo) bad)).1
      (go js domain d o (.look ((n, want) :: todo) bad)).2 := by
  rw [go]
  split
  · exact h.leaves_same (fine_nextLook (hat.pass nofun))
  · rename_i now hread
    split
    · rename_i hsame
      exact h.leaves_same (fine_nextLook (hat.pass fun hgood => ⟨hgood, hok now hread hsame⟩))
    · apply h.leaves_same
      intro at_ hnext
      obtain rfl := Option.some.inj hnext
      exact hat

/-- A write of the setting that the restore is at. -/
theorem Restoring.write (hdistinct : ∀ dom prior, d.journal dom = some prior → (prior.map Prod.fst).Nodup)
    {n : SettingName} {want v : Value} {todo : Prior} {bad : Bool}
    (h : Restoring js d domain ((n, want) :: todo) bad) :
    Restoring js (d.write n v o) domain ((n, want) :: todo) bad := by
  obtain ⟨past, hjournal, hpast⟩ := h
  refine ⟨past, ?_, ?_⟩
  · rw [write_journal]
    exact hjournal
  · intro hgood p hp
    have hnodup := hdistinct domain _ hjournal
    rw [List.map_append, List.map_cons, List.nodup_append] at hnodup
    have hne : p.1 ≠ n := hnodup.2.2 p.1 (List.mem_map_of_mem hp) n List.mem_cons_self
    rw [write_values hne]
    exact hpast hgood p hp

theorem leaves_set (h : Inv js d) {n : SettingName} {want : Value} {todo : Prior} {bad : Bool}
    (hat : Restoring js d domain ((n, want) :: todo) bad) :
    Leaves js domain (d.write n want o)
      (if wrote n want o then some (.confirm n want todo bad) else nextLook todo true) := by
  have hwritten := hat.write (v := want) (o := o) h.distinct
  constructor
  · rw [write_origin, write_journal]
    exact h.held
  · rw [write_journal]
    exact h.distinct
  · split
    · intro at_ hnext
      obtain rfl := Option.some.inj hnext
      exact hwritten
    · exact fine_nextLook (hwritten.pass nofun)
  · rw [write_lost]
    exact h.notLost

theorem leaves_confirm (h : Inv js d) {n : SettingName} {want : Value} {todo : Prior} {bad : Bool}
    (hat : Restoring js d domain ((n, want) :: todo) bad)
    (hok : ∀ v ∈ d.read n o, sameValue js v want = true → sameValue js (d.values n) want = true) :
    Leaves js domain d
      (nextLook todo (!((d.read n o).any fun after => sameValue js after want) || bad)) := by
  apply h.leaves_same
  apply fine_nextLook
  apply hat.pass
  intro hgood
  simp only [Bool.or_eq_false_iff, Bool.not_eq_false'] at hgood
  cases hread : d.read n o with
  | none => simp [hread] at hgood
  | some v =>
      rw [hread] at hgood
      exact ⟨hgood.2, hok v hread hgood.1⟩

/-- The entry goes with everything it holds back on the device. -/
theorem leaves_drop (h : Inv js d) (hat : Restoring js d domain [] false) :
    Leaves js domain (go js domain d o .drop).1 none := by
  obtain ⟨past, hjournal, hback⟩ := hat
  rw [List.append_nil] at hjournal
  constructor
  · intro dom n v horigin
    by_cases hdom : dom = domain
    · subst hdom
      rw [go, journalled_origin_self] at horigin
      obtain ⟨hold, hdiffers⟩ := Option.filter_eq_some_iff.mp horigin
      obtain ⟨prior, hprior, w, hw, hsame⟩ := h.held dom n v hold
      rw [hjournal] at hprior
      obtain rfl := Option.some.inj hprior
      have hsame' := sameValue_symm (sameValue_trans (hback rfl _ hw) hsame)
      simp [hsame'] at hdiffers
    · rw [go, journalled_origin_of_ne hdom] at horigin
      rw [go, journalled_journal_of_ne hdom]
      exact h.held dom n v horigin
  · intro dom prior hprior
    by_cases hdom : dom = domain
    · subst hdom
      rw [go, journalled_journal_self] at hprior
      cases hprior
    · rw [go, journalled_journal_of_ne hdom] at hprior
      exact h.distinct dom prior hprior
  · exact nofun
  · simp only [go, hjournal, h.notLost, Bool.false_or, Option.getD_some, List.any_eq_false]
    intro p hp
    simp [hback rfl p hp]

theorem leaves_go (h : Inv js d) {at_ : At} (hat : Fine js d domain at_)
    (hok : CarefulAt js domain d o at_) :
    Leaves js domain (go js domain d o at_).1 (go js domain d o at_).2 := by
  cases at_ with
  | read wanted prior todo =>
      cases todo with
      | nil =>
          apply h.leaves_same
          intro at_ hnext
          obtain rfl := Option.some.inj hnext
          obtain ⟨hnames, hrest⟩ := hat
          exact ⟨(List.append_nil _).symm.trans hnames, hrest⟩
      | cons n todo => exact leaves_read h hat hok
  | put wanted prior => exact leaves_put h hat hok
  | write wanted todo =>
      cases todo with
      | nil =>
          apply h.leaves_same
          intro at_ hnext
          obtain rfl := Option.some.inj hnext
          trivial
      | cons p todo => exact leaves_write h hat
  | check todo =>
      cases todo with
      | nil => exact h.leaves_same nofun
      | cons p todo =>
          apply h.leaves_same
          intro at_ hnext
          obtain rfl := Option.some.inj hnext
          split <;> trivial
  | get => exact leaves_get h
  | look todo bad =>
      cases todo with
      | nil => exact h.leaves_same (fine_nextLook hat)
      | cons p todo => exact leaves_look h hat hok
  | set n want todo bad => exact leaves_set h hat
  | confirm n want todo bad => exact leaves_confirm h hat hok
  | drop => exact leaves_drop h hat

/-- What a call counts on does not depend on which calls there are. -/
theorem fine_withCalls {at_ : At} (calls : List Call) (h : Fine js d domain at_) :
    Fine js { d with calls := calls } domain at_ := by
  cases at_ <;> exact h

theorem inv_go (h : Inv js d) (n : Nat) (hok : ∀ c ∈ d.calls[n]?, CarefulAt js c.domain d o c.at_) :
    Inv js (d.go js n o) := by
  rw [Device.go]
  split
  · rename_i c hc
    obtain ⟨hlt, hget⟩ := List.getElem?_eq_some_iff.mp hc
    have hsingle := h.single
    obtain rfl : n = 0 := by omega
    obtain ⟨c', hcalls⟩ := List.length_eq_one_iff.mp (show d.calls.length = 1 by omega)
    obtain rfl : c' = c := by simpa [hcalls] using hget
    have hleaves := leaves_go h (h.calls c' (by simp [hcalls])) (hok c' hc)
    have hlist : d.calls.take 0 ++
        ((go js c'.domain d o c'.at_).2.map fun at_ => (⟨c'.domain, at_⟩ : Call)).toList ++
        d.calls.drop (0 + 1) =
          ((go js c'.domain d o c'.at_).2.map fun at_ => (⟨c'.domain, at_⟩ : Call)).toList := by
      simp [hcalls]
    constructor
    · exact hleaves.held
    · exact hleaves.distinct
    · dsimp only
      rw [hlist]
      cases (go js c'.domain d o c'.at_).2 <;> simp
    · intro x hx
      dsimp only at hx
      rw [hlist, Option.mem_toList, Option.map_eq_some_iff] at hx
      obtain ⟨at_, hat, rfl⟩ := hx
      exact fine_withCalls _ (hleaves.next at_ hat)
    · exact hleaves.notLost
  · exact h

theorem Inv.withCalls (h : Inv js d) {calls : List Call} (hsingle : calls.length ≤ 1)
    (hcalls : ∀ c ∈ calls, Fine js d c.domain c.at_) : Inv js { d with calls := calls } :=
  ⟨h.held, h.distinct, hsingle, fun c hc => fine_withCalls calls (hcalls c hc), h.notLost⟩

theorem inv_begin (h : Inv js d) (hnone : d.calls = []) {at_ : At} (hat : Fine js d domain at_) :
    Inv js (d.begin ⟨domain, at_⟩) := by
  apply h.withCalls
  · simp [hnone]
  · intro c hc
    rw [hnone, List.nil_append] at hc
    rw [List.mem_singleton.mp hc]
    exact hat

/-- An update of one device. -/
theorem inv_update {w : World} (h : ∀ id, Inv js (w id)) {id : String} {d : Device} (hd : Inv js d) :
    ∀ x, Inv js (w.update id d x) := by
  intro x
  rw [World.update]
  split
  · exact hd
  · exact h x

theorem inv_step (w : World) (e : Event) (h : ∀ id, Inv js (w id)) (hok : Careful js w e) :
    ∀ id, Inv js (step js w e id) := by
  cases e with
  | apply t domain wanted =>
      rw [step]
      split
      · exact h
      · apply inv_update h
        apply inv_begin (h t.id) hok
        exact ⟨rfl, wanted.distinct, by simp⟩
  | restore t domain =>
      rw [step]
      split
      · exact h
      · exact inv_update h (inv_begin (h t.id) hok trivial)
  | go id n o => exact inv_update h (inv_go (h id) n hok)
  | crash =>
      intro id
      exact (h id).withCalls (Nat.zero_le 1) (by simp)

theorem inv_start (values : String → SettingName → Value) (id : String) :
    Inv js (start values id) := by
  constructor <;> simp [start]

end Invariant

/-- Along a run whose steps are careful, every setting of every device that differs from what it was
has its original value in the journal, and no entry is dropped before what it holds is back. -/
theorem restorable_of_careful (js : Js) (values : String → SettingName → Value) (events : List Event)
    (hok : Along (step js) (Careful js) (start values) events) :
    ∀ past, past <+: events → ∀ id, Restorable js (run (step js) (start values) past id) := by
  rintro past ⟨rest, rfl⟩ id
  have hpast := (along_append.mp hok).1
  have hinv : ∀ id, Inv js (run (step js) (start values) past id) :=
    invariant (I := fun w => ∀ id, Inv js (w id)) (fun w e h => inv_step w e h) (inv_start values) hpast
  exact (hinv id).restorable

def pixel : StateTarget := ⟨"pixel", "android", some .device⟩

/-- Every setting is unset but for the language. -/
def english (_ : String) : SettingName → Value
  | .system_locales => some "en-US"
  | _ => none

def inLanguage (tag : String) : Wanted := ⟨[(.system_locales, tag)], List.pairwise_singleton _ _⟩

/-- A step of the phone's call whose command works. -/
def goes : Event := .go "pixel" 0 ⟨.value, true, true⟩

/-- An apply and a restore after it. -/
def thereAndBack : List Event :=
  .apply pixel .locale (inLanguage "ar-EG") :: List.replicate 7 goes ++
    .restore pixel .locale :: List.replicate 5 goes

theorem restorable_thereAndBack :
    Restorable .plain (run (step .plain) (start english) thereAndBack "pixel") :=
  restorable_of_careful .plain english thereAndBack (by decide) _ List.prefix_rfl "pixel"

/-- The process crashed in Arabic, and the phone is taken to French. -/
def appliedTwice : List Event :=
  .apply pixel .locale (inLanguage "ar-EG") :: List.replicate 4 goes ++
    .crash :: .apply pixel .locale (inLanguage "fr-FR") :: List.replicate 3 goes

/-- The second entry takes Arabic for what the phone was in. -/
theorem original_lost : ¬∀ (js : Js) (values : String → SettingName → Value) (events : List Event)
    (id : String), Restorable js (run (step js) (start values) events id) := by
  intro h
  have horigin : (run (step .plain) (start english) appliedTwice "pixel").origin .locale
      .system_locales = some (some "en-US") := by
    decide
  have hvalue : sameValue .plain (some "en-US")
      ((run (step .plain) (start english) appliedTwice "pixel").values .system_locales) = false := by
    decide
  have hjournal : (run (step .plain) (start english) appliedTwice "pixel").journal .locale =
      some [(.system_locales, some "ar-EG")] := by
    decide
  obtain ⟨prior, hprior, w, hw, hsame⟩ :=
    (h .plain english appliedTwice "pixel").held _ _ _ horigin hvalue
  rw [hjournal] at hprior
  obtain rfl := Option.some.inj hprior
  obtain rfl : w = some "ar-EG" := by simpa using hw
  revert hsame
  decide

end FleetRunner.DeviceState
