import FleetRunner.Explore.Filing
import Mathlib.Algebra.Order.Ring.Unbundled.Rat

/-!
# What a mission and its replay do to the device (`loop.ts`, `replay.ts`)

The loop acts on the device and keeps a record of it by hand, as the executed
entries. A candidate is confirmed by repeating the entries up to it.

## Implementation notes

The device is told to act or to launch the app; a call may throw, and has had
its effect by then. A pass of the loop is given by what it met: what the checks
saw, whether another app was in front, what the model asked for and how each
call of the device ended. An error that the loop does not catch ends the mission
without a result.
-/

namespace FleetRunner.Explore

/-! ## The device -/

/-- What the device was told. -/
inductive Op where
  | act (action : Action)
  | launch (appId : String) (launchArgs : List String)

/-! ## The replay -/

section Replay

variable (appId : String) (launchArgs : List String)

/-- The calls that repeat an entry, each with whether its error ends the replay. -/
def Executed.calls : Executed → List (Op × Bool)
  | .relaunch _ => [(.launch appId launchArgs, true)]
  | .home _ => [(.act (.key .home), false), (.launch appId launchArgs, true)]
  | .action _ a _ => [(.act a, true)]

/-- Make calls until one throws that nobody catches: what the device was told, and whether all were
made. `returns` says how the calls end, one after the other. -/
def makeCalls : List Bool → List (Op × Bool) → List Op × Bool
  | _, [] => ([], true)
  | returns, (op, ends) :: rest =>
      if returns.headD true = false ∧ ends = true then ([op], false)
      else (op :: (makeCalls returns.tail rest).1, (makeCalls returns.tail rest).2)

/-- Run the first `upTo` executed steps again. -/
def replayThrough (executed : List Executed) (upTo : Nat) (returns : List Bool) : List Op × Bool :=
  makeCalls returns ((executed.take upTo).flatMap (Executed.calls appId launchArgs))

end Replay

/-! ## The loop -/

inductive Surface where
  | touch | dpad
  deriving DecidableEq

structure Harness where
  appId : String
  launchArgs : List String
  surface : Surface
  maxSteps : Nat
  /-- after which share of the steps the app is sent to the background, if it is -/
  backgroundAt : Option Rat

/-- `i === Math.max(2, Math.round(maxSteps * d.backgroundAt))` -/
def Harness.background (h : Harness) (i : Nat) : Bool :=
  match h.backgroundAt with
  | some share => decide (share ≠ 0) && decide ((i : Rat) = max 2 (mathRound (h.maxSteps * share)))
  | none => false

/-- How long to let the screen settle after an action before looking again. -/
def settleFor (a : Action) (surface : Surface) : Nat :=
  match a, surface with
  | .wait _, _ => 0
  | _, .dpad => 450
  | .type _ _ _ _ _, _ => 500
  | .scroll _ _, _ => 700
  | .swipe _ _ _ _ _, _ => 700
  | _, _ => 900

/-- What a device without touch input takes. -/
def Action.dpad : Action → Bool
  | .key _ => true
  | .type _ _ _ _ _ => true
  | .wait _ => true
  | _ => false

/-- Going to the background and coming back: how the two calls end. -/
structure Excursion where
  key : Bool
  launch : Bool

/-- One call of the model's, converted. -/
inductive Converted where
  /-- an invalid call, a note, a plan or the answer -/
  | talk
  | issue (kind description : String)
  | home (e : Excursion)
  /-- the action as the model meant it, and snapped to what is on the screen; whether the leash
  lets it pass, and whether the device's call returns -/
  | action (meant snapped : Action) (leashed returns : Bool)

/-- The app was left: how the press of back ends, whether it helped, and how the launch ends that
is made if it did not. -/
structure Recovery where
  back : Bool
  helped : Bool
  launch : Bool

structure Crash where
  signatures : List String
  excerpt : String
  launch : Bool

inductive Reply where
  /-- no call; `retaken` when the model was loaded again and the step is taken again -/
  | silent (retaken : Bool)
  | calls (calls : List ToolCall) (converted : List Converted) (crash : Option Crash)

/-- One pass of the loop that got a look. -/
structure Pass where
  look : Look
  /-- a dead control, a frozen screen, a blank one -/
  checks : List Sighting
  /-- another app is in front -/
  left : Option Recovery
  /-- accessibility, and what the judge saw -/
  judged : List Sighting
  background : Excursion
  reply : Reply

/-- One thing the loop does in a pass. -/
inductive Deed where
  | sees (s : Sighting)
  | recovers (r : Recovery)
  | home (e : Excursion)
  | acts (action : Action) (settleMs : Nat) (returns : Bool)
  | crashes (c : Crash)

/-- What a converted call comes to. -/
def Converted.deeds (h : Harness) : Converted → List Deed
  | .talk => []
  | .issue kind description => [.sees (.issue kind description)]
  | .home e => [.home e]
  | .action meant snapped leashed returns =>
      if h.surface = .dpad ∧ meant.dpad = false then []
      else if leashed = false then []
      else [.acts snapped (settleFor snapped h.surface) returns]

def Reply.deeds (h : Harness) : Reply → List Deed
  | .silent _ => []
  | .calls _ converted crash =>
      converted.flatMap (Converted.deeds h) ++ (crash.map Deed.crashes).toList

/-- A pass in the order of the source. An app that was left ends it early. -/
def Pass.deeds (h : Harness) (i : Nat) (p : Pass) : List Deed :=
  p.checks.map .sees ++
    match p.left with
    | some r => [.recovers r]
    | none =>
        p.judged.map .sees ++ (if h.background i then [.home p.background] else []) ++
          p.reply.deeds h

/-- The step that is kept: none where the pass goes back to the top of the loop. -/
def Pass.kept (p : Pass) : Option (List ToolCall) :=
  match p.left, p.reply with
  | some _, _ => none
  | none, .silent retaken => if retaken then none else some []
  | none, .calls calls _ _ => some calls

/-- A step taken again does not count. -/
def Pass.next (p : Pass) (i : Nat) : Nat :=
  match p.left, p.reply with
  | none, .silent true => i
  | _, _ => i + 1

namespace Deed

/-- What the device is told. -/
def ops (h : Harness) : Deed → List Op
  | .sees _ => []
  | .recovers r =>
      .act (.key .back) :: if r.helped then [] else [.launch h.appId h.launchArgs]
  | .home _ => [.act (.key .home), .launch h.appId h.launchArgs]
  | .acts a _ _ => [.act a]
  | .crashes _ => [.launch h.appId h.launchArgs]

/-- What it is on the record and for the checks. -/
def events : Deed → List Event
  | .sees s => [.sees s]
  | .recovers r => if r.helped then [] else [.relaunch]
  | .home _ => [.home]
  | .acts a settleMs returns => if returns then [.act a settleMs] else []
  | .crashes c => [.crashes c.signatures c.excerpt]

/-- An error of these calls ends the mission. -/
def throws : Deed → Bool
  | .recovers r => !r.helped && !r.launch
  | .home e => !e.launch
  | _ => false

/-- The press of back that brings the app to the front again is not written down, and an action is
only once its call has returned. -/
def Recorded : Deed → Prop
  | .recovers _ => False
  | .acts _ _ returns => returns = true
  | _ => True

end Deed

/-- The mission so far, with what was done until each candidate was flagged. -/
structure Loop where
  result : MissionResult
  deeds : List Deed
  flagged : List (Candidate × List Deed)

/-- The candidates flagged since a result was left at `past`. -/
def newCandidates (past : Nat) (r : MissionResult) : List Candidate := r.candidates.drop past

def Loop.perform (js : Js) (d : LoopDeps) (i : Nat) (place : ScreenEntry) (s : Loop) (x : Deed) :
    Option Loop :=
  if x.throws then none
  else
    let r := x.events.foldl (happen js d i place) s.result
    some {
      result := r
      deeds := s.deeds ++ [x]
      flagged := s.flagged ++
        (newCandidates s.result.candidates.length r).map fun c => (c, s.deeds) }

def Loop.performAll (js : Js) (d : LoopDeps) (i : Nat) (place : ScreenEntry) :
    Loop → List Deed → Option Loop
  | s, [] => some s
  | s, x :: rest => (s.perform js d i place x).bind fun t => t.performAll js d i place rest

def Loop.playPass (js : Js) (d : LoopDeps) (h : Harness) (i : Nat) (s : Loop) (p : Pass) :
    Option Loop :=
  let placed := identify s.result.map p.look
  let s := { s with result := { s.result with map := placed.2 } }
  (s.performAll js d i placed.1 (p.deeds h i)).map fun s =>
    match p.kept with
    | some calls =>
        { s with result := { s.result with steps := s.result.steps ++ [⟨i, placed.1.id, calls⟩] } }
    | none => s

/-- The passes from step `i` on; `none` is a look that failed. -/
def Loop.playAll (js : Js) (d : LoopDeps) (h : Harness) : Nat → Loop → List (Option Pass) → Option Loop
  | _, s, [] => some s
  | i, s, none :: rest => if h.maxSteps < i then some s else s.playAll js d h (i + 1) rest
  | i, s, some p :: rest =>
      if h.maxSteps < i then some s
      else (s.playPass js d h i p).bind fun t => t.playAll js d h (p.next i) rest

/-- The last look, and the goal. -/
def Loop.finish (m : Mission) (s : Loop) (ending : Ending) : Loop where
  result := Explore.finish m s.result ending
  deeds := s.deeds
  flagged := s.flagged ++
    (newCandidates s.result.candidates.length (Explore.finish m s.result ending)).map fun c =>
      (c, s.deeds)

def explore (js : Js) (m : Mission) (d : LoopDeps) (h : Harness) (map : List ScreenEntry)
    (passes : List (Option Pass)) (ending : Option Ending) : Option Loop :=
  (Loop.playAll js d h 1 ⟨⟨map, [], [], []⟩, [], []⟩ passes).map fun s =>
    ending.elim s (s.finish m)

/-! ## A loop is a mission -/

/-- The passes as rounds of a mission. -/
def roundsOf (h : Harness) : Nat → List (Option Pass) → List Round
  | _, [] => []
  | i, none :: rest => if h.maxSteps < i then [] else roundsOf h (i + 1) rest
  | i, some p :: rest =>
      if h.maxSteps < i then []
      else ⟨i, p.look, (p.deeds h i).flatMap Deed.events, p.kept⟩ :: roundsOf h (p.next i) rest

section Refinement

variable {js : Js} {d : LoopDeps} {h : Harness} {i : Nat} {place : ScreenEntry}

theorem result_performAll {s t : Loop} {xs : List Deed}
    (hrun : s.performAll js d i place xs = some t) :
    t.result = (xs.flatMap Deed.events).foldl (happen js d i place) s.result := by
  induction xs generalizing s with
  | nil =>
      obtain rfl := Option.some.inj hrun
      rfl
  | cons x rest ih =>
      obtain ⟨u, hperform, hrest⟩ := Option.bind_eq_some_iff.mp hrun
      rw [Loop.perform] at hperform
      split at hperform
      · cases hperform
      · obtain rfl := Option.some.inj hperform
        rw [ih hrest, List.flatMap_cons, List.foldl_append]

theorem result_playPass {s t : Loop} {p : Pass} (hrun : s.playPass js d h i p = some t) :
    t.result =
      playRound js d s.result ⟨i, p.look, (p.deeds h i).flatMap Deed.events, p.kept⟩ := by
  obtain ⟨u, hperform, rfl⟩ := Option.map_eq_some_iff.mp hrun
  have hresult := result_performAll hperform
  simp only [playRound, ← hresult]
  cases p.kept <;> rfl

theorem result_playAll {s t : Loop} {passes : List (Option Pass)}
    (hrun : s.playAll js d h i passes = some t) :
    t.result = (roundsOf h i passes).foldl (playRound js d) s.result := by
  induction passes generalizing i s with
  | nil =>
      obtain rfl := Option.some.inj hrun
      rfl
  | cons p rest ih =>
      by_cases hmax : h.maxSteps < i
      · cases p <;> simp only [Loop.playAll, roundsOf, if_pos hmax] at hrun ⊢ <;> cases hrun <;> rfl
      · cases p with
        | none =>
            rw [Loop.playAll, if_neg hmax] at hrun
            rw [roundsOf, if_neg hmax]
            exact ih hrun
        | some p =>
            rw [Loop.playAll, if_neg hmax] at hrun
            obtain ⟨u, hpass, hrest⟩ := Option.bind_eq_some_iff.mp hrun
            rw [roundsOf, if_neg hmax, List.foldl_cons, ← result_playPass hpass]
            exact ih hrest

/-- What the loop returns is what the mission of its rounds leaves. -/
theorem result_explore {m : Mission} {map : List ScreenEntry} {passes : List (Option Pass)}
    {ending : Option Ending} {s : Loop} (hrun : explore js m d h map passes ending = some s) :
    s.result = runMission js m d map (roundsOf h 1 passes) ending := by
  obtain ⟨t, hplay, rfl⟩ := Option.map_eq_some_iff.mp hrun
  have hresult := result_playAll hplay
  cases ending with
  | none => exact hresult
  | some ending =>
      rw [runMission, ← hresult]
      rfl

end Refinement

/-! ## What a replay does -/

section Calls

variable {calls : List (Op × Bool)} {returns : List Bool}

theorem makeCalls_prefix : (makeCalls returns calls).1 <+: calls.map Prod.fst := by
  induction calls generalizing returns with
  | nil => exact List.prefix_rfl
  | cons call rest ih =>
      rw [makeCalls, List.map_cons]
      split
      · exact List.cons_prefix_cons.mpr ⟨rfl, List.nil_prefix⟩
      · exact List.cons_prefix_cons.mpr ⟨rfl, ih⟩

theorem makeCalls_whole (hall : (makeCalls returns calls).2 = true) :
    (makeCalls returns calls).1 = calls.map Prod.fst := by
  induction calls generalizing returns with
  | nil => rfl
  | cons call rest ih =>
      rw [makeCalls] at hall ⊢
      split at hall
      · cases hall
      · next hgoes => rw [if_neg hgoes, List.map_cons, ih hall]

/-- Where no call throws, all are made. -/
theorem makeCalls_nil (calls : List (Op × Bool)) : (makeCalls [] calls).2 = true := by
  induction calls with
  | nil => rfl
  | cons call rest ih => exact ih

end Calls

/-- What it takes to repeat an entry. -/
def Executed.ops (h : Harness) (e : Executed) : List Op :=
  (e.calls h.appId h.launchArgs).map Prod.fst

/-- A replay tells the device what it was told before: all of it where every call returns, and
nothing else. -/
structure Reproduces (h : Harness) (executed : List Executed) (upTo : Nat) (told : List Op) :
    Prop where
  nothingElse : ∀ returns, (replayThrough h.appId h.launchArgs executed upTo returns).1 <+: told
  allOfIt : ∀ returns, (replayThrough h.appId h.launchArgs executed upTo returns).2 = true →
    (replayThrough h.appId h.launchArgs executed upTo returns).1 = told

theorem reproduces_iff {h : Harness} {executed : List Executed} {upTo : Nat} {told : List Op} :
    Reproduces h executed upTo told ↔ (executed.take upTo).flatMap (Executed.ops h) = told := by
  have hops : ((executed.take upTo).flatMap (Executed.calls h.appId h.launchArgs)).map Prod.fst =
      (executed.take upTo).flatMap (Executed.ops h) := List.map_flatMap
  constructor
  · intro hrep
    rw [← hrep.allOfIt [] (makeCalls_nil _), ← hops]
    exact (makeCalls_whole (makeCalls_nil _)).symm
  · rintro rfl
    constructor
    · intro returns
      rw [← hops]
      exact makeCalls_prefix
    · intro returns hall
      rw [← hops]
      exact makeCalls_whole hall

/-! ## What is on the record -/

namespace Deed

/-- What a replay makes of what was written down of a deed. -/
def repeated (h : Harness) (x : Deed) : List Op :=
  match x with
  | .recovers r => if r.helped then [] else [.launch h.appId h.launchArgs]
  | .acts a _ returns => if returns then [.act a] else []
  | x => x.ops h

theorem repeated_of_recorded {h : Harness} {x : Deed} (hx : x.Recorded) :
    x.repeated h = x.ops h := by
  cases x with
  | recovers r => exact absurd hx id
  | acts a settleMs returns => exact if_pos hx
  | _ => rfl

theorem length_repeated_le (h : Harness) (x : Deed) :
    (x.repeated h).length ≤ (x.ops h).length := by
  cases x with
  | recovers r => exact Nat.le_succ _
  | acts a settleMs returns => cases returns <;> simp [repeated, ops]
  | _ => exact Nat.le_refl _

theorem length_repeated_lt {h : Harness} {x : Deed} (hx : ¬x.Recorded) :
    (x.repeated h).length < (x.ops h).length := by
  cases x with
  | recovers r => exact Nat.lt_succ_self _
  | acts a settleMs returns =>
      have hthrew : returns = false := Bool.eq_false_iff.mpr hx
      subst hthrew
      exact Nat.one_pos
  | _ => exact absurd trivial hx

theorem length_flatMap_repeated_le (h : Harness) (xs : List Deed) :
    (xs.flatMap (repeated h)).length ≤ (xs.flatMap (ops h)).length := by
  induction xs with
  | nil => exact Nat.le_refl 0
  | cons x rest ih =>
      rw [List.flatMap_cons, List.flatMap_cons, List.length_append, List.length_append]
      exact Nat.add_le_add (x.length_repeated_le h) ih

/-- The record is whole exactly when every deed is on it. -/
theorem flatMap_repeated_eq_iff (h : Harness) (xs : List Deed) :
    xs.flatMap (repeated h) = xs.flatMap (ops h) ↔ ∀ x ∈ xs, x.Recorded := by
  induction xs with
  | nil => simp
  | cons x rest ih =>
      rw [List.flatMap_cons, List.flatMap_cons, List.forall_mem_cons, ← ih]
      constructor
      · intro heq
        have hlen := congrArg List.length heq
        rw [List.length_append, List.length_append] at hlen
        have hrest := length_flatMap_repeated_le h rest
        have hx : x.Recorded := by
          by_contra hx
          have hlt := length_repeated_lt (h := h) hx
          omega
        rw [repeated_of_recorded hx] at heq
        exact ⟨hx, List.append_cancel_left heq⟩
      · rintro ⟨hx, hrest⟩
        rw [repeated_of_recorded hx, hrest]

end Deed

/-- Entries were executed, and candidates flagged before the first of them. -/
structure Extends (r t : MissionResult) (entries : List Executed) : Prop where
  executed : t.executed = r.executed ++ entries
  candidates : ∃ new, t.candidates = r.candidates ++ new ∧ ∀ c ∈ new, c.upTo = r.executed.length

theorem extends_self (r : MissionResult) : Extends r r [] :=
  ⟨(List.append_nil _).symm, [], (List.append_nil _).symm, by simp⟩

theorem extends_push (r : MissionResult) (i : Nat) (place : ScreenEntry) (c : Flag) :
    Extends r (r.push i place c) [] := by
  refine ⟨(List.append_nil _).symm, [_], rfl, ?_⟩
  intro c hc
  rw [List.mem_singleton.mp hc]

theorem Extends.trans {r t u : MissionResult} {entries : List Executed} (h : Extends r t [])
    (h' : Extends t u entries) : Extends r u entries := by
  have hsame : t.executed = r.executed := h.executed.trans (List.append_nil _)
  obtain ⟨new, hnew, hupTo⟩ := h.candidates
  obtain ⟨new', hnew', hupTo'⟩ := h'.candidates
  refine ⟨by rw [h'.executed, hsame], new ++ new', ?_, ?_⟩
  · rw [hnew', hnew, List.append_assoc]
  · intro c hc
    rcases List.mem_append.mp hc with hc | hc
    · exact hupTo c hc
    · rw [hupTo' c hc, hsame]

theorem extends_execute (r : MissionResult) (e : Executed) : Extends r (r.execute e) [e] :=
  ⟨rfl, [], (List.append_nil _).symm, by simp⟩

theorem extends_flag (d : LoopDeps) (i : Nat) (place : ScreenEntry) (r : MissionResult) (c : Flag) :
    Extends r (flag d i place r c) [] := by
  unfold flag
  split
  · exact extends_self r
  · split
    · exact extends_self r
    · exact extends_push r i place c

theorem extends_signatures (i : Nat) (place : ScreenEntry) (excerpt : String)
    (signatures : List String) (r : MissionResult) :
    Extends r (signatures.foldl (fun r sig => r.push i place (crashFlag i place excerpt sig)) r)
      [] := by
  induction signatures generalizing r with
  | nil => exact extends_self r
  | cons sig rest ih => exact (extends_push r i place _).trans (ih _)

theorem extends_map (r : MissionResult) (map : List ScreenEntry) :
    Extends r { r with map := map } [] :=
  ⟨(List.append_nil _).symm, [], (List.append_nil _).symm, by simp⟩

theorem extends_finish (m : Mission) (r : MissionResult) (ending : Ending) :
    Extends r (finish m r ending) [] := by
  simp only [finish]
  split
  · exact (extends_map r _).trans (extends_push _ _ _ _)
  · exact extends_map r _

/-- What a deed adds to the record. -/
def Deed.entries (i : Nat) : Deed → List Executed
  | .sees _ => []
  | .recovers r => if r.helped then [] else [.relaunch i]
  | .home _ => [.home i]
  | .acts a settleMs returns => if returns then [.action i a settleMs] else []
  | .crashes _ => [.relaunch i]

theorem ops_entries (h : Harness) (i : Nat) (x : Deed) :
    (x.entries i).flatMap (Executed.ops h) = x.repeated h := by
  cases x with
  | recovers r =>
      rw [Deed.entries, Deed.repeated]
      split <;> rfl
  | acts a settleMs returns => cases returns <;> rfl
  | _ => rfl

theorem extends_events (js : Js) (d : LoopDeps) (i : Nat) (place : ScreenEntry) (r : MissionResult)
    (x : Deed) : Extends r (x.events.foldl (happen js d i place) r) (x.entries i) := by
  cases x with
  | sees s => exact extends_flag d i place r _
  | recovers recovery =>
      rw [Deed.events, Deed.entries]
      split
      · exact extends_self r
      · exact extends_execute r _
  | home e => exact extends_execute r _
  | acts a settleMs returns =>
      cases returns with
      | false => exact extends_self r
      | true => exact extends_execute r _
  | crashes c => exact (extends_signatures i place c.excerpt c.signatures r).trans (extends_execute _ _)

/-- The record is what was written down of the deeds, up to every candidate. -/
structure Tracked (h : Harness) (s : Loop) : Prop where
  executed : s.result.executed.flatMap (Executed.ops h) = s.deeds.flatMap (Deed.repeated h)
  names : s.flagged.map Prod.fst = s.result.candidates
  upTo_le : ∀ p ∈ s.flagged, p.1.upTo ≤ s.result.executed.length
  flagged : ∀ p ∈ s.flagged, (s.result.executed.take p.1.upTo).flatMap (Executed.ops h) =
    p.2.flatMap (Deed.repeated h)

namespace Tracked

variable {js : Js} {d : LoopDeps} {h : Harness} {i : Nat} {place : ScreenEntry} {s t : Loop}

theorem extend (hs : Tracked h s) {r : MissionResult} {entries : List Executed} (deeds : List Deed)
    (hr : Extends s.result r entries)
    (hentries : entries.flatMap (Executed.ops h) = deeds.flatMap (Deed.repeated h)) :
    Tracked h ⟨r, s.deeds ++ deeds, s.flagged ++
      (newCandidates s.result.candidates.length r).map fun c => (c, s.deeds)⟩ := by
  obtain ⟨new, hnew, hupTo⟩ := hr.candidates
  have hdrop : newCandidates s.result.candidates.length r = new := by
    rw [newCandidates, hnew, List.drop_left]
  rw [hdrop]
  constructor
  · change r.executed.flatMap _ = _
    rw [hr.executed, List.flatMap_append, List.flatMap_append, hs.executed, hentries]
  · change List.map Prod.fst (s.flagged ++ new.map fun c => (c, s.deeds)) = r.candidates
    rw [List.map_append, hs.names, hnew, List.map_map]
    congr 1
    exact List.map_id new
  · intro p hp
    change p.1.upTo ≤ r.executed.length
    rw [hr.executed, List.length_append]
    apply Nat.le_add_right_of_le
    rcases List.mem_append.mp hp with hp | hp
    · exact hs.upTo_le p hp
    · obtain ⟨c, hc, rfl⟩ := List.mem_map.mp hp
      exact (hupTo c hc).le
  · intro p hp
    change (r.executed.take p.1.upTo).flatMap _ = _
    rw [hr.executed]
    rcases List.mem_append.mp hp with hp | hp
    · rw [List.take_append_of_le_length (hs.upTo_le p hp)]
      exact hs.flagged p hp
    · obtain ⟨c, hc, rfl⟩ := List.mem_map.mp hp
      rw [hupTo c hc, List.take_left]
      exact hs.executed

theorem perform (hs : Tracked h s) {x : Deed} (hrun : s.perform js d i place x = some t) :
    Tracked h t := by
  rw [Loop.perform] at hrun
  split at hrun
  · cases hrun
  · obtain rfl := Option.some.inj hrun
    apply hs.extend _ (extends_events js d i place s.result x)
    rw [ops_entries, List.flatMap_singleton]

theorem performAll (hs : Tracked h s) {xs : List Deed}
    (hrun : s.performAll js d i place xs = some t) : Tracked h t := by
  induction xs generalizing s with
  | nil =>
      obtain rfl := Option.some.inj hrun
      exact hs
  | cons x rest ih =>
      obtain ⟨u, hperform, hrest⟩ := Option.bind_eq_some_iff.mp hrun
      exact ih (hs.perform hperform) hrest

theorem playPass (hs : Tracked h s) {p : Pass} (hrun : s.playPass js d h i p = some t) :
    Tracked h t := by
  obtain ⟨u, hperform, rfl⟩ := Option.map_eq_some_iff.mp hrun
  have hplaced : Tracked h { s with result := { s.result with map := (identify s.result.map p.look).2 } } :=
    ⟨hs.executed, hs.names, hs.upTo_le, hs.flagged⟩
  have hu := hplaced.performAll hperform
  split
  · exact ⟨hu.executed, hu.names, hu.upTo_le, hu.flagged⟩
  · exact hu

theorem playAll (hs : Tracked h s) {passes : List (Option Pass)}
    (hrun : s.playAll js d h i passes = some t) : Tracked h t := by
  induction passes generalizing i s with
  | nil =>
      obtain rfl := Option.some.inj hrun
      exact hs
  | cons p rest ih =>
      cases p with
      | none =>
          rw [Loop.playAll] at hrun
          split at hrun
          · obtain rfl := Option.some.inj hrun
            exact hs
          · exact ih hs hrun
      | some p =>
          rw [Loop.playAll] at hrun
          split at hrun
          · obtain rfl := Option.some.inj hrun
            exact hs
          · obtain ⟨u, hpass, hrest⟩ := Option.bind_eq_some_iff.mp hrun
            exact ih (hs.playPass hpass) hrest

theorem finish (hs : Tracked h s) (m : Mission) (ending : Ending) : Tracked h (s.finish m ending) := by
  have hfinish := hs.extend [] (extends_finish m s.result ending) rfl
  rw [List.append_nil] at hfinish
  exact hfinish

theorem explore {m : Mission} {map : List ScreenEntry} {passes : List (Option Pass)}
    {ending : Option Ending} (hrun : explore js m d h map passes ending = some s) : Tracked h s := by
  obtain ⟨t, hplay, rfl⟩ := Option.map_eq_some_iff.mp hrun
  have hempty : Tracked h ⟨⟨map, [], [], []⟩, [], []⟩ := by constructor <;> simp
  have ht := hempty.playAll hplay
  cases ending with
  | none => exact ht
  | some ending => exact ht.finish m ending

end Tracked

/-- Every candidate of a mission is flagged with the deeds before it; its replay does again what the
mission did exactly when until then the app had not been left and every action had returned. -/
theorem replay_reproduces_iff (js : Js) (m : Mission) (d : LoopDeps) (h : Harness)
    (map : List ScreenEntry) (passes : List (Option Pass)) (ending : Option Ending) {s : Loop}
    (hrun : explore js m d h map passes ending = some s) :
    s.flagged.map Prod.fst = s.result.candidates ∧
      ∀ p ∈ s.flagged,
        Reproduces h s.result.executed p.1.upTo (p.2.flatMap (Deed.ops h)) ↔
          ∀ x ∈ p.2, x.Recorded := by
  have htracked := Tracked.explore hrun
  refine ⟨htracked.names, ?_⟩
  intro p hp
  rw [reproduces_iff, htracked.flagged p hp]
  exact Deed.flatMap_repeated_eq_iff h p.2

def phone : Harness where
  appId := "com.example.garden"
  launchArgs := []
  surface := .touch
  maxSteps := 40
  backgroundAt := none

/-- A tap on the button, after which the platform's log has a crash. -/
def crashingPass : Pass where
  look := (tapped crashSig).look
  checks := []
  left := none
  judged := []
  background := ⟨true, true⟩
  reply := .calls [] [.action (.tap 540 1200) (.tap 540 1200) true true]
    (some ⟨[crashSig], "10-02 am_crash", true⟩)

theorem replay_reproduces_crash : ∃ s,
    explore terse watering ⟨[], []⟩ phone [] [some crashingPass] none = some s ∧
      s.flagged.map Prod.fst = s.result.candidates ∧
      ∀ p ∈ s.flagged,
        Reproduces phone s.result.executed p.1.upTo (p.2.flatMap (Deed.ops phone)) ↔
          ∀ x ∈ p.2, x.Recorded :=
  ⟨_, rfl, replay_reproduces_iff terse watering ⟨[], []⟩ phone [] [some crashingPass] none rfl⟩

/-- Another app was in front, and back brought the app to the front again. -/
def leftPass : Pass := { crashingPass with left := some ⟨true, true, true⟩ }

/-- The press of back is not repeated. -/
theorem replay_differs : ¬∀ (js : Js) (m : Mission) (d : LoopDeps) (h : Harness)
    (map : List ScreenEntry) (passes : List (Option Pass)) (ending : Option Ending) (s : Loop),
    explore js m d h map passes ending = some s →
      ∀ p ∈ s.flagged, Reproduces h s.result.executed p.1.upTo (p.2.flatMap (Deed.ops h)) := by
  intro h
  have hrun : ∃ s, explore terse watering ⟨[], []⟩ phone [] [some leftPass, some crashingPass] none =
      some s ∧ ∃ p ∈ s.flagged, Deed.recovers ⟨true, true, true⟩ ∈ p.2 :=
    ⟨_, rfl, _, List.mem_singleton.mpr rfl, List.mem_cons_self⟩
  obtain ⟨s, hrun, p, hp, hleft⟩ := hrun
  have hrep := h _ _ _ _ _ _ _ s hrun p hp
  rw [reproduces_iff, (Tracked.explore hrun).flagged p hp, Deed.flatMap_repeated_eq_iff] at hrep
  exact hrep _ hleft

end FleetRunner.Explore
