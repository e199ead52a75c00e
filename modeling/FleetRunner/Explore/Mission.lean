import FleetRunner.Explore.Report

/-!
# A mission and what it leaves behind (`loop.ts`)

In each step the harness looks, places the screen on the map, checks it, asks
the model and carries out its calls. What a check sees and what the model
reports become candidates, which know the screen they were raised on and how
much had been executed by then.

## Implementation notes

A round is one pass of the loop that got a look. What its checks saw, which of
the model's calls were carried out and what the platform's logs said come with
it, in any order: a run of the source is a run here. A round that goes back to
the top of the loop early keeps no step.
-/

namespace FleetRunner.Explore

structure Mission where
  id : String
  title : String
  success : Option String

structure LoopDeps where
  disabledChecks : List String
  disabledVisual : List String

/-- A candidate before it is placed. -/
structure Flag where
  /-- `none` where the source reads a check that is not there -/
  check : Option CheckName
  severity : Severity
  title : String
  detail : String
  visualClass : Option VisualClass := none
  logExcerpt : Option String := none

/-- A candidate finding: something a check saw, not yet replayed. -/
structure Candidate extends Flag where
  step : Nat
  screen : ScreenEntry
  /-- how many executed entries lead up to it -/
  upTo : Nat

/-! ## What raises a candidate -/

/-- `ISSUE_TO_CHECK[kind] ?? ISSUE_TO_CHECK.other`; a name every object inherits is found, and
has neither. -/
def issueToCheck (js : Js) (kind : String) : Option CheckName × Option VisualClass :=
  if kind = "visual" then (some .visual, none)
  else if kind = "dead_control" then (some .dead_control, none)
  else if kind = "wrong_result" then (some .goal, none)
  else if kind = "error_message" then (some .visual, some .raw_error)
  else if kind = "language" then (some .visual, some .untranslated)
  else if kind = "other" then (some .visual, none)
  else if (js.inherited kind).isSome then (none, none)
  else (some .visual, none)

/-- What a check saw, or the model reported. -/
inductive Sighting where
  | dead_control (label : String)
  | frozen
  | blank (stddev : Rat)
  | a11y (detail : String) (size : Bool)
  | visual (issue : VisualIssue)
  | issue (kind description : String)

def flagOf (js : Js) (place : ScreenEntry) : Sighting → Flag
  | .dead_control label => {
      check := some .dead_control, severity := .medium
      title := "\"" ++ label ++ "\" does nothing when tapped"
      detail := "Tapping \"" ++ label ++ "\" on " ++ place.name ++
        " left the screen unchanged, twice." }
  | .frozen => {
      check := some .frozen, severity := .high
      title := place.name ++ " stops responding"
      detail := "The screen stayed identical for four steps of input on " ++ place.name ++ "." }
  | .blank stddev => {
      check := some .blank, severity := .high
      title := "Blank screen after reaching " ++ place.name
      detail := "The app is in front and the screen is one flat colour (luminance spread " ++
        js.showNum stddev ++ ")." }
  | .a11y detail size => {
      check := some .a11y, severity := .low
      title := (if size then "Touch target too small on " else "Unlabelled control on ") ++ place.name
      detail := detail }
  | .visual issue => {
      check := some .visual
      severity := if issue.cls = .raw_error then .high else .medium
      title := String.ofList (replaceFirst '_' ' ' issue.cls.text.toList) ++ " on " ++ place.name
      detail := issue.description ++ (if issue.where_ = "" then "" else " (" ++ issue.where_ ++ ")")
      visualClass := some issue.cls }
  | .issue kind description => {
      check := (issueToCheck js kind).1, severity := .medium
      title := jsSlice description 80
      detail := description
      visualClass := (issueToCheck js kind).2 }

def crashFlag (i : Nat) (place : ScreenEntry) (excerpt sig : String) : Flag :=
  let anr := "ANR".toList.isPrefixOf sig.toList
  { check := some (if anr then .anr else .crash), severity := .high
    title := if anr then "App not responding after an action on " ++ place.name
      else "Crash: " ++ jsSlice sig 100
    detail := sig ++ " (after step " ++ toString i ++ " on " ++ place.name ++ ")"
    logExcerpt := some excerpt }

def goalFlag (m : Mission) (success reason : String) : Flag where
  check := some .goal
  severity := .medium
  title := "\"" ++ m.title ++ "\" did not hold"
  detail := success ++ " — but: " ++ reason

/-! ## The run -/

/-- What a mission has left so far, and the map. -/
structure MissionResult where
  map : List ScreenEntry
  steps : List TrajectoryStep
  executed : List Executed
  candidates : List Candidate

namespace MissionResult

def push (r : MissionResult) (i : Nat) (place : ScreenEntry) (c : Flag) : MissionResult :=
  { r with candidates :=
      r.candidates ++ [{ c with step := i, screen := place, upTo := r.executed.length }] }

def execute (r : MissionResult) (e : Executed) : MissionResult :=
  { r with executed := r.executed ++ [e] }

end MissionResult

/-- Raise a candidate, unless the owner's verdicts switched it off. -/
def flag (d : LoopDeps) (i : Nat) (place : ScreenEntry) (r : MissionResult) (c : Flag) :
    MissionResult :=
  if c.check.any fun k => d.disabledChecks.contains k.text then r
  else if c.check = some .visual ∧
      c.visualClass.any (fun v => d.disabledVisual.contains v.text) = true then r
  else r.push i place c

/-- What happens in a round after the look. -/
inductive Event where
  | sees (s : Sighting)
  | act (action : Action) (settleMs : Nat)
  | home
  | relaunch
  | crashes (signatures : List String) (excerpt : String)

def happen (js : Js) (d : LoopDeps) (i : Nat) (place : ScreenEntry) (r : MissionResult) :
    Event → MissionResult
  | .sees s => flag d i place r (flagOf js place s)
  | .act action settleMs => r.execute (.action i action settleMs)
  | .home => r.execute (.home i)
  | .relaunch => r.execute (.relaunch i)
  | .crashes signatures excerpt =>
      (signatures.foldl (fun r sig => r.push i place (crashFlag i place excerpt sig)) r).execute
        (.relaunch i)

structure Round where
  i : Nat
  look : Look
  events : List Event
  /-- the model's calls, when the step is kept -/
  kept : Option (List ToolCall)

def playRound (js : Js) (d : LoopDeps) (r : MissionResult) (round : Round) : MissionResult :=
  let placed := identify r.map round.look
  let r := round.events.foldl (happen js d round.i placed.1) { r with map := placed.2 }
  match round.kept with
  | some calls => { r with steps := r.steps ++ [⟨round.i, placed.1.id, calls⟩] }
  | none => r

/-- The last look, and why the judge says the goal was not met, if it was asked and does. -/
structure Ending where
  look : Look
  i : Nat
  unmet : Option String

def finish (m : Mission) (r : MissionResult) (ending : Ending) : MissionResult :=
  let placed := identify r.map ending.look
  let r := { r with map := placed.2 }
  match m.success.filter (fun s => decide (s ≠ "")), ending.unmet with
  | some success, some reason => r.push ending.i placed.1 (goalFlag m success reason)
  | _, _ => r

def runMission (js : Js) (m : Mission) (d : LoopDeps) (map : List ScreenEntry)
    (rounds : List Round) (ending : Option Ending) : MissionResult :=
  let r := rounds.foldl (playRound js d) ⟨map, [], [], []⟩
  ending.elim r (finish m r)

/-! ## What the candidates are called -/

/-- A title that is blank only when it is blank to begin with. -/
def Titled (title : String) : Prop :=
  jsLength title ≤ 200 ∨ ∃ c rest, title.toList = c :: rest ∧ isJsSpace c = false

theorem Titled.isBlank_jsSlice {title : String} (h : Titled title) :
    isBlank (jsSlice title 200) = isBlank title := by
  rcases h with h | ⟨c, rest, htitle, hc⟩
  · rw [jsSlice_of_le h]
  · have hfits := charUnits_le c
    have hslice : (jsSlice title 200).toList = c :: takeUnits rest (200 - charUnits c) := by
      rw [jsSlice, String.toList_ofList, htitle, takeUnits, if_pos (by omega)]
    simp [isBlank, hslice, htitle, hc]

theorem titled_of_head {s : String} (t : String)
    (hs : (s.toList.head?.any fun c => !isJsSpace c) = true) : Titled (s ++ t) := by
  cases hlist : s.toList with
  | nil => simp [hlist] at hs
  | cons c rest =>
      refine Or.inr ⟨c, rest ++ t.toList, by simp [hlist], ?_⟩
      simpa [hlist] using hs

theorem titled_flagOf (js : Js) (place : ScreenEntry) (s : Sighting) :
    Titled (flagOf js place s).title := by
  have hname := place.name_length
  cases s with
  | dead_control label =>
      simp only [flagOf, String.append_assoc]
      exact titled_of_head _ (by decide)
  | frozen =>
      refine Or.inl ?_
      have hstops : jsLength " stops responding" = 17 := by decide
      simp only [flagOf, jsLength_append]
      omega
  | blank stddev => exact titled_of_head place.name (by decide)
  | a11y detail size =>
      cases size with
      | true => exact titled_of_head (s := "Touch target too small on ") place.name (by decide)
      | false => exact titled_of_head (s := "Unlabelled control on ") place.name (by decide)
  | visual issue =>
      refine Or.inl ?_
      have hcls : ∀ v : VisualClass,
          jsLength (String.ofList (replaceFirst '_' ' ' v.text.toList)) ≤ 13 := by
        intro v
        cases v <;> decide
      have hclass := hcls issue.cls
      have hon : jsLength " on " = 4 := by decide
      simp only [flagOf, jsLength_append]
      omega
  | issue kind description => exact Or.inl ((jsLength_jsSlice_le description 80).trans (by omega))

theorem titled_crashFlag (i : Nat) (place : ScreenEntry) (excerpt sig : String) :
    Titled (crashFlag i place excerpt sig).title := by
  simp only [crashFlag]
  split
  · exact titled_of_head place.name (by decide)
  · exact titled_of_head (jsSlice sig 100) (by decide)

theorem titled_goalFlag (m : Mission) (success reason : String) :
    Titled (goalFlag m success reason).title := by
  simp only [goalFlag, String.append_assoc]
  exact titled_of_head _ (by decide)

/-- Every candidate is titled, and every step is on a screen with an id from the map. -/
structure Tidy (r : MissionResult) : Prop where
  titled : ∀ c ∈ r.candidates, Titled c.title
  placed : ∀ st ∈ r.steps, jsLength st.screen = 10

namespace Tidy

variable {js : Js} {r : MissionResult}

theorem push (h : Tidy r) (i : Nat) (place : ScreenEntry) {c : Flag} (hc : Titled c.title) :
    Tidy (r.push i place c) := by
  refine ⟨fun q hq => ?_, h.placed⟩
  rcases List.mem_append.mp hq with hq | hq
  · exact h.titled q hq
  · obtain rfl := List.mem_singleton.mp hq
    exact hc

theorem flag (h : Tidy r) (d : LoopDeps) (i : Nat) (place : ScreenEntry) {c : Flag}
    (hc : Titled c.title) : Tidy (flag d i place r c) := by
  unfold Explore.flag
  split
  · exact h
  · split
    · exact h
    · exact h.push i place hc

theorem happen (h : Tidy r) (d : LoopDeps) (i : Nat) (place : ScreenEntry) (e : Event) :
    Tidy (happen js d i place r e) := by
  cases e with
  | sees s => exact h.flag d i place (titled_flagOf js place s)
  | act action settleMs => exact ⟨h.titled, h.placed⟩
  | home => exact ⟨h.titled, h.placed⟩
  | relaunch => exact ⟨h.titled, h.placed⟩
  | crashes signatures excerpt =>
      have hall : Tidy (signatures.foldl
          (fun r sig => r.push i place (crashFlag i place excerpt sig)) r) := by
        induction signatures generalizing r with
        | nil => exact h
        | cons sig rest ih => exact ih (h.push i place (titled_crashFlag i place excerpt sig))
      exact ⟨hall.titled, hall.placed⟩

theorem events (h : Tidy r) (d : LoopDeps) (i : Nat) (place : ScreenEntry) (events : List Event) :
    Tidy (events.foldl (Explore.happen js d i place) r) := by
  induction events generalizing r with
  | nil => exact h
  | cons e rest ih => exact ih (h.happen d i place e)

theorem playRound (h : Tidy r) (d : LoopDeps) (round : Round) : Tidy (playRound js d r round) := by
  have hmap : Tidy { r with map := (identify r.map round.look).2 } := ⟨h.titled, h.placed⟩
  have hround : Tidy (round.events.foldl
      (Explore.happen js d round.i (identify r.map round.look).1)
      { r with map := (identify r.map round.look).2 }) := hmap.events d _ _ _
  simp only [Explore.playRound]
  split
  · refine ⟨hround.titled, fun st hst => ?_⟩
    rcases List.mem_append.mp hst with hst | hst
    · exact hround.placed st hst
    · obtain rfl := List.mem_singleton.mp hst
      exact (identify r.map round.look).1.id_length
  · exact hround

theorem finish (h : Tidy r) (m : Mission) (ending : Ending) : Tidy (finish m r ending) := by
  have hmap : Tidy { r with map := (identify r.map ending.look).2 } := ⟨h.titled, h.placed⟩
  simp only [Explore.finish]
  split
  · rename_i success reason _ _
    exact hmap.push ending.i _ (titled_goalFlag m success reason)
  · exact hmap

end Tidy

theorem tidy_runMission (js : Js) (m : Mission) (d : LoopDeps) (map : List ScreenEntry)
    (rounds : List Round) (ending : Option Ending) : Tidy (runMission js m d map rounds ending) := by
  have hrounds : ∀ (rounds : List Round) {r : MissionResult}, Tidy r →
      Tidy (rounds.foldl (playRound js d) r) := by
    intro rounds
    induction rounds with
    | nil => exact fun h => h
    | cons round rest ih => exact fun h => ih (h.playRound d round)
  have hempty : Tidy ⟨map, [], [], []⟩ := by constructor <;> simp
  cases ending with
  | none => exact hrounds rounds hempty
  | some ending => exact (hrounds rounds hempty).finish m ending

/-! ## Names of screens -/

/-- The names the report uses for the screens of a run. -/
def screenNames (r : MissionResult) (id : String) : Option String :=
  if r.steps.any fun st => decide (st.screen = id) then
    some (((byId r.map id).map ScreenEntry.name).getD id)
  else none

theorem Tidy.jsLength_name_le {r : MissionResult} (h : Tidy r) {st : TrajectoryStep}
    (hst : st ∈ r.steps) : jsLength ((screenNames r st.screen).getD st.screen) ≤ 40 := by
  have hid := h.placed st hst
  unfold screenNames
  split
  · cases byId r.map st.screen with
    | none => simpa using by omega
    | some s => exact s.name_length
  · simpa using by omega

end FleetRunner.Explore
