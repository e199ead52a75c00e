import FleetRunner.Explore.Filing
import FleetRunner.Library.Blocks
import Mathlib.Algebra.Order.Ring.Unbundled.Rat

/-!
# The replay file of a finding (`replay.ts`, `replay-tvloop.ts`, `index.ts`)

Every finding ships with a file a person can run. On a Roku it is a tvloop flow,
if tvloop can play the actions; everywhere else, and otherwise, a Maestro flow.

## Implementation notes

A flow is the list of its entries. What both formats say is compared in one
vocabulary, `Instruction`, which leaves out where on the screen a gesture starts
and ends and how long a pause is.
-/

namespace FleetRunner.Explore

open Library

/-! ## Maestro -/

/-- The size of a screen. -/
structure Screen where
  w : Rat
  h : Rat

/-- One entry of a Maestro flow. -/
inductive MaestroCommand where
  | launchApp
  | pressKey (name : String)
  | tapOn (x y : Rat)
  | longPressOn (x y : Rat)
  | eraseText (n : Nat)
  | inputText (text : String)
  | swipe (startX startY endX endY duration : Rat)
  | hideKeyboard
  | waitForAnimationToEnd (timeout : Rat)

/-- A command, or a line starting with `#`. -/
inductive MaestroLine where
  | comment (text : String)
  | command (c : MaestroCommand)

/-- A flow for phones, as far as it is written. -/
structure MaestroFlow where
  appId : String
  name : String
  /-- the `launchApp` arguments, after `clearState` -/
  args : List (String × String)
  setupFlow : Option String
  lines : List MaestroLine

/-- The names of the keys, for those that have one. -/
def MAESTRO_KEYS : Key → Option String
  | .up => some "Remote Dpad Up"
  | .down => some "Remote Dpad Down"
  | .left => some "Remote Dpad Left"
  | .right => some "Remote Dpad Right"
  | .select => some "Remote Dpad Center"
  | .back => some "Back"
  | .home => some "Home"
  | .enter => some "Enter"
  | .play_pause => some "Remote Media Play Pause"
  | .rewind => some "Remote Media Rewind"
  | .fast_forward => some "Remote Media Fast Forward"
  | .menu => none
  | .search => none

/-- A place on the screen in per cent of it. -/
def pct (v size : Rat) : Rat := min 100 (max 0 (mathRound (v / max 1 size * 100)))

def tapAt (screen : Screen) (x y : Rat) : MaestroCommand := .tapOn (pct x screen.w) (pct y screen.h)

/-- From where to where a scroll swipes. -/
def scrollSwipe (direction : Direction) (f : Rat) : MaestroCommand :=
  match direction with
  | .down => .swipe (mathRound 50) (mathRound (50 + f)) (mathRound 50) (mathRound (50 - f)) 350
  | .up => .swipe (mathRound 50) (mathRound (50 - f)) (mathRound 50) (mathRound (50 + f)) 350
  | .right => .swipe (mathRound (50 + f)) (mathRound 50) (mathRound (50 - f)) (mathRound 50) 350
  | .left => .swipe (mathRound (50 - f)) (mathRound 50) (mathRound (50 + f)) (mathRound 50) 350

/-- The tap that focuses a field, where one was named. -/
def focusTap (screen : Screen) : Option Rat → Option Rat → List MaestroLine
  | some x, some y => [.command (tapAt screen x y)]
  | _, _ => []

/-- The lines of an action. -/
def maestroAction (screen : Screen) : Action → List MaestroLine
  | .tap x y => [.command (tapAt screen x y)]
  | .long_press x y _ => [.command (.longPressOn (pct x screen.w) (pct y screen.h))]
  | .type text x y overwrite enter =>
      focusTap screen x y ++
      (if overwrite then [.command (.eraseText 80)] else []) ++
      (if text ≠ "" then [.command (.inputText text)] else []) ++
      (if enter then [.command (.pressKey "Enter")] else [])
  | .swipe x1 y1 x2 y2 ms =>
      [.command (.swipe (pct x1 screen.w) (pct y1 screen.h) (pct x2 screen.w) (pct y2 screen.h)
        (mathRound (ms.getD 300)))]
  | .scroll direction factor =>
      [.command (scrollSwipe direction (min (9 / 10) (max (1 / 10) (factor.getD (1 / 2))) * 50))]
  | .key key =>
      match MAESTRO_KEYS key with
      | some name => [.command (.pressKey name)]
      | none => [.comment ("key " ++ key.text ++ " has no Maestro equivalent")]
  | .hide_keyboard => [.command .hideKeyboard]
  | .wait ms => [.command (.waitForAnimationToEnd (mathRound ms))]

def Action.isWait : Action → Bool
  | .wait _ => true
  | _ => false

/-- The lines of what was executed. -/
def maestroEntry (screen : Screen) : Executed → List MaestroLine
  | .relaunch _ => [.command .launchApp]
  | .home _ => [.command (.pressKey "Home"), .command .launchApp]
  | .action _ a settleMs =>
      maestroAction screen a ++
        if 0 < settleMs ∧ a.isWait = false then
          [.command (.waitForAnimationToEnd (max 500 (mathRound settleMs)))]
        else []

/-- The entries, with a comment wherever another step begins. -/
def maestroLines (screen : Screen) : Option Nat → List Executed → List MaestroLine
  | _, [] => []
  | lastStep, e :: es =>
      (if lastStep = some e.step then [] else [.comment ("step " ++ toString e.step)]) ++
        maestroEntry screen e ++ maestroLines screen (some e.step) es

/-- `/^([A-Za-z_][\w.]*)=(.*)$/` -/
def launchArg (arg : String) : Option (String × String) :=
  match arg.toList.span fun c => decide (c ≠ '=') with
  | (c :: name, _ :: value) =>
      if (c.isAlpha || c = '_') && name.all (fun d => d.isAlphanum || d = '_' || d = '.') &&
          value.all (fun d => !(d = '\n' || d = '\r' || d = '\u2028' || d = '\u2029')) then
        some (String.ofList (c :: name), String.ofList value)
      else none
  | _ => none

/-- What a flow is written from. -/
structure MaestroOptions where
  appId : String
  executed : List Executed
  upTo : Nat
  screen : Screen
  setupFlow : Option String
  launchArgs : List String
  title : String

/-- The flow of what was executed up to the place. -/
def toMaestro (opts : MaestroOptions) : MaestroFlow where
  appId := opts.appId
  name := opts.title
  args := opts.launchArgs.filterMap launchArg
  setupFlow := opts.setupFlow.filter fun f => decide (f ≠ "")
  lines := maestroLines opts.screen none (opts.executed.take opts.upTo)

/-! ## tvloop -/

/-- The keys of a television. -/
inductive TvloopKey where
  | up | down | left | right | select | back | home | playpause | rewind | forward | options
  | backspace | enter | search
  deriving DecidableEq

/-- The television's key for each key. -/
def TVLOOP_KEYS : Key → TvloopKey
  | .up => .up
  | .down => .down
  | .left => .left
  | .right => .right
  | .select => .select
  | .back => .back
  | .home => .home
  | .menu => .options
  | .play_pause => .playpause
  | .rewind => .rewind
  | .fast_forward => .forward
  | .enter => .enter
  | .search => .search

/-- One step of a tvloop flow. -/
inductive TvloopFlowStep where
  | launch (deeplink : List (String × String))
  | press (keys : List TvloopKey)
  | type (text : String)
  | wait (ms : Rat)
  | assertFocus (focus : String)
  | assertNoErrors

/-- A flow for televisions. -/
structure TvloopFlowDoc where
  name : String
  description : Option String
  steps : List TvloopFlowStep

/-- What such a flow is written with. -/
structure TvloopFlowOptions where
  name : String
  description : Option String := none
  /-- `none` for a flow without a launch -/
  launch : Option (List (String × String)) := some []
  launchSettleMs : Rat := 3000
  settleMs : Rat := 800
  noErrors : Bool := true
  focus : Option String := none

/-- `Math.max(0, Math.round(ms))` -/
def waitOf (ms : Rat) : TvloopFlowStep := .wait (max 0 (mathRound ms))

/-- The name of an action in an error. -/
def Action.kind : Action → String
  | .tap _ _ => "tap"
  | .long_press _ _ _ => "long_press"
  | .type _ _ _ _ _ => "type"
  | .swipe _ _ _ _ _ => "swipe"
  | .scroll _ _ => "scroll"
  | .key _ => "key"
  | .hide_keyboard => "hide_keyboard"
  | .wait _ => "wait"

/-- What one action becomes; a wait after it takes the place of the settle. -/
def tvloopAction (settle : TvloopFlowStep) (i : Nat) (a : Action) (nextIsWait : Bool) :
    Except String (List TvloopFlowStep) :=
  let settled := if nextIsWait then [] else [settle]
  match a with
  | .key key => .ok (.press [TVLOOP_KEYS key] :: settled)
  | .type text x y overwrite enter =>
      if x.isSome ∨ y.isSome then
        .error ("action " ++ toString (i + 1) ++
          " types at a screen position; a TV replay can only press keys")
      else
        .ok ((if overwrite then [.press (List.replicate 40 .backspace)] else []) ++
          (if text ≠ "" then [.type text] else []) ++
          (if enter then [.press [.enter]] else []) ++ settled)
  | .wait ms => .ok [waitOf ms]
  | a =>
      .error ("action " ++ toString (i + 1) ++ " is a " ++ a.kind ++
        "; a TV replay can only press keys, type and wait")

/-- The steps of these actions, or the first that has none. -/
def tvloopActions (settle : TvloopFlowStep) : Nat → List Action → Except String (List TvloopFlowStep)
  | _, [] => .ok []
  | i, a :: rest => do
      let steps ← tvloopAction settle i a (rest.head?.any Action.isWait)
      let more ← tvloopActions settle (i + 1) rest
      pure (steps ++ more)

/-- The flow of these actions. -/
def tvloopFlow (actions : List Action) (opts : TvloopFlowOptions) : Except String TvloopFlowDoc := do
  let steps ← tvloopActions (waitOf opts.settleMs) 0 actions
  pure {
    name := opts.name
    description := opts.description.filter fun d => decide (d ≠ "")
    steps := (opts.launch.elim [] fun params => [.launch params, waitOf opts.launchSettleMs]) ++
      steps ++ ((opts.focus.filter fun f => decide (f ≠ "")).elim [] fun f => [.assertFocus f]) ++
      if opts.noErrors then [.assertNoErrors] else [] }

/-! ## The file that is filed -/

/-- What is filed to replay a finding. -/
inductive ReplayFile where
  | maestro (flow : MaestroFlow)
  | tvloop (doc : TvloopFlowDoc)

/-- What `buildFinding` writes a replay of. -/
structure Replayed where
  platform : String
  app_id : String
  screen : Screen
  executed : List Executed
  title : String
  setup_flow : Option String
  launch_args : List String

def ReplayFile.kind : ReplayFile → ReplayKind
  | .maestro _ => .maestro
  | .tvloop _ => .tvloop

/-- The action, if it was one. -/
def Executed.action? : Executed → Option Action
  | .action _ a _ => some a
  | _ => none

/-- The flow for phones of what was played. -/
def Replayed.maestroFile (r : Replayed) (upTo : Nat) : ReplayFile :=
  .maestro (toMaestro ⟨r.app_id, r.executed, upTo, r.screen, r.setup_flow, r.launch_args, r.title⟩)

/-- A tvloop flow refuses anything but keys, typing and waits, and gets the Maestro file instead. -/
def Replayed.file (r : Replayed) (upTo : Nat) : ReplayFile :=
  if r.platform = "roku" then
    let keys := (r.executed.take upTo).filterMap Executed.action?
    match tvloopFlow keys { name := jsSlice r.title 80 } with
    | .ok doc => .tvloop doc
    | .error _ => r.maestroFile upTo
  else r.maestroFile upTo

/-! ## What a file says -/

/-- What a line makes a device do. -/
inductive Instruction where
  | restart
  | press (key : Key)
  | tap
  | longPress
  | erase
  | input (text : String)
  | swipe
  | hideKeyboard
  | pause
  deriving DecidableEq

/-- Every key there is. -/
def ALL_KEYS : List Key :=
  [.up, .down, .left, .right, .select, .back, .home, .menu, .play_pause, .rewind, .fast_forward,
    .enter, .search]

/-- What a command makes a phone do. -/
def MaestroCommand.tells : MaestroCommand → List Instruction
  | .launchApp => [.restart]
  | .pressKey name => ((ALL_KEYS.find? fun k => decide (MAESTRO_KEYS k = some name)).map .press).toList
  | .tapOn _ _ => [.tap]
  | .longPressOn _ _ => [.longPress]
  | .eraseText _ => [.erase]
  | .inputText text => [.input text]
  | .swipe _ _ _ _ _ => [.swipe]
  | .hideKeyboard => [.hideKeyboard]
  | .waitForAnimationToEnd _ => [.pause]

def MaestroLine.tells : MaestroLine → List Instruction
  | .comment _ => []
  | .command c => c.tells

/-- A row of backspaces erases. -/
def pressed (keys : List TvloopKey) : List Instruction :=
  if keys ≠ [] ∧ keys.all (fun k => decide (k = .backspace)) = true then [.erase]
  else keys.filterMap fun k => (ALL_KEYS.find? fun key => decide (TVLOOP_KEYS key = k)).map .press

/-- What a step makes a television do. -/
def TvloopFlowStep.tells : TvloopFlowStep → List Instruction
  | .launch _ => [.restart]
  | .press keys => pressed keys
  | .type text => [.input text]
  | .wait _ => [.pause]
  | .assertFocus _ => []
  | .assertNoErrors => []

/-- The instructions after the launch, which in a tvloop flow is a step and the wait for the first
scene. -/
def ReplayFile.afterLaunch : ReplayFile → List Instruction
  | .maestro flow => flow.lines.flatMap MaestroLine.tells
  | .tvloop doc => (doc.steps.drop 2).flatMap TvloopFlowStep.tells

/-- What it takes to do an action again. -/
def Action.instructions : Action → List Instruction
  | .tap _ _ => [.tap]
  | .long_press _ _ _ => [.longPress]
  | .type text x y overwrite enter =>
      (if x.isSome ∧ y.isSome then [.tap] else []) ++ (if overwrite then [.erase] else []) ++
        (if text ≠ "" then [.input text] else []) ++ (if enter then [.press .enter] else [])
  | .swipe _ _ _ _ _ => [.swipe]
  | .scroll _ _ => [.swipe]
  | .key k => [.press k]
  | .hide_keyboard => [.hideKeyboard]
  | .wait _ => [.pause]

/-- What it takes to do an entry again. -/
def Executed.instructions : Executed → List Instruction
  | .relaunch _ => [.restart]
  | .home _ => [.press .home, .restart]
  | .action _ a _ => a.instructions

/-- A pause to let the screen settle may be anywhere. -/
def acts (s : Instruction) : Bool := decide (s ≠ .pause)

/-- A block repeats an entry when it does what the entry did, in order, and nothing else, and
pauses where the entry was a pause. -/
def Repeats (block : List Instruction) (e : Executed) : Prop :=
  block.filter acts = e.instructions.filter acts ∧ (.pause ∈ e.instructions → .pause ∈ block)

/-- Every one of the first `upTo` entries has its block in the file, in order. -/
def Complete (r : Replayed) (upTo : Nat) : Prop :=
  InBlocks Repeats (r.file upTo).afterLaunch (r.executed.take upTo)

/-! ## What each format says of an entry -/

theorem tells_pressKey {k : Key} {name : String} (h : MAESTRO_KEYS k = some name) :
    (MaestroCommand.pressKey name).tells = [.press k] := by
  cases k <;> cases h <;> rfl

theorem pressed_singleton (k : Key) : pressed [TVLOOP_KEYS k] = [.press k] := by
  cases k <;> rfl

/-- Maestro has no name for two of the keys. -/
def maestroPlays : Executed → Bool
  | .action _ (.key k) _ => (MAESTRO_KEYS k).isSome
  | _ => true

/-- What the lines of an entry make a phone do. -/
def maestroTells (screen : Screen) (e : Executed) : List Instruction :=
  (maestroEntry screen e).flatMap MaestroLine.tells

theorem tells_maestroLines (screen : Screen) (lastStep : Option Nat) (es : List Executed) :
    (maestroLines screen lastStep es).flatMap MaestroLine.tells =
      encode (fun e _ => maestroTells screen e) es := by
  induction es generalizing lastStep with
  | nil => rfl
  | cons e es ih =>
      rw [maestroLines, List.flatMap_append, List.flatMap_append, ih, encode, maestroTells]
      split <;> rfl

theorem tells_focusTap (screen : Screen) (x y : Option Rat) :
    (focusTap screen x y).flatMap MaestroLine.tells =
      if x.isSome = true ∧ y.isSome = true then [.tap] else [] := by
  cases x <;> cases y <;> rfl

theorem tells_maestroAction (screen : Screen) {a : Action}
    (h : ∀ k, a = .key k → (MAESTRO_KEYS k).isSome = true) :
    (maestroAction screen a).flatMap MaestroLine.tells = a.instructions := by
  cases a with
  | type text x y overwrite enter =>
      rw [maestroAction, Action.instructions, List.flatMap_append, List.flatMap_append,
        List.flatMap_append, tells_focusTap]
      congr 1
      · congr 1
        · congr 1
          cases overwrite <;> rfl
        · split <;> rfl
      · cases enter <;> rfl
  | scroll direction factor => cases direction <;> rfl
  | key k =>
      obtain ⟨name, hname⟩ := Option.isSome_iff_exists.mp (h k rfl)
      simp only [maestroAction, hname, List.flatMap_singleton, MaestroLine.tells]
      exact tells_pressKey hname
  | tap x y => rfl
  | long_press x y ms => rfl
  | swipe x1 y1 x2 y2 ms => rfl
  | hide_keyboard => rfl
  | wait ms => rfl

/-- A block that is what it takes, with pauses after it. -/
theorem repeats_append {e : Executed} {pauses : List Instruction} (h : ∀ s ∈ pauses, s = .pause) :
    Repeats (e.instructions ++ pauses) e := by
  refine ⟨?_, List.mem_append_left pauses⟩
  have hnone : pauses.filter acts = [] := by
    apply List.filter_eq_nil_iff.mpr
    intro s hs
    rw [h s hs]
    decide
  rw [List.filter_append, hnone, List.append_nil]

theorem repeats_self (e : Executed) : Repeats e.instructions e := ⟨rfl, id⟩

theorem maestro_repeats (screen : Screen) {e : Executed} (h : maestroPlays e = true) :
    Repeats (maestroTells screen e) e := by
  cases e with
  | relaunch i => exact repeats_self (.relaunch i)
  | home i => exact repeats_self (.home i)
  | action i a settleMs =>
      rw [maestroTells, maestroEntry, List.flatMap_append, tells_maestroAction screen]
      · refine repeats_append (e := .action i a settleMs) ?_
        intro s hs
        split at hs
        · simpa [MaestroLine.tells, MaestroCommand.tells] using hs
        · simp at hs
      · rintro k rfl
        exact h

theorem maestro_loses (screen : Screen) {e : Executed} (h : ¬maestroPlays e = true) :
    (maestroTells screen e).countP acts < e.instructions.countP acts := by
  cases e with
  | relaunch i => exact absurd rfl h
  | home i => exact absurd rfl h
  | action i a settleMs =>
      cases a with
      | key k =>
          have hnone : MAESTRO_KEYS k = none := by simpa [maestroPlays] using h
          have hzero : (maestroTells screen (.action i (.key k) settleMs)).countP acts = 0 := by
            simp only [maestroTells, maestroEntry, maestroAction, hnone]
            split <;> rfl
          rw [hzero]
          exact Nat.one_pos
      | _ => exact absurd rfl h

/-- What counts in a block is fixed by its entry. -/
theorem countP_of_repeats {block : List Instruction} {e : Executed} (h : Repeats block e) :
    block.countP acts = e.instructions.countP acts := by
  rw [List.countP_eq_length_filter, List.countP_eq_length_filter, h.1]

theorem maestro_complete_iff (screen : Screen) (es : List Executed) :
    InBlocks Repeats (encode (fun e _ => maestroTells screen e) es) es ↔
      ∀ e ∈ es, maestroPlays e = true := by
  apply inBlocks_encode_iff acts (fun e => e.instructions.countP acts)
  · intro block e h
    exact countP_of_repeats h
  · intro e _ h
    exact maestro_repeats screen h
  · intro e _ h
    exact maestro_loses screen h

/-! ## What tvloop says -/

def nextIsWait (rest : List Executed) : Bool := (rest.filterMap Executed.action?).head?.any Action.isWait

/-- The entries that are no actions never get to the flow. -/
def tvloopTells (e : Executed) (rest : List Executed) : List Instruction :=
  e.action?.elim [] fun a =>
    a.instructions ++ if a.isWait = true ∨ nextIsWait rest = true then [] else [.pause]

theorem tvloop_repeats {e : Executed} (rest : List Executed) (h : e.action?.isSome = true) :
    Repeats (tvloopTells e rest) e := by
  cases e with
  | relaunch i => cases h
  | home i => cases h
  | action i a settleMs =>
      refine repeats_append (e := .action i a settleMs) ?_
      intro s hs
      split at hs
      · cases hs
      · exact List.mem_singleton.mp hs

theorem tvloop_loses {e : Executed} (rest : List Executed) (h : ¬e.action?.isSome = true) :
    (tvloopTells e rest).countP acts < e.instructions.countP acts := by
  cases e with
  | relaunch i => exact Nat.one_pos
  | home i => exact Nat.two_pos
  | action i a settleMs => exact absurd rfl h

theorem tvloop_complete_iff (es : List Executed) :
    InBlocks Repeats (encode tvloopTells es) es ↔ ∀ e ∈ es, e.action?.isSome = true := by
  apply inBlocks_encode_iff acts (fun e => e.instructions.countP acts)
  · intro block e h
    exact countP_of_repeats h
  · intro e rest h
    exact tvloop_repeats rest h
  · intro e rest h
    exact tvloop_loses rest h

theorem tells_tvloopAction {settle : TvloopFlowStep} (hsettle : settle.tells = [.pause]) {i : Nat}
    {a : Action} {next : Bool} {steps : List TvloopFlowStep}
    (h : tvloopAction settle i a next = .ok steps) :
    steps.flatMap TvloopFlowStep.tells =
      a.instructions ++ if a.isWait = true ∨ next = true then [] else [.pause] := by
  cases a with
  | key k =>
      obtain rfl := Except.ok.inj h
      rw [List.flatMap_cons, TvloopFlowStep.tells, pressed_singleton]
      cases next <;> simp [Action.instructions, Action.isWait, hsettle]
  | type text x y overwrite enter =>
      rw [tvloopAction] at h
      split at h
      · cases h
      · rename_i hnone
        obtain rfl := Except.ok.inj h
        have hpoint : ¬(x.isSome = true ∧ y.isSome = true) := fun hboth => hnone (Or.inl hboth.1)
        rw [Action.instructions, if_neg hpoint, List.nil_append, List.flatMap_append,
          List.flatMap_append, List.flatMap_append]
        congr 1
        · congr 1
          · congr 1
            · cases overwrite <;> rfl
            · split <;> rfl
          · cases enter <;> rfl
        · cases next <;> simp [Action.isWait, hsettle]
  | wait ms =>
      obtain rfl := Except.ok.inj h
      rfl
  | _ => cases h

theorem tells_tvloopActions {settle : TvloopFlowStep} (hsettle : settle.tells = [.pause]) {i : Nat}
    {es : List Executed} {steps : List TvloopFlowStep}
    (h : tvloopActions settle i (es.filterMap Executed.action?) = .ok steps) :
    steps.flatMap TvloopFlowStep.tells = encode tvloopTells es := by
  induction es generalizing i steps with
  | nil =>
      obtain rfl := Except.ok.inj h
      rfl
  | cons e es ih =>
      cases e with
      | relaunch step => exact ih h
      | home step => exact ih h
      | action step a settleMs =>
          change tvloopActions settle i (a :: es.filterMap Executed.action?) = .ok steps at h
          rw [tvloopActions] at h
          obtain ⟨first, hfirst, h⟩ := bind_eq_ok h
          obtain ⟨more, hmore, h⟩ := bind_eq_ok h
          obtain rfl := Except.ok.inj h
          rw [List.flatMap_append, tells_tvloopAction hsettle hfirst, ih hmore]
          rfl

theorem tvloopAction_ok_iff (settle : TvloopFlowStep) (i step : Nat) (a : Action) (next : Bool)
    (settleMs : Nat) :
    (∃ steps, tvloopAction settle i a next = .ok steps) ↔
      tvloopPlays (.action step a settleMs) = true := by
  cases a with
  | key k => exact iff_of_true ⟨_, rfl⟩ rfl
  | type text x y overwrite enter =>
      rw [tvloopAction, tvloopPlays]
      cases x <;> cases y <;> simp
  | wait ms => exact iff_of_true ⟨_, rfl⟩ rfl
  | _ => exact iff_of_false (fun h => nomatch h) Bool.false_ne_true

theorem tvloopActions_ok_iff (settle : TvloopFlowStep) (i : Nat) (es : List Executed) :
    (∃ steps, tvloopActions settle i (es.filterMap Executed.action?) = .ok steps) ↔
      es.all tvloopPlays = true := by
  induction es generalizing i with
  | nil => exact iff_of_true ⟨[], rfl⟩ rfl
  | cons e es ih =>
      cases e with
      | relaunch step => exact ih i
      | home step => exact ih i
      | action step a settleMs =>
          rw [List.all_cons, Bool.and_eq_true, ← ih (i + 1)]
          change (∃ steps, tvloopActions settle i (a :: es.filterMap Executed.action?) = .ok steps) ↔ _
          constructor
          · rintro ⟨steps, h⟩
            rw [tvloopActions] at h
            obtain ⟨first, hfirst, h⟩ := bind_eq_ok h
            obtain ⟨more, hmore, -⟩ := bind_eq_ok h
            exact ⟨(tvloopAction_ok_iff settle i step a _ settleMs).mp ⟨first, hfirst⟩, more, hmore⟩
          · rintro ⟨hplays, more, hmore⟩
            obtain ⟨first, hfirst⟩ := (tvloopAction_ok_iff settle i step a
              ((es.filterMap Executed.action?).head?.any Action.isWait) settleMs).mpr hplays
            refine ⟨first ++ more, ?_⟩
            rw [tvloopActions, hfirst, hmore]
            rfl

/-! ## The file that is filed -/

section File

variable (r : Replayed) (upTo : Nat)

/-- The flow that buildFinding asks for: a launch, the steps, and that no error was logged. -/
theorem tvloopFlow_ok {keys : List Action} {name : String} {doc : TvloopFlowDoc}
    (h : tvloopFlow keys { name := name } = .ok doc) : ∃ steps,
      tvloopActions (waitOf 800) 0 keys = .ok steps ∧
        doc.steps = .launch [] :: waitOf 3000 :: (steps ++ [.assertNoErrors]) := by
  obtain ⟨steps, hsteps, h⟩ := bind_eq_ok h
  obtain rfl := Except.ok.inj h
  exact ⟨steps, hsteps, by simp⟩

theorem afterLaunch_tvloop {es : List Executed} {name : String} {doc : TvloopFlowDoc}
    (h : tvloopFlow (es.filterMap Executed.action?) { name := name } = .ok doc) :
    (ReplayFile.tvloop doc).afterLaunch = encode tvloopTells es := by
  obtain ⟨steps, hsteps, hdoc⟩ := tvloopFlow_ok h
  rw [ReplayFile.afterLaunch, hdoc, List.drop_succ_cons, List.drop_succ_cons, List.drop_zero,
    List.flatMap_append, tells_tvloopActions rfl hsteps]
  exact List.append_nil _

theorem afterLaunch_maestro :
    (r.maestroFile upTo).afterLaunch =
      encode (fun e _ => maestroTells r.screen e) (r.executed.take upTo) :=
  tells_maestroLines r.screen none (r.executed.take upTo)

/-- A Roku gets a tvloop flow where tvloop can play every action. -/
theorem file_of_plays (h : r.platform = "roku" ∧ (r.executed.take upTo).all tvloopPlays = true) :
    ∃ doc, r.file upTo = .tvloop doc ∧
      tvloopFlow ((r.executed.take upTo).filterMap Executed.action?)
        { name := jsSlice r.title 80 } = .ok doc := by
  obtain ⟨steps, hsteps⟩ := (tvloopActions_ok_iff (waitOf 800) 0 _).mpr h.2
  rw [Replayed.file, if_pos h.1]
  simp [tvloopFlow, hsteps]

theorem file_of_not_plays
    (h : ¬(r.platform = "roku" ∧ (r.executed.take upTo).all tvloopPlays = true)) :
    r.file upTo = r.maestroFile upTo := by
  rw [Replayed.file]
  by_cases hroku : r.platform = "roku"
  · rw [if_pos hroku]
    dsimp only
    split
    · rename_i doc hdoc
      obtain ⟨steps, hsteps, -⟩ := tvloopFlow_ok hdoc
      exact absurd ⟨hroku, (tvloopActions_ok_iff _ 0 _).mp ⟨steps, hsteps⟩⟩ h
    · rfl
  · rw [if_neg hroku]

theorem afterLaunch_file : (r.file upTo).afterLaunch =
    if r.platform = "roku" ∧ (r.executed.take upTo).all tvloopPlays = true then
      encode tvloopTells (r.executed.take upTo)
    else encode (fun e _ => maestroTells r.screen e) (r.executed.take upTo) := by
  split
  · next h =>
      obtain ⟨doc, hfile, hdoc⟩ := file_of_plays r upTo h
      rw [hfile, afterLaunch_tvloop hdoc]
  · next h => rw [file_of_not_plays r upTo h, afterLaunch_maestro]

/-- The finding names the format of the file. -/
theorem kind_file (o : Context) (c : Confirmed) (result : MissionResult)
    (hplatform : r.platform = o.platform) (hexecuted : r.executed = result.executed) :
    (r.file c.upTo).kind = replayKind o c result := by
  rw [replayKind, ← hplatform, ← hexecuted]
  split
  · next h =>
      obtain ⟨doc, hfile, -⟩ := file_of_plays r c.upTo h
      rw [hfile]
      rfl
  · next h =>
      rw [file_of_not_plays r c.upTo h]
      rfl

/-- The filed replay omits no step exactly when nothing but actions leads up to the finding, where a
tvloop flow is filed, and where a Maestro flow is, when no key is among them that Maestro has no
name for. -/
theorem replay_complete_iff : Complete r upTo ↔
    if r.platform = "roku" ∧ (r.executed.take upTo).all tvloopPlays = true then
      ∀ e ∈ r.executed.take upTo, e.action?.isSome = true
    else ∀ e ∈ r.executed.take upTo, maestroPlays e = true := by
  rw [Complete, afterLaunch_file]
  split
  · exact tvloop_complete_iff _
  · exact maestro_complete_iff r.screen _

end File

/-- On a Roku, the app was restarted after a crash, and a key pressed after that. -/
def afterCrash : Replayed where
  platform := "roku"
  app_id := "dev"
  screen := ⟨1920, 1080⟩
  executed := [.relaunch 1, .action 2 (.key .down) 450]
  title := "The list is blank"
  setup_flow := none
  launch_args := []

/-- The restart is not in the flow. -/
theorem replay_incomplete : ¬∀ (r : Replayed) (upTo : Nat), Complete r upTo := by
  intro h
  have hcount := (h afterCrash 2).countP_eq fun block e hblock => countP_of_repeats hblock
  rw [afterLaunch_file] at hcount
  revert hcount
  decide

end FleetRunner.Explore
