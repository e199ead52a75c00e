import FleetRunner.Explore.Types

/-!
# A finding's steps in words (`report.ts`)

A step of the report is a heading when the screen changes and a line for each
executed entry. How many there are, and how long each may get, is read off the
entries themselves.
-/

namespace FleetRunner.Explore

variable (js : Js)

def whatOf (element : Option String) : String :=
  match element with
  | some e => if e = "" then "" else " \"" ++ e ++ "\""
  | none => ""

def atPoint (x y : Rat) : String :=
  " at " ++ js.showNum (mathRound x) ++ "," ++ js.showNum (mathRound y)

/-- What an action was, in words a bug report can use. -/
def describeAction (a : Action) (element : Option String) : String :=
  let what := whatOf element
  match a with
  | .tap x y => "Tap" ++ (if what = "" then atPoint js x y else what)
  | .long_press x y _ => "Long-press" ++ (if what = "" then atPoint js x y else what)
  | .type text _ _ overwrite enter =>
      (if overwrite then "Replace the text with" else "Type") ++ " " ++ String.ofList (quoted text) ++
        (if enter then " and press Enter" else "")
  | .swipe .. => "Swipe"
  | .scroll direction _ => "Scroll " ++ direction.text
  | .key key => "Press " ++ String.ofList (replaceFirst '_' ' ' key.text.toList)
  | .hide_keyboard => "Hide the keyboard"
  | .wait ms => "Wait " ++ js.showNum (mathRound (ms / 1000)) ++ " s"

/-- The step of the trajectory an entry belongs to. -/
def stepOf (steps : List TrajectoryStep) (e : Executed) : Option TrajectoryStep :=
  steps.find? fun s => decide (s.i = e.step)

/-- What the model called the thing it acted on. -/
def elementOf (st : Option TrajectoryStep) : Option String :=
  (st.bind fun s => s.calls.find? fun c => ((c.args.get? "element").bind Json.asStr?).isSome).bind
    fun c => (c.args.get? "element").bind Json.asStr?

/-- Only what is done to a thing names it. -/
def namedElement (a : Action) (st : Option TrajectoryStep) : Option String :=
  match a with
  | .tap .. => elementOf st
  | .type .. => elementOf st
  | .long_press .. => elementOf st
  | _ => none

def lineOf (st : Option TrajectoryStep) : Executed → String
  | .relaunch _ => "  (the app was restarted)"
  | .home _ => "  Press Home, then reopen the app"
  | .action _ a _ => "  " ++ describeAction js a (namedElement a st)

def heading (screenNames : String → Option String) (screen : String) : String :=
  "On \"" ++ (screenNames screen).getD screen ++ "\":"

def wordsFrom (steps : List TrajectoryStep) (screenNames : String → Option String) :
    String → List Executed → List String
  | _, [] => []
  | lastScreen, e :: rest =>
      match stepOf steps e with
      | some st =>
          if st.screen ≠ lastScreen then
            heading screenNames st.screen :: lineOf js (some st) e ::
              wordsFrom steps screenNames st.screen rest
          else lineOf js (some st) e :: wordsFrom steps screenNames lastScreen rest
      | none => lineOf js none e :: wordsFrom steps screenNames lastScreen rest

/-- Steps a person would follow, up to `upTo` executed entries. -/
def stepsInWords (steps : List TrajectoryStep) (executed : List Executed) (upTo : Nat)
    (screenNames : String → Option String) : List String :=
  wordsFrom js steps screenNames "" (executed.take upTo)

/-! ## How many steps -/

/-- How often the screen changes along a list of screens. -/
def changes : String → List String → Nat
  | _, [] => 0
  | last, s :: rest => (if s ≠ last then 1 else 0) + changes s rest

/-- The screens of the entries that have a step. -/
def screensOf (steps : List TrajectoryStep) (es : List Executed) : List String :=
  es.filterMap fun e => (stepOf steps e).map TrajectoryStep.screen

theorem length_wordsFrom (steps : List TrajectoryStep) (screenNames : String → Option String)
    (last : String) (es : List Executed) :
    (wordsFrom js steps screenNames last es).length =
      es.length + changes last (screensOf steps es) := by
  induction es generalizing last with
  | nil => rfl
  | cons e rest ih =>
      cases hst : stepOf steps e with
      | none =>
          have hscreens : screensOf steps (e :: rest) = screensOf steps rest := by
            simp [screensOf, hst]
          simp only [wordsFrom, hst, List.length_cons, ih, hscreens]
          omega
      | some st =>
          have hscreens : screensOf steps (e :: rest) = st.screen :: screensOf steps rest := by
            simp [screensOf, hst]
          simp only [wordsFrom, hst, hscreens, changes, List.length_cons]
          by_cases hlast : st.screen = last
          · rw [if_neg (by simpa using hlast), if_neg (by simpa using hlast), List.length_cons, ih,
              hlast]
            omega
          · rw [if_pos hlast, if_pos hlast, List.length_cons, List.length_cons, ih]
            omega

/-! ## How long a step is -/

/-- What a line has to hold fits into it: the name of what was acted on, or the text typed. -/
def Fits (a : Action) (element : Option String) : Prop :=
  match a with
  | .tap .. => ∀ e, element = some e → jsLength e ≤ 492
  | .long_press .. => ∀ e, element = some e → jsLength e ≤ 485
  | .type text _ _ overwrite enter =>
      unitsOf (quoted text) + (if overwrite then 24 else 7) + (if enter then 16 else 0) ≤ 500
  | _ => True

/-- The engine prints a number in 25 characters at most. -/
def ShortNumbers : Prop := ∀ q, jsLength (js.showNum q) ≤ 25

variable {js}

theorem jsLength_atPoint_le (hnum : ShortNumbers js) (x y : Rat) :
    jsLength (atPoint js x y) ≤ 55 := by
  have hx := hnum (mathRound x)
  have hy := hnum (mathRound y)
  have hat : jsLength " at " = 4 := by decide
  have hcomma : jsLength "," = 1 := by decide
  simp only [atPoint, jsLength_append]
  omega

/-- A line that names a thing fits when the name does. -/
theorem named_fits_iff (hnum : ShortNumbers js) (x y : Rat) (element : Option String) {word : String}
    {k : Nat} (hword : jsLength word + k = 495) (hk : 485 ≤ k) :
    jsLength ("  " ++ (word ++ (if whatOf element = "" then atPoint js x y else whatOf element))) ≤
        LIMITS.step ↔ ∀ e, element = some e → jsLength e ≤ k := by
  have hlimit : LIMITS.step = 500 := rfl
  have hindent : jsLength "  " = 2 := by decide
  have hpoint := jsLength_atPoint_le hnum x y
  have hempty : jsLength "" = 0 := rfl
  have hopen : jsLength " \"" = 2 := by decide
  have hclose : jsLength "\"" = 1 := by decide
  simp only [jsLength_append]
  cases element with
  | none =>
      refine iff_of_true ?_ (by simp)
      simp only [whatOf, if_true]
      omega
  | some e =>
      by_cases he : e = ""
      · subst he
        refine iff_of_true ?_ ?_
        · simp only [whatOf, if_true]
          omega
        · intro e h
          obtain rfl := Option.some.inj h
          omega
      · have hwhat : whatOf (some e) ≠ "" := by
          intro h
          have hzero := congrArg jsLength h
          simp only [whatOf, if_neg he, jsLength_append] at hzero
          omega
        rw [if_neg hwhat]
        simp only [whatOf, if_neg he, jsLength_append, Option.some.injEq, forall_eq']
        omega

theorem line_fits_iff (hnum : ShortNumbers js) (a : Action) (element : Option String) :
    jsLength ("  " ++ describeAction js a element) ≤ LIMITS.step ↔ Fits a element := by
  have hlimit : LIMITS.step = 500 := rfl
  have hindent : jsLength "  " = 2 := by decide
  cases a with
  | tap x y => exact named_fits_iff hnum x y element (by decide) (by omega)
  | long_press x y ms => exact named_fits_iff hnum x y element (by decide) (by omega)
  | type text x y overwrite enter =>
      have hquoted : jsLength (String.ofList (quoted text)) = unitsOf (quoted text) := by
        simp [jsLength]
      have hreplace : jsLength "Replace the text with" = 21 := by decide
      have htype : jsLength "Type" = 4 := by decide
      have hspace : jsLength " " = 1 := by decide
      have henter : jsLength " and press Enter" = 16 := by decide
      have hempty : jsLength "" = 0 := rfl
      simp only [describeAction, Fits, jsLength_append, hquoted]
      cases overwrite <;> cases enter <;> simp only [if_true, Bool.false_eq_true, if_false] <;> omega
  | swipe => exact iff_of_true (show jsLength "  Swipe" ≤ 500 by decide) trivial
  | scroll direction =>
      have hscroll : ∀ d : Direction, jsLength ("  " ++ ("Scroll " ++ d.text)) ≤ 500 := by
        intro d
        cases d <;> decide
      exact iff_of_true (hscroll direction) trivial
  | key key =>
      have hpress : ∀ k : Key, jsLength ("  " ++
          ("Press " ++ String.ofList (replaceFirst '_' ' ' k.text.toList))) ≤ 500 := by
        intro k
        cases k <;> decide
      exact iff_of_true (hpress key) trivial
  | hide_keyboard => exact iff_of_true (show jsLength "  Hide the keyboard" ≤ 500 by decide) trivial
  | wait ms =>
      refine iff_of_true ?_ trivial
      have hms := hnum (mathRound (ms / 1000))
      have hwait : jsLength "Wait " = 5 := by decide
      have hs : jsLength " s" = 2 := by decide
      simp only [describeAction, jsLength_append]
      omega

/-- The entry's action, where it is one, fits into its line. -/
def EntryFits (steps : List TrajectoryStep) (e : Executed) : Prop :=
  match e with
  | .action _ a _ => Fits a (namedElement a (stepOf steps e))
  | _ => True

theorem lineOf_fits_iff (hnum : ShortNumbers js) (steps : List TrajectoryStep) (e : Executed) :
    jsLength (lineOf js (stepOf steps e) e) ≤ LIMITS.step ↔ EntryFits steps e := by
  cases e with
  | action i a settleMs => exact line_fits_iff hnum a _
  | relaunch i => exact iff_of_true (show jsLength "  (the app was restarted)" ≤ 500 by decide) trivial
  | home i =>
      exact iff_of_true (show jsLength "  Press Home, then reopen the app" ≤ 500 by decide) trivial

theorem heading_fits {screenNames : String → Option String} {screen : String}
    (h : jsLength ((screenNames screen).getD screen) ≤ 40) :
    jsLength (heading screenNames screen) ≤ LIMITS.step := by
  have hlimit : LIMITS.step = 500 := rfl
  have hopen : jsLength "On \"" = 4 := by decide
  have hclose : jsLength "\":" = 2 := by decide
  simp only [heading, jsLength_append]
  omega

/-- Where screens have short names, the steps fit exactly when the entries do. -/
theorem wordsFrom_fit_iff (hnum : ShortNumbers js) {steps : List TrajectoryStep}
    {screenNames : String → Option String}
    (hnames : ∀ st ∈ steps, jsLength ((screenNames st.screen).getD st.screen) ≤ 40)
    (last : String) (es : List Executed) :
    (∀ w ∈ wordsFrom js steps screenNames last es, jsLength w ≤ LIMITS.step) ↔
      ∀ e ∈ es, EntryFits steps e := by
  induction es generalizing last with
  | nil => simp [wordsFrom]
  | cons e rest ih =>
      have hline := lineOf_fits_iff hnum steps e
      cases hst : stepOf steps e with
      | none =>
          rw [hst] at hline
          simp only [wordsFrom, hst, List.forall_mem_cons, hline, ih]
      | some st =>
          rw [hst] at hline
          have hhead := heading_fits (hnames st (List.mem_of_find?_eq_some hst))
          simp only [wordsFrom, hst]
          by_cases hlast : st.screen = last
          · simp only [hlast, ne_eq, not_true_eq_false, if_false, List.forall_mem_cons, hline, ih]
          · simp only [ne_eq, hlast, not_false_eq_true, if_true, List.forall_mem_cons, hline, ih, hhead,
              true_and]

end FleetRunner.Explore
