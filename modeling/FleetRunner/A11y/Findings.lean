import FleetRunner.Explore.Leash
import FleetRunner.Js.Value
import Mathlib.Data.List.TakeWhile
import Mathlib.Tactic.NormNum

/-!
# Judging a tree (`a11y-tree.ts`)

A control that announces nothing is an error, a small one a warning. The tree is
a list in document order with depths: what is under a node is the run of deeper
nodes that follows it. The explorer judges only the nodes that are wholly on the
screen.

## Implementation notes

`fixed` is `toFixed(0)`. A node is known to a reader of the findings by its name.
-/

namespace FleetRunner.A11y

open Explore Explore.Leash Explore.Screens

/-- A node of the tree, with its depth. -/
structure Node extends Leash.Node where
  depth : Nat

/-- `[c.label, c.text, c.value].some((s) => s.trim() !== "")` -/
def announces (n : Node) : Bool := !isBlank n.label || !isBlank n.text || !isBlank n.value

/-- The nodes after `n` say something before one that is no deeper comes. -/
def descendantAnnounces (n : Node) (rest : List Node) : Bool :=
  (rest.takeWhile fun c => n.depth < c.depth).any announces

/-- What the bounds of the nodes are measured in. -/
inductive Geometry where
  | points
  | pixels (densityDpi : JsNum)
  | unknown

/-- A length in points, where the density is known. -/
def toPoints : Geometry → Rat → Option Rat
  | .points, px => some px
  | .pixels (.fin dpi), px => if dpi ≤ 0 then none else some (px * 160 / dpi)
  | _, _ => none

/-- How bad it is. -/
inductive Severity where
  | error
  | warn
  deriving DecidableEq

/-- What is checked. -/
inductive Check where
  | a11y_label
  | a11y_target_size
  | a11y_coverage
  deriving DecidableEq

/-- Something a screen does badly. -/
structure Finding where
  severity : Severity
  check : Check
  page : String
  detail : String
  deriving DecidableEq

/-- What the checks go by. -/
structure CheckOptions where
  step : String
  minTargetPt : Rat
  cap : Nat

section Judge

variable (js : Js) (fixed : Rat → String)

/-- How a node reads in a finding. -/
def nameOf (n : Node) : String :=
  let cls := lastPart '.' (bareClass n.cls)
  let place := match n.bounds with
    | some b => " at " ++ js.showNum b.x ++ "," ++ js.showNum b.y ++
        " (" ++ js.showNum b.w ++ "x" ++ js.showNum b.h ++ ")"
    | none => ""
  let id := if n.id ≠ "" then " id=" ++ lastPart '/' n.id else ""
  (if cls ≠ "" then cls else "element") ++ id ++ place

def labelDetail (name : String) : String :=
  name ++ " is tappable but announces nothing (no label, text or value)"

/-- What the loop has counted and found. -/
structure Judged where
  unlabelled : Nat := 0
  tiny : Nat := 0
  sized : Nat := 0
  seen : List String := []
  found : List Finding := []

variable (geometry : Geometry) (opts : CheckOptions)

/-- A finding that is new, where there is room for one of its check. -/
def push (key : String) (f : Finding) (s : Judged) : Judged :=
  if key ∉ s.seen ∧ (s.found.filter fun g => g.check = f.check).length < opts.cap then
    { s with seen := key :: s.seen, found := s.found ++ [f] }
  else s

/-- A control: tappable, enabled and not of zero area. -/
def isControl (n : Node) : Bool :=
  n.tappable && n.enabled && n.bounds.all fun b => decide (0 < b.w) && decide (0 < b.h)

/-- A control that announces nothing. -/
def labelFinding (n : Node) : Finding :=
  ⟨.error, .a11y_label, opts.step, labelDetail (nameOf js n)⟩

/-- `n.label || n.text || nameOf(n)` -/
def shownName (n : Node) : String :=
  if n.label ≠ "" then n.label else if n.text ≠ "" then n.text else nameOf js n

/-- A control that is small. -/
def sizeFinding (n : Node) (w h : Rat) : Finding :=
  ⟨.warn, .a11y_target_size, opts.step, shownName js n ++ " is " ++ fixed w ++ "x" ++ fixed h ++
    "pt, under the " ++ js.showNum opts.minTargetPt ++ "pt minimum"⟩

/-- Looks at what a control announces. -/
def judgeLabel (n : Node) (announced : Bool) (s : Judged) : Judged :=
  if announced then s
  else push opts ("unlabelled:" ++ nameOf js n) (labelFinding js opts n)
    { s with unlabelled := s.unlabelled + 1 }

/-- Looks at how large a control is. -/
def judgeSize (n : Node) (s : Judged) : Judged :=
  match n.bounds.bind fun b => (toPoints geometry b.w).bind fun w =>
      (toPoints geometry b.h).map fun h => (w, h) with
  | none => s
  | some (w, h) =>
    if w < opts.minTargetPt ∧ h < opts.minTargetPt then
      push opts ("tiny:" ++ nameOf js n) (sizeFinding js fixed opts n w h)
        { s with sized := s.sized + 1, tiny := s.tiny + 1 }
    else { s with sized := s.sized + 1 }

/-- Looks at a node. -/
def judge (n : Node) (rest : List Node) (s : Judged) : Judged :=
  if isControl n then
    judgeSize js fixed geometry opts n
      (judgeLabel js opts n (announces n || descendantAnnounces n rest) s)
  else s

/-- Looks at the nodes, each with those behind it. -/
def judgeAll : List Node → Judged → Judged
  | [], s => s
  | n :: rest, s => judgeAll rest (judge js fixed geometry opts n rest s)

/-- What could not be looked at. -/
def coverage (nodes : List Node) (s : Judged) : List Finding :=
  (if s.sized = 0 ∧ nodes.any (fun n => n.tappable && n.bounds.isSome) = true then
    [⟨.warn, .a11y_coverage, opts.step,
      match geometry with
      | .unknown =>
        "touch-target sizes were not judged: the tree's bounds are in an unknown unit " ++
          "(an Android dump is in pixels, and converting needs the device's density)"
      | _ => "touch-target sizes were not judged: no element carried usable bounds"⟩] else []) ++
  (if opts.cap < s.unlabelled then
    [⟨.warn, .a11y_coverage, opts.step, toString s.unlabelled ++
      " unlabelled tappables on this screen; the first " ++ toString opts.cap ++ " are listed"⟩]
    else []) ++
  (if opts.cap < s.tiny then
    [⟨.warn, .a11y_coverage, opts.step, toString s.tiny ++
      " undersized targets on this screen; the first " ++ toString opts.cap ++ " are listed"⟩]
    else [])

/-- The findings of a screen. -/
def a11yFindings (nodes : List Node) : List Finding :=
  let s := judgeAll js fixed geometry opts nodes {}
  s.found ++ coverage geometry opts nodes s

end Judge

/-- A node wholly inside the screen; one without bounds is not known to be clipped. -/
def isOnScreen (screen : Leash.Screen) (n : Node) : Bool :=
  n.bounds.all fun b => decide (0 ≤ b.x) && decide (0 ≤ b.y) && decide (b.x + b.w ≤ screen.w - 1) &&
    decide (b.y + b.h ≤ screen.h - 1)

/-- The nodes that are wholly on the screen. -/
def onScreen (nodes : List Node) (screen : Leash.Screen) : List Node :=
  nodes.filter (isOnScreen screen)

/-! ## What the loop reports -/

section Loop

/-- The node is found to announce nothing. -/
def isSilent (n : Node) (rest : List Node) : Bool :=
  isControl n && !(announces n || descendantAnnounces n rest)

variable (js : Js) (fixed : Rat → String) (geometry : Geometry) (opts : CheckOptions)

/-- The names of the controls that the loop finds announcing nothing, in order. -/
def silentNames : List Node → List String
  | [] => []
  | n :: rest =>
    if isSilent n rest then nameOf js n :: silentNames rest
    else silentNames rest

def labelFindings (s : Judged) : List Finding := s.found.filter fun f => f.check = .a11y_label

/-- What has been found after the controls of these names, as long as there was room for each. -/
structure Keeps (s : Judged) (past : List String) : Prop where
  seen : ∀ name, "unlabelled:" ++ name ∈ s.seen ↔ name ∈ past
  found : ∀ d, (∃ f ∈ s.found, f.check = .a11y_label ∧ f.detail = d) ↔
    ∃ name ∈ past, labelDetail name = d
  room : (labelFindings s).length ≤ past.length

variable {js fixed geometry opts} {s : Judged} {past : List String} {n : Node}

theorem keeps_push_other (h : Keeps s past) {key : String} {f : Finding}
    (hkey : ∀ name, key ≠ "unlabelled:" ++ name) (hf : f.check ≠ .a11y_label) :
    Keeps (push opts key f s) past := by
  unfold push
  split
  · refine ⟨fun name => ?_, fun d => ?_, ?_⟩
    · rw [List.mem_cons, or_iff_right (hkey name).symm, h.seen]
    · rw [← h.found]
      constructor
      · rintro ⟨g, hg, hcheck, hd⟩
        rcases List.mem_append.mp hg with hg | hg
        · exact ⟨g, hg, hcheck, hd⟩
        · obtain rfl := List.mem_singleton.mp hg
          exact absurd hcheck hf
      · rintro ⟨g, hg, hcheck, hd⟩
        exact ⟨g, List.mem_append_left _ hg, hcheck, hd⟩
    · simpa [labelFindings, List.filter_append, hf] using h.room
  · exact h

theorem keeps_push_label (h : Keeps s past) (hroom : past.length < opts.cap) (k : Nat) :
    Keeps (push opts ("unlabelled:" ++ nameOf js n) (labelFinding js opts n)
      { s with unlabelled := k }) (past ++ [nameOf js n]) := by
  have hspace : (s.found.filter fun g => g.check = (labelFinding js opts n).check).length <
      opts.cap := Nat.lt_of_le_of_lt h.room hroom
  unfold push
  by_cases hold : "unlabelled:" ++ nameOf js n ∈ s.seen
  · have hmem := (h.seen _).mp hold
    rw [if_neg fun hnew => hnew.1 hold]
    refine ⟨fun name => ?_, fun d => ?_, ?_⟩
    · rw [List.mem_append, List.mem_singleton, h.seen]
      exact ⟨Or.inl, fun hin => hin.elim id fun heq => heq ▸ hmem⟩
    · rw [h.found]
      constructor
      · rintro ⟨name, hname, hd⟩
        exact ⟨name, List.mem_append_left _ hname, hd⟩
      · rintro ⟨name, hname, hd⟩
        rcases List.mem_append.mp hname with hname | hname
        · exact ⟨name, hname, hd⟩
        · obtain rfl := List.mem_singleton.mp hname
          exact ⟨_, hmem, hd⟩
    · rw [List.length_append]
      exact Nat.le_add_right_of_le h.room
  · rw [if_pos ⟨hold, hspace⟩]
    refine ⟨fun name => ?_, fun d => ?_, ?_⟩
    · have hkey : "unlabelled:" ++ name = "unlabelled:" ++ nameOf js n ↔ name = nameOf js n := by
        simp
      rw [List.mem_cons, List.mem_append, List.mem_singleton, h.seen, hkey, or_comm]
    · constructor
      · rintro ⟨g, hg, hcheck, hd⟩
        rcases List.mem_append.mp hg with hg | hg
        · obtain ⟨name, hname, heq⟩ := (h.found d).mp ⟨g, hg, hcheck, hd⟩
          exact ⟨name, List.mem_append_left _ hname, heq⟩
        · obtain rfl := List.mem_singleton.mp hg
          exact ⟨_, List.mem_append_right _ List.mem_cons_self, hd⟩
      · rintro ⟨name, hname, hd⟩
        rcases List.mem_append.mp hname with hname | hname
        · obtain ⟨g, hg, hcheck, heq⟩ := (h.found d).mpr ⟨name, hname, hd⟩
          exact ⟨g, List.mem_append_left _ hg, hcheck, heq⟩
        · obtain rfl := List.mem_singleton.mp hname
          exact ⟨_, List.mem_append_right _ List.mem_cons_self, rfl, hd⟩
    · have hone := h.room
      simp only [labelFindings] at hone ⊢
      rw [List.filter_append, List.length_append, List.length_append]
      exact Nat.add_le_add hone (List.length_filter_le _ _)

theorem tiny_ne (name name' : String) : "tiny:" ++ name ≠ "unlabelled:" ++ name' := by
  intro heq
  have hhead := congrArg (fun s => s.toList.head?) heq
  simp at hhead

theorem keeps_judgeSize (h : Keeps s past) : Keeps (judgeSize js fixed geometry opts n s) past := by
  unfold judgeSize
  split
  · exact h
  · split
    · have hcounted : Keeps { s with sized := s.sized + 1, tiny := s.tiny + 1 } past :=
        ⟨h.seen, h.found, h.room⟩
      refine keeps_push_other hcounted (tiny_ne _) ?_
      change Check.a11y_target_size ≠ _
      decide
    · exact ⟨h.seen, h.found, h.room⟩

@[simp] theorem push_unlabelled (key : String) (f : Finding) :
    (push opts key f s).unlabelled = s.unlabelled := by
  unfold push
  split <;> rfl

@[simp] theorem judgeSize_unlabelled :
    (judgeSize js fixed geometry opts n s).unlabelled = s.unlabelled := by
  unfold judgeSize
  split
  · rfl
  · split
    · exact push_unlabelled _ _
    · rfl

theorem silentNames_cons (n : Node) (rest : List Node) :
    silentNames js (n :: rest) =
      (if isSilent n rest then [nameOf js n] else []) ++ silentNames js rest := by
  rw [silentNames]
  split <;> rfl

theorem judge_unlabelled (rest : List Node) :
    (judge js fixed geometry opts n rest s).unlabelled =
      s.unlabelled + (if isSilent n rest then [nameOf js n] else []).length := by
  unfold judge isSilent
  cases hcontrol : isControl n with
  | false => rfl
  | true =>
    cases hsaid : announces n || descendantAnnounces n rest <;> simp [judgeLabel]

/-- One node adds its name to what is reported when it is found to announce nothing. -/
theorem keeps_judge (h : Keeps s past) (rest : List Node)
    (hroom : past.length + (if isSilent n rest then [nameOf js n] else []).length ≤ opts.cap) :
    Keeps (judge js fixed geometry opts n rest s)
      (past ++ if isSilent n rest then [nameOf js n] else []) := by
  unfold judge isSilent
  unfold isSilent at hroom
  cases hcontrol : isControl n with
  | false => simpa using h
  | true =>
    rw [hcontrol] at hroom
    cases hsaid : announces n || descendantAnnounces n rest with
    | true => simpa [judgeLabel] using keeps_judgeSize h
    | false =>
      rw [hsaid] at hroom
      exact keeps_judgeSize (keeps_push_label h (Nat.lt_of_succ_le hroom) _)

theorem judgeAll_unlabelled (nodes : List Node) (s : Judged) :
    (judgeAll js fixed geometry opts nodes s).unlabelled =
      s.unlabelled + (silentNames js nodes).length := by
  induction nodes generalizing s with
  | nil => rfl
  | cons n rest ih =>
    rw [judgeAll, ih, judge_unlabelled, silentNames_cons, List.length_append, Nat.add_assoc]

/-- With room for all of them, the loop reports the names of those that announce nothing. -/
theorem keeps_judgeAll (nodes : List Node) {s : Judged} {past : List String} (h : Keeps s past)
    (hroom : past.length + (silentNames js nodes).length ≤ opts.cap) :
    Keeps (judgeAll js fixed geometry opts nodes s) (past ++ silentNames js nodes) := by
  induction nodes generalizing s past with
  | nil => simpa [judgeAll, silentNames] using h
  | cons n rest ih =>
    rw [silentNames_cons, List.length_append] at hroom
    rw [judgeAll, silentNames_cons, ← List.append_assoc]
    refine ih (keeps_judge h rest (by omega)) ?_
    rw [List.length_append]
    omega

theorem keeps_start : Keeps {} [] :=
  ⟨fun _ => by simp, fun _ => by simp, Nat.le_refl 0⟩

theorem mem_silentNames {nodes : List Node} {name : String} :
    name ∈ silentNames js nodes ↔
      ∃ n rest, n :: rest <:+ nodes ∧ isSilent n rest = true ∧ nameOf js n = name := by
  induction nodes with
  | nil => simp [silentNames]
  | cons m rest ih =>
    rw [silentNames_cons, List.mem_append, ih]
    constructor
    · rintro (hhead | ⟨n, tail, htail, hn⟩)
      · split at hhead
        · next hsilent =>
          exact ⟨m, rest, List.suffix_refl _, hsilent, (List.mem_singleton.mp hhead).symm⟩
        · simp at hhead
      · exact ⟨n, tail, htail.trans (List.suffix_cons m rest), hn⟩
    · rintro ⟨n, tail, htail, hsilent, hname⟩
      rcases List.suffix_cons_iff.mp htail with heq | htail
      · obtain ⟨rfl, rfl⟩ := List.cons.inj heq
        exact Or.inl (by simp [hsilent, hname])
      · exact Or.inr ⟨n, tail, htail, hsilent, hname⟩

end Loop

/-! ## What is reported of what the screen shows -/

section Shown

/-- What is under `n` of what follows it. -/
def subtree (n : Node) (rest : List Node) : List Node := rest.takeWhile fun c => n.depth < c.depth

/-- What follows the subtree of `n`. -/
def beyond (n : Node) (rest : List Node) : List Node := rest.dropWhile fun c => n.depth < c.depth

/-- A control wholly on the screen that says nothing itself, and what follows it in the tree. -/
structure Mute (nodes : List Node) (screen : Leash.Screen) (n : Node) (rest : List Node) :
    Prop where
  place : n :: rest <:+ nodes
  shown : isOnScreen screen n = true
  control : isControl n = true
  mute : announces n = false

/-- Everything under `n` that says something is cut off by the edge. -/
def Clipped (screen : Leash.Screen) (n : Node) (rest : List Node) : Prop :=
  descendantAnnounces n rest = true ∧
    ∀ c ∈ subtree n rest, announces c = true → isOnScreen screen c = false

/-- A node past the subtree of `n` says something, and every node between them that is on the
screen is deeper than `n`. -/
def Borrows (screen : Leash.Screen) (n : Node) (rest : List Node) : Prop :=
  ∃ before c after, beyond n rest = before ++ c :: after ∧
    isOnScreen screen c = true ∧ announces c = true ∧
    ∀ x ∈ before ++ [c], isOnScreen screen x = true → n.depth < x.depth

/-- The controls reported as announcing nothing are those that announce nothing. -/
def ReportsUnlabelled (js : Js) (fixed : Rat → String) (geometry : Geometry) (opts : CheckOptions)
    (nodes : List Node) (screen : Leash.Screen) : Prop :=
  ∀ name, (∃ f ∈ a11yFindings js fixed geometry opts (onScreen nodes screen),
      f.check = .a11y_label ∧ f.detail = labelDetail name) ↔
    ∃ n rest, Mute nodes screen n rest ∧ descendantAnnounces n rest = false ∧ nameOf js n = name

variable {js : Js} {fixed : Rat → String} {geometry : Geometry} {opts : CheckOptions}
  {nodes : List Node} {screen : Leash.Screen} {n : Node} {rest : List Node}

theorem borrows_iff :
    Borrows screen n rest ↔ descendantAnnounces n (onScreen (beyond n rest) screen) = true := by
  unfold Borrows descendantAnnounces onScreen
  generalize beyond n rest = l
  induction l with
  | nil => simp
  | cons x tail ih =>
    cases hx : isOnScreen screen x with
    | false =>
      rw [List.filter_cons_of_neg (by simp [hx]), ← ih]
      constructor
      · rintro ⟨_ | ⟨y, before⟩, c, after, heq, hc, hspeaks, hdeep⟩
        · obtain ⟨rfl, rfl⟩ := List.cons.inj heq
          rw [hx] at hc
          cases hc
        · obtain ⟨rfl, rfl⟩ := List.cons.inj heq
          exact ⟨before, c, after, rfl, hc, hspeaks, fun z hz => hdeep z (List.mem_cons_of_mem _ hz)⟩
      · rintro ⟨before, c, after, rfl, hc, hspeaks, hdeep⟩
        refine ⟨x :: before, c, after, rfl, hc, hspeaks, fun z hz hshown => ?_⟩
        rcases List.mem_cons.mp hz with rfl | hz
        · rw [hx] at hshown
          cases hshown
        · exact hdeep z hz hshown
    | true =>
      rw [List.filter_cons_of_pos hx]
      by_cases hdeeper : n.depth < x.depth
      · rw [List.takeWhile_cons_of_pos (by simpa using hdeeper), List.any_cons, Bool.or_eq_true,
          ← ih]
        constructor
        · rintro ⟨_ | ⟨y, before⟩, c, after, heq, hc, hspeaks, hdeep⟩
          · obtain ⟨rfl, rfl⟩ := List.cons.inj heq
            exact Or.inl hspeaks
          · obtain ⟨rfl, rfl⟩ := List.cons.inj heq
            exact Or.inr ⟨before, c, after, rfl, hc, hspeaks,
              fun z hz => hdeep z (List.mem_cons_of_mem _ hz)⟩
        · rintro (hspeaks | ⟨before, c, after, rfl, hc, hspeaks, hdeep⟩)
          · refine ⟨[], x, tail, rfl, hx, hspeaks, fun z hz _ => ?_⟩
            obtain rfl := List.mem_singleton.mp hz
            exact hdeeper
          · refine ⟨x :: before, c, after, rfl, hc, hspeaks, fun z hz hshown => ?_⟩
            rcases List.mem_cons.mp hz with rfl | hz
            · exact hdeeper
            · exact hdeep z hz hshown
      · rw [List.takeWhile_cons_of_neg (by simpa using hdeeper)]
        constructor
        · rintro ⟨_ | ⟨y, before⟩, c, after, heq, hc, hspeaks, hdeep⟩
          · obtain ⟨rfl, rfl⟩ := List.cons.inj heq
            exact absurd (hdeep x List.mem_cons_self hx) hdeeper
          · obtain ⟨rfl, rfl⟩ := List.cons.inj heq
            exact absurd (hdeep x List.mem_cons_self hx) hdeeper
        · intro hnone
          cases hnone

/-- What is said under a node when only what is on the screen is read. -/
theorem descendantAnnounces_onScreen :
    descendantAnnounces n (onScreen rest screen) =
      ((onScreen (subtree n rest) screen).any announces ||
        descendantAnnounces n (onScreen (beyond n rest) screen)) := by
  have hsplit : onScreen rest screen =
      onScreen (subtree n rest) screen ++ onScreen (beyond n rest) screen := by
    unfold onScreen subtree beyond
    rw [← List.filter_append, List.takeWhile_append_dropWhile]
  have hdeep : ∀ c ∈ onScreen (subtree n rest) screen, decide (n.depth < c.depth) = true :=
    fun c hc => List.mem_takeWhile_imp (p := fun c : Node => decide (n.depth < c.depth))
      (List.mem_filter.mp hc).1
  rw [hsplit, descendantAnnounces, List.takeWhile_append_of_pos hdeep, List.any_append]
  rfl

theorem onScreen_subtree_silent :
    (onScreen (subtree n rest) screen).any announces = false ↔
      descendantAnnounces n rest = false ∨ Clipped screen n rest := by
  unfold Clipped onScreen
  rw [List.any_filter, List.any_eq_false]
  constructor
  · intro hsilent
    cases hsaid : descendantAnnounces n rest with
    | false => exact Or.inl rfl
    | true =>
      refine Or.inr ⟨rfl, fun c hc hspeaks => ?_⟩
      simpa [hspeaks] using hsilent c hc
  · rintro (hnone | ⟨-, hclipped⟩) c hc hboth
    · exact List.any_eq_false.mp hnone c hc (Bool.and_eq_true_iff.mp hboth).2
    · have hparts := Bool.and_eq_true_iff.mp hboth
      rw [hclipped c hc hparts.2] at hparts
      exact absurd hparts.1 Bool.false_ne_true

theorem suffix_onScreen {shown : List Node} :
    n :: shown <:+ onScreen nodes screen ↔
      ∃ rest, n :: rest <:+ nodes ∧ isOnScreen screen n = true ∧ onScreen rest screen = shown := by
  unfold onScreen
  induction nodes with
  | nil => simp
  | cons x tail ih =>
    cases hx : isOnScreen screen x with
    | false =>
      rw [List.filter_cons_of_neg (by simp [hx]), ih]
      constructor
      · rintro ⟨rest, hplace, hn⟩
        exact ⟨rest, hplace.trans (List.suffix_cons x tail), hn⟩
      · rintro ⟨rest, hplace, hshown, heq⟩
        rcases List.suffix_cons_iff.mp hplace with hhead | hplace
        · obtain ⟨rfl, rfl⟩ := List.cons.inj hhead
          rw [hx] at hshown
          cases hshown
        · exact ⟨rest, hplace, hshown, heq⟩
    | true =>
      rw [List.filter_cons_of_pos hx, List.suffix_cons_iff, ih]
      constructor
      · rintro (hhead | ⟨rest, hplace, hn⟩)
        · obtain ⟨rfl, rfl⟩ := List.cons.inj hhead
          exact ⟨tail, List.suffix_refl _, hx, rfl⟩
        · exact ⟨rest, hplace.trans (List.suffix_cons x tail), hn⟩
      · rintro ⟨rest, hplace, hshown, heq⟩
        rcases List.suffix_cons_iff.mp hplace with hhead | hplace
        · obtain ⟨rfl, rfl⟩ := List.cons.inj hhead
          exact Or.inl (heq ▸ rfl)
        · exact Or.inr ⟨rest, hplace, hshown, heq⟩

/-- The names of the silent controls of what the screen shows. -/
theorem mem_silentNames_onScreen {name : String} :
    name ∈ silentNames js (onScreen nodes screen) ↔
      ∃ n rest, Mute nodes screen n rest ∧
        (descendantAnnounces n rest = false ∨ Clipped screen n rest) ∧
        ¬ Borrows screen n rest ∧ nameOf js n = name := by
  rw [mem_silentNames]
  have hsilent : ∀ n rest, isSilent n (onScreen rest screen) = true ↔
      isControl n = true ∧ announces n = false ∧
        (descendantAnnounces n rest = false ∨ Clipped screen n rest) ∧
        ¬ Borrows screen n rest := by
    intro n rest
    rw [isSilent, Bool.and_eq_true, Bool.not_eq_true', Bool.or_eq_false_iff,
      descendantAnnounces_onScreen, Bool.or_eq_false_iff, onScreen_subtree_silent, borrows_iff,
      Bool.not_eq_true]
  constructor
  · rintro ⟨n, shown, hplace, hn, hname⟩
    obtain ⟨rest, hrest, hshown, rfl⟩ := suffix_onScreen.mp hplace
    obtain ⟨hcontrol, hmute, hunder, hbeyond⟩ := (hsilent n rest).mp hn
    exact ⟨n, rest, ⟨hrest, hshown, hcontrol, hmute⟩, hunder, hbeyond, hname⟩
  · rintro ⟨n, rest, hmute, hunder, hbeyond, hname⟩
    exact ⟨n, onScreen rest screen, suffix_onScreen.mpr ⟨rest, hmute.place, hmute.shown, rfl⟩,
      (hsilent n rest).mpr ⟨hmute.control, hmute.mute, hunder, hbeyond⟩, hname⟩

theorem not_label_of_coverage {s : Judged} {f : Finding} (hf : f ∈ coverage geometry opts nodes s) :
    f.check ≠ .a11y_label := by
  unfold coverage at hf
  have hcoverage : f.check = .a11y_coverage := by
    rcases List.mem_append.mp hf with hf | hf
    · rcases List.mem_append.mp hf with hf | hf
      · split at hf
        · rw [List.mem_singleton.mp hf]
        · cases hf
      · split at hf
        · rw [List.mem_singleton.mp hf]
        · cases hf
    · split at hf
      · rw [List.mem_singleton.mp hf]
      · cases hf
  rw [hcoverage]
  decide

theorem labelDetail_inj {name name' : String} :
    labelDetail name = labelDetail name' ↔ name = name' := by
  simp [labelDetail]

/-- With room for all of them, what is reported is the controls that the loop found silent. -/
theorem reported_iff (hcap : (judgeAll js fixed geometry opts nodes {}).unlabelled ≤ opts.cap)
    {name : String} :
    (∃ f ∈ a11yFindings js fixed geometry opts nodes,
      f.check = .a11y_label ∧ f.detail = labelDetail name) ↔ name ∈ silentNames js nodes := by
  rw [judgeAll_unlabelled, Nat.zero_add] at hcap
  have hkeeps : Keeps (judgeAll js fixed geometry opts nodes {}) ([] ++ silentNames js nodes) :=
    keeps_judgeAll nodes keeps_start (by rwa [List.length_nil, Nat.zero_add])
  rw [List.nil_append] at hkeeps
  constructor
  · rintro ⟨f, hf, hcheck, hdetail⟩
    rcases List.mem_append.mp hf with hf | hf
    · obtain ⟨name', hname', heq⟩ := (hkeeps.found _).mp ⟨f, hf, hcheck, hdetail⟩
      exact labelDetail_inj.mp heq ▸ hname'
    · exact absurd hcheck (not_label_of_coverage hf)
  · intro hname
    obtain ⟨f, hf, hcheck, hdetail⟩ := (hkeeps.found _).mpr ⟨name, hname, rfl⟩
    exact ⟨f, List.mem_append_left _ hf, hcheck, hdetail⟩

/-- The reported controls are the unlabelled ones, by name, exactly when clipping takes the text of
none of them and lends text to none. -/
theorem reportsUnlabelled_iff
    (hcap : (judgeAll js fixed geometry opts (onScreen nodes screen) {}).unlabelled ≤ opts.cap) :
    ReportsUnlabelled js fixed geometry opts nodes screen ↔
      (∀ n rest, Mute nodes screen n rest → Clipped screen n rest → ¬ Borrows screen n rest →
        ∃ m tail, Mute nodes screen m tail ∧ descendantAnnounces m tail = false ∧
          nameOf js m = nameOf js n) ∧
      (∀ n rest, Mute nodes screen n rest → descendantAnnounces n rest = false →
        Borrows screen n rest →
        ∃ m tail, Mute nodes screen m tail ∧
          (descendantAnnounces m tail = false ∨ Clipped screen m tail) ∧
          ¬ Borrows screen m tail ∧ nameOf js m = nameOf js n) := by
  unfold ReportsUnlabelled
  simp only [reported_iff hcap, mem_silentNames_onScreen]
  constructor
  · intro hsame
    refine ⟨fun n rest hmute hclipped hbeyond => ?_, fun n rest hmute hnone _ => ?_⟩
    · exact (hsame _).mp ⟨n, rest, hmute, Or.inr hclipped, hbeyond, rfl⟩
    · exact (hsame _).mpr ⟨n, rest, hmute, hnone, rfl⟩
  · rintro ⟨hclip, hlend⟩ name
    constructor
    · rintro ⟨n, rest, hmute, hnone | hclipped, hbeyond, rfl⟩
      · exact ⟨n, rest, hmute, hnone, rfl⟩
      · exact hclip n rest hmute hclipped hbeyond
    · rintro ⟨n, rest, hmute, hnone, rfl⟩
      by_cases hbeyond : Borrows screen n rest
      · exact hlend n rest hmute hnone hbeyond
      · exact ⟨n, rest, hmute, Or.inl hnone, hbeyond, rfl⟩

/-- A row in its place whose text is cut off by the edge, and a column half off the screen that
follows a control with nothing in it. -/
def clippedRow : List Node :=
  [⟨⟨"Row", "", "", "", "", true, true, some ⟨0, 0, 50, 50⟩⟩, 0⟩,
    ⟨⟨"Text", "Save", "", "", "", false, true, some ⟨0, 40, 50, 80⟩⟩, 1⟩]

def lentText : List Node :=
  [⟨⟨"Icon", "", "", "", "", true, true, some ⟨0, 0, 50, 50⟩⟩, 1⟩,
    ⟨⟨"Column", "", "", "", "", false, true, some ⟨0, 40, 50, 80⟩⟩, 1⟩,
    ⟨⟨"Text", "Save", "", "", "", false, true, some ⟨0, 60, 50, 20⟩⟩, 2⟩]

def smallOpts : CheckOptions := ⟨"home", 44, 5⟩

theorem onScreen_clippedRow : onScreen clippedRow ⟨100, 100⟩ = clippedRow.take 1 := by
  norm_num [onScreen, List.filter_cons, clippedRow, isOnScreen]

theorem onScreen_lentText : onScreen lentText ⟨100, 100⟩ = lentText.eraseIdx 1 := by
  norm_num [onScreen, List.filter_cons, lentText, isOnScreen]

theorem caps_of_small {l : List Node} (hl : (silentNames Js.plain l).length ≤ 5) :
    (judgeAll Js.plain (fun q => toString q.num) .unknown smallOpts l {}).unlabelled ≤
      smallOpts.cap := by
  rw [judgeAll_unlabelled, Nat.zero_add]
  exact hl

theorem clippedRow_caps :
    (judgeAll Js.plain (fun q => toString q.num) .unknown smallOpts
      (onScreen clippedRow ⟨100, 100⟩) {}).unlabelled ≤ smallOpts.cap :=
  caps_of_small (by rw [onScreen_clippedRow]; decide)

theorem lentText_caps :
    (judgeAll Js.plain (fun q => toString q.num) .unknown smallOpts
      (onScreen lentText ⟨100, 100⟩) {}).unlabelled ≤ smallOpts.cap :=
  caps_of_small (by rw [onScreen_lentText]; decide)

/-- The row is reported for the text that the edge cuts off, and the icon is not for the text of
another column. -/
theorem reportsUnlabelled_fails :
    ¬ ReportsUnlabelled Js.plain (fun q => toString q.num) .unknown smallOpts clippedRow
        ⟨100, 100⟩ ∧
      ¬ ReportsUnlabelled Js.plain (fun q => toString q.num) .unknown smallOpts lentText
        ⟨100, 100⟩ := by
  constructor
  · intro hsame
    obtain ⟨n, rest, hmute, hnone, -⟩ := (hsame "Row at 0,0 (50x50)").mp
      ((reported_iff clippedRow_caps).mpr (by rw [onScreen_clippedRow]; decide))
    rcases List.suffix_cons_iff.mp hmute.place with heq | hplace
    · obtain ⟨rfl, rfl⟩ := List.cons.inj heq
      exact absurd hnone (by decide)
    · have hcontrol := hmute.control
      rcases List.suffix_cons_iff.mp hplace with heq | hplace
      · obtain ⟨rfl, rfl⟩ := List.cons.inj heq
        exact absurd hcontrol (by decide)
      · cases List.suffix_nil.mp hplace
  · intro hsame
    have hicon : Mute lentText ⟨100, 100⟩ _ lentText.tail :=
      ⟨List.suffix_refl _, by decide +kernel, by decide, by decide⟩
    have hreported := (reported_iff lentText_caps).mp
      ((hsame _).mpr ⟨_, _, hicon, by decide, rfl⟩)
    rw [onScreen_lentText] at hreported
    cases hreported

theorem not_clipped (hshown : ∀ c ∈ rest, isOnScreen screen c = true) :
    ¬ Clipped screen n rest := by
  rintro ⟨hsaid, hclipped⟩
  obtain ⟨c, hc, hspeaks⟩ := List.any_eq_true.mp hsaid
  have hin : c ∈ rest := (List.takeWhile_prefix _).subset hc
  exact absurd ((hclipped c hc hspeaks).symm.trans (hshown c hin)) (by decide)

theorem not_borrows (hshown : ∀ c ∈ rest, isOnScreen screen c = true) :
    ¬ Borrows screen n rest := by
  rintro ⟨before, c, after, heq, -, -, hdeep⟩
  -- the first node past the subtree is no deeper than `n`
  have hhead := List.head?_dropWhile_not (fun c : Node => decide (n.depth < c.depth)) rest
  have hin : ∀ x ∈ beyond n rest, x ∈ rest := fun x hx => (List.dropWhile_suffix _).subset hx
  unfold beyond at heq hin
  rw [heq] at hhead hin
  cases before with
  | nil =>
    have hdeeper := hdeep c List.mem_cons_self (hshown c (hin c List.mem_cons_self))
    exact of_decide_eq_false hhead hdeeper
  | cons x before =>
    have hdeeper := hdeep x List.mem_cons_self (hshown x (hin x List.mem_cons_self))
    exact of_decide_eq_false hhead hdeeper

/-- Two rows and what is in them: the first has its text under it, the second an image only. -/
def nestedRows : List Node :=
  [⟨⟨"Row", "", "", "", "", true, true, some ⟨0, 0, 50, 50⟩⟩, 0⟩,
    ⟨⟨"Text", "Save", "", "", "", false, true, some ⟨0, 10, 50, 20⟩⟩, 1⟩,
    ⟨⟨"Row", "", "", "", "", true, true, some ⟨0, 50, 50, 40⟩⟩, 0⟩,
    ⟨⟨"Column", "", "", "", "", false, true, some ⟨0, 50, 50, 40⟩⟩, 1⟩,
    ⟨⟨"Image", "", "", "", "", false, true, some ⟨0, 60, 20, 20⟩⟩, 2⟩]

theorem reportsUnlabelled_row :
    ReportsUnlabelled Js.plain (fun q => toString q.num) .unknown smallOpts nestedRows
      ⟨100, 100⟩ := by
  have hshown : ∀ c ∈ nestedRows, isOnScreen ⟨100, 100⟩ c = true := by
    norm_num [nestedRows, isOnScreen]
  have hcaps : onScreen nestedRows ⟨100, 100⟩ = nestedRows := List.filter_eq_self.mpr hshown
  have hrest : ∀ n rest, Mute nestedRows ⟨100, 100⟩ n rest →
      ∀ c ∈ rest, isOnScreen ⟨100, 100⟩ c = true := fun n rest hmute c hc =>
    hshown c (hmute.place.subset (List.mem_cons_of_mem n hc))
  refine (reportsUnlabelled_iff (caps_of_small (by rw [hcaps]; decide))).mpr
    ⟨fun n rest hmute hclipped => ?_, fun n rest hmute _ hborrows => ?_⟩
  · exact absurd hclipped (not_clipped (hrest n rest hmute))
  · exact absurd hborrows (not_borrows (hrest n rest hmute))

end Shown

end FleetRunner.A11y
