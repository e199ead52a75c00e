import FleetRunner.Explore.ScreenMap
import FleetRunner.Library.Regex
import Mathlib.Algebra.Order.Ring.Unbundled.Rat

/-!
# The leash (`workloads/explore/leash.ts`)

A tap is snapped onto the element it was meant for, and refused when the words
of that element name a control nobody explores into by accident.

## Implementation notes

A node is known by its place in the tree. Coordinates are exact, and distances
are compared by their squares; how far a tap was moved is only reported and is
left out. `DANGER` is read from its regular expressions word for word; a
mission's own `block` patterns are the engine's to match.
-/

namespace FleetRunner.Explore.Leash

open Library

structure Rect where
  x : Rat
  y : Rat
  w : Rat
  h : Rat
  deriving DecidableEq

structure Node where
  cls : String
  text : String
  label : String
  id : String
  value : String
  tappable : Bool
  enabled : Bool
  bounds : Option Rect

structure Screen where
  w : Rat
  h : Rat

namespace Rect

def centre (b : Rect) : Rat × Rat := (b.x + b.w / 2, b.y + b.h / 2)

def inside (b : Rect) (p : Rat × Rat) : Bool :=
  decide (b.x ≤ p.1) && decide (p.1 ≤ b.x + b.w) && decide (b.y ≤ p.2) && decide (p.2 ≤ b.y + b.h)

def area (b : Rect) : Rat := b.w * b.h

/-- `b` lies wholly inside `t`. -/
def within (b t : Rect) : Bool :=
  decide (t.x ≤ b.x) && decide (t.y ≤ b.y) && decide (b.x + b.w ≤ t.x + t.w) &&
    decide (b.y + b.h ≤ t.y + t.h)

/-- The square of the distance to the rectangle. -/
def distance (b : Rect) (p : Rat × Rat) : Rat :=
  let dx := max (max (b.x - p.1) 0) (p.1 - (b.x + b.w))
  let dy := max (max (b.y - p.2) 0) (p.2 - (b.y + b.h))
  dx * dx + dy * dy

end Rect

/-! ## Snapping -/

/-- A node and its place in the tree. -/
abbrev Placed := Node × Nat

/-- A tappable element that does not cover most of the screen, and its bounds. -/
def usable (screen : Screen) (n : Placed) : Option (Rect × Placed) :=
  n.1.bounds.bind fun b =>
    if n.1.tappable && n.1.enabled && decide (0 < b.w) && decide (0 < b.h) &&
        decide (b.area < screen.w * screen.h * (6 / 10)) then some (b, n) else none

/-- The smallest element that contains the point, else the nearest within the radius; whether it
contains the point. -/
def elementAt (nodes : List Node) (p : Rat × Rat) (screen : Screen) (radius : Rat) :
    Option ((Rect × Placed) × Bool) :=
  let elements := nodes.zipIdx.filterMap (usable screen)
  let containing := elements.filter fun e => e.1.inside p
  match (containing.insertionSort fun a b => a.1.area ≤ b.1.area).head? with
  | some e => some (e, true)
  | none =>
    match firstBest (fun best e => decide (e.1.distance p < best.1.distance p)) elements with
    | some e => if e.1.distance p ≤ radius * radius then some (e, false) else none
    | none => none

structure SnapResult where
  action : Action
  node : Option Placed
  miss : Bool

/-- `/EditText|TextField|SearchField|SecureTextField/` -/
def isField (cls : String) : Bool :=
  ["EditText", "TextField", "SearchField", "SecureTextField"].any fun s => strIncludes cls s

/-- The action with other coordinates. -/
def movedTo (p : Rat × Rat) : Action → Action
  | .tap _ _ => .tap p.1 p.2
  | .long_press _ _ ms => .long_press p.1 p.2 ms
  | .type text _ _ overwrite enter => .type text (some p.1) (some p.2) overwrite enter
  | a => a

/-- Where the action points, when it does; a `y` that is missing is no number and is nowhere. -/
def pointOf : Action → Option (Option (Rat × Rat))
  | .tap x y => some (some (x, y))
  | .long_press x y _ => some (some (x, y))
  | .type _ (some x) y _ _ => some (y.map fun y => (x, y))
  | _ => none

def snap (a : Action) (nodes : Option (List Node)) (screen : Screen) : SnapResult :=
  match pointOf a, nodes with
  | some (some p), some nodes =>
    match elementAt nodes p screen (max 24 (screen.w * (4 / 100))) with
    | none =>
      let field := nodes.zipIdx.find? fun n => n.1.bounds.any (fun b => b.inside p) && isField n.1.cls
      ⟨a, field, field.isNone⟩
    | some (e, true) => ⟨a, some e.2, false⟩
    | some (e, false) => ⟨movedTo e.1.centre a, some e.2, false⟩
  | some none, some _ => ⟨a, none, true⟩
  | _, _ => ⟨a, none, false⟩

/-! ## Refusing -/

section Classes

open Regex

/-- `delete`, `purchase`, `invite` and `sign_out` -/
def DANGER : List (String × List Phrase) :=
  [("delete",
      [⟨true, .seq (oneOf (word "delete") [word "remove", word "erase", word "close"])
          (.seq .spaces (.seq
            (.opt (oneOf (.seq (word "my") .spaces)
              [.seq (word "your") .spaces, .seq (word "this") .spaces]))
            (oneOf (word "account") [word "profile", word "all data", word "everything"]))), true⟩,
        ⟨true, word "delete account", true⟩, ⟨true, word "deactivate", true⟩]),
    ("purchase",
      [⟨true, oneOf (word "buy")
          [word "purchase", word "subscribe", word "upgrade", word "pay", word "checkout",
            word "check out", .seq (word "start ") (.seq (.opt (word "free ")) (word "trial")),
            word "go pro", .seq (word "unlock ") (oneOf (word "pro") [word "premium"]),
            word "restore purchases"], true⟩]),
    ("invite",
      [⟨true, oneOf (word "invite")
          [word "send invitation", word "share with contacts", word "send to contacts"], true⟩]),
    ("sign_out",
      [⟨true, oneOf (word "sign out") [word "log out", word "logout", word "sign off"], true⟩])]

/-- `/\bpassword|passcode|\bpin\b/i` -/
def CREDENTIALS : List Phrase :=
  [⟨true, word "password", false⟩, ⟨false, word "passcode", false⟩, ⟨true, word "pin", true⟩]

end Classes

inductive Verdict where
  | ok
  | refused (danger : String) (reason : String)

/-- `[_-]` becomes a blank. -/
def blank (c : Char) : Char := if c = '_' ∨ c = '-' then ' ' else c

/-- Is the node's text read for this target? -/
def isRead (target : Placed) (n : Placed) : Bool :=
  !decide (n.2 = target.2) &&
    n.1.bounds.any fun b => target.1.bounds.any fun t => b.within t

def textsOf (target : Placed) (nodes : Option (List Node)) : List String :=
  [target.1.label, target.1.text, target.1.value, Screens.lastPart '/' target.1.id] ++
    ((nodes.getD []).zipIdx.filter (isRead target)).flatMap fun n => [n.1.text, n.1.label]

def wordsOf (target : Placed) (nodes : Option (List Node)) : String :=
  let texts := (textsOf target nodes).filter fun s => decide (s ≠ "")
  String.ofList ((" ".intercalate texts).toList.map blank)

/-- `cls.replace("_", " ")` -/
def spoken (cls : String) : String := String.ofList (replaceFirst '_' ' ' cls.toList)

def shown (words : String) : String := "\"" ++ jsSlice (jsTrim words) 60 ++ "\""

variable (js : Js)

def checks (block allow : List String) (words : String) : Verdict :=
  if block.any fun pattern => js.regexTest pattern words = some true then
    .refused "blocked" (shown words ++ " is blocked for this mission")
  else
    match DANGER.find? fun d => !allow.contains d.1 && testAny isJsSpace d.2 words.toList with
    | some (cls, _) =>
      .refused cls (shown words ++ " is a " ++ spoken cls ++
        " control and this mission does not allow " ++ spoken cls)
    | none => .ok

def leash (a : Action) (target : Option Placed) (nodes : Option (List Node))
    (allow block : List String) : Verdict :=
  match target with
  | none => .ok
  | some target =>
    let words := wordsOf target nodes
    match a with
    | .type .. =>
      if testAny isJsSpace CREDENTIALS words.toList then
        .refused "credentials" "the harness does not type into password fields"
      else .ok
    | .tap .. | .long_press .. | .key .select => checks js block allow words
    | _ => .ok

/-! ## What the finger is on -/

/-- The two actions of a finger. -/
inductive Touch where
  | tap (x y : Rat)
  | long_press (x y : Rat) (ms : Option Rat)

def Touch.action : Touch → Action
  | .tap x y => .tap x y
  | .long_press x y ms => .long_press x y ms

/-- An enabled node at the point that carries any text or label. -/
structure Lands (nodes : List Node) (p : Rat × Rat) (n : Placed) : Prop where
  mem : n ∈ nodes.zipIdx
  enabled : n.1.enabled = true
  carries : n.1.text ≠ "" ∨ n.1.label ≠ ""
  here : n.1.bounds.any (fun b => b.inside p) = true

def areaOf (n : Placed) : Rat := n.1.bounds.elim 0 Rect.area

/-- No other such node is smaller. -/
def Smallest (nodes : List Node) (p : Rat × Rat) (n : Placed) : Prop :=
  Lands nodes p n ∧ ∀ m, Lands nodes p m → areaOf n ≤ areaOf m

/-- The text matches a class that is not allowed. -/
def dangerous (allow : List String) (text : String) : Bool :=
  DANGER.any fun d => !allow.contains d.1 && testAny isJsSpace d.2 text.toList

/-- What the finger is on after the snap, when it must not be touched. -/
def UnderFinger (t : Touch) (nodes : List Node) (screen : Screen) (allow : List String)
    (n : Placed) : Prop :=
  ∃ p, pointOf (snap t.action (some nodes) screen).action = some (some p) ∧ Smallest nodes p n ∧
    (dangerous allow n.1.text = true ∨ dangerous allow n.1.label = true)

def Refuses (t : Touch) (nodes : List Node) (screen : Screen) (allow block : List String) : Prop :=
  ∃ danger reason, leash js (snap t.action (some nodes) screen).action
    (snap t.action (some nodes) screen).node (some nodes) allow block = .refused danger reason

/-- Something in the words is blocked, or of a class that is not allowed. -/
def Forbidden (allow block : List String) (words : String) : Prop :=
  (block.any fun pattern => decide (js.regexTest pattern words = some true)) = true ∨
    dangerous allow words = true

theorem checks_refused_iff (block allow : List String) (words : String) :
    (∃ danger reason, checks js block allow words = .refused danger reason) ↔
      Forbidden js allow block words := by
  unfold checks Forbidden
  split
  · rename_i hblock
    exact iff_of_true ⟨_, _, rfl⟩ (Or.inl hblock)
  · rename_i hblock
    rw [or_iff_right hblock, dangerous, List.any_eq_true]
    split
    · rename_i cls phrases hfound
      have htest := List.find?_some hfound
      exact iff_of_true ⟨_, _, rfl⟩ ⟨(cls, phrases), List.mem_of_find?_eq_some hfound, htest⟩
    · rename_i hnone
      refine iff_of_false (by simp) ?_
      rintro ⟨d, hd, htest⟩
      exact List.find?_eq_none.mp hnone d hd htest

theorem action_snap (t : Touch) (nodes : Option (List Node)) (screen : Screen) :
    ∃ t' : Touch, (snap t.action nodes screen).action = t'.action := by
  unfold snap
  cases t with
  | tap x y =>
      split
      · split
        · exact ⟨.tap x y, rfl⟩
        · exact ⟨.tap x y, rfl⟩
        · exact ⟨.tap _ _, rfl⟩
      · exact ⟨.tap x y, rfl⟩
      · exact ⟨.tap x y, rfl⟩
  | long_press x y ms =>
      split
      · split
        · exact ⟨.long_press x y ms, rfl⟩
        · exact ⟨.long_press x y ms, rfl⟩
        · exact ⟨.long_press _ _ ms, rfl⟩
      · exact ⟨.long_press x y ms, rfl⟩
      · exact ⟨.long_press x y ms, rfl⟩

/-- A touch is refused for what is read of its target. -/
theorem refuses_iff (t : Touch) (nodes : List Node) (screen : Screen) (allow block : List String) :
    Refuses js t nodes screen allow block ↔
      ∃ target, (snap t.action (some nodes) screen).node = some target ∧
        Forbidden js allow block (wordsOf target (some nodes)) := by
  unfold Refuses
  obtain ⟨t', ht'⟩ := action_snap t (some nodes) screen
  rw [ht']
  cases (snap t.action (some nodes) screen).node with
  | none => simp [leash]
  | some target =>
      simp only [Option.some.injEq, exists_eq_left', ← checks_refused_iff]
      cases t' <;> rfl

/-! ### A text that is read -/

theorem blank_eq (c : Char) : blank c = c ∨ blank c = ' ' := by
  unfold blank
  split
  · exact Or.inr rfl
  · exact Or.inl rfl

/-- The classes name no separator, and begin and end with words. -/
theorem danger_phrases : ∀ d ∈ DANGER, ∀ p ∈ d.2,
    p.bounded = true ∧ '_' ∉ p.body.letters ∧ '-' ∉ p.body.letters := by
  decide

theorem blurs_blank {letters : List Char} (h : '_' ∉ letters ∧ '-' ∉ letters) :
    Blurs isJsSpace blank letters := by
  refine ⟨fun c hc => ?_, fun c hc => ?_, fun l hl c hfold => ?_⟩
  · rcases blank_eq c with heq | heq <;> rw [heq]
    · exact hc
    · decide
  · rcases blank_eq c with heq | heq <;> rw [heq]
    · exact hc
    · decide
  · have hcode : ∀ x : Char, x.toNat = 95 ∨ x.toNat = 45 → foldCase l = foldCase x → l = x := by
      intro x hx heq
      unfold foldCase at heq
      rw [← Char.toNat_inj]
      split at heq <;> split at heq <;> omega
    rw [blank, if_neg]
    rintro (rfl | rfl)
    · exact h.1 (hcode '_' (Or.inl rfl) hfold ▸ hl)
    · exact h.2 (hcode '-' (Or.inr rfl) hfold ▸ hl)

/-- A text of a list stands in the joined list between blanks. -/
theorem exists_around {texts : List String} {s : String} (h : s ∈ texts) :
    ∃ before after : List Char,
      (" ".intercalate texts).toList = before ++ s.toList ++ after ∧
        (before = [] ∨ before.getLast? = some ' ') ∧ (after = [] ∨ after.head? = some ' ') := by
  rw [String.toList_intercalate]
  induction texts with
  | nil => cases h
  | cons t rest ih =>
      cases rest with
      | nil =>
          obtain rfl := List.mem_singleton.mp h
          exact ⟨[], [], by simp, Or.inl rfl, Or.inl rfl⟩
      | cons u more =>
          simp only [List.map_cons, List.intercalate_cons_cons] at ih ⊢
          rcases List.mem_cons.mp h with rfl | hmem
          · exact ⟨[], " ".toList ++ [' '].intercalate (u.toList :: more.map String.toList),
              by simp, Or.inl rfl, Or.inr rfl⟩
          · obtain ⟨before, after, hjoin, hbefore, hafter⟩ := ih hmem
            refine ⟨t.toList ++ " ".toList ++ before, after, ?_, Or.inr ?_, hafter⟩
            · rw [hjoin]
              simp
            · rcases hbefore with rfl | hlast
              · simp
              · rw [List.getLast?_append, hlast]
                rfl

/-- What is dangerous in a text is so in all words it is read with. -/
theorem dangerous_words {allow : List String} {target : Placed} {nodes : Option (List Node)}
    {s : String} (hs : s ∈ textsOf target nodes) (h : dangerous allow s = true) :
    dangerous allow (wordsOf target nodes) = true := by
  have hne : s ≠ "" := by
    rintro rfl
    rw [dangerous, List.any_eq_true] at h
    obtain ⟨d, hd, htest⟩ := h
    have hnone : ∀ d ∈ DANGER, testAny isJsSpace d.2 "".toList = false := by decide
    rw [hnone d hd, Bool.and_false] at htest
    cases htest
  obtain ⟨before, after, hjoin, hbefore, hafter⟩ :=
    exists_around (List.mem_filter (p := fun s => decide (s ≠ "")).mpr ⟨hs, decide_eq_true hne⟩)
  rw [dangerous, List.any_eq_true] at h ⊢
  obtain ⟨d, hd, htest⟩ := h
  rw [Bool.and_eq_true, testAny, List.any_eq_true] at htest
  obtain ⟨hallow, p, hp, hmatch⟩ := htest
  obtain ⟨hbounded, hletters⟩ := danger_phrases d hd p hp
  refine ⟨d, hd, ?_⟩
  rw [Bool.and_eq_true, testAny, List.any_eq_true]
  refine ⟨hallow, p, hp, ?_⟩
  have hwords : (wordsOf target nodes).toList =
      before.map blank ++ s.toList.map blank ++ after.map blank := by
    rw [wordsOf, String.toList_ofList, hjoin, List.map_append, List.map_append]
  rw [hwords]
  refine Phrase.test_blur (blurs_blank hletters) hbounded ?_ ?_ hmatch
  · rw [List.getLast?_map]
    rcases hbefore with rfl | hlast
    · rfl
    · rw [hlast]
      decide
  · rw [List.head?_map]
    rcases hafter with rfl | hhead
    · rfl
    · rw [hhead]
      decide

/-- The node under the finger is the target or lies wholly inside it, or what is read there is
forbidden anyway. -/
def ReadsFinger (t : Touch) (nodes : List Node) (screen : Screen) (allow block : List String) :
    Prop :=
  ∀ n, UnderFinger t nodes screen allow n →
    ∃ target, (snap t.action (some nodes) screen).node = some target ∧
      (n = target ∨ isRead target n = true ∨
        Forbidden js allow block (wordsOf target (some nodes)))

/-- A touch of something dangerous is refused exactly where that node is read. -/
theorem leash_sees_iff (t : Touch) (nodes : List Node) (screen : Screen)
    (allow block : List String) :
    ((∃ n, UnderFinger t nodes screen allow n) → Refuses js t nodes screen allow block) ↔
      ReadsFinger js t nodes screen allow block := by
  rw [refuses_iff]
  constructor
  · intro h n hn
    obtain ⟨target, htarget, hforbidden⟩ := h ⟨n, hn⟩
    exact ⟨target, htarget, Or.inr (Or.inr hforbidden)⟩
  · rintro h ⟨n, hn⟩
    obtain ⟨target, htarget, hread⟩ := h n hn
    refine ⟨target, htarget, ?_⟩
    obtain ⟨p, -, ⟨hlands, -⟩, hdanger⟩ := hn
    have hwords : n.1.text ∈ textsOf target (some nodes) ∧ n.1.label ∈ textsOf target (some nodes) →
        Forbidden js allow block (wordsOf target (some nodes)) := by
      rintro ⟨htext, hlabel⟩
      exact Or.inr (hdanger.elim (dangerous_words htext) (dangerous_words hlabel))
    rcases hread with rfl | hinside | hforbidden
    · exact hwords ⟨by simp [textsOf], by simp [textsOf]⟩
    · have hmem : n ∈ (nodes.zipIdx).filter (isRead target) :=
        List.mem_filter.mpr ⟨hlands.mem, hinside⟩
      refine hwords ⟨?_, ?_⟩
      · exact List.mem_append_right _ (List.mem_flatMap.mpr ⟨n, hmem, by simp⟩)
      · exact List.mem_append_right _ (List.mem_flatMap.mpr ⟨n, hmem, by simp⟩)
    · exact hforbidden

/-- A text that is not marked tappable, alone on its screen. -/
def lonely : List Node :=
  [⟨"android.widget.TextView", "Delete account", "", "", "", false, true, some ⟨40, 900, 400, 80⟩⟩]

/-- The finger is on it, and the leash lets it. -/
theorem deleted_account :
    UnderFinger (.tap 100 940) lonely ⟨1080, 1920⟩ [] (lonely[0], 0) ∧
      ¬ Refuses Js.plain (.tap 100 940) lonely ⟨1080, 1920⟩ [] [] := by
  have hsnap : (snap (Touch.tap 100 940).action (some lonely) ⟨1080, 1920⟩).node = none := by
    decide +kernel
  refine ⟨⟨(100, 940), by decide +kernel,
    ⟨⟨by simp [lonely], rfl, Or.inl (by decide), by decide +kernel⟩, ?_⟩, Or.inl (by decide +kernel)⟩, ?_⟩
  · intro m hm
    obtain rfl : m = (lonely[0], 0) := by simpa [lonely] using hm.mem
    exact Rat.le_refl
  · rw [refuses_iff, hsnap]
    rintro ⟨target, htarget, -⟩
    cases htarget

end FleetRunner.Explore.Leash
