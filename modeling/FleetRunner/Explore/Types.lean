import FleetRunner.Findings.Validate
import FleetRunner.Library.Maximum
import Mathlib.Data.List.Sort

/-!
# The shapes the explore workload is built from (`types.ts`, `replay.ts`, `screenmap.ts`, `judge.ts`)

A mission looks at the screen, acts, and checks. It leaves a trajectory of the
model's steps, the list of what was executed, and the candidates its checks
raised, each on a screen of the screen map.

## Implementation notes

A stored screen was named when it was first seen, so an entry carries what its
naming guarantees. How like a stored screen the one in front is, and the hash of
what identifies it, come with the look.
-/

namespace FleetRunner.Explore

open Library

/-! ## Acting -/

inductive Key where
  | up | down | left | right | select | back | home | menu | play_pause | rewind | fast_forward
  | enter | search
  deriving DecidableEq

def Key.text : Key → String
  | .up => "up"
  | .down => "down"
  | .left => "left"
  | .right => "right"
  | .select => "select"
  | .back => "back"
  | .home => "home"
  | .menu => "menu"
  | .play_pause => "play_pause"
  | .rewind => "rewind"
  | .fast_forward => "fast_forward"
  | .enter => "enter"
  | .search => "search"

inductive Direction where
  | up | down | left | right
  deriving DecidableEq

def Direction.text : Direction → String
  | .up => "up"
  | .down => "down"
  | .left => "left"
  | .right => "right"

/-- One thing to do to the device, in screenshot pixels. -/
inductive Action where
  | tap (x y : Rat)
  | long_press (x y : Rat) (ms : Option Rat)
  | type (text : String) (x y : Option Rat) (overwrite enter : Bool)
  | swipe (x1 y1 x2 y2 : Rat) (ms : Option Rat)
  | scroll (direction : Direction) (factor : Option Rat)
  | key (key : Key)
  | hide_keyboard
  | wait (ms : Rat)

/-- One executed step: an action, or a harness event the replay must repeat. -/
inductive Executed where
  | action (step : Nat) (action : Action) (settleMs : Nat)
  | relaunch (step : Nat)
  | home (step : Nat)

def Executed.step : Executed → Nat
  | .action i _ _ => i
  | .relaunch i => i
  | .home i => i

/-! ## The trajectory -/

structure ToolCall where
  name : String
  args : Fields

/-- One model turn. -/
structure TrajectoryStep where
  i : Nat
  screen : String
  calls : List ToolCall

/-! ## Hashes -/

/-- A hash of `n` hex digits. -/
structure Digest (n : Nat) where
  text : String
  length : text.toList.length = n
  hex : text.toList.all Validate.isLowerHex = true

theorem charUnits_of_isLowerHex {c : Char} (h : Validate.isLowerHex c = true) : charUnits c = 1 := by
  have hle : c.toNat ≤ 'f'.toNat := by
    simp only [Validate.isLowerHex, Bool.or_eq_true, Bool.and_eq_true, decide_eq_true_eq] at h
    rcases h with ⟨-, h⟩ | ⟨-, h⟩
    · exact h
    · exact le_trans (show c.toNat ≤ '9'.toNat from h) (by decide)
  have hf : 'f'.toNat = 102 := rfl
  rw [charUnits, if_pos (by omega)]

namespace Digest

variable {n : Nat} (d : Digest n)

theorem charUnits_eq : ∀ c ∈ d.text.toList, charUnits c = 1 := fun _ hc =>
  charUnits_of_isLowerHex (List.all_eq_true.mp d.hex _ hc)

theorem jsLength_eq : jsLength d.text = n := by
  rw [jsLength, unitsOf_eq_length d.charUnits_eq, d.length]

/-- A slice of a hash is as long as asked, where the hash is. -/
theorem jsLength_jsSlice {m : Nat} (h : m ≤ n) : jsLength (jsSlice d.text m) = m := by
  rw [jsLength, jsSlice, String.toList_ofList, takeUnits_eq_take d.charUnits_eq,
    unitsOf_eq_length fun c hc => d.charUnits_eq c (List.mem_of_mem_take hc), List.length_take,
    d.length]
  omega

end Digest

/-! ## The screen map -/

structure Bounds where
  y : Rat
  h : Rat

structure A11yNode where
  text : String
  label : String
  bounds : Option Bounds

/-- `n.text || n.label` -/
def A11yNode.shown (n : A11yNode) : String := if n.text ≠ "" then n.text else n.label

/-- `/^\d+[:.]\d+/` -/
def clockLike (s : String) : Bool :=
  match s.toList.span Char.isDigit with
  | (_ :: _, c :: d :: _) => (c = ':' || c = '.') && d.isDigit
  | _ => false

/-- Title-like text near the top of the screen, with where it stands. -/
def titleLike (height : Rat) (n : A11yNode) : Option (Bounds × String) :=
  n.bounds.bind fun b =>
    let name := jsTrim n.shown
    if n.shown ≠ "" ∧ b.y < height / 4 ∧ height / 50 < b.y ∧ 2 ≤ jsLength name ∧ jsLength name ≤ 40 ∧
        clockLike name = false then some (b, name)
    else none

/-- The tallest first, then the topmost. -/
def Before (p q : Bounds × String) : Prop := q.1.h < p.1.h ∨ p.1.h = q.1.h ∧ p.1.y ≤ q.1.y

instance : DecidableRel Before := fun _ _ => inferInstanceAs (Decidable (_ ∨ _))

/-- The most title-like text, else the first short one, else the fallback. -/
def screenName (nodes : Option (List A11yNode)) (height : Rat) (fallback : String) : String :=
  match nodes with
  | none => fallback
  | some nodes =>
      match (nodes.filterMap (titleLike height)).insertionSort Before with
      | (_, name) :: _ => name
      | [] =>
          match nodes.find? fun n =>
            decide (3 ≤ jsLength (jsTrim n.shown)) && decide (jsLength (jsTrim n.shown) ≤ 40) with
          | some n => jsTrim n.shown
          | none => fallback

theorem jsLength_screenName_le (nodes : Option (List A11yNode)) (height : Rat) {fallback : String}
    (h : jsLength fallback ≤ 40) : jsLength (screenName nodes height fallback) ≤ 40 := by
  cases nodes with
  | none => exact h
  | some nodes =>
    simp only [screenName]
    split
    · rename_i b name rest hsorted
      have hmem : (b, name) ∈ nodes.filterMap (titleLike height) := by
        rw [← List.mem_insertionSort Before, hsorted]
        exact List.mem_cons_self
      obtain ⟨n, -, hn⟩ := List.mem_filterMap.mp hmem
      obtain ⟨b', -, hb⟩ := Option.bind_eq_some_iff.mp hn
      dsimp only at hb
      split at hb
      · rename_i hguard
        rw [← (Prod.mk.inj (Option.some.inj hb)).2]
        exact hguard.2.2.2.2.1
      · cases hb
    · split
      · rename_i n hfind
        have hn := List.find?_some hfind
        simp only [Bool.and_eq_true, decide_eq_true_eq] at hn
        exact hn.2
      · exact h

/-- A screen of the map. -/
structure ScreenEntry where
  id : String
  name : String
  id_length : jsLength id = 10
  name_length : jsLength name ≤ 40

/-- One look at the screen, as the map is asked about it. -/
structure Look where
  nodes : Option (List A11yNode)
  height : Rat
  /-- how like this one a stored screen is -/
  score : ScreenEntry → Rat
  /-- the hash of what identifies the screen -/
  hash : Digest 40

def newScreen (look : Look) : ScreenEntry where
  id := jsSlice look.hash.text 10
  name := screenName look.nodes look.height ("screen " ++ jsSlice (jsSlice look.hash.text 10) 4)
  id_length := look.hash.jsLength_jsSlice (by omega)
  name_length := by
    apply jsLength_screenName_le
    have hword : jsLength "screen " = 7 := by decide
    have hid := jsLength_jsSlice_le (jsSlice look.hash.text 10) 4
    rw [jsLength_append]
    omega

/-- Which screen this is; adds it to the map when it is new. -/
def identify (map : List ScreenEntry) (look : Look) : ScreenEntry × List ScreenEntry :=
  let added := (newScreen look, map ++ [newScreen look])
  match firstBest (fun best s => decide (look.score best < look.score s))
    (map.filter fun s => decide (0 < look.score s)) with
  | some best => if look.score best < 3 / 5 then added else (best, map)
  | none => added

def byId (map : List ScreenEntry) (id : String) : Option ScreenEntry :=
  map.find? fun s => decide (s.id = id)

/-! ## The judge -/

/-- `VISUAL_CLASSES` -/
inductive VisualClass where
  | overlap | clipped | raw_error | untranslated | placeholder | low_contrast | broken_layout
  | empty_state
  deriving DecidableEq

def VisualClass.text : VisualClass → String
  | .overlap => "overlap"
  | .clipped => "clipped"
  | .raw_error => "raw_error"
  | .untranslated => "untranslated"
  | .placeholder => "placeholder"
  | .low_contrast => "low_contrast"
  | .broken_layout => "broken_layout"
  | .empty_state => "empty_state"

structure VisualIssue where
  cls : VisualClass
  description : String
  where_ : String

end FleetRunner.Explore
