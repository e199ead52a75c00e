import FleetRunner.Js.Value
import Mathlib.Algebra.GroupWithZero.Nat
import Mathlib.Data.List.Infix

/-!
# Text as the engine measures it

The engine counts UTF-16 units: a character outside the basic plane is two.

## Implementation notes

A slice that ends between the two units of a character keeps half of it. The
half is kept as the replacement character, which is one unit long, is not white
space, and is what a UTF-8 store writes for it.
-/

namespace FleetRunner

def charUnits (c : Char) : Nat := if c.toNat < 0x10000 then 1 else 2

def unitsOf (cs : List Char) : Nat := (cs.map charUnits).sum

/-- `s.length` -/
def jsLength (s : String) : Nat := unitsOf s.toList

/-- The one or two units of a character. -/
def codeUnits (c : Char) : List Nat :=
  if c.toNat < 0x10000 then [c.toNat]
  else [0xd800 + (c.toNat - 0x10000) / 0x400, 0xdc00 + (c.toNat - 0x10000) % 0x400]

def unitsLe : List Nat → List Nat → Bool
  | [], _ => true
  | _ :: _, [] => false
  | a :: as, b :: bs => decide (a < b) || (decide (a = b) && unitsLe as bs)

/-- `s <= t` as the engine orders strings: unit by unit. -/
def jsTextLe (s t : String) : Prop :=
  unitsLe (s.toList.flatMap codeUnits) (t.toList.flatMap codeUnits) = true

instance : DecidableRel jsTextLe := fun _ _ => inferInstanceAs (Decidable (_ = true))

/-- The first `n` units. -/
def takeUnits : List Char → Nat → List Char
  | [], _ => []
  | c :: rest, n =>
      if charUnits c ≤ n then c :: takeUnits rest (n - charUnits c)
      else if n = 0 then [] else [Char.ofNat 0xfffd]

/-- `s.slice(0, n)` -/
def jsSlice (s : String) (n : Nat) : String := String.ofList (takeUnits s.toList n)

/-- `s.trim() === ""` -/
def isBlank (s : String) : Bool := s.toList.all isJsSpace

/-- `s.trim()` -/
def jsTrim (s : String) : String :=
  String.ofList ((s.toList.dropWhile isJsSpace).reverse.dropWhile isJsSpace).reverse

@[simp] theorem unitsOf_nil : unitsOf [] = 0 := rfl

@[simp] theorem unitsOf_cons (c : Char) (cs : List Char) :
    unitsOf (c :: cs) = charUnits c + unitsOf cs := by
  simp [unitsOf]

@[simp] theorem unitsOf_append (cs ds : List Char) : unitsOf (cs ++ ds) = unitsOf cs + unitsOf ds := by
  simp [unitsOf]

theorem charUnits_le (c : Char) : charUnits c ≤ 2 := by
  unfold charUnits
  split <;> omega

@[simp] theorem jsLength_append (s t : String) : jsLength (s ++ t) = jsLength s + jsLength t := by
  simp [jsLength]

theorem unitsOf_takeUnits_le (cs : List Char) (n : Nat) : unitsOf (takeUnits cs n) ≤ n := by
  induction cs generalizing n with
  | nil => simp [takeUnits]
  | cons c rest ih =>
      rw [takeUnits]
      split
      · rename_i hfits
        have hrest := ih (n - charUnits c)
        rw [unitsOf_cons]
        omega
      · have hhalf : unitsOf [Char.ofNat 0xfffd] = 1 := by decide
        split
        · simp
        · omega

/-- A slice is no longer than asked. -/
theorem jsLength_jsSlice_le (s : String) (n : Nat) : jsLength (jsSlice s n) ≤ n := by
  simpa [jsLength, jsSlice] using unitsOf_takeUnits_le s.toList n

/-- Text that is no longer than the slice is all there. -/
theorem jsSlice_of_le {s : String} {n : Nat} (h : jsLength s ≤ n) : jsSlice s n = s := by
  have htake : ∀ (cs : List Char) (m : Nat), unitsOf cs ≤ m → takeUnits cs m = cs := by
    intro cs
    induction cs with
    | nil => intros; rfl
    | cons c rest ih =>
        intro m hm
        rw [unitsOf_cons] at hm
        rw [takeUnits, if_pos (by omega), ih _ (by omega)]
  rw [jsSlice, htake _ n h, String.ofList_toList]

/-- Text of one-unit characters is sliced like a list. -/
theorem takeUnits_eq_take {cs : List Char} (h : ∀ c ∈ cs, charUnits c = 1) (n : Nat) :
    takeUnits cs n = cs.take n := by
  induction cs generalizing n with
  | nil => simp [takeUnits]
  | cons c rest ih =>
      have hc := h c List.mem_cons_self
      cases n with
      | zero => simp [takeUnits, hc]
      | succ n =>
          rw [takeUnits, if_pos (by omega), ih (fun d hd => h d (List.mem_cons_of_mem _ hd))]
          simp [hc]

theorem unitsOf_eq_length {cs : List Char} (h : ∀ c ∈ cs, charUnits c = 1) :
    unitsOf cs = cs.length := by
  induction cs with
  | nil => rfl
  | cons c rest ih =>
      rw [unitsOf_cons, h c List.mem_cons_self, ih fun d hd => h d (List.mem_cons_of_mem _ hd),
        List.length_cons]
      omega

/-- `s.replace(c, d)` for single characters: the first one only. -/
def replaceFirst (c d : Char) : List Char → List Char
  | [] => []
  | x :: rest => if x = c then d :: rest else x :: replaceFirst c d rest

/-- `Math.round(x)` -/
def mathRound (x : Rat) : Rat := ((x + 1 / 2).floor : Int)

theorem charsInclude_of_isInfix {hay needle : List Char} (h : needle <:+: hay) :
    charsInclude hay needle = true := by
  induction hay with
  | nil =>
      obtain rfl := List.infix_nil.mp h
      rfl
  | cons c rest ih =>
      rw [charsInclude, Bool.or_eq_true]
      rcases List.infix_cons_iff.mp h with hpre | hrest
      · exact Or.inl (List.isPrefixOf_iff_prefix.mpr hpre)
      · exact Or.inr (ih hrest)

end FleetRunner
