import FleetRunner.Embed.Math
import Mathlib.Data.List.Nodup

/-!
# A corpus document as the parsers read it

Both runners are given the same value. A number keeps the text it was written
with, because one of the runners reads that text. An object has one entry for a
key.
-/

namespace FleetRunner.Embed

inductive JsonElement where
  | null
  | bool (b : Bool)
  | num (literal : String)
  | str (s : String)
  | arr (elems : List JsonElement)
  | obj (fields : List (String × JsonElement))

/-- The entries of an object, in the order they were written. -/
abbrev Members := List (String × JsonElement)

namespace JsonElement

mutual

/-- No object has a key twice. -/
def WellFormed : JsonElement → Prop
  | .arr xs => WellFormedElems xs
  | .obj fs => (fs.map Prod.fst).Nodup ∧ WellFormedFields fs
  | _ => True

def WellFormedElems : List JsonElement → Prop
  | [] => True
  | x :: rest => WellFormed x ∧ WellFormedElems rest

def WellFormedFields : List (String × JsonElement) → Prop
  | [] => True
  | (_, v) :: rest => WellFormed v ∧ WellFormedFields rest

end

theorem WellFormedElems.mem : ∀ {xs : List JsonElement}, WellFormedElems xs →
    ∀ x ∈ xs, WellFormed x
  | x :: rest, h, y, hy => by
      rw [WellFormedElems] at h
      rcases List.mem_cons.mp hy with rfl | hy
      · exact h.1
      · exact h.2.mem y hy

theorem WellFormedFields.mem : ∀ {fs : Members}, WellFormedFields fs → ∀ p ∈ fs, WellFormed p.2
  | (k, v) :: rest, h, p, hp => by
      rw [WellFormedFields] at h
      rcases List.mem_cons.mp hp with rfl | hp
      · exact h.1
      · exact h.2.mem p hp

end JsonElement

/-- The elements of an array; a value that is none has none. -/
def elements : Option JsonElement → List JsonElement
  | some (.arr xs) => xs
  | _ => []

@[simp] theorem elements_arr (xs : List JsonElement) : elements (some (.arr xs)) = xs := rfl

/-- The entries of an object; a value that is none has none. -/
def members : Option JsonElement → Members
  | some (.obj o) => o
  | _ => []

/-- The entries of a document that is an object. -/
def rootOf (doc : JsonElement) : Members := members (some doc)

end FleetRunner.Embed
