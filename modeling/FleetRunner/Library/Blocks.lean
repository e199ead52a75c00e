import Mathlib.Data.List.Forall2
import Mathlib.Algebra.GroupWithZero.Nat

/-!
# Outputs cut into blocks

An encoder goes through its items and writes a block for each. Whether a block
carries its item is a relation. What counts in a block is fixed by the item it
carries, so an encoder that drops something of one item cannot make up for it
with another.
-/

namespace FleetRunner.Library

variable {α β : Type*}

/-- The output is cut into blocks that carry the items, in order. -/
def InBlocks (carries : List β → α → Prop) (out : List β) (items : List α) : Prop :=
  ∃ blocks, out = blocks.flatten ∧ List.Forall₂ carries blocks items

/-- What an encoder writes for an item may depend on the items after it. -/
def encode (enc : α → List α → List β) : List α → List β
  | [] => []
  | a :: rest => enc a rest ++ encode enc rest

variable {carries : List β → α → Prop} {counts : β → Bool} {need : α → Nat}

theorem InBlocks.countP_eq (hneed : ∀ b a, carries b a → b.countP counts = need a)
    {out : List β} {items : List α} (h : InBlocks carries out items) :
    out.countP counts = (items.map need).sum := by
  obtain ⟨blocks, rfl, hall⟩ := h
  induction hall with
  | nil => rfl
  | cons hcarries _ ih =>
      rw [List.flatten_cons, List.countP_append, hneed _ _ hcarries, ih, List.map_cons, List.sum_cons]

section Encoder

variable {enc : α → List α → List β} {whole : α → Prop}

theorem inBlocks_encode {items : List α} (h : ∀ a ∈ items, ∀ rest, carries (enc a rest) a) :
    InBlocks carries (encode enc items) items := by
  induction items with
  | nil => exact ⟨[], rfl, .nil⟩
  | cons a rest ih =>
      obtain ⟨blocks, hout, hall⟩ := ih fun b hb => h b (List.mem_cons_of_mem _ hb)
      refine ⟨enc a rest :: blocks, ?_, .cons (h a List.mem_cons_self rest) hall⟩
      rw [encode, hout, List.flatten_cons]

theorem countP_encode_le (hle : ∀ a rest, (enc a rest).countP counts ≤ need a) (items : List α) :
    (encode enc items).countP counts ≤ (items.map need).sum := by
  induction items with
  | nil => exact Nat.le_refl 0
  | cons a rest ih =>
      rw [encode, List.countP_append, List.map_cons, List.sum_cons]
      exact Nat.add_le_add (hle a rest) ih

theorem countP_encode_lt (hle : ∀ a rest, (enc a rest).countP counts ≤ need a)
    (hlose : ∀ a rest, ¬whole a → (enc a rest).countP counts < need a) {items : List α} {a : α}
    (ha : a ∈ items) (hnot : ¬whole a) :
    (encode enc items).countP counts < (items.map need).sum := by
  induction items with
  | nil => cases ha
  | cons b rest ih =>
      rw [encode, List.countP_append, List.map_cons, List.sum_cons]
      rcases List.mem_cons.mp ha with rfl | ha
      · exact Nat.add_lt_add_of_lt_of_le (hlose a rest hnot) (countP_encode_le hle rest)
      · exact Nat.add_lt_add_of_le_of_lt (hle b rest) (ih ha)

/-- The encoder loses no item exactly when it can write every one of them whole. -/
theorem inBlocks_encode_iff (counts : β → Bool) (need : α → Nat)
    (hneed : ∀ b a, carries b a → b.countP counts = need a)
    (hkeep : ∀ a rest, whole a → carries (enc a rest) a)
    (hlose : ∀ a rest, ¬whole a → (enc a rest).countP counts < need a) (items : List α) :
    InBlocks carries (encode enc items) items ↔ ∀ a ∈ items, whole a := by
  constructor
  · intro h a ha
    by_contra hnot
    have hle : ∀ a rest, (enc a rest).countP counts ≤ need a := by
      intro a rest
      by_cases hwhole : whole a
      · exact Nat.le_of_eq (hneed _ _ (hkeep a rest hwhole))
      · exact Nat.le_of_lt (hlose a rest hwhole)
    exact absurd (h.countP_eq hneed) (Nat.ne_of_lt (countP_encode_lt hle hlose ha hnot))
  · intro h
    exact inBlocks_encode fun a ha rest => hkeep a rest (h a ha)

end Encoder

end FleetRunner.Library
