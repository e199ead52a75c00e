import Mathlib.Data.List.Induction
import Mathlib.Order.Lattice

/-!
# The first maximum of a list

A scan that replaces the entry it holds only by a strictly better one ends with
the first of the best. `better` is the comparison the scan makes and `key` the
order it stands for.
-/

namespace FleetRunner.Library

variable {α β : Type*}

/-- One entry of the scan. -/
def pick (better : α → α → Bool) (best : Option α) (x : α) : Option α :=
  match best with
  | none => some x
  | some b => if better b x then some x else some b

def firstBest (better : α → α → Bool) (xs : List α) : Option α := xs.foldl (pick better) none

@[simp] theorem firstBest_nil (better : α → α → Bool) : firstBest better [] = none := rfl

@[simp] theorem firstBest_concat (better : α → α → Bool) (xs : List α) (x : α) :
    firstBest better (xs ++ [x]) = pick better (firstBest better xs) x := by
  simp [firstBest]

theorem firstBest_eq_none_iff {better : α → α → Bool} {xs : List α} :
    firstBest better xs = none ↔ xs = [] := by
  cases xs using List.reverseRecOn with
  | nil => simp
  | append_singleton past y =>
      refine iff_of_false ?_ (by simp)
      rw [firstBest_concat]
      unfold pick
      split
      · simp
      · split <;> simp

theorem mem_of_firstBest {better : α → α → Bool} {xs : List α} {x : α}
    (h : firstBest better xs = some x) : x ∈ xs := by
  induction xs using List.reverseRecOn with
  | nil => cases h
  | append_singleton past y ih =>
      rw [firstBest_concat] at h
      rw [List.mem_append, List.mem_singleton]
      unfold pick at h
      split at h
      · exact Or.inr (Option.some.inj h).symm
      · next b hpast =>
          split at h
          · exact Or.inr (Option.some.inj h).symm
          · exact Or.inl (ih (hpast.trans h))

/-- A scan that compares entries by what `f` makes of them is the scan of that. -/
theorem firstBest_map {better : α → α → Bool} {better' : β → β → Bool} {f : α → β} {xs : List α}
    (h : ∀ a ∈ xs, ∀ b ∈ xs, better' (f a) (f b) = better a b) :
    firstBest better' (xs.map f) = (firstBest better xs).map f := by
  induction xs using List.reverseRecOn with
  | nil => rfl
  | append_singleton past x ih =>
      have hpast : ∀ a ∈ past, ∀ b ∈ past, better' (f a) (f b) = better a b := fun a ha b hb =>
        h a (List.mem_append_left _ ha) b (List.mem_append_left _ hb)
      rw [List.map_append, List.map_singleton, firstBest_concat, firstBest_concat, ih hpast]
      cases hbest : firstBest better past with
      | none => rfl
      | some b =>
          have hb := List.mem_append_left [x] (mem_of_firstBest hbest)
          simp only [Option.map_some, pick, h b hb x (by simp)]
          split <;> rfl

variable [LinearOrder β]

/-- Entries before it are worse, entries after it are no better. -/
def FirstMax (key : α → β) (xs : List α) (x : α) : Prop :=
  ∃ before after, xs = before ++ x :: after ∧ (∀ y ∈ before, key y < key x) ∧
    ∀ y ∈ after, key y ≤ key x

namespace FirstMax

variable {key : α → β} {xs : List α} {x y : α}

theorem mem (h : FirstMax key xs x) : x ∈ xs := by
  obtain ⟨before, after, rfl, -, -⟩ := h
  simp

theorem le (h : FirstMax key xs x) (hy : y ∈ xs) : key y ≤ key x := by
  obtain ⟨before, after, rfl, hbefore, hafter⟩ := h
  rcases List.mem_append.mp hy with hy | hy
  · exact le_of_lt (hbefore y hy)
  · rcases List.mem_cons.mp hy with rfl | hy
    · exact le_rfl
    · exact hafter y hy

theorem singleton (key : α → β) (x : α) : FirstMax key [x] x :=
  ⟨[], [], rfl, by simp, by simp⟩

/-- A strictly better entry takes over. -/
theorem concat_of_lt (h : FirstMax key xs x) (hlt : key x < key y) :
    FirstMax key (xs ++ [y]) y :=
  ⟨xs, [], rfl, fun _ hz => lt_of_le_of_lt (h.le hz) hlt, by simp⟩

/-- Any other leaves the choice as it was. -/
theorem concat_of_le (h : FirstMax key xs x) (hle : key y ≤ key x) :
    FirstMax key (xs ++ [y]) x := by
  obtain ⟨before, after, rfl, hbefore, hafter⟩ := h
  refine ⟨before, after ++ [y], by simp, hbefore, fun z hz => ?_⟩
  rcases List.mem_append.mp hz with hz | hz
  · exact hafter z hz
  · obtain rfl := List.mem_singleton.mp hz
    exact hle

/-- The order of a list decides which maximum comes first, and not how good it is. -/
theorem key_eq_of_perm {ys : List α} (hx : FirstMax key xs x) (hy : FirstMax key ys y)
    (h : xs.Perm ys) : key x = key y :=
  le_antisymm (hy.le (h.mem_iff.mp hx.mem)) (hx.le (h.mem_iff.mpr hy.mem))

end FirstMax

/-- The scan keeps the first maximum. -/
theorem firstMax_of_firstBest {better : α → α → Bool} {key : α → β}
    (hbetter : ∀ a b, better a b = true ↔ key a < key b) {xs : List α} {x : α}
    (h : firstBest better xs = some x) : FirstMax key xs x := by
  induction xs using List.reverseRecOn generalizing x with
  | nil => cases h
  | append_singleton past y ih =>
      rw [firstBest_concat] at h
      cases hpast : firstBest better past with
      | none =>
          obtain rfl := firstBest_eq_none_iff.mp hpast
          obtain rfl : y = x := by simpa [pick] using h
          exact .singleton key y
      | some b =>
          rw [hpast] at h
          by_cases hb : better b y = true
          · obtain rfl : y = x := by simpa [pick, hb] using h
            exact (ih hpast).concat_of_lt ((hbetter b y).mp hb)
          · obtain rfl : b = x := by simpa [pick, hb] using h
            exact (ih hpast).concat_of_le (not_lt.mp fun hlt => hb ((hbetter b y).mpr hlt))

end FleetRunner.Library
