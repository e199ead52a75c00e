import Mathlib.Data.List.Basic
import Mathlib.Data.List.Induction

/-!
# At most so many in any window

A sliding window keeps the times of what was let through and lets another
through while fewer than `max` of them are recent. Times do not decrease. Then
no stretch of time as long as the window holds more than `max`, and old times
may be forgotten without a difference.
-/

namespace FleetRunner.Library.Window

variable (window max : Nat)

/-- The times that still count. -/
def recent (now : Nat) (times : List Nat) : List Nat :=
  times.filter fun t => decide (now - t < window)

@[simp] theorem recent_nil (now : Nat) : recent window now [] = [] := rfl

/-- Each time was let through while fewer than `max` before it were recent. -/
def Paced (times : List Nat) : Prop :=
  ∀ past t later, times = past ++ t :: later → (recent window t past).length < max

variable {window max} {now : Nat} {times : List Nat}

/-- What no longer counts does not count later. -/
theorem recent_recent {later : Nat} (h : now ≤ later) (times : List Nat) :
    recent window later (recent window now times) = recent window later times := by
  unfold recent
  rw [List.filter_filter]
  apply List.filter_congr
  intro t _
  by_cases hlate : later - t < window
  · have hnow : now - t < window := by omega
    simp [hlate, hnow]
  · simp [hlate]

theorem Paced.concat (h : Paced window max times) (hroom : (recent window now times).length < max) :
    Paced window max (times ++ [now]) := by
  intro past t later heq
  rcases List.append_eq_append_iff.mp heq with ⟨mid, hpast, hrest⟩ | ⟨mid, htimes, hlater⟩
  · cases mid with
    | nil =>
        obtain ⟨rfl, -⟩ := List.cons.inj hrest
        rw [hpast, List.append_nil]
        exact hroom
    | cons m mid =>
        exfalso
        have hlen := congrArg List.length hrest
        simp at hlen
  · cases mid with
    | nil =>
        obtain ⟨rfl, -⟩ := List.cons.inj hlater
        rw [List.append_nil] at htimes
        rw [← htimes]
        exact hroom
    | cons m mid =>
        obtain ⟨rfl, -⟩ := List.cons.inj hlater
        exact h past t mid htimes

/-- No stretch as long as the window holds more than `max`. -/
theorem Paced.length_le (h : Paced window max times) (horder : times.Pairwise (· ≤ ·))
    (since : Nat) :
    (times.filter fun t => decide (since ≤ t ∧ t < since + window)).length ≤ max := by
  induction times using List.reverseRecOn with
  | nil => exact Nat.zero_le max
  | append_singleton past t ih =>
      obtain ⟨hpast, -, hlast⟩ := List.pairwise_append.mp horder
      have hprefix : Paced window max past := by
        intro before s later heq
        exact h before s (later ++ [t]) (by simp [heq])
      rw [List.filter_append, List.length_append]
      by_cases hin : since ≤ t ∧ t < since + window
      · have hroom := h past t [] rfl
        have hsub : (past.filter fun s => decide (since ≤ s ∧ s < since + window)).Sublist
            (recent window t past) := by
          apply List.monotone_filter_right
          intro s hs
          simp only [decide_eq_true_eq] at hs ⊢
          omega
        have hle := hsub.length_le
        simp only [hin, and_self, decide_true, List.filter_cons_of_pos, List.filter_nil,
          List.length_singleton]
        omega
      · have hrest := ih hprefix hpast
        simpa [hin] using hrest

end FleetRunner.Library.Window
