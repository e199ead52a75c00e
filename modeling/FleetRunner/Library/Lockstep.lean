import Mathlib.Logic.Function.Iterate

/-!
# Loops in lockstep

Two programs do the same work on values that they hold differently. `e` is how
one of them holds a value of the other. Where it holds for a turn of a loop it
holds for the loop, whatever else the one program can come to.
-/

namespace FleetRunner.Library

universe u

variable {m : Type u → Type u} [Monad m] {α β : Type u}

/-- A turn, a number of times. -/
def timesM (turn : α → m α) : Nat → α → m α
  | 0, a => pure a
  | n + 1, a => turn a >>= timesM turn n

theorem timesM_lockstep [LawfulMonad m] {turn : α → m α} {f : β → β} {e : β → α}
    (h : ∀ b, turn (e b) = pure (e (f b))) (n : Nat) (b : β) :
    timesM turn n (e b) = pure (e (f^[n] b)) := by
  induction n generalizing b with
  | zero => rfl
  | succ n ih => rw [timesM, h, pure_bind, ih, Function.iterate_succ_apply]

variable {ι ρ : Type u}

/-- A turn for each element, with what each comes to. -/
def eachM (turn : ι → α → m (ρ × α)) : List ι → α → m (List ρ × α)
  | [], a => pure ([], a)
  | i :: rest, a => do
    let p ← turn i a
    let q ← eachM turn rest p.2
    pure (p.1 :: q.1, q.2)

theorem eachM_lockstep [LawfulMonad m] {turn : ι → α → m (ρ × α)} {f : β → β} {e : β → α}
    {result : ι → ρ} (h : ∀ i b, turn i (e b) = pure (result i, e (f b))) (is : List ι) (b : β) :
    eachM turn is (e b) = pure (is.map result, e (f^[is.length] b)) := by
  induction is generalizing b with
  | nil => rfl
  | cons i rest ih =>
      rw [eachM, h, pure_bind, ih, pure_bind, List.map_cons, List.length_cons,
        Function.iterate_succ_apply]

end FleetRunner.Library
