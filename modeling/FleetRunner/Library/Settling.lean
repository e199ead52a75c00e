import Mathlib.Data.List.Basic

/-!
# Verdicts on growing input

Input comes in pieces, and a reader looks at all of it after each piece until it
can tell what it is. Where a verdict stands whatever comes behind, how the input
was cut into pieces does not matter. A reader may also give up on input it has
no verdict on; then this holds as long as it gives up on no beginning of it.
-/

namespace FleetRunner.Library

variable {β γ : Type*}

/-- A verdict, once there, stands. -/
def Settles (verdict : List β → Option γ) : Prop :=
  ∀ {xs v}, verdict xs = some v → ∀ more, verdict (xs ++ more) = some v

variable {verdict giveUp : List β → Option γ}

variable (verdict giveUp) in
/-- What a reader that has no verdict yet makes of one more piece. -/
def readPiece (read : List β) (piece : List β) : List β × Option γ :=
  (read ++ piece, (verdict (read ++ piece)).or (giveUp (read ++ piece)))

variable (verdict) in
/-- A reader knows of the whole input what there is to know, and keeps it until it does. -/
def Follows (whole : List β) (reader : List β × Option γ) : Prop :=
  reader.2 = verdict whole ∧ (reader.2 = none → reader.1 = whole)

/-- A reader that is through stays so. -/
theorem Follows.of_isSome (h : Settles verdict) {whole : List β} {reader : List β × Option γ}
    (hf : Follows verdict whole reader) (hdone : reader.2.isSome) (more : List β) :
    Follows verdict (whole ++ more) reader := by
  obtain ⟨v, hv⟩ := Option.isSome_iff_exists.mp hdone
  refine ⟨hv.trans (h (hf.1.symm.trans hv) more).symm, fun hnone => ?_⟩
  exact absurd (hnone.symm.trans hv) (Option.some_ne_none v).symm

/-- One that is not reads on, and does not give up on the beginning of what it has a verdict on. -/
theorem Follows.readPiece {whole : List β} {reader : List β × Option γ}
    (hf : Follows verdict whole reader) (hopen : reader.2 = none) {piece : List β}
    (hpatient : verdict (whole ++ piece) = none → giveUp (whole ++ piece) = none) :
    Follows verdict (whole ++ piece) (readPiece verdict giveUp reader.1 piece) := by
  rw [hf.2 hopen]
  refine ⟨?_, fun _ => rfl⟩
  cases hv : verdict (whole ++ piece) with
  | some v => exact congrArg (Option.or · _) hv
  | none =>
      have hnone : (verdict (whole ++ piece)).or (giveUp (whole ++ piece)) = none := by
        rw [hv, hpatient hv, Option.none_or]
      exact hnone

end FleetRunner.Library
