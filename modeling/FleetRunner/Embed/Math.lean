import Mathlib.Algebra.Order.Field.Basic
import Mathlib.Algebra.Order.Group.Abs
import Mathlib.Data.List.Sort
import Mathlib.Order.WithBot

/-!
# The arithmetic of an embedding eval (`EmbedMath`, `EmbeddingSanity`)

Cosine similarity, what counts as an embedding, and the probe that a backend has
to pass before anything is scored. The two runners compute these alike, step by
step; what they write differently is in `Embed.Android` and `Embed.Ios`.

## Implementation notes

Arithmetic is exact, in any ordered field with a square root function. A float
is its value, or nothing where it is not finite. A similarity that is `NaN` is
ranked as minus infinity.
-/

namespace FleetRunner.Embed

/-- What either runner fails a job with. -/
inductive Failure where
  | notObject
  | missing (what : String)
  | noText (what : String) (i : Nat)
  | neither (what : String) (i : Nat)
  | notPrimitive
  | noDocs
  | noQueries
  | zeroWidth
  | widths (first second control : Nat)
  | noDirection (label : String)
  | identity
  | collapsed
  | width (what id : String) (got expected : Nat)
  | degenerate (what id : String)
  | nothingScored
  deriving DecidableEq

abbrev Vec (K : Type) := List (Option K)

section Arithmetic

variable {K : Type} [Field K] [LinearOrder K]

/-- The values of a vector whose entries are all finite. -/
def finite? (v : Vec K) : Option (List K) := v.mapM id

def dot (x y : List K) : K := (List.zipWith (· * ·) x y).foldl (· + ·) 0

variable (sqrt : K → K)

/-- `NaN` when the widths differ or either vector has no direction. -/
def cosine (a b : Vec K) : Option K :=
  if a.length ≠ b.length ∨ a.isEmpty = true then none
  else
    match finite? a, finite? b with
    | some x, some y =>
      if dot x x ≤ 0 ∨ dot y y ≤ 0 then none
      else some (dot x y / (sqrt (dot x x) * sqrt (dot y y)))
    | _, _ => none

def hasDirection (v : Vec K) : Bool := (finite? v).any fun x => decide (0 < dot x x)

/-- `cosine`, with `NaN` below every number. -/
def similarity (a b : Vec K) : WithBot K := cosine sqrt a b

def identityTolerance : K := 1 / 1000

def collapseTolerance : K := 1 / 100000

def probe : String := "fleet runner embedding sanity probe"

def probeOther : String := "sphinx of black quartz judge my vow"

/-- `EmbeddingSanity.check` -/
def check (repeatA repeatB other : Vec K) : Option Failure :=
  if repeatA.isEmpty then some .zeroWidth
  else if repeatB.length ≠ repeatA.length ∨ other.length ≠ repeatA.length then
    some (.widths repeatA.length repeatB.length other.length)
  else
    match [("first", repeatA), ("second", repeatB), ("control", other)].find? fun p =>
        !hasDirection p.2 with
    | some p => some (.noDirection p.1)
    | none =>
      if (cosine sqrt repeatA repeatB).all fun c => decide (identityTolerance < |1 - c|) then
        some .identity
      else if (cosine sqrt repeatA other).any fun c => decide (1 - collapseTolerance < c) then
        some .collapsed
      else none

variable (embed : String → Vec K)

/-- The width every vector has to have, once the backend looks sane. -/
def probed : Except Failure Nat :=
  let probeA := embed probe
  match check sqrt probeA (embed probe) (embed probeOther) with
  | some problem => .error problem
  | none => .ok probeA.length

end Arithmetic

/-! ## Entries and counts -/

structure CorpusEntry where
  id : String
  text : String

structure Corpus where
  docs : List CorpusEntry
  queries : List CorpusEntry
  relevant : List (String × List String)

section Embedding

variable {K : Type} [Field K] [LinearOrder K]

/-- Embeds one entry and refuses a degenerate vector. -/
def embedOne (embed : String → Vec K) (dim : Nat) (what : String) (entry : CorpusEntry) :
    Except Failure (Vec K) :=
  let v := embed entry.text
  if v.length ≠ dim then .error (.width what entry.id v.length dim)
  else if hasDirection v then .ok v
  else .error (.degenerate what entry.id)

end Embedding

structure Tally where
  scored : Nat
  hits1 : Nat
  hits5 : Nat
  hits10 : Nat

def Tally.zero : Tally := ⟨0, 0, 0, 0⟩

/-- Count a query that was scored. -/
def Tally.add (t : Tally) (h1 h5 h10 : Bool) : Tally :=
  ⟨t.scored + 1, t.hits1 + h1.toNat, t.hits5 + h5.toNat, t.hits10 + h10.toNat⟩

structure Report where
  queries_scored : Nat
  recall_at_1 : Rat
  recall_at_5 : Rat
  recall_at_10 : Rat
  deriving DecidableEq

def Tally.report (t : Tally) : Except Failure Report :=
  if t.scored = 0 then .error .nothingScored
  else .ok ⟨t.scored, t.hits1 / t.scored, t.hits5 / t.scored, t.hits10 / t.scored⟩

end FleetRunner.Embed
