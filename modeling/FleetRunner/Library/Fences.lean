import FleetRunner.Library.Pieces
import Mathlib.Data.List.Infix
import Mathlib.Data.List.TakeWhile

/-!
# Fenced code blocks

The rules by which CommonMark finds fenced code blocks among the lines of a
text. A fence is a run of at least three backticks or tildes, indented by three
blanks at most; the text after an opening run of backticks has no backtick, and
nothing but blanks and tabs follows a closing one, which is at least as long. All
lines in between are the block's own.
-/

namespace FleetRunner.Library

/-- The mark and the length of an opening fence. -/
abbrev Fence := Char × Nat

def backtick : Char := Char.ofNat 96

def isBreak (c : Char) : Bool := c = '\n' || c = '\r'

/-- The lines of a text. A carriage return with its line feed ends a line and leaves an empty one,
which opens and closes nothing. -/
def physicalLines (cs : List Char) : List (List Char) := cs.splitOnP isBreak

def indented (line : List Char) : Bool := 3 < (line.takeWhile (· = ' ')).length

def runOf (mark : Char) (line : List Char) : Nat :=
  ((line.dropWhile (· = ' ')).takeWhile (· = mark)).length

def afterRun (mark : Char) (line : List Char) : List Char :=
  (line.dropWhile (· = ' ')).dropWhile (· = mark)

def opens (line : List Char) : Option Fence :=
  if indented line then none
  else if 3 ≤ runOf backtick line ∧ backtick ∉ afterRun backtick line then some (backtick, runOf backtick line)
  else if 3 ≤ runOf '~' line then some ('~', runOf '~' line)
  else none

def closes (fence : Fence) (line : List Char) : Bool :=
  !indented line && decide (fence.2 ≤ runOf fence.1 line) &&
    (afterRun fence.1 line).all fun c => c = ' ' || c = '\t'

/-- The open block, if any, after one more line. -/
def blockStep (block : Option Fence) (line : List Char) : Option Fence :=
  match block with
  | none => opens line
  | some fence => if closes fence line then none else some fence

def scan (block : Option Fence) (lines : List (List Char)) : Option Fence :=
  lines.foldl blockStep block

theorem scan_append (block : Option Fence) (xs ys : List (List Char)) :
    scan block (xs ++ ys) = scan (scan block xs) ys := List.foldl_append

/-- Lines that do not close a block leave it open. -/
theorem scan_of_not_closes {fence : Fence} {lines : List (List Char)}
    (h : ∀ l ∈ lines, closes fence l = false) : scan (some fence) lines = some fence := by
  induction lines with
  | nil => rfl
  | cons l rest ih =>
      have hstep : blockStep (some fence) l = some fence := by
        rw [blockStep, h l List.mem_cons_self]
        rfl
      change scan (blockStep (some fence) l) rest = some fence
      rw [hstep]
      exact ih fun x hx => h x (List.mem_cons_of_mem l hx)

theorem opens_length {line : List Char} {fence : Fence} (h : opens line = some fence) :
    3 ≤ fence.2 := by
  unfold opens at h
  split at h
  · cases h
  · split at h
    · rename_i hrun
      cases h
      exact hrun.1
    · split at h
      · rename_i hrun
        cases h
        exact hrun
      · cases h

/-- An open block's fence has at least three marks. -/
theorem scan_length {lines : List (List Char)} {fence : Fence} (h : scan none lines = some fence) :
    3 ≤ fence.2 := by
  induction lines using List.reverseRecOn with
  | nil => cases h
  | append_singleton rest l ih =>
      rw [scan_append] at h
      change blockStep (scan none rest) l = some fence at h
      cases hblock : scan none rest with
      | none =>
          rw [hblock] at h
          exact opens_length h
      | some open_ =>
          rw [hblock] at h
          unfold blockStep at h
          by_cases hclose : closes open_ l = true
          · simp [hclose] at h
          · simp only [hclose, if_false, Bool.false_eq_true] at h
            cases h
            exact ih hblock

/-- A line that closes no block and opens none leaves the state alone. -/
theorem blockStep_of_inert {line : List Char} (hopen : opens line = none)
    {block : Option Fence} (hclose : ∀ fence, block = some fence → closes fence line = false) :
    blockStep block line = block := by
  cases block with
  | none => exact hopen
  | some fence => simp [blockStep, hclose fence rfl]

/-! ## Lines of marks -/

/-- A line of one mark. -/
def bar (mark : Char) (n : Nat) : List Char := List.replicate n mark

theorem dropWhile_bar {mark : Char} (hmark : mark ≠ ' ') (n : Nat) :
    (bar mark n).dropWhile (· = ' ') = bar mark n := by
  cases n with
  | zero => rfl
  | succ n => simp [bar, List.replicate_succ, hmark]

theorem runOf_bar {mark : Char} (hmark : mark ≠ ' ') (n : Nat) : runOf mark (bar mark n) = n := by
  rw [runOf, dropWhile_bar hmark]
  simp [bar]

theorem afterRun_bar {mark : Char} (hmark : mark ≠ ' ') (n : Nat) :
    afterRun mark (bar mark n) = [] := by
  rw [afterRun, dropWhile_bar hmark]
  simp [bar]

theorem indented_bar {mark : Char} (hmark : mark ≠ ' ') (n : Nat) :
    indented (bar mark n) = false := by
  cases n with
  | zero => rfl
  | succ n => simp [indented, bar, List.replicate_succ, hmark]

theorem opens_bar {n : Nat} (hn : 3 ≤ n) : opens (bar backtick n) = some (backtick, n) := by
  have hmark : backtick ≠ ' ' := by decide
  rw [opens, indented_bar hmark, runOf_bar hmark, afterRun_bar hmark]
  simp [hn]

theorem closes_bar {mark : Char} (hmark : mark ≠ ' ') (n : Nat) :
    closes (mark, n) (bar mark n) = true := by
  simp [closes, indented_bar hmark, runOf_bar hmark, afterRun_bar hmark]

/-- A line that begins with anything but a blank or a mark opens nothing. -/
theorem opens_of_head {c : Char} {rest : List Char} (hblank : c ≠ ' ') (htick : c ≠ backtick)
    (htilde : c ≠ '~') : opens (c :: rest) = none := by
  simp [opens, runOf, hblank, htick, htilde]

/-- Where no run of marks is as long as the fence, nothing closes it. -/
theorem not_closes_of_runs {mark : Char} {n : Nat} {line : List Char}
    (h : ¬ bar mark n <:+: line) : closes (mark, n) line = false := by
  by_contra hclose
  rw [Bool.not_eq_false] at hclose
  simp only [closes, Bool.and_eq_true, decide_eq_true_eq] at hclose
  obtain ⟨⟨-, hrun⟩, -⟩ := hclose
  apply h
  have htake : (line.dropWhile (· = ' ')).takeWhile (· = mark) = bar mark (runOf mark line) := by
    refine List.eq_replicate_iff.mpr ⟨rfl, fun c hc => ?_⟩
    simpa using List.mem_takeWhile_imp hc
  have hbar : bar mark n <+: bar mark (runOf mark line) := by
    refine ⟨bar mark (runOf mark line - n), ?_⟩
    rw [bar, bar, bar, List.replicate_append_replicate]
    congr 1
    omega
  have hprefix : bar mark n <+: line.dropWhile (· = ' ') := by
    refine hbar.trans ?_
    rw [← htake]
    exact List.takeWhile_prefix _
  exact hprefix.isInfix.trans (List.dropWhile_suffix _).isInfix

/-! ## The lines of a text -/

theorem isInfix_of_mem_physicalLines {cs l : List Char} (h : l ∈ physicalLines cs) : l <:+: cs :=
  (splitOnP_pieces isBreak cs).2 l h

theorem physicalLines_of_no_break {cs : List Char} (h : ∀ c ∈ cs, isBreak c = false) :
    physicalLines cs = [cs] := List.splitOnP_eq_singleton h

end FleetRunner.Library
