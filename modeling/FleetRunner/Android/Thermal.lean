import Mathlib.Data.List.Chain
import Mathlib.Data.Rat.Defs
import Mathlib.Order.Defs.LinearOrder

/-!
# The thermal loop (`ThermalEngine.kt`)

A thermal run measures one iteration after the other until its duration has run out.
The starts are paced by an interval, and a beacon goes out behind an iteration when the
last one is old enough.

The clock is read before the pause, behind it, and behind the iteration. What the loop
asks of the duration and of the beacon it asks without the pause that may come.

## Implementation notes

Posts and telemetry take no time, so that the clock only goes on in a pause and in an
iteration. A list holds what each turn meets; it may end before the run does.
-/

namespace FleetRunner.Android

/-- The bookkeeping of a run. -/
structure ThermalRun where
  startedAtMs : Int
  durationMs : Int
  intervalMs : Nat
  beaconEveryMs : Nat
  lastBeaconAtMs : Int
  nextDueAtMs : Int
  states : List String
  decodeTokS : List Rat
  turnAtS : Option Rat

def BEACON_EVERY_MS : Nat := 60000

namespace ThermalRun

def new (startedAtMs durationMs : Int) (intervalMs beaconEveryMs : Nat) : ThermalRun where
  startedAtMs := startedAtMs
  durationMs := durationMs
  intervalMs := intervalMs
  beaconEveryMs := beaconEveryMs
  lastBeaconAtMs := startedAtMs
  nextDueAtMs := startedAtMs
  states := []
  decodeTokS := []
  turnAtS := none

variable (run : ThermalRun)

def elapsedS (nowMs : Int) : Rat := (nowMs - run.startedAtMs : Int) / 1000

def hasTimeLeft (nowMs : Int) : Bool := nowMs - run.startedAtMs < run.durationMs

def waitBeforeNextMs (nowMs : Int) : Int := max (run.nextDueAtMs - nowMs) 0

def startedIteration (nowMs : Int) : ThermalRun :=
  { run with nextDueAtMs := nowMs + run.intervalMs }

def dueToBeacon (nowMs : Int) : Bool := run.beaconEveryMs ≤ nowMs - run.lastBeaconAtMs

def beaconed (nowMs : Int) : ThermalRun := { run with lastBeaconAtMs := nowMs }

/-- Folds one finished iteration into the curve. -/
def record (elapsedS : Rat) (decode : Rat) (thermal : String) : ThermalRun :=
  { run with
    turnAtS :=
      if run.turnAtS = none ∧ run.states ≠ [] ∧ run.states.head? ≠ some thermal then some elapsedS
      else run.turnAtS
    states := run.states ++ [thermal]
    decodeTokS := run.decodeTokS ++ [decode] }

end ThermalRun

/-- What a turn of the loop meets. -/
structure Turn where
  isCancelled : Bool
  lengthMs : Nat
  decodeTokS : Rat
  thermal : String
  leaseRenewed : Bool

/-- A measured iteration: when it started and ended, its row, and its beacon. -/
structure Lap where
  iter : Nat
  startMs : Int
  lengthMs : Nat
  elapsedS : Rat
  thermal : String
  beaconAtMs : Option Int

def Lap.endMs (lap : Lap) : Int := lap.startMs + lap.lengthMs

/-- How the run ends: with its summary, or cancelled; `going` is no end yet. -/
inductive Ending where
  | final (run : ThermalRun) (atMs : Int)
  | cancelled (atMs : Int)
  | going

/-- What the loop has at its head. -/
structure Head where
  run : ThermalRun
  nowMs : Int
  iter : Nat
  cancelled : Bool

namespace Head

variable (h : Head) (t : Turn)

/-- The iteration starts behind the pause. -/
def startMs : Int := h.nowMs + h.run.waitBeforeNextMs h.nowMs

def endMs : Int := h.startMs + t.lengthMs

/-- The bookkeeping when the iteration is recorded. -/
def recorded : ThermalRun :=
  (h.run.startedIteration h.startMs).record (h.run.elapsedS (h.endMs t)) t.decodeTokS t.thermal

def due : Bool := (h.recorded t).dueToBeacon (h.endMs t)

def lap : Lap where
  iter := h.iter + 1
  startMs := h.startMs
  lengthMs := t.lengthMs
  elapsedS := h.run.elapsedS (h.endMs t)
  thermal := t.thermal
  beaconAtMs := if h.due t then some (h.endMs t) else none

/-- The head of the next turn. A lease that is not renewed cancels the job. -/
def next : Head where
  run := if h.due t then (h.recorded t).beaconed (h.endMs t) else h.recorded t
  nowMs := h.endMs t
  iter := h.iter + 1
  cancelled := h.cancelled || (h.due t && !t.leaseRenewed)

/-- The turn measures an iteration. -/
def measures : Bool := h.run.hasTimeLeft h.nowMs && !(h.cancelled || t.isCancelled)

end Head

/-- The loop of `ThermalEngine.run`. -/
def loop : Head → List Turn → List Lap × Ending
  | h, [] =>
    ([], if h.run.hasTimeLeft h.nowMs then .going else .final h.run h.nowMs)
  | h, t :: turns =>
    if h.run.hasTimeLeft h.nowMs then
      if h.cancelled || t.isCancelled then ([], .cancelled h.nowMs)
      else (h.lap t :: (loop (h.next t) turns).1, (loop (h.next t) turns).2)
    else ([], .final h.run h.nowMs)

/-- The loop's first head: the clock is read when the run begins. -/
def begin (startedAtMs durationMs : Int) (intervalMs beaconEveryMs : Nat) : Head where
  run := .new startedAtMs durationMs intervalMs beaconEveryMs
  nowMs := startedAtMs
  iter := 0
  cancelled := false

/-! ## A kept clock -/

/-- Every iteration starts before the duration has run out, and ends at most itself behind it. -/
def InTime (endsMs : Int) (laps : List Lap) : Prop :=
  ∀ lap ∈ laps, lap.startMs < endsMs ∧ lap.endMs ≤ endsMs + lap.lengthMs

/-- Consecutive iterations start at least the interval apart. -/
def Paced (intervalMs : Nat) (laps : List Lap) : Prop :=
  List.IsChain (fun a b : Lap => a.startMs + intervalMs ≤ b.startMs) laps

/-- Between two beacons there is no more than the period and the iteration before the second. -/
def Close (beaconEveryMs : Nat) : Int → List Lap → Prop
  | _, [] => True
  | last, lap :: laps =>
    match lap.beaconAtMs with
    | none => Close beaconEveryMs last laps
    | some beacon =>
      beacon - last ≤ beaconEveryMs + lap.lengthMs ∧ Close beaconEveryMs beacon laps

/-- It holds at the head of every turn that measures. -/
def EachTurn (P : Head → Turn → Prop) : Head → List Turn → Prop
  | _, [] => True
  | h, t :: turns => h.measures t = true → P h t ∧ EachTurn P (h.next t) turns

/-- The next iteration is due before the duration has run out. -/
def DueInTime (h : Head) (_ : Turn) : Prop :=
  h.run.nextDueAtMs < h.run.startedAtMs + h.run.durationMs

/-- Where a beacon will follow the iteration, it is due within a period of the last beacon. -/
def DueForBeacon (h : Head) (t : Turn) : Prop :=
  h.due t = true → h.run.nextDueAtMs ≤ h.run.lastBeaconAtMs + h.run.beaconEveryMs

/-! ## One turn -/

section Turns

variable {h : Head} {t : Turn}

theorem startMs_eq (h : Head) : h.startMs = max h.run.nextDueAtMs h.nowMs := by
  simp only [Head.startMs, ThermalRun.waitBeforeNextMs]
  omega

theorem hasTimeLeft_iff {run : ThermalRun} {nowMs : Int} :
    run.hasTimeLeft nowMs = true ↔ nowMs < run.startedAtMs + run.durationMs := by
  rw [ThermalRun.hasTimeLeft, decide_eq_true_eq]
  omega

/-- What a turn leaves as it is. -/
theorem next_run (h : Head) (t : Turn) :
    (h.next t).run.startedAtMs = h.run.startedAtMs ∧
    (h.next t).run.durationMs = h.run.durationMs ∧
    (h.next t).run.intervalMs = h.run.intervalMs ∧
    (h.next t).run.beaconEveryMs = h.run.beaconEveryMs := by
  unfold Head.next
  cases h.due t <;> exact ⟨rfl, rfl, rfl, rfl⟩

theorem next_nextDueAtMs (h : Head) (t : Turn) :
    (h.next t).run.nextDueAtMs = h.startMs + h.run.intervalMs := by
  unfold Head.next
  cases h.due t <;> rfl

theorem next_lastBeaconAtMs (h : Head) (t : Turn) : (h.next t).run.lastBeaconAtMs =
    if h.due t then h.endMs t else h.run.lastBeaconAtMs := by
  unfold Head.next
  cases h.due t <;> rfl

theorem due_iff : h.due t = true ↔ h.run.lastBeaconAtMs + h.run.beaconEveryMs ≤ h.endMs t := by
  have hdue : h.due t =
      decide ((h.run.beaconEveryMs : Int) ≤ h.endMs t - h.run.lastBeaconAtMs) := rfl
  rw [hdue, decide_eq_true_eq]
  omega

/-- The last beacon is no older than its period at the head of a turn. -/
def Fresh (h : Head) : Prop := h.nowMs ≤ h.run.lastBeaconAtMs + h.run.beaconEveryMs

theorem Fresh.next (h : Head) (t : Turn) : Fresh (h.next t) := by
  rw [Fresh, next_lastBeaconAtMs, (next_run h t).2.2.2]
  change h.endMs t ≤ _
  split
  · omega
  · next hdue =>
    rw [due_iff] at hdue
    omega

theorem loop_cons (h : Head) (t : Turn) (turns : List Turn) : (loop h (t :: turns)).1 =
    if h.measures t then h.lap t :: (loop (h.next t) turns).1 else [] := by
  rw [loop, Head.measures]
  cases h.run.hasTimeLeft h.nowMs <;> cases (h.cancelled || t.isCancelled) <;> rfl

end Turns

/-! ## The run -/

/-- The iterations start in time where each is due in time. -/
theorem inTime_iff (h : Head) (turns : List Turn) :
    InTime (h.run.startedAtMs + h.run.durationMs) (loop h turns).1 ↔
      EachTurn DueInTime h turns := by
  induction turns generalizing h with
  | nil => exact iff_of_true (List.forall_mem_nil _) trivial
  | cons t turns ih =>
    have hrest := ih (h.next t)
    obtain ⟨hstarted, hduration, -⟩ := next_run h t
    rw [hstarted, hduration] at hrest
    rw [loop_cons, EachTurn]
    cases hmeasures : h.measures t with
    | false => exact iff_of_true (List.forall_mem_nil _) fun hno => by cases hno
    | true =>
      have hleft : h.nowMs < h.run.startedAtMs + h.run.durationMs :=
        hasTimeLeft_iff.mp (Bool.and_eq_true_iff.mp hmeasures).1
      have hfirst : (h.lap t).startMs < h.run.startedAtMs + h.run.durationMs ∧
          (h.lap t).endMs ≤ h.run.startedAtMs + h.run.durationMs + (h.lap t).lengthMs ↔
          DueInTime h t := by
        have hstart : (h.lap t).startMs = max h.run.nextDueAtMs h.nowMs := startMs_eq h
        rw [DueInTime, Lap.endMs, hstart]
        omega
      rw [if_pos rfl, InTime, List.forall_mem_cons, hfirst, ← InTime, hrest]
      exact ⟨fun hall _ => hall, fun hall => hall rfl⟩

/-- Every iteration starts when it is due, or later. -/
theorem nextDue_le_start {h : Head} {turns : List Turn} {lap : Lap}
    (hlap : (loop h turns).1.head? = some lap) : h.run.nextDueAtMs ≤ lap.startMs := by
  cases turns with
  | nil => cases hlap
  | cons t turns =>
    rw [loop_cons] at hlap
    split at hlap
    · rw [List.head?_cons] at hlap
      have hstart : lap.startMs = max h.run.nextDueAtMs h.nowMs :=
        Option.some.inj hlap ▸ startMs_eq h
      rw [hstart]
      exact Int.le_max_left _ _
    · cases hlap

theorem paced (h : Head) (turns : List Turn) : Paced h.run.intervalMs (loop h turns).1 := by
  induction turns generalizing h with
  | nil => exact .nil
  | cons t turns ih =>
    have hrest := ih (h.next t)
    rw [(next_run h t).2.2.1] at hrest
    rw [loop_cons]
    split
    · refine List.isChain_cons.mpr ⟨fun lap hlap => ?_, hrest⟩
      have hdue := nextDue_le_start hlap
      rwa [next_nextDueAtMs] at hdue
    · exact .nil

/-- The beacons are close where each is due in its period. -/
theorem close_iff (h : Head) (turns : List Turn) (hfresh : Fresh h) :
    Close h.run.beaconEveryMs h.run.lastBeaconAtMs (loop h turns).1 ↔
      EachTurn DueForBeacon h turns := by
  induction turns generalizing h with
  | nil => exact iff_of_true trivial trivial
  | cons t turns ih =>
    have hrest := ih (h.next t) (Fresh.next h t)
    rw [(next_run h t).2.2.2, next_lastBeaconAtMs] at hrest
    rw [loop_cons, EachTurn]
    cases hmeasures : h.measures t with
    | false => exact iff_of_true trivial fun hno => by cases hno
    | true =>
      have hstart : h.startMs = max h.run.nextDueAtMs h.nowMs := startMs_eq h
      rw [if_pos rfl, ← hrest, DueForBeacon, Close]
      cases hdue : h.due t with
      | false =>
        have hnone : (h.lap t).beaconAtMs = none := by simp [Head.lap, hdue]
        rw [hnone, if_neg (by decide)]
        exact ⟨fun hall _ => ⟨fun hno => (Bool.false_ne_true hno).elim, hall⟩,
          fun hall => (hall rfl).2⟩
      | true =>
        have hsome : (h.lap t).beaconAtMs = some (h.endMs t) := by simp [Head.lap, hdue]
        have hgap : h.endMs t - h.run.lastBeaconAtMs ≤ h.run.beaconEveryMs + (h.lap t).lengthMs ↔
            h.run.nextDueAtMs ≤ h.run.lastBeaconAtMs + h.run.beaconEveryMs := by
          have hlength : (h.lap t).lengthMs = t.lengthMs := rfl
          rw [Fresh] at hfresh
          rw [Head.endMs, hstart, hlength]
          omega
        rw [hsome, if_pos rfl]
        change h.endMs t - h.run.lastBeaconAtMs ≤ _ ∧ _ ↔ _
        rw [hgap]
        exact ⟨fun hall _ => ⟨fun _ => hall.1, hall.2⟩,
          fun hall => ⟨(hall rfl).1 rfl, (hall rfl).2⟩⟩

/-- A run keeps its clock: the pace always, the duration where each iteration is due in time, and
the beacons where each is due in its period. -/
theorem keeps_iff (startedAtMs durationMs : Int) (intervalMs beaconEveryMs : Nat)
    (turns : List Turn) :
    (InTime (startedAtMs + durationMs)
        (loop (begin startedAtMs durationMs intervalMs beaconEveryMs) turns).1 ↔
      EachTurn DueInTime (begin startedAtMs durationMs intervalMs beaconEveryMs) turns) ∧
    Paced intervalMs (loop (begin startedAtMs durationMs intervalMs beaconEveryMs) turns).1 ∧
    (Close beaconEveryMs startedAtMs
        (loop (begin startedAtMs durationMs intervalMs beaconEveryMs) turns).1 ↔
      EachTurn DueForBeacon (begin startedAtMs durationMs intervalMs beaconEveryMs) turns) := by
  have hfresh : Fresh (begin startedAtMs durationMs intervalMs beaconEveryMs) := by
    change startedAtMs ≤ startedAtMs + beaconEveryMs
    omega
  exact ⟨inTime_iff (begin startedAtMs durationMs intervalMs beaconEveryMs) turns,
    paced (begin startedAtMs durationMs intervalMs beaconEveryMs) turns,
    close_iff _ turns hfresh⟩

/-- Ten seconds, an iteration a minute: the second starts fifty seconds after the end. -/
def minutely : List Turn :=
  [⟨false, 1000, 30, "nominal", true⟩, ⟨false, 1000, 30, "nominal", true⟩]

/-- Two iterations at five minutes' distance: four minutes without a beacon. -/
theorem keeps_fails :
    ¬ InTime 10000 (loop (begin 0 10000 60000 BEACON_EVERY_MS) minutely).1 ∧
    ¬ Close BEACON_EVERY_MS 0 (loop (begin 0 900000 300000 BEACON_EVERY_MS) minutely).1 := by
  constructor
  · intro h
    have hstarts : ((loop (begin 0 10000 60000 BEACON_EVERY_MS) minutely).1.map Lap.startMs) =
        [0, 60000] := by decide
    have hmem : (60000 : Int) ∈
        (loop (begin 0 10000 60000 BEACON_EVERY_MS) minutely).1.map Lap.startMs := by
      rw [hstarts]
      decide
    obtain ⟨lap, hlap, hstart⟩ := List.mem_map.mp hmem
    have hearly := (h lap hlap).1
    omega
  · intro h
    have hgap : (301000 : Int) - 0 ≤ BEACON_EVERY_MS + 1000 := h.1
    exact absurd hgap (by decide)

end FleetRunner.Android
