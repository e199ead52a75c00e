import FleetRunner.Js.Value
import FleetRunner.Library.Runs
import Mathlib.Logic.Function.Basic

/-!
# An agent that serves several collectors (`agent.ts`, `cancellation.ts`)

One claim loop and one beacon loop for each collector, all on one event loop.
The claim loops share a gate, which holds the job that runs; whoever hears that
a lease was not renewed marks a job cancelled in the one slot the workloads
read. A step is one loop going on from one `await` to the next, or a collector
answering.

## Implementation notes

A collector is known by its base. An agent homed to a few collectors is a run
in which the loops of the others never move. What the agent cannot see is kept
beside its state: which hand-overs there were, which of them a collector has
refused to renew, and what became of each. A collector may answer a poll or a
beacon in any way.
-/

namespace FleetRunner.Machine

open Library

/-! ## The cancellation slot -/

namespace JobCancellation

/-- Marks a job cancelled; its workload stops at the next iteration boundary. -/
def cancel (jobId : String) : Option String := some jobId

def isCancelled (cancelledJobId : Option String) (jobId : String) : Bool :=
  decide (cancelledJobId = some jobId)

/-- Drops the flag, so a later job of the same name starts clean. -/
def clear (cancelledJobId : Option String) (jobId : String) : Option String :=
  if cancelledJobId = some jobId then none else cancelledJobId

end JobCancellation

/-! ## Constraints -/

/-- The readings of a beacon the agent's own constraints are judged on. -/
structure PowerSample where
  charging : Option Bool
  on_ac : Option Bool
  battery_pct : Option Rat

/-- A machine with no battery satisfies both constraints. -/
def constraintError (js : Js) (constraints : Option Json) (s : PowerSample) : Option String :=
  match constraints, s.battery_pct with
  | some c, some pct =>
      if c.truthy && (c.prop "require_charging").any Json.isTrue && decide (s.charging ≠ some true) &&
          decide (s.on_ac ≠ some true) then
        some "constraint not met: require_charging (machine is on battery)"
      else
        match (c.prop "min_battery_pct").bind Json.asNum? with
        | some least =>
            if pct < least then
              some ("constraint not met: min_battery_pct " ++ js.showNum least ++ " (at " ++
                js.showNum pct ++ "%)")
            else none
        | none => none
  | _, _ => none

/-! ## The agent -/

/-- A job a collector handed over. `claim` counts the hand-overs. -/
structure Handed where
  collector : String
  job_id : String
  constraints : Option Json
  claim : Nat

/-- Where a claim loop waits. -/
inductive ClaimLoop where
  | ready
  | polling
  | answered (h : Handed)
  | releasing (h : Handed)
  | checking (h : Handed)
  | refusing (h : Handed)
  | running (h : Handed)
  | reported (h : Handed)

namespace ClaimLoop

/-- The job the loop holds the gate for. -/
def taken? : ClaimLoop → Option Handed
  | .checking h | .refusing h | .running h | .reported h => some h
  | _ => none

/-- The job in the loop's hands. -/
def job? : ClaimLoop → Option Handed
  | .ready | .polling => none
  | .answered h | .releasing h | .checking h | .refusing h | .running h | .reported h => some h

/-- The job the loop has been handed and not yet closed or given back. -/
def open? : ClaimLoop → Option Handed
  | .answered h | .releasing h | .checking h | .refusing h | .running h => some h
  | _ => none

/-- How often the loop goes on before that job is closed or given back. -/
def left : ClaimLoop → Nat
  | .answered _ => 3
  | .checking _ => 2
  | .releasing _ | .refusing _ | .running _ => 1
  | _ => 0

theorem left_pos {l : ClaimLoop} {h : Handed} (hopen : l.open? = some h) : 1 ≤ l.left := by
  cases l <;> simp_all [open?, left]

theorem left_le (l : ClaimLoop) : l.left ≤ 3 := by
  cases l <;> simp [left]

end ClaimLoop

/-- What the other collectors are told about the job that runs. -/
structure BusyWith where
  job_id : String
  collector : String
  deriving DecidableEq

structure BeaconPost where
  job_id : Option String
  busy : Option BusyWith
  deriving DecidableEq

/-- `lease_renewed`, and the claim the collector judged it on. -/
structure Reply where
  renewed : Bool
  about : Option Handed

/-- Where a beacon loop waits. -/
inductive BeaconLoop where
  | resting
  | sampling (mine : Option String)
  | posted (b : BeaconPost)
  | answered (b : BeaconPost) (r : Reply)

/-- A beacon a workload posted for its own job, and the answer once there is one. -/
structure Tick where
  collector : String
  job_id : String
  reply : Option Reply

structure Agent where
  /-- `gate.heldBy` and `gate.jobId`, which are set and dropped together -/
  gate : Option Handed
  cancelledJobId : Option String
  claims : String → ClaimLoop
  beacons : String → BeaconLoop
  ticks : List Tick
  /-- the last one first -/
  handed : List Handed
  /-- no longer renewed, and by whom -/
  denied : List (String × Handed)
  /-- a final row has been posted -/
  closed : List Handed
  /-- given back, and to whom -/
  released : List (String × Handed)

namespace Agent

def start : Agent where
  gate := none
  cancelledJobId := none
  claims := fun _ => .ready
  beacons := fun _ => .resting
  ticks := []
  handed := []
  denied := []
  closed := []
  released := []

def isCancelled (s : Agent) (jobId : String) : Bool :=
  JobCancellation.isCancelled s.cancelledJobId jobId

/-- The claim loop of one collector now waits there. -/
def setClaim (s : Agent) (c : String) (l : ClaimLoop) : Agent :=
  { s with claims := Function.update s.claims c l }

def setBeacon (s : Agent) (c : String) (l : BeaconLoop) : Agent :=
  { s with beacons := Function.update s.beacons c l }

/-- Take a claim, or give it straight back. -/
def takeOrRelease (s : Agent) (c : String) (h : Handed) : Agent :=
  match s.gate with
  | some _ => s.setClaim c (.releasing h)
  | none => { s.setClaim c (.checking h) with gate := some h }

def releaseGate (s : Agent) : Agent := { s with gate := none }

/-- The claim loop goes on to its next `await`. A claim refused by its
constraints leaves the cancellation slot alone. -/
def go (js : Js) (s : Agent) (c : String) (sample : PowerSample) : Agent :=
  match s.claims c with
  | .ready => if s.gate.isSome then s else s.setClaim c .polling
  | .polling => s
  | .answered h => s.takeOrRelease c h
  | .releasing h => { s.setClaim c .ready with released := (c, h) :: s.released }
  | .checking h =>
      if (constraintError js h.constraints sample).isSome then s.setClaim c (.refusing h)
      else s.setClaim c (.running h)
  | .refusing h => { (s.setClaim c .ready).releaseGate with closed := h :: s.closed }
  | .running h => { s.setClaim c (.reported h) with closed := h :: s.closed }
  | .reported h => { (s.setClaim c .ready).releaseGate with
      cancelledJobId := JobCancellation.clear s.cancelledJobId h.job_id }

/-- A collector answers the poll with a job, under an id of its own choice. -/
def hand (s : Agent) (c jobId : String) (constraints : Option Json) : Agent :=
  match s.claims c with
  | .polling =>
      let h : Handed := ⟨c, jobId, constraints, s.handed.length⟩
      { s.setClaim c (.answered h) with handed := h :: s.handed }
  | _ => s

/-- The poll expires. -/
def expire (s : Agent) (c : String) : Agent :=
  match s.claims c with
  | .polling => s.setClaim c .ready
  | _ => s

/-- `gate.heldBy === client ? gate.jobId : null` -/
def mine (s : Agent) (c : String) : Option String :=
  (s.gate.filter fun h => decide (h.collector = c)).map (·.job_id)

/-- What a collector that is not running the job is told. -/
def busyFor (s : Agent) (c : String) : Option BusyWith :=
  (s.gate.filter fun h => decide (h.collector ≠ c)).map fun h => ⟨h.job_id, h.collector⟩

/-- Only an answer that refuses to renew cancels. -/
def hear (s : Agent) (jobId : Option String) (r : Reply) : Agent :=
  match jobId with
  | some id => if r.renewed then s else { s with cancelledJobId := JobCancellation.cancel id }
  | none => s

/-- The beacon loop goes on: it reads the gate, then takes a sample, then posts. -/
def beat (s : Agent) (c : String) : Agent :=
  match s.beacons c with
  | .resting => s.setBeacon c (.sampling (s.mine c))
  | .sampling mine => s.setBeacon c (.posted ⟨mine, s.busyFor c⟩)
  | .posted _ => s
  | .answered b r => (s.setBeacon c .resting).hear b.job_id r

/-- The last hand-over of a job by this collector. -/
def lastHanded (s : Agent) (c jobId : String) : Option Handed :=
  s.handed.find? fun h => decide (h.collector = c ∧ h.job_id = jobId)

/-- A collector says whether the claim it last gave out on the job is still there. -/
def judged (s : Agent) (c : String) (jobId : Option String) (renewed : Bool) : Agent × Reply :=
  let about := jobId.bind (s.lastHanded c)
  (if renewed then s else { s with denied := about.toList.map (c, ·) ++ s.denied },
    ⟨renewed, about⟩)

def answer (s : Agent) (c : String) (renewed : Bool) : Agent :=
  match s.beacons c with
  | .posted b =>
      let (told, r) := s.judged c b.job_id renewed
      told.setBeacon c (.answered b r)
  | _ => s

/-- The running workload posts a beacon of its own. -/
def tick (s : Agent) (c : String) : Agent :=
  match s.claims c with
  | .running h => { s with ticks := s.ticks ++ [⟨c, h.job_id, none⟩] }
  | _ => s

def answerTick (s : Agent) (i : Nat) (renewed : Bool) : Agent :=
  match s.ticks[i]? with
  | some t =>
      match t.reply with
      | some _ => s
      | none =>
          let (told, r) := s.judged t.collector (some t.job_id) renewed
          { told with ticks := s.ticks.set i { t with reply := some r } }
  | none => s

/-- The answer arrives, whoever runs by then. -/
def hearTick (s : Agent) (i : Nat) : Agent :=
  match s.ticks[i]? with
  | some t =>
      match t.reply with
      | some r => { s with ticks := s.ticks.eraseIdx i }.hear (some t.job_id) r
      | none => s
  | none => s

end Agent

inductive Event where
  | go (c : String) (sample : PowerSample)
  | hand (c jobId : String) (constraints : Option Json)
  | expire (c : String)
  | beat (c : String)
  | answer (c : String) (renewed : Bool)
  | tick (c : String)
  | answerTick (i : Nat) (renewed : Bool)
  | hearTick (i : Nat)

namespace Agent

def step (js : Js) (s : Agent) : Event → Agent
  | .go c sample => s.go js c sample
  | .hand c jobId constraints => s.hand c jobId constraints
  | .expire c => s.expire c
  | .beat c => s.beat c
  | .answer c renewed => s.answer c renewed
  | .tick c => s.tick c
  | .answerTick i renewed => s.answerTick i renewed
  | .hearTick i => s.hearTick i

/-- An agent after these events, in the order they happened. -/
abbrev after (js : Js) (events : List Event) : Agent := run (step js) start events

/-! ## What each loop leaves alone -/

@[simp] theorem claims_setClaim_self (s : Agent) (c : String) (l : ClaimLoop) :
    (s.setClaim c l).claims c = l := by
  simp [setClaim]

theorem claims_setClaim_of_ne (s : Agent) {c c' : String} (h : c' ≠ c) (l : ClaimLoop) :
    (s.setClaim c l).claims c' = s.claims c' := by
  simp [setClaim, h]

/-- A claim loop moves, or its collector answers it. -/
structure ClaimStep (s s' : Agent) (c : String) : Prop where
  claims : ∀ c', c' ≠ c → s'.claims c' = s.claims c'
  beacons : s'.beacons = s.beacons
  ticks : s'.ticks = s.ticks
  denied : s'.denied = s.denied
  closed : ∀ h ∈ s.closed, h ∈ s'.closed
  released : ∀ r ∈ s.released, r ∈ s'.released
  flag : ∀ id, s'.isCancelled id = true → s.isCancelled id = true

theorem claimStep_refl (s : Agent) (c : String) : ClaimStep s s c :=
  ⟨fun _ _ => rfl, rfl, rfl, rfl, fun _ h => h, fun _ h => h, fun _ h => h⟩

theorem claimStep_setClaim (s : Agent) (c : String) (l : ClaimLoop) :
    ClaimStep s (s.setClaim c l) c :=
  ⟨fun _ hc => claims_setClaim_of_ne s hc l, rfl, rfl, rfl, fun _ h => h, fun _ h => h,
    fun _ h => h⟩

/-- Dropping a flag raises none. -/
theorem isCancelled_of_clear {flag : Option String} {jobId id : String}
    (h : JobCancellation.isCancelled (JobCancellation.clear flag jobId) id = true) :
    JobCancellation.isCancelled flag id = true := by
  unfold JobCancellation.clear at h
  split at h
  · cases h
  · exact h

theorem claimStep_go (js : Js) (s : Agent) (c : String) (sample : PowerSample) :
    ClaimStep s (s.go js c sample) c := by
  have hmove := claimStep_setClaim s c
  unfold go
  cases s.claims c with
  | ready =>
      simp only
      split
      · exact claimStep_refl s c
      · exact hmove _
  | polling => exact claimStep_refl s c
  | answered h =>
      simp only [takeOrRelease]
      cases s.gate with
      | none => exact { hmove (.checking h) with }
      | some held => exact hmove _
  | releasing h => exact { hmove .ready with released := fun _ hr => List.mem_cons_of_mem _ hr }
  | checking h =>
      simp only
      split
      · exact hmove _
      · exact hmove _
  | refusing h => exact { hmove .ready with closed := fun _ hj => List.mem_cons_of_mem _ hj }
  | running h => exact { hmove (.reported h) with closed := fun _ hj => List.mem_cons_of_mem _ hj }
  | reported h => exact { hmove .ready with flag := fun _ hid => isCancelled_of_clear hid }

theorem claimStep_hand (s : Agent) (c jobId : String) (constraints : Option Json) :
    ClaimStep s (s.hand c jobId constraints) c := by
  unfold hand
  cases s.claims c with
  | polling => exact { claimStep_setClaim s c _ with }
  | _ => exact claimStep_refl s c

theorem claimStep_expire (s : Agent) (c : String) : ClaimStep s (s.expire c) c := by
  unfold expire
  cases s.claims c with
  | polling => exact claimStep_setClaim s c _
  | _ => exact claimStep_refl s c

/-- A beacon moves: the claim loops do not. -/
structure BeaconStep (s s' : Agent) : Prop where
  gate : s'.gate = s.gate
  claims : s'.claims = s.claims
  handed : s'.handed = s.handed
  closed : s'.closed = s.closed
  released : s'.released = s.released

theorem beaconStep_hear (s : Agent) (jobId : Option String) (r : Reply) :
    BeaconStep s (s.hear jobId r) := by
  unfold hear
  cases jobId with
  | none => exact ⟨rfl, rfl, rfl, rfl, rfl⟩
  | some id =>
      simp only
      split <;> exact ⟨rfl, rfl, rfl, rfl, rfl⟩

theorem beaconStep_judged (s : Agent) (c : String) (jobId : Option String) (renewed : Bool) :
    BeaconStep s (s.judged c jobId renewed).1 := by
  unfold judged
  cases renewed <;> exact ⟨rfl, rfl, rfl, rfl, rfl⟩

theorem beaconStep_beat (s : Agent) (c : String) : BeaconStep s (s.beat c) := by
  unfold beat
  cases s.beacons c with
  | answered b r => exact { beaconStep_hear (s.setBeacon c .resting) b.job_id r with }
  | _ => exact ⟨rfl, rfl, rfl, rfl, rfl⟩

theorem beaconStep_answer (s : Agent) (c : String) (renewed : Bool) :
    BeaconStep s (s.answer c renewed) := by
  unfold answer
  cases s.beacons c with
  | posted b => exact { beaconStep_judged s c b.job_id renewed with }
  | _ => exact ⟨rfl, rfl, rfl, rfl, rfl⟩

theorem beaconStep_tick (s : Agent) (c : String) : BeaconStep s (s.tick c) := by
  unfold tick
  cases s.claims c <;> exact ⟨rfl, rfl, rfl, rfl, rfl⟩

theorem beaconStep_answerTick (s : Agent) (i : Nat) (renewed : Bool) :
    BeaconStep s (s.answerTick i renewed) := by
  unfold answerTick
  split
  · rename_i t _
    split
    · exact ⟨rfl, rfl, rfl, rfl, rfl⟩
    · exact { beaconStep_judged s t.collector (some t.job_id) renewed with }
  · exact ⟨rfl, rfl, rfl, rfl, rfl⟩

theorem beaconStep_hearTick (s : Agent) (i : Nat) : BeaconStep s (s.hearTick i) := by
  unfold hearTick
  split
  · rename_i t _
    split
    · rename_i r _
      exact { beaconStep_hear { s with ticks := s.ticks.eraseIdx i } (some t.job_id) r with }
    · exact ⟨rfl, rfl, rfl, rfl, rfl⟩
  · exact ⟨rfl, rfl, rfl, rfl, rfl⟩

end Agent

end FleetRunner.Machine
