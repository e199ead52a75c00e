import FleetRunner.Library.Runs
import FleetRunner.Library.Table
import Mathlib.Data.Int.Init
import Mathlib.Logic.Function.Basic

/-!
# Keeping the components running (`supervisor.ts`)

A supervisor starts its children, restarts one that exits after a backoff, and
gives up on one that keeps failing.

## Implementation notes

The callbacks of Node are the events of a run. An event that cannot happen (a
timer that is not armed, the exit of a process that is gone) changes nothing.
The host's part is kept beside the supervisor's own fields: which processes
have their last event still to come, and which timers are armed. A process
whose `pid` is absent could not be started: its last event is `error`, and no
`exit` follows it. `states` holds every child state ever made; the handlers of
a process keep the one they were made for, whatever the map holds later.
-/

namespace FleetRunner

open Library

namespace Fleet

/-- When a child is started again, and when not any more. -/
structure Timings where
  backoffMs : List Nat
  giveUpAfter : Nat
  healthyAfterMs : Int

/-- The waits grow to half a minute, and five quick failures are the end. -/
def DEFAULT_TIMINGS : Timings where
  backoffMs := [1000, 2000, 5000, 10000, 30000]
  giveUpAfter := 5
  healthyAfterMs := 60000

/-- A program to keep running. -/
structure ChildSpec where
  name : String
  command : String
  args : List String

/-- How a child ended, and when. -/
structure Exit where
  code : Option Int
  signal : Option String
  time : Int

/-- What the host makes of a `spawn`: the clock, and the pid if there is one. -/
structure Launch where
  time : Int
  pid : Option Nat
  deriving DecidableEq

/-- A process object and what its handlers were made with. -/
structure Proc where
  id : Nat
  name : String
  state : Nat
  launch : Launch
  deriving DecidableEq

/-- A restart that is due later. -/
structure Timer where
  id : Nat
  name : String
  state : Nat
  delay : Option Nat
  deriving DecidableEq

/-- What is known of a child. -/
structure ChildState where
  spec : ChildSpec
  process : Option Proc
  restarts : Nat
  gaveUpAt : Option Int
  lastExit : Option Exit
  startedAt : Option Int
  restartTimer : Option Timer

/-- What the supervisor logs. -/
structure Report where
  child : String
  kind : String
  detail : String

/-- An entry of the map of children: a name and the state it has. -/
structure Entry where
  name : String
  state : Nat

/-- The children, the processes that live and the timers that run. -/
structure Supervisor where
  states : Nat → ChildState
  made : Nat
  children : Table Entry.name
  stopping : Bool
  gaveUp : List String
  /-- `resolveWait` has been called. -/
  waited : Bool
  /-- The exits each call of `stop` still waits for. -/
  stops : List (List Proc)
  reports : List Report
  signals : List (Proc × String)
  next : Nat
  spawned : List Proc
  live : List Proc
  timers : List Timer

/-- A child before its first start. -/
def freshState (spec : ChildSpec) : ChildState where
  spec := spec
  process := none
  restarts := 0
  gaveUpAt := none
  lastExit := none
  startedAt := none
  restartTimer := none

/-- Nothing started yet. -/
def idle : Supervisor where
  states := fun _ => freshState ⟨"", "", []⟩
  made := 0
  children := Table.empty
  stopping := false
  gaveUp := []
  waited := false
  stops := []
  reports := []
  signals := []
  next := 0
  spawned := []
  live := []
  timers := []

namespace Supervisor

def setState (s : Supervisor) (i : Nat) (st : ChildState) : Supervisor :=
  { s with states := Function.update s.states i st }

def report (s : Supervisor) (child kind detail : String) : Supervisor :=
  { s with reports := s.reports ++ [⟨child, kind, detail⟩] }

def optText {α : Type} (text : α → String) (fallback : String) (v : Option α) : String :=
  (v.map text).getD fallback

/-- `start`: the process is in the child's state before any of its events. -/
def start (s : Supervisor) (name : String) (l : Launch) : Supervisor :=
  match s.children.find? name with
  | none => s
  | some e =>
    if s.stopping then s
    else
      let p : Proc := ⟨s.next, name, e.state, l⟩
      let st := s.states e.state
      ({ s with next := s.next + 1, spawned := s.spawned ++ [p], live := s.live ++ [p] }.setState
        e.state { st with process := some p, startedAt := some l.time }).report
          name "start" ("pid " ++ optText toString "?" l.pid)

/-- `children.set`: a name that is there already gets a new state. -/
def enter (s : Supervisor) (spec : ChildSpec) : Supervisor :=
  { s with
    states := Function.update s.states s.made (freshState spec)
    made := s.made + 1
    children := s.children.upsert ⟨spec.name, s.made⟩ }

/-- One round of the loop over the specs. -/
def adopt (s : Supervisor) (spec : ChildSpec) (l : Launch) : Supervisor :=
  (s.enter spec).start spec.name l

/-- The last event of a process: nobody waits for it any longer. -/
def ended (s : Supervisor) (p : Proc) : Supervisor :=
  { s with live := s.live.filter fun q => q ≠ p }

/-- `error`, which only reports. -/
def onError (s : Supervisor) (p : Proc) (message : String) : Supervisor :=
  (s.ended p).report p.name "exit" ("could not be started: " ++ message)

/-- `backoffMs[Math.min(restarts - 1, backoffMs.length - 1)]` -/
def delay (t : Timings) (restarts : Nat) : Option Nat :=
  t.backoffMs[min (restarts - 1) (t.backoffMs.length - 1)]?

/-- How the child ended, for the log. -/
def exitDetail (e : Exit) (ranFor : Int) : String :=
  (if e.signal.getD "" ≠ "" then "signal " ++ e.signal.getD "" else
    "code " ++ optText toString "null" e.code) ++
    " after " ++ toString ((ranFor + 500) / 1000) ++ "s"

/-- That it is not restarted, for the log. -/
def gaveUpDetail (t : Timings) (logFile : String → String) (name : String) : String :=
  toString t.giveUpAfter ++ " failures in quick succession; not restarting. " ++
    "The reason is in " ++ logFile name ++ "."

/-- `gaveUp.add(name)` and its report -/
def giveUp (t : Timings) (logFile : String → String) (s : Supervisor) (p : Proc)
    (st : ChildState) (now : Int) : Supervisor :=
  ({ s with
      gaveUp := if p.name ∈ s.gaveUp then s.gaveUp else s.gaveUp ++ [p.name] }.setState p.state
    { st with gaveUpAt := some now }).report p.name "gave-up" (gaveUpDetail t logFile p.name)

/-- `if (gaveUp.size === children.size) resolveWait?.()` -/
def resolveWait (s : Supervisor) : Supervisor :=
  if s.gaveUp.length = s.children.rows.length then { s with waited := true } else s

/-- Sets the timer for the next start. -/
def restartLater (t : Timings) (s : Supervisor) (p : Proc) (st : ChildState) : Supervisor :=
  let k : Timer := ⟨s.next, p.name, p.state, delay t st.restarts⟩
  { s with next := s.next + 1, timers := s.timers ++ [k] }.setState p.state
    { st with restartTimer := some k }

/-- The rest of the `exit` handler once the failure is counted. -/
def afterFailure (t : Timings) (logFile : String → String) (s : Supervisor) (p : Proc)
    (st : ChildState) (now : Int) : Supervisor :=
  if t.giveUpAfter < st.restarts then (giveUp t logFile s p st now).resolveWait
  else restartLater t s p st

/-- A run that was long enough starts the count again. -/
def countFailure (t : Timings) (st : ChildState) (ranFor : Int) : ChildState :=
  { st with restarts := (if t.healthyAfterMs < ranFor then 0 else st.restarts) + 1 }

/-- The child has no process any more. -/
def exited (st : ChildState) (e : Exit) : ChildState :=
  { st with process := none, lastExit := some e }

/-- `exit`: what `stop` waits for resolves in the same emission. -/
def onExit (t : Timings) (logFile : String → String) (s : Supervisor) (p : Proc) (e : Exit) :
    Supervisor :=
  let s := s.ended p
  let st := exited (s.states p.state) e
  if s.stopping then
    { s.setState p.state st with stops := s.stops.map fun ws => ws.filter fun q => q ≠ p }
  else
    let ranFor := e.time - st.startedAt.getD e.time
    afterFailure t logFile (s.report p.name "exit" (exitDetail e ranFor)) p
      (countFailure t st ranFor) e.time

/-- A timer runs out, and the child is started. -/
def onTimer (s : Supervisor) (k : Timer) (l : Launch) : Supervisor :=
  ({ s with timers := s.timers.filter fun j => j ≠ k }.setState k.state
    { s.states k.state with restartTimer := none }).start k.name l

/-- `clearTimeout` of a child that has a restart pending. -/
def clearRestart (s : Supervisor) (e : Entry) : Supervisor :=
  match (s.states e.state).restartTimer with
  | none => s
  | some k =>
    { s with timers := s.timers.filter fun j => j ≠ k }.setState e.state
      { s.states e.state with restartTimer := none }

/-- `stop`, up to the exits its promise waits for. -/
def stop (s : Supervisor) : Supervisor :=
  let s := s.children.rows.foldl clearRestart { s with stopping := true }
  let alive := s.children.rows.filterMap fun e => (s.states e.state).process
  { s with stops := s.stops ++ [alive], signals := s.signals ++ alive.map fun p => (p, "SIGTERM") }

end Supervisor

/-- What happens to a child. -/
inductive Event where
  | error (p : Proc) (message : String)
  | exit (p : Proc) (e : Exit)
  | timer (k : Timer) (l : Launch)
  /-- ten seconds after a `SIGTERM` that was not followed by an exit -/
  | grace (p : Proc)
  | stop

open Supervisor

variable (t : Timings) (logFile : String → String)

/-- One event; what is not there any more has none. -/
def step (s : Supervisor) : Event → Supervisor
  | .error p message =>
    if p ∈ s.live ∧ p.launch.pid = none then s.onError p message else s
  | .exit p e =>
    if p ∈ s.live ∧ p.launch.pid ≠ none then s.onExit t logFile p e else s
  | .timer k l => if k ∈ s.timers then s.onTimer k l else s
  | .grace p =>
    if s.stops.any fun ws => decide (p ∈ ws) then
      { s with signals := s.signals ++ [(p, "SIGKILL")] }
    else s
  | .stop => s.stop

/-- `supervise`, with what the host makes of the first start of each child. -/
def supervise (specs : List (ChildSpec × Launch)) : Supervisor :=
  specs.foldl (fun s c => s.adopt c.1 c.2) idle

end Fleet

end FleetRunner
