import FleetRunner.Js.Value

/-!
# How a job closes (`skip.ts`)

A runner that could not run a job says so with `ok: true` and an `error` that
begins `skipped:`. `closingStatus` reads the final row and the newest row of
each device, in `iter, rowid` order, and says whether the job failed, skipped
or is done.

## Implementation notes

A reason is shortened by characters where the engine counts UTF-16 units; only
the text of a long reason depends on it.
-/

namespace FleetRunner

def skipMark : String := "skipped:"

def startsWith (s start : String) : Bool := start.toList.isPrefixOf s.toList

/-- True for an error that says nothing ran. -/
def isSkipError (error : Option Json) : Bool :=
  match error with
  | some (.str s) => startsWith s skipMark
  | _ => false

structure ResultRow where
  device_id : String
  payload : Json

inductive Closing where
  | failed (reason : Option String)
  | done
  | skipped (reason : String)
  deriving DecidableEq

def clip (s : String) : String :=
  if s.length > 500 then String.ofList (s.toList.take 497) ++ "..." else s

/-- The newest row of each device, a final row never displaced by one that is not. -/
def latestByDevice (rows : List ResultRow) : Fields :=
  rows.foldl (fun byDevice r =>
    match Fields.get? byDevice r.device_id with
    | some prev =>
        if !optTruthy (prev.prop "final") || optTruthy (r.payload.prop "final") then
          Fields.set byDevice r.device_id r.payload
        else byDevice
    | none => Fields.set byDevice r.device_id r.payload) []

def isHostRow (p : String × Json) : Bool := startsWith p.1 "host:"

/-- A host executor's row stands in only when no device reported. -/
def deviceVerdicts (rows : List ResultRow) : Fields :=
  let entries := latestByDevice rows
  if entries.any (fun p => !isHostRow p) then entries.filter (fun p => !isHostRow p) else entries

def okIsFalse (payload : Json) : Bool := (payload.prop "ok").any Json.isFalse

/-- `typeof error === "string" && error.trim()` -/
def spokenError? (payload : Json) : Option String :=
  match payload.prop "error" with
  | some (.str s) => if s.toList.any (fun c => !isJsSpace c) then some s else none
  | _ => none

/-- Each reason once, in order of first appearance. -/
def skipReasons (entries : Fields) : List String :=
  (entries.filterMap fun p => (p.2.prop "error").bind Json.asStr?).eraseDups

def joinedReason : List String → String
  | [] => ""
  | [r] => r
  | r :: rest =>
      r ++ " (and " ++ toString rest.length ++ " other reason" ++
        (if rest.length = 1 then "" else "s") ++ ")"

def closingStatus (rows : List ResultRow) (final : Json) : Closing :=
  let entries := deviceVerdicts rows
  if okIsFalse final then
    let failing := entries.find? fun p => okIsFalse p.2 && (spokenError? p.2).isSome
    let named := failing.bind fun p => (spokenError? p.2).map fun e => p.1 ++ ": " ++ e
    .failed (((spokenError? final).or named).map clip)
  else if isSkipError (final.prop "error") then
    .skipped (clip (((final.prop "error").bind Json.asStr?).getD ""))
  else if !entries.isEmpty &&
      entries.all (fun p => !okIsFalse p.2 && isSkipError (p.2.prop "error")) then
    .skipped (clip (joinedReason (skipReasons entries)))
  else .done

end FleetRunner
