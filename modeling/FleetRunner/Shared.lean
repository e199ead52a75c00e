import FleetRunner.Db

/-!
# Readings every query shares (`api/shared.ts`)

The pools a device works under, what it says it can run, and whether its
window has closed. `last_seen` is never null, so an age always exists.
-/

namespace FleetRunner

/-- `AGE("last_seen")` -/
def ageS (db : Db) (lastSeen : Nat) : Nat := db.sqlNow - lastSeen

/-- The operator's override when it is a list, else what the runner reported. -/
def effectivePools (row : Device) : Json :=
  match row.pools_override with
  | some (.arr xs) => .arr xs
  | _ => row.pools

/-- `null` is no opinion and not an empty list. -/
def deviceCapabilities (row : Device) : Option (List String) := row.capabilities

/-- What a descriptor shows in the capabilities field. -/
def capabilitiesJson (capabilities : Option (List String)) : Json :=
  .arr ((capabilities.getD []).map Json.str)

/-- A workload can be declared outright or with one backend. -/
def capabilityMatches (js : Js) (declared : Option (List String)) (workload backend : Json) :
    Except JsError Bool :=
  match declared with
  | none => .ok true
  | some names =>
    if names.any (fun n => workload.isStr n) then .ok true
    else if !backend.truthy then .ok false
    else do
      let pair := (← workload.text js) ++ ":" ++ (← backend.text js)
      .ok (names.contains pair)

/-- Has this ephemeral agent's window closed? -/
def isExpired (ttl : Option Nat) (age : Option Nat) : Bool :=
  match ttl with
  | none => false
  | some t =>
    if t = 0 then false
    else
      match age with
      | none => true
      | some a => decide (t < a)

def ONLINE_S : Nat := 180

end FleetRunner
