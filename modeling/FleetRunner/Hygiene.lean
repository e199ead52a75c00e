import FleetRunner.Db

/-!
# Keeping the device registry down to real things (`registry-hygiene.ts`)

Simulators that have been offline past their time are forgotten by the sweep,
and a Roku known by its serial retires the row it left when only its address
was known. Neither touches a device that holds a lock or a claim.
-/

namespace FleetRunner

open Library

namespace Db

/-- `SELECT 1 FROM jobs WHERE status = 'claimed' AND claimed_by = ?` -/
def claimedBy? (db : Db) (deviceId : String) : Option Job :=
  db.jobs.rows.find? fun r => decide (r.status = .claimed ∧ r.claimed_by = some deviceId)

/-- A device with a lock or a claim is in use. -/
def inUse (db : Db) (deviceId : String) : Bool :=
  (db.lockOf deviceId).isSome || (db.claimedBy? deviceId).isSome

/-- `DELETE FROM devices WHERE device_id = ?` -/
def deleteDevice (db : Db) (deviceId : String) : Db :=
  { db with devices := db.devices.deleteWhere fun d => decide (d.device_id = deviceId) }

end Db

def declaredSimulator (descriptor : Json) : Bool :=
  (descriptor.prop "kind").any (fun v => v.isStr "simulator") ||
    (descriptor.prop "soc").any (fun v => v.isStr "simulator")

/-- Forget simulator rows that have been offline longer than the TTL. -/
def forgetStaleSimulators (ttlS : Nat) (db : Db) : Db × List String :=
  let stale := fun (d : Device) => decide (d.last_seen + ttlS ≤ db.sqlNow) && !db.inUse d.device_id &&
    declaredSimulator d.descriptor
  ({ db with devices := db.devices.deleteWhere stale },
    (db.devices.rows.filter stale).map (·.device_id))

def rokuIpId (ip : String) : String :=
  "roku-ip-" ++ String.ofList (ip.toList.map fun c => if c = '.' then '-' else c)

def isDottedQuad (ip : String) : Bool :=
  let parts := ip.toList.splitOn '.'
  decide (parts.length = 4) && parts.all fun p =>
    decide (1 ≤ p.length ∧ p.length ≤ 3) && p.all fun c => decide ('0' ≤ c ∧ c ≤ '9')

/-- When a Roku registers under its serial, retire the row the same box left
when it was known only by its address. -/
def retireRokuIpDuplicate (db : Db) (deviceId : String) (descriptor : Json) : Db × Option String :=
  let named := fun (start : String) => start.toList.isPrefixOf deviceId.toList
  match descriptor.prop "ip" with
  | some (.str ip) =>
    if named "roku-" && !named "roku-ip-" && isDottedQuad ip then
      let dup := rokuIpId ip
      if db.inUse dup then (db, none)
      else (db.deleteDevice dup, if (db.device? dup).isSome then some dup else none)
    else (db, none)
  | _ => (db, none)

end FleetRunner
