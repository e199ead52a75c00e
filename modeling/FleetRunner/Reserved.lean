import FleetRunner.Match

/-!
# Reserved devices (`reserved.ts`)

A reserved device is given only to a job that carries its label and names it:
by `targets.device_id`, or by a `targets.match` that stops selecting it once
its id is swapped for another. Both the collector and the host executor apply
`reservationAllows`, each to the descriptor it has.
-/

namespace FleetRunner

def isAlnum (c : Char) : Bool :=
  (decide ('A' ≤ c) && decide (c ≤ 'Z')) || (decide ('a' ≤ c) && decide (c ≤ 'z')) ||
    (decide ('0' ≤ c) && decide (c ≤ '9'))

/-- `RESERVATION_LABEL`: a letter or digit, then at most 63 label characters. -/
def isReservationLabel (s : String) : Bool :=
  match s.toList with
  | [] => false
  | c :: cs =>
      isAlnum c && decide (cs.length ≤ 63) &&
        cs.all fun x => isAlnum x || x = '.' || x = '_' || x = ':' || x = '-'

/-- Stands in for some other device when testing whether a match pins an id. -/
def anotherDevice : String := "\x00another-device"

/-- The descriptor with every field that carries the device's id swapped. -/
def withAnotherId (self : Fields) (deviceId : String) : Fields :=
  self.map fun p => (p.1, if p.2.isStr deviceId then .str anotherDevice else p.2)

variable (js : Js)

/-- Does this job name this device explicitly? -/
def pinsDevice (targets : Option Json) (deviceId : String) (descriptor : Fields) : Bool :=
  if !optTruthy targets then false
  else if optTruthy (optProp targets "device_id") then
    (optProp targets "device_id").any fun v => v.isStr deviceId
  else
    match optProp targets "match" with
    | none => false
    | some expr =>
      if !expr.truthy then false
      else
        let self := Fields.set descriptor "device_id" (.str deviceId)
        match evalMatchJson js expr self with
        | .ok true =>
          match evalMatchJson js expr (withAnotherId self deviceId) with
          | .ok hit => !hit
          | .error _ => false
        | _ => false

/-- May this job run on this device? Always on an unreserved one. -/
def reservationAllows (job : Json) (deviceId : String) (label : Option String)
    (descriptor : Fields) : Bool :=
  match label with
  | none => true
  | some l =>
      if l = "" then true
      else (job.prop "reservation").any (fun v => v.isStr l) &&
        pinsDevice js (job.prop "targets") deviceId descriptor

def reservedReason (deviceId label : String) : String :=
  deviceId ++ " is reserved for '" ++ label ++ "': only a job with reservation '" ++ label ++
    "' that pins it (targets.device_id, or targets.match \"device_id == '" ++ deviceId ++
    "'\") may use it"

/-- A pin by id answers for itself, whatever the descriptor says. -/
theorem pinsDevice_of_device_id {targets : Option Json} {id deviceId : String}
    (h : optProp targets "device_id" = some (.str id)) (hne : id ≠ "") (descriptor : Fields) :
    pinsDevice js targets deviceId descriptor = decide (id = deviceId) := by
  obtain ⟨t, rfl, ht⟩ : ∃ t, targets = some t ∧ t.prop "device_id" = some (.str id) := by
    cases targets with
    | none => simp [optProp] at h
    | some t => exact ⟨t, rfl, h⟩
  have htruthy : t.truthy = true := by
    cases t with
    | obj fs => rfl
    | _ => simp [Json.prop] at ht
  have hid : (Json.str id).truthy = true := by simp [Json.truthy, hne]
  simp [pinsDevice, optProp, ht, htruthy, hid]

end FleetRunner
