import FleetRunner.Server

/-!
# Which attached devices a host job runs on (`executor.ts`, `targets.ts`)

An executor that claimed a job narrows the devices attached to its machine to
the ones the job asked for: by id, kind, membership in the fleet, reservation,
and match expression, the last two on the descriptors it reads itself.

## Implementation notes

What adb, simctl and devicectl answer is a `Host`; a command that fails answers
what its `catch` does. A target is described once, with the tools that were
loaded when the first description was asked for. The selection never hands
`describeTarget` a list of Rokus, so that list is left out.
-/

namespace FleetRunner

open Library

/-! ## The machine -/

structure Target where
  id : String
  platform : String
  kind : Option String
  deriving DecidableEq

structure Simulator where
  udid : String
  name : String

structure IosDeviceInfo where
  identifier : String
  name : Option String
  marketingName : Option String
  productType : Option String
  osVersion : Option String
  transport : Option String

/-- `simctl list devices`, by runtime; `none` without Xcode. -/
abbrev Simctl : Type := Option (List (String × List Simulator))

structure Host where
  NAME : String
  HOST : String
  SIM_PREFIX : String
  /-- `adb -s id shell getprop key`, trimmed -/
  getprop : String → String → String
  /-- `MemTotal` of `/proc/meminfo`, or 0 -/
  memTotalKb : String → Nat
  /-- the first line of `adb emu avd name`, when there is one -/
  avdName : String → Option String
  simctlDevices : Simctl
  devicectlDevices : List IosDeviceInfo

/-! ## Membership -/

def simulatorName (udid : String) (sims : Simctl) : Option String :=
  (((sims.getD []).flatMap Prod.snd).find? fun d => decide (d.udid = udid)).map (·.name)

/-- `/^emulator-\d+$/` -/
def isAndroidEmulatorSerial (serial : String) : Bool :=
  let mark := "emulator-".toList
  let digits := serial.toList.drop mark.length
  mark.isPrefixOf serial.toList && !digits.isEmpty && digits.all Match.isDigitChar

variable (js : Js)

/-- Hardware is in the fleet; a virtual device only when its name opts in. -/
def fleetOwned (virtualName : Option String) (simPrefix : String) : Bool :=
  match virtualName with
  | none => true
  | some name => startsWith (js.lower name) (js.lower simPrefix)

def virtualNameOf (host : Host) (t : Target) (sims : Simctl) : Option String :=
  if t.platform = "ios" then simulatorName t.id sims
  else if !isAndroidEmulatorSerial t.id then none
  else some ((host.avdName t.id).getD t.id)

def fleetOwnedTarget (host : Host) (t : Target) (sims : Simctl) : Bool :=
  fleetOwned js (virtualNameOf host t sims) host.SIM_PREFIX

/-! ## Descriptors -/

def isLetter (c : Char) : Bool :=
  (decide ('A' ≤ c) && decide (c ≤ 'Z')) || (decide ('a' ≤ c) && decide (c ≤ 'z'))

/-- Where `SimRuntime.` letters `-` first occurs with an end `ok` accepts: the
letters, and what follows the dash. -/
def simRuntime? (ok : List Char → Bool) : List Char → Option (List Char × List Char)
  | [] => none
  | c :: cs =>
    let mark := "SimRuntime.".toList
    let rest := (c :: cs).drop mark.length
    if mark.isPrefixOf (c :: cs) then
      match rest.takeWhile isLetter, rest.dropWhile isLetter with
      | l :: ls, '-' :: after => if ok after then some (l :: ls, after) else simRuntime? ok cs
      | _, _ => simRuntime? ok cs
    else simRuntime? ok cs

/-- The platform behind a CoreSimulator runtime; `none` for one it does not know. -/
def simulatorPlatform (runtimeKey : String) : Option String :=
  match (simRuntime? (fun _ => true) runtimeKey.toList).map fun m => String.ofList m.1 with
  | some "iOS" => some "ios"
  | some "tvOS" => some "tvos"
  | some "watchOS" => some "watchos"
  | some "xrOS" => some "visionos"
  | some "visionOS" => some "visionos"
  | _ => none

/-- The version a runtime key ends in, with dots. -/
def simulatorVersion (runtimeKey : String) : Option String :=
  let isVersion := fun (cs : List Char) =>
    !cs.isEmpty && cs.all fun c => Match.isDigitChar c || c = '-'
  (simRuntime? isVersion runtimeKey.toList).map fun m =>
    String.ofList (m.2.map fun c => if c = '-' then '.' else c)

/-- `{ k: v }` when the value is there -/
def field? (k : String) (v : Option String) : Fields := (v.map fun s => (k, Json.str s)).toList

section Describe

variable (host : Host) (t : Target)

def attachedFields : Fields := [("attached_to", .str host.NAME), ("attached_host", .str host.HOST)]

def serialFields : Fields := ("serial", .str t.id) :: attachedFields host

def describeRokuTarget : Fields :=
  [("platform", .str "roku"), ("model", .str "roku"), ("os", .str "roku"), ("kind", .str "device")] ++
    attachedFields host

def describeAndroid : Fields :=
  let model := host.getprop t.id "ro.product.model"
  let release := host.getprop t.id "ro.build.version.release"
  let memKb := host.memTotalKb t.id
  [("model", .str (if model = "" then t.id else model)),
    ("os", .str (if release = "" then "android" else "android-" ++ release))] ++
    (if memKb = 0 then [] else [("ram_mb", .num ((memKb + 512) / 1024 : Nat))]) ++
    serialFields host t ++ field? "kind" t.kind

def describeSimulator (runtime name : String) : Fields :=
  let family := (simulatorPlatform runtime).getD "ios"
  [("model", .str name),
    ("os", .str (match simulatorVersion runtime with
      | some v => family ++ "-" ++ v
      | none => family))] ++
    serialFields host t ++ [("kind", .str "simulator"), ("soc", .str "simulator")]

def describeIos (info : IosDeviceInfo) : Fields :=
  let simulated := info.transport = some "sameMachine"
  [("model", .str ((info.marketingName.or info.name).getD
      (if simulated then "simulator" else "iphone"))),
    ("os", .str (match info.osVersion with
      | some v => if v = "" then "ios" else "ios-" ++ v
      | none => "ios"))] ++
    (if simulated then [("soc", .str "simulator")]
      else field? "soc" (info.productType.filter fun s => decide (s ≠ ""))) ++
    serialFields host t ++ [("kind", .str (if simulated then "simulator" else "device"))]

def describeUnknown : Fields :=
  [("model", .str (if t.kind = some "simulator" then "simulator" else "iphone")),
    ("os", .str "ios")] ++ serialFields host t ++ field? "kind" t.kind

/-- The simulator of a udid, with its runtime. -/
def simulatorOf (sims : Simctl) (udid : String) : Option (String × Simulator) :=
  (sims.getD []).findSome? fun entry =>
    (entry.2.find? fun d => decide (d.udid = udid)).map fun d => (entry.1, d)

/-- What the executor says a target is. -/
def describeTarget (sims : Simctl) (ios : Option (List IosDeviceInfo)) : Fields :=
  if t.platform = "roku" then describeRokuTarget host
  else if t.platform = "android" then describeAndroid host t
  else
    match simulatorOf sims t.id with
    | some (runtime, hit) => describeSimulator host t runtime hit.name
    | none =>
      match (ios.getD []).find? fun d => decide (d.identifier = t.id) with
      | some info => describeIos host t info
      | none => describeUnknown host t

end Describe

/-! ## Selection -/

/-- The answer to a claim: the spec with the lease it was granted and every
reservation, device id to label. -/
def handedOut (db : Db) (spec : Json) : Json :=
  let lease := (nullish (spec.prop "lease") (.obj [])).spread
  let granted := ((spec.prop "job_id").bind Json.asStr?).bind fun id =>
    (db.job? id).map fun r => Json.num r.lease_ttl_s
  let ttl := granted.or (optProp (spec.prop "lease") "ttl_s")
  let timed := match ttl with
    | some v => Fields.set lease "ttl_s" v
    | none => lease
  let reserved := db.device_reservations.rows.map fun r => (r.device_id, Json.str r.label)
  .obj (Fields.set (Fields.set spec.spread "lease" (.obj timed)) "reserved_devices" (.obj reserved))

/-- `!(t.device_kind && x.kind !== t.device_kind)` -/
def kindAllows (job : Json) (t : Target) : Bool :=
  match target? job "device_kind" with
  | none => true
  | some v => if v.truthy then t.kind.any v.isStr else true

/-- The cheap filters, which ask no tool. -/
def narrowed (job : Json) (all : List Target) : List Target :=
  (all.filter fun t => pinAllows job t.id).filter (kindAllows job)

def hasIos (targets : List Target) : Bool := targets.any fun t => decide (t.platform = "ios")

def ownedTargets (host : Host) (job : Json) (all : List Target) : List Target :=
  let out := narrowed job all
  let sims := if hasIos out then host.simctlDevices else none
  out.filter fun t => fleetOwnedTarget js host t sims

/-- `reserved[x.id]`, inherited members included. -/
def reservedLabel (job : Json) (id : String) : Val :=
  Match.member js (nullish (job.prop "reserved_devices") (.obj [])).spread id

/-- `reservationAllows` with whatever label was found; a job's reservation is
text, so a label that is not never equals it. -/
def labelAllows (job : Json) (id : String) (label : Val) (descriptor : Fields) : Bool :=
  match label with
  | .str l => reservationAllows js job id (some l) descriptor
  | v => !Match.truthy v

/-- Does the reservation test of this target read its descriptor? -/
def readsDescriptor (job : Json) (t : Target) : Bool :=
  Match.truthy (reservedLabel js job t.id) && !optTruthy (target? job "device_id") &&
    optTruthy (target? job "match")

section Selection

variable (host : Host) (job : Json) (all : List Target)

/-- A target as described among `out`, with the tools loaded for `loaded`. -/
def descriptorIn (out loaded : List Target) (t : Target) : Fields :=
  let first := (out.find? fun x => decide (x.id = t.id)).getD t
  let ios := if hasIos loaded then some host.devicectlDevices else none
  describeTarget host first host.simctlDevices ios

def withId (descriptor : Fields) (t : Target) : Fields :=
  Fields.set descriptor "device_id" (.str t.id)

/-- The owned targets the job's reservation leaves. -/
def unreservedTargets : List Target :=
  let out := ownedTargets js host job all
  if out.any fun t => Match.truthy (reservedLabel js job t.id) then
    out.filter fun t => labelAllows js job t.id (reservedLabel js job t.id)
      (if readsDescriptor js job t then withId (descriptorIn host out out t) t else [])
  else out

/-- The description this selection makes of a target. -/
def describedAs (t : Target) : Fields :=
  let out := ownedTargets js host job all
  let loaded := if out.any (readsDescriptor js job) then out else unreservedTargets js host job all
  descriptorIn host out loaded t

/-- The text of what was thrown; a `TypeError`'s is the engine's own. -/
def JsError.message : JsError → String
  | .typeError => "TypeError"
  | .error m => m

/-- A malformed expression must not silently select everything. -/
def matchOrThrow (expr : Json) (descriptor : Fields) : Except JsError Bool :=
  match evalMatchJson js expr descriptor with
  | .ok hit => .ok hit
  | .error e => .error (.error ("targets.match is invalid: " ++ e.message))

/-- The attached targets a job runs on. -/
def selectTargets : Except JsError (List Target) :=
  let out := unreservedTargets js host job all
  match target? job "match" with
  | none => .ok out
  | some expr =>
    if expr.truthy then
      filterE (fun t => matchOrThrow js expr (withId (describedAs js host job all t) t)) out
    else .ok out

end Selection

end FleetRunner
