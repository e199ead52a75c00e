import FleetRunner.Js.Text

/-!
# What a machine agent is asked to do (`protocol.ts`, `collector.ts`)

A job spec arrives as JSON a collector answered a poll with. Its parameters are
read by name and type, and its artifacts are fetched by their hash.
-/

namespace FleetRunner.Machine

structure JobSpec where
  job_id : String
  workload : String
  model : Option Json
  params : Option Json

/-- `Math.trunc(x)` -/
def mathTrunc (x : Rat) : Int := x.num.tdiv x.den

def intParam (js : Js) (params : Option Json) (key : String) (fallback : Int) : Int :=
  match optProp params key with
  | some (.num q) => mathTrunc q
  | some (.str s) =>
      match js.parseNum s with
      | .fin q => mathTrunc q
      | _ => fallback
  | _ => fallback

def stringParam (params : Option Json) (key : String) : Option String :=
  (optProp params key).bind Json.asStr?

/-- The strings of an array parameter; anything else in it is dropped. -/
def stringsParam (params : Option Json) (key : String) : List String :=
  match optProp params key with
  | some (.arr xs) => xs.filterMap Json.asStr?
  | _ => []

/-! ## Artifacts -/

abbrev Bytes := List UInt8

/-- What the artifact store says to a fetch. -/
inductive Answer where
  | failed (message : String)
  | status (code : Nat)
  | body (bytes : Bytes)

/-- The bytes that end up under the name of the hash, or why none do. -/
def fetchArtifact (sha256 : Bytes → String) (sha : String) : Answer → Except String Bytes
  | .failed message => .error message
  | .status code => .error ("artifact " ++ sha ++ " failed: HTTP " ++ toString code)
  | .body bytes =>
      if sha256 bytes = sha then .ok bytes
      else .error ("artifact hash mismatch: wanted " ++ sha ++ " got " ++ sha256 bytes)

/-- A file is never handed on under the name of another. -/
theorem fetchArtifact_ok {sha256 : Bytes → String} {sha : String} {answer : Answer} {bytes : Bytes}
    (h : fetchArtifact sha256 sha answer = .ok bytes) : sha256 bytes = sha := by
  cases answer with
  | failed message => cases h
  | status code => cases h
  | body got =>
      rw [fetchArtifact] at h
      split at h
      · rename_i hsha
        rwa [Except.ok.inj h] at hsha
      · cases h

end FleetRunner.Machine
