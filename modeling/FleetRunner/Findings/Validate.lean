import FleetRunner.Findings.Schema
import FleetRunner.Library.Fallible

/-!
# What the collector takes in as a finding (`findings.ts`)

A posted body is refused with 400 when it is not a finding, and with 422 when
it is one the collector will not file: its replay reproduced nothing, or it has
none and is not a crash. What is taken in is built anew from the checked fields.

## Implementation notes

A finding cannot be written down with a replay whose counts are out of range:
the checks of the counts supply its proofs.
-/

namespace FleetRunner

open Library

/-- An upload that is not taken. -/
structure Rejection where
  status : Nat
  error : String
  deriving DecidableEq

namespace Validate

def bad {α : Type} (error : String) : Except Rejection α := .error ⟨400, error⟩

def notFiled {α : Type} (error : String) : Except Rejection α := .error ⟨422, error⟩

/-! ## Patterns -/

def isLowerHex (c : Char) : Bool := ('a' ≤ c && c ≤ 'f') || ('0' ≤ c && c ≤ '9')

/-- `SHA` -/
def isSha (s : String) : Bool := decide (s.toList.length = 64) && s.toList.all isLowerHex

/-- `/^[a-z_]{1,40}$/` -/
def isSubclass (s : String) : Bool :=
  decide (1 ≤ s.toList.length) && decide (s.toList.length ≤ 40) &&
    s.toList.all fun c => ('a' ≤ c && c ≤ 'z') || c = '_'

/-! ## Text fields -/

def tooLong {α : Type} (key : String) (max : Nat) : Except Rejection α :=
  bad (key ++ " is longer than " ++ toString max ++ " characters")

def needed {α : Type} (key : String) : Except Rejection α :=
  bad (key ++ " is required (a non-empty string)")

/-- A field that must be there and not blank. -/
def requiredText (b : Fields) (key : String) (max : Nat) : Except Rejection String :=
  match b.get? key with
  | some (.str v) => if max < jsLength v then tooLong key max else if isBlank v then needed key else .ok v
  | _ => needed key

/-- A field that must be there and may be empty. -/
def sizedText (b : Fields) (key : String) (max : Nat) : Except Rejection String :=
  match b.get? key with
  | some (.str v) => if max < jsLength v then tooLong key max else .ok v
  | _ => bad (key ++ " must be a string")

/-! ## Names from a list -/

/-- The subclass, if there is one. -/
def subclassOf (b : Fields) : Except Rejection (Option String) :=
  match b.get? "subclass" with
  | none => .ok none
  | some .null => .ok none
  | some (.str v) =>
      if isSubclass v then .ok (some v)
      else bad "subclass must be a short lowercase name like overlap or raw_error"
  | some _ => bad "subclass must be a short lowercase name like overlap or raw_error"

/-- `JSON.stringify(v)` in a message -/
def shown (js : Js) (v : Option Json) : String := v.elim "undefined" fun w => w.stringify js

/-- The check has to be one of the known. -/
def checkOf (js : Js) (b : Fields) : Except Rejection CheckName :=
  match CHECK_NAMES.find? fun c => (b.get? "check").any fun v => v.isStr c.text with
  | some c => .ok c
  | none =>
      bad ("unknown check " ++ shown js (b.get? "check") ++ "; expected one of " ++
        ", ".intercalate (CHECK_NAMES.map CheckName.text))

/-- The severity has to be one of the known. -/
def severityOf (b : Fields) : Except Rejection Severity :=
  match SEVERITIES.find? fun s => (b.get? "severity").any fun v => v.isStr s.text with
  | some s => .ok s
  | none => bad ("severity must be one of " ++ ", ".intercalate (SEVERITIES.map Severity.text))

/-! ## Steps and artifacts -/

/-- The steps are texts. -/
def stepsOf (b : Fields) : Except Rejection (List String) :=
  match (b.get? "steps").bind Json.asStrings? with
  | none => bad "steps must be an array of strings"
  | some steps =>
      if LIMITS.steps < steps.length then
        bad ("steps has more than " ++ toString LIMITS.steps ++ " entries")
      else if steps.any fun s => decide (LIMITS.step < jsLength s) then
        bad ("a step is longer than " ++ toString LIMITS.step ++ " characters")
      else .ok steps

def ARTIFACT_KEYS : List String := ["shot", "sheet", "trajectory", "log", "replay"]

def isShaText (v : Json) : Bool := v.asStr?.any isSha

/-- Every artifact has a known name and a digest. -/
def checkArtifacts (js : Js) : Fields → Except Rejection Unit
  | [] => .ok ()
  | (k, v) :: rest =>
      if k ∉ ARTIFACT_KEYS then
        bad ("unknown artifact " ++ (Json.str k).stringify js ++ "; expected " ++
          ", ".intercalate ARTIFACT_KEYS)
      else if isShaText v then checkArtifacts js rest
      else bad ("artifacts." ++ k ++ " must be a sha256 hex digest")

/-- The artifacts, if there are any. -/
def artifactsOf (js : Js) (b : Fields) : Except Rejection Artifacts :=
  match b.get? "artifacts" with
  | some (.obj a) => do
      checkArtifacts js a
      let held (key : String) : Option String := heldHash? ((Fields.get? a key).bind Json.asStr?)
      .ok ⟨held "shot", held "sheet", held "trajectory", held "log", held "replay"⟩
  | _ => bad "artifacts must be an object (it may be empty)"

/-! ## The replay -/

/-- The kind of the replay has to be one of the known. -/
def kindOf (rp : Fields) : Except Rejection ReplayKind :=
  match REPLAY_KINDS.find? fun k => (rp.get? "kind").any fun v => v.isStr k.text with
  | some k => .ok k
  | none => bad ("replay.kind must be one of " ++ ", ".intercalate (REPLAY_KINDS.map ReplayKind.text))

/-- The digest of the replay file, if there is one. -/
def hashOf (rp : Fields) : Except Rejection (Option String) :=
  match rp.get? "sha256" with
  | some .null => .ok none
  | some (.str v) =>
      if isSha v then .ok (some v) else bad "replay.sha256 must be a sha256 hex digest or null"
  | _ => bad "replay.sha256 must be a sha256 hex digest or null"

/-- `isCount`, with the count -/
def count? (v : Option Json) : Option Nat :=
  (v.bind Json.asInt?).bind fun n => if 0 ≤ n ∧ n ≤ LIMITS.attempts then some n.toNat else none

theorem count?_le {v : Option Json} {n : Nat} (h : count? v = some n) : n ≤ LIMITS.attempts := by
  obtain ⟨i, -, hi⟩ := Option.bind_eq_some_iff.mp h
  split at hi
  · rename_i hrange
    obtain rfl := Option.some.inj hi
    omega
  · cases hi

def countsText : String :=
  "replay.attempts and replay.reproduced must be whole numbers from 0 to " ++
    toString LIMITS.attempts

/-- Reproduced once at least, and not more often than it was tried. -/
def countsOf (rp : Fields) (kind : ReplayKind) (sha256 : Option String) : Except Rejection Replay :=
  match ha : count? (rp.get? "attempts"), count? (rp.get? "reproduced") with
  | some attempts, some reproduced =>
      if h : reproduced ≤ attempts then
        if reproduced = 0 then
          notFiled ("replay reproduced it 0 of " ++ toString attempts ++
            " times; a finding nobody could repeat is not filed")
        else .ok ⟨kind, sha256, attempts, reproduced, count?_le ha, h⟩
      else bad "replay.reproduced cannot exceed replay.attempts"
  | _, _ => bad countsText

/-- The replay, which a crash may do without. -/
def replayOf (b : Fields) (check : CheckName) : Except Rejection (Option Replay) :=
  match b.get? "replay" with
  | some .null =>
      if check = .crash then .ok none
      else notFiled ("replay is null, which only a crash may be (its crash log is the evidence); check "
        ++ check.text ++ " needs a replay that reproduced it")
  | some (.obj rp) => do
      let kind ← kindOf rp
      let sha256 ← hashOf rp
      let counted ← countsOf rp kind sha256
      .ok (some counted)
  | _ => bad "replay must be an object or null"

end Validate

open Validate

/-- Check a posted body against the contract. -/
def validateFinding (js : Js) (body : Json) : Except Rejection ExploreFinding :=
  match body with
  | .obj b => do
      let fingerprint ← requiredText b "fingerprint" LIMITS.fingerprint
      let app ← requiredText b "app" LIMITS.id
      let build ← requiredText b "build" LIMITS.id
      let platform ← requiredText b "platform" LIMITS.id
      let device_id ← requiredText b "device_id" LIMITS.id
      let job_id ← requiredText b "job_id" LIMITS.id
      let mission_id ← requiredText b "mission_id" LIMITS.id
      let title ← requiredText b "title" LIMITS.title
      let detail ← sizedText b "detail" LIMITS.detail
      let screen ← sizedText b "screen" LIMITS.screen
      let screen_name ← sizedText b "screen_name" LIMITS.screen
      let subclass ← subclassOf b
      let check ← checkOf js b
      let severity ← severityOf b
      let steps ← stepsOf b
      let artifacts ← artifactsOf js b
      let replay ← replayOf b check
      .ok {
        fingerprint, app, build, platform, device_id, job_id, mission_id, check, subclass, severity,
        title, detail, screen, screen_name, steps, replay, artifacts
      }
  | _ => bad "body must be a JSON object"

namespace Validate

/-! ## What each check lets through -/

theorem requiredText_ok_iff (b : Fields) (key : String) (max : Nat) (v : String) :
    requiredText b key max = .ok v ↔
      b.get? key = some (.str v) ∧ isBlank v = false ∧ jsLength v ≤ max := by
  unfold requiredText
  split
  · rename_i w hw
    rw [hw]
    by_cases hlong : max < jsLength w
    · rw [if_pos hlong]
      refine iff_of_false (by simp [tooLong, bad]) ?_
      rintro ⟨heq, -, hle⟩
      obtain rfl := Json.str.inj (Option.some.inj heq)
      omega
    · rw [if_neg hlong]
      by_cases hblank : isBlank w = true
      · rw [if_pos hblank]
        refine iff_of_false (by simp [needed, bad]) ?_
        rintro ⟨heq, hshown, -⟩
        obtain rfl := Json.str.inj (Option.some.inj heq)
        simp [hblank] at hshown
      · rw [if_neg hblank]
        constructor
        · intro h
          obtain rfl := Except.ok.inj h
          exact ⟨rfl, by simpa using hblank, by omega⟩
        · rintro ⟨heq, -, -⟩
          rw [Json.str.inj (Option.some.inj heq)]
  · rename_i hnot
    refine iff_of_false (by simp [needed, bad]) ?_
    rintro ⟨heq, -⟩
    exact hnot v heq

theorem sizedText_ok_iff (b : Fields) (key : String) (max : Nat) (v : String) :
    sizedText b key max = .ok v ↔ b.get? key = some (.str v) ∧ jsLength v ≤ max := by
  unfold sizedText
  split
  · rename_i w hw
    rw [hw]
    by_cases hlong : max < jsLength w
    · rw [if_pos hlong]
      refine iff_of_false (by simp [tooLong, bad]) ?_
      rintro ⟨heq, hle⟩
      obtain rfl := Json.str.inj (Option.some.inj heq)
      omega
    · rw [if_neg hlong]
      constructor
      · intro h
        obtain rfl := Except.ok.inj h
        exact ⟨rfl, by omega⟩
      · rintro ⟨heq, -⟩
        rw [Json.str.inj (Option.some.inj heq)]
  · rename_i hnot
    refine iff_of_false (by simp [bad]) ?_
    rintro ⟨heq, -⟩
    exact hnot v heq

section Fields

variable {b : Fields} {key : String} {v : String}

theorem requiredText_isOk_iff (h : b.get? key = some (.str v)) (max : Nat) :
    (∃ w, requiredText b key max = .ok w) ↔ isBlank v = false ∧ jsLength v ≤ max := by
  simp only [requiredText_ok_iff, h, Option.some.injEq, Json.str.injEq]
  constructor
  · rintro ⟨w, rfl, hw⟩
    exact hw
  · exact fun hv => ⟨v, rfl, hv⟩

theorem sizedText_isOk_iff (h : b.get? key = some (.str v)) (max : Nat) :
    (∃ w, sizedText b key max = .ok w) ↔ jsLength v ≤ max := by
  simp only [sizedText_ok_iff, h, Option.some.injEq, Json.str.injEq]
  constructor
  · rintro ⟨w, rfl, hw⟩
    exact hw
  · exact fun hv => ⟨v, rfl, hv⟩

end Fields

theorem asStrings?_strings (steps : List String) :
    Json.asStrings? (.arr (steps.map .str)) = some steps := by
  simp only [Json.asStrings?]
  induction steps with
  | nil => rfl
  | cons s rest ih => simp [List.mapM_cons, ih, Json.asStr?]

theorem stepsOf_isOk_iff {b : Fields} {steps : List String}
    (h : b.get? "steps" = some (.arr (steps.map .str))) :
    (∃ w, stepsOf b = .ok w) ↔
      steps.length ≤ LIMITS.steps ∧ ∀ s ∈ steps, jsLength s ≤ LIMITS.step := by
  simp only [stepsOf, h, Option.bind_some, asStrings?_strings]
  by_cases hmany : LIMITS.steps < steps.length
  · rw [if_pos hmany]
    exact iff_of_false (by simp [bad]) fun hle => absurd hle.1 (by omega)
  · rw [if_neg hmany]
    by_cases hlong : (steps.any fun s => decide (LIMITS.step < jsLength s)) = true
    · rw [if_pos hlong]
      refine iff_of_false (by simp [bad]) fun hle => ?_
      obtain ⟨s, hs, hlt⟩ := List.any_eq_true.mp hlong
      have hs := hle.2 s hs
      simp only [decide_eq_true_eq] at hlt
      omega
    · rw [if_neg hlong]
      refine iff_of_true ⟨steps, rfl⟩ ⟨by omega, fun s hs => ?_⟩
      simp only [List.any_eq_true, not_exists, not_and, decide_eq_true_eq] at hlong
      exact Nat.le_of_not_lt (hlong s hs)

theorem checkArtifacts_ok {js : Js} {a : Fields}
    (h : ∀ p ∈ a, p.1 ∈ ARTIFACT_KEYS ∧ isShaText p.2 = true) : checkArtifacts js a = .ok () := by
  induction a with
  | nil => rfl
  | cons p rest ih =>
      obtain ⟨hkey, hsha⟩ := h p List.mem_cons_self
      rw [checkArtifacts, if_neg (not_not.mpr hkey), if_pos hsha]
      exact ih fun q hq => h q (List.mem_cons_of_mem _ hq)

theorem artifactsOf_isOk {js : Js} {b a : Fields} (h : b.get? "artifacts" = some (.obj a))
    (ha : ∀ p ∈ a, p.1 ∈ ARTIFACT_KEYS ∧ isShaText p.2 = true) :
    ∃ w, artifactsOf js b = .ok w := by
  simp only [artifactsOf, h, checkArtifacts_ok ha]
  exact ⟨_, rfl⟩

theorem checkOf_text {js : Js} {b : Fields} {c : CheckName}
    (h : b.get? "check" = some (.str c.text)) : checkOf js b = .ok c := by
  simp only [checkOf, h]
  cases c <;> rfl

theorem checkOf_absent {js : Js} {b : Fields} (h : b.get? "check" = none) (c : CheckName) :
    checkOf js b ≠ .ok c := by
  simp [checkOf, h, CHECK_NAMES, bad]

theorem severityOf_text {b : Fields} {s : Severity} (h : b.get? "severity" = some (.str s.text)) :
    severityOf b = .ok s := by
  simp only [severityOf, h]
  cases s <;> rfl

theorem kindOf_text {rp : Fields} {k : ReplayKind} (h : rp.get? "kind" = some (.str k.text)) :
    kindOf rp = .ok k := by
  simp only [kindOf, h]
  cases k <;> rfl

theorem count?_num {n : Nat} (h : n ≤ LIMITS.attempts) : count? (some (.num n)) = some n := by
  have hn : (n : Int) ≤ (LIMITS.attempts : Int) := by omega
  simp [count?, Json.asInt?, hn]

theorem countsOf_isOk {rp : Fields} {attempts reproduced : Nat}
    (ha : count? (rp.get? "attempts") = some attempts)
    (hr : count? (rp.get? "reproduced") = some reproduced) (hle : reproduced ≤ attempts)
    (hpos : 0 < reproduced) (kind : ReplayKind) (sha256 : Option String) :
    ∃ w, countsOf rp kind sha256 = .ok w := by
  unfold countsOf
  split
  · rename_i attempts' reproduced' ha' hr'
    obtain rfl := Option.some.inj (ha.symm.trans ha')
    obtain rfl := Option.some.inj (hr.symm.trans hr')
    rw [dif_pos hle, if_neg (by omega)]
    exact ⟨_, rfl⟩
  · rename_i hnot
    exact absurd hr (hnot attempts reproduced ha)

theorem replayOf_isOk {b rp : Fields} {kind : ReplayKind} {attempts reproduced : Nat}
    (h : b.get? "replay" = some (.obj rp)) (hkind : rp.get? "kind" = some (.str kind.text))
    (hhash : ∃ w, hashOf rp = .ok w) (ha : rp.get? "attempts" = some (.num attempts))
    (hr : rp.get? "reproduced" = some (.num reproduced)) (hle : reproduced ≤ attempts)
    (hlimit : attempts ≤ LIMITS.attempts) (hpos : 0 < reproduced) (check : CheckName) :
    ∃ w, replayOf b check = .ok w := by
  obtain ⟨sha256, hsha⟩ := hhash
  have hattempts : count? (rp.get? "attempts") = some attempts := by rw [ha, count?_num hlimit]
  have hreproduced : count? (rp.get? "reproduced") = some reproduced := by
    rw [hr, count?_num (Nat.le_trans hle hlimit)]
  obtain ⟨counted, hcounted⟩ := countsOf_isOk hattempts hreproduced hle hpos kind sha256
  refine ⟨some counted, ?_⟩
  simp only [replayOf, h, kindOf_text hkind, hsha]
  change (countsOf rp kind sha256 >>= fun counted => Except.ok (some counted)) = _
  rw [hcounted]
  rfl

end Validate

/-- A body is taken in when each of its checks lets it through. -/
theorem validateFinding_ok_iff (js : Js) (b : Fields) :
    (∃ f, validateFinding js (.obj b) = .ok f) ↔
      (∃ v, requiredText b "fingerprint" LIMITS.fingerprint = .ok v) ∧
      (∃ v, requiredText b "app" LIMITS.id = .ok v) ∧
      (∃ v, requiredText b "build" LIMITS.id = .ok v) ∧
      (∃ v, requiredText b "platform" LIMITS.id = .ok v) ∧
      (∃ v, requiredText b "device_id" LIMITS.id = .ok v) ∧
      (∃ v, requiredText b "job_id" LIMITS.id = .ok v) ∧
      (∃ v, requiredText b "mission_id" LIMITS.id = .ok v) ∧
      (∃ v, requiredText b "title" LIMITS.title = .ok v) ∧
      (∃ v, sizedText b "detail" LIMITS.detail = .ok v) ∧
      (∃ v, sizedText b "screen" LIMITS.screen = .ok v) ∧
      (∃ v, sizedText b "screen_name" LIMITS.screen = .ok v) ∧
      (∃ v, subclassOf b = .ok v) ∧
      ∃ check, checkOf js b = .ok check ∧ (∃ v, severityOf b = .ok v) ∧ (∃ v, stepsOf b = .ok v) ∧
        (∃ v, artifactsOf js b = .ok v) ∧ ∃ v, replayOf b check = .ok v := by
  simp only [validateFinding, exists_bind_ok, exists_and_right, Except.ok.injEq, exists_eq', and_true]

end FleetRunner
