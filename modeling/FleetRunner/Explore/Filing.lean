import FleetRunner.Explore.Mission

/-!
# Filing what a mission found (`index.ts`)

A candidate that was replayed is filed when it reproduced; a crash or a hang is
filed on the platform's log alone. The finding built from it is posted to the
collector, which checks it against rules of its own.

## Implementation notes

The finding is the body as the collector reads it back: a member that is not
there does not travel. The files it names are described by what their upload
answered.
-/

namespace FleetRunner.Explore

open Library Validate

/-- A candidate with what its replays counted. -/
structure Confirmed extends Candidate where
  attempts : Nat
  reproduced : Nat
  replayNotes : List String

/-- Does this finding get filed? -/
def fileable (c : Confirmed) : Bool :=
  c.check = some .crash || c.check = some .anr || decide (0 < c.reproduced)

/-- The job and the device, and what the night knows about the mission. -/
structure Context where
  appKey : String
  /-- of the job's app, if it names one -/
  build : Option String
  platform : String
  device_id : String
  job_id : String
  condName : String
  /-- whether the build before does it too, if that could be found out -/
  previously : Option Bool

/-- `onPreviousBuild` -/
def previouslyText (same : Bool) : String :=
  if same then "also happens on the previous build"
  else "new in this build: the previous build does not do this"

def upperFirst (s : String) : String :=
  match s.toList with
  | c :: rest => String.ofList (c.toUpper :: rest)
  | [] => ""

/-- What each upload answered, if it did not fail. -/
structure Uploads where
  shot : Option (Digest 64)
  sheet : Option (Digest 64)
  trajectory : Option (Digest 64)
  replay : Option (Digest 64)
  log : Option (Digest 64)

/-- A TV replay can only press keys, type and wait. -/
def tvloopPlays : Executed → Bool
  | .action _ (.key _) _ => true
  | .action _ (.type _ x y _ _) _ => x.isNone && y.isNone
  | .action _ (.wait _) _ => true
  | .action _ _ _ => false
  | _ => true

def replayKind (o : Context) (c : Confirmed) (r : MissionResult) : ReplayKind :=
  if o.platform = "roku" ∧ (r.executed.take c.upTo).all tvloopPlays = true then .tvloop
  else .maestro

/-- `JSON.stringify` leaves out what is not there. -/
def present (members : List (String × Option Json)) : Fields :=
  members.filterMap fun p => p.2.map fun v => (p.1, v)

def sha (d : Option (Digest 64)) : Option Json := d.map fun d => .str d.text

def findingArtifacts (c : Confirmed) (up : Uploads) : Fields :=
  present [("shot", sha up.shot), ("sheet", sha up.sheet), ("trajectory", sha up.trajectory),
    ("replay", sha up.replay),
    ("log", if c.logExcerpt.any (fun s => decide (s ≠ "")) then sha up.log else none)]

/-- Only a crash or a hang has no replay to show. -/
def findingReplay (o : Context) (c : Confirmed) (r : MissionResult) (up : Uploads) : Json :=
  if (c.check = some .crash ∨ c.check = some .anr) ∧ c.reproduced = 0 then .null
  else .obj [("kind", .str (replayKind o c r).text), ("sha256", (sha up.replay).getD .null),
    ("attempts", .num c.attempts), ("reproduced", .num c.reproduced)]

def findingDetail (o : Context) (c : Confirmed) : String :=
  let condition := if o.condName = "baseline" then "" else " Condition: " ++ o.condName ++ "."
  let previously := match o.previously with
    | some same => " " ++ upperFirst (previouslyText same) ++ "."
    | none => ""
  jsSlice (c.detail ++ condition ++ previously ++ " Replays: " ++ "; ".intercalate c.replayNotes ++ ".")
    4000

def buildFinding (js : Js) (m : Mission) (r : MissionResult) (c : Confirmed) (fp : Digest 40)
    (o : Context) (up : Uploads) : Fields :=
  present [
    ("fingerprint", some (.str fp.text)),
    ("app", some (.str o.appKey)),
    ("build", some (.str (o.build.getD "installed"))),
    ("platform", some (.str o.platform)),
    ("device_id", some (.str o.device_id)),
    ("job_id", some (.str o.job_id)),
    ("mission_id", some (.str m.id)),
    ("check", c.check.map fun k => .str k.text),
    ("subclass", some (c.visualClass.elim .null fun v => .str v.text)),
    ("severity", some (.str c.severity.text)),
    ("title", some (.str (jsSlice c.title 200))),
    ("detail", some (.str (findingDetail o c))),
    ("screen", some (.str c.screen.id)),
    ("screen_name", some (.str c.screen.name)),
    ("steps", some (.arr ((stepsInWords js r.steps r.executed c.upTo (screenNames r)).map .str))),
    ("replay", some (findingReplay o c r up)),
    ("artifacts", some (.obj (findingArtifacts c up)))]

/-! ## What is read back -/

theorem get?_present (j : String) (v : Option Json) (rest : List (String × Option Json)) (k : String) :
    Fields.get? (present ((j, v) :: rest)) k =
      if j = k then v.or (Fields.get? (present rest) k) else Fields.get? (present rest) k := by
  cases v with
  | none => simp [present]
  | some v =>
      have hpresent : present ((j, some v) :: rest) = (j, v) :: present rest := by simp [present]
      rw [hpresent, Fields.get?_cons]
      simp

theorem isSha_digest (d : Digest 64) : isSha d.text = true := by
  simp [isSha, d.length, d.hex]

theorem isShaText_sha {d : Option (Digest 64)} {v : Json} (h : sha d = some v) :
    isShaText v = true := by
  obtain ⟨d, -, rfl⟩ := Option.map_eq_some_iff.mp h
  exact isSha_digest d

theorem isBlank_digest {n : Nat} (d : Digest n) (h : 0 < n) : isBlank d.text = false := by
  have hlength := d.length
  cases hchars : d.text.toList with
  | nil =>
      rw [hchars, List.length_nil] at hlength
      omega
  | cons c rest =>
      have hc : isLowerHex c = true := List.all_eq_true.mp d.hex c (by simp [hchars])
      have hspace : isJsSpace c = false := by
        simp only [isLowerHex, Bool.or_eq_true, Bool.and_eq_true, decide_eq_true_eq] at hc
        have hrange : 48 ≤ c.toNat ∧ c.toNat ≤ 102 := by
          rcases hc with ⟨hlo, hhi⟩ | ⟨hlo, hhi⟩
          · have hlo : 97 ≤ c.toNat := hlo
            have hhi : c.toNat ≤ 102 := hhi
            omega
          · have hlo : 48 ≤ c.toNat := hlo
            have hhi : c.toNat ≤ 57 := hhi
            omega
        simp only [isJsSpace, Bool.or_eq_false_iff, Bool.and_eq_false_iff, decide_eq_false_iff_not]
        omega
      simp [isBlank, hchars, hspace]

theorem isSubclass_text (v : VisualClass) : isSubclass v.text = true := by
  cases v <;> decide

/-! ## What the collector makes of it -/

section Built

variable {js : Js} {m : Mission} {r : MissionResult} {c : Confirmed} {fp : Digest 40} {o : Context}
  {up : Uploads}

theorem fingerprint_built : ∃ w, requiredText (buildFinding js m r c fp o up) "fingerprint"
    LIMITS.fingerprint = .ok w := by
  rw [requiredText_isOk_iff (v := fp.text) (by simp [buildFinding, get?_present])]
  exact ⟨isBlank_digest fp (by omega), by rw [fp.jsLength_eq]; decide⟩

theorem detail_built :
    ∃ w, sizedText (buildFinding js m r c fp o up) "detail" LIMITS.detail = .ok w := by
  rw [sizedText_isOk_iff (v := findingDetail o c) (by simp [buildFinding, get?_present])]
  exact (jsLength_jsSlice_le _ 4000).trans (by decide)

theorem screen_built :
    ∃ w, sizedText (buildFinding js m r c fp o up) "screen" LIMITS.screen = .ok w := by
  rw [sizedText_isOk_iff (v := c.screen.id) (by simp [buildFinding, get?_present]),
    c.screen.id_length]
  decide

theorem screen_name_built :
    ∃ w, sizedText (buildFinding js m r c fp o up) "screen_name" LIMITS.screen = .ok w := by
  rw [sizedText_isOk_iff (v := c.screen.name) (by simp [buildFinding, get?_present])]
  exact c.screen.name_length.trans (by decide)

theorem severityOf_built : ∃ w, severityOf (buildFinding js m r c fp o up) = .ok w :=
  ⟨c.severity, severityOf_text (by simp [buildFinding, get?_present])⟩

/-- The check read back is the one the finding was confirmed under; a finding without one is
refused. -/
theorem checkOf_built_iff {check : CheckName} :
    checkOf js (buildFinding js m r c fp o up) = .ok check ↔ c.check = some check := by
  have hread : Fields.get? (buildFinding js m r c fp o up) "check" =
      c.check.map fun k => .str k.text := by
    simp only [buildFinding, get?_present, String.reduceEq, if_false, if_true]
    cases c.check <;> rfl
  cases hk : c.check with
  | none =>
      rw [hk] at hread
      exact iff_of_false (checkOf_absent hread check) (by simp)
  | some k =>
      rw [hk] at hread
      rw [checkOf_text hread, Except.ok.injEq, Option.some.injEq]

theorem subclassOf_built : ∃ w, subclassOf (buildFinding js m r c fp o up) = .ok w := by
  have hread : Fields.get? (buildFinding js m r c fp o up) "subclass" =
      some (c.visualClass.elim .null fun v => .str v.text) := by
    simp [buildFinding, get?_present]
  simp only [subclassOf, hread]
  cases c.visualClass with
  | none => exact ⟨_, rfl⟩
  | some v => simp [isSubclass_text]

theorem artifactsOf_built : ∃ w, artifactsOf js (buildFinding js m r c fp o up) = .ok w := by
  have hread : Fields.get? (buildFinding js m r c fp o up) "artifacts" =
      some (.obj (findingArtifacts c up)) := by
    simp [buildFinding, get?_present]
  refine artifactsOf_isOk hread fun p hp => ?_
  obtain ⟨⟨key, member⟩, hmem, hp⟩ := List.mem_filterMap.mp hp
  obtain ⟨v, hv, rfl⟩ := Option.map_eq_some_iff.mp hp
  simp only [List.mem_cons, List.not_mem_nil, or_false, Prod.mk.injEq] at hmem
  rcases hmem with ⟨rfl, rfl⟩ | ⟨rfl, rfl⟩ | ⟨rfl, rfl⟩ | ⟨rfl, rfl⟩ | ⟨rfl, hlog⟩
  · exact ⟨by simp [ARTIFACT_KEYS], isShaText_sha hv⟩
  · exact ⟨by simp [ARTIFACT_KEYS], isShaText_sha hv⟩
  · exact ⟨by simp [ARTIFACT_KEYS], isShaText_sha hv⟩
  · exact ⟨by simp [ARTIFACT_KEYS], isShaText_sha hv⟩
  · refine ⟨by simp [ARTIFACT_KEYS], ?_⟩
    split at hlog
    · exact isShaText_sha (hlog ▸ hv)
    · rw [hlog] at hv
      cases hv

/-- A replay in range is let through unless it repeated nothing; only a crash may have none. -/
theorem replayOf_built_iff {check : CheckName} (hcheck : c.check = some check)
    (hattempts : c.attempts ≤ LIMITS.attempts) (hreproduced : c.reproduced ≤ c.attempts)
    (hfile : fileable c = true) :
    (∃ w, replayOf (buildFinding js m r c fp o up) check = .ok w) ↔
      ¬(check = .anr ∧ c.reproduced = 0) := by
  have hread : Fields.get? (buildFinding js m r c fp o up) "replay" =
      some (findingReplay o c r up) := by
    simp [buildFinding, get?_present]
  simp only [replayOf, hread, findingReplay, hcheck, Option.some.injEq]
  by_cases hnone : (check = .crash ∨ check = .anr) ∧ c.reproduced = 0
  · rw [if_pos hnone]
    by_cases hcrash : check = .crash
    · subst hcrash
      exact iff_of_true ⟨none, by simp⟩ (by simp)
    · have hanr := hnone.1.resolve_left hcrash
      refine iff_of_false ?_ (fun h => h ⟨hanr, hnone.2⟩)
      simp [hanr, notFiled]
  · rw [if_neg hnone]
    have hpos : 0 < c.reproduced := by
      simp only [fileable, hcheck, Option.some.injEq, Bool.or_eq_true, decide_eq_true_eq] at hfile
      rcases hfile with (h | h) | h
      · by_contra hzero
        exact hnone ⟨Or.inl h, by omega⟩
      · by_contra hzero
        exact hnone ⟨Or.inr h, by omega⟩
      · exact h
    refine iff_of_true ?_ (fun h => by omega)
    have hobj : Fields.get? (buildFinding js m r c fp o up) "replay" = some (.obj
        [("kind", .str (replayKind o c r).text), ("sha256", (sha up.replay).getD .null),
          ("attempts", .num c.attempts), ("reproduced", .num c.reproduced)]) := by
      rw [hread, findingReplay, hcheck]
      simp only [Option.some.injEq, if_neg hnone]
    have hhash : ∃ w, hashOf [("kind", Json.str (replayKind o c r).text),
        ("sha256", (sha up.replay).getD .null), ("attempts", .num c.attempts),
        ("reproduced", .num c.reproduced)] = .ok w := by
      simp only [hashOf, Fields.get?_cons, String.reduceEq, if_false, if_true]
      cases up.replay with
      | none => exact ⟨_, rfl⟩
      | some d => simp [sha, isSha_digest]
    have hok := replayOf_isOk hobj (Fields.get?_cons _ _ _ _) hhash
      (by simp [Fields.get?_cons]) (by simp [Fields.get?_cons]) hreproduced hattempts hpos check
    simpa only [replayOf, hobj] using hok

/-! ## Exactly what is taken in -/

/-- The ids the finding carries. -/
def Context.ids (o : Context) (m : Mission) : List String :=
  [o.appKey, o.build.getD "installed", o.platform, o.device_id, o.job_id, m.id]

/-- The collector takes the finding in: it has a check, is not a hang that never came again, has
a title and ids that are not blank, and its steps are few and short enough. -/
structure Fileworthy (m : Mission) (r : MissionResult) (c : Confirmed) (o : Context) : Prop where
  checked : c.check ≠ none
  repeated : ¬(c.check = some .anr ∧ c.reproduced = 0)
  titled : isBlank c.title = false
  ids : ∀ id ∈ o.ids m, isBlank id = false
  few : (r.executed.take c.upTo).length + changes "" (screensOf r.steps (r.executed.take c.upTo)) ≤ 100
  short : ∀ e ∈ r.executed.take c.upTo, EntryFits r.steps e

end Built

theorem stepsOf_built_iff {js : Js} (hnum : ShortNumbers js) {m : Mission} {r : MissionResult}
    (hr : Tidy r) (c : Confirmed) (fp : Digest 40) (o : Context) (up : Uploads) :
    (∃ w, stepsOf (buildFinding js m r c fp o up) = .ok w) ↔
      (r.executed.take c.upTo).length + changes "" (screensOf r.steps (r.executed.take c.upTo)) ≤ 100 ∧
        ∀ e ∈ r.executed.take c.upTo, EntryFits r.steps e := by
  have hread : Fields.get? (buildFinding js m r c fp o up) "steps" =
      some (.arr ((stepsInWords js r.steps r.executed c.upTo (screenNames r)).map .str)) := by
    simp [buildFinding, get?_present]
  rw [stepsOf_isOk_iff hread, stepsInWords, length_wordsFrom,
    wordsFrom_fit_iff hnum fun st hst => hr.jsLength_name_le hst]
  rfl

/-- What a mission finds and decides to file is taken in exactly when it is fileworthy. -/
theorem filed_accepted_iff {js : Js} (hnum : ShortNumbers js) (m : Mission) (d : LoopDeps)
    (map : List ScreenEntry) (rounds : List Round) (ending : Option Ending) (c : Confirmed)
    (hc : c.toCandidate ∈ (runMission js m d map rounds ending).candidates)
    (hattempts : 1 ≤ c.attempts ∧ c.attempts ≤ 50) (hreproduced : c.reproduced ≤ c.attempts)
    (hfile : fileable c = true) (fp : Digest 40) (o : Context)
    (hids : ∀ id ∈ o.ids m, id ≠ "" ∧ jsLength id ≤ LIMITS.id) (up : Uploads) :
    (∃ f, validateFinding js
        (.obj (buildFinding js m (runMission js m d map rounds ending) c fp o up)) = .ok f) ↔
      Fileworthy m (runMission js m d map rounds ending) c o := by
  have hr := tidy_runMission js m d map rounds ending
  have htitle := (hr.titled _ hc).isBlank_jsSlice
  generalize runMission js m d map rounds ending = r at hr ⊢
  have hid : ∀ {key v : String}, Fields.get? (buildFinding js m r c fp o up) key = some (.str v) →
      v ∈ o.ids m → ((∃ w, requiredText (buildFinding js m r c fp o up) key LIMITS.id = .ok w) ↔
        isBlank v = false) := by
    intro key v hread hv
    rw [requiredText_isOk_iff hread]
    exact and_iff_left (hids v hv).2
  have htitled : (∃ w, requiredText (buildFinding js m r c fp o up) "title" LIMITS.title = .ok w) ↔
      isBlank c.title = false := by
    rw [requiredText_isOk_iff (v := jsSlice c.title 200) (by simp [buildFinding, get?_present]), htitle]
    exact and_iff_left ((jsLength_jsSlice_le c.title 200).trans (by decide))
  rw [validateFinding_ok_iff,
    hid (v := o.appKey) (by simp [buildFinding, get?_present]) (by simp [Context.ids]),
    hid (v := o.build.getD "installed") (by simp [buildFinding, get?_present]) (by simp [Context.ids]),
    hid (v := o.platform) (by simp [buildFinding, get?_present]) (by simp [Context.ids]),
    hid (v := o.device_id) (by simp [buildFinding, get?_present]) (by simp [Context.ids]),
    hid (v := o.job_id) (by simp [buildFinding, get?_present]) (by simp [Context.ids]),
    hid (v := m.id) (by simp [buildFinding, get?_present]) (by simp [Context.ids]), htitled,
    stepsOf_built_iff hnum hr]
  constructor
  · rintro ⟨-, happ, hbuild, hplatform, hdevice, hjob, hmission, htitle, -, -, -, -, check, hck, -,
      ⟨hfew, hshort⟩, -, hreplay⟩
    have hk := checkOf_built_iff.mp hck
    refine ⟨by simp [hk], ?_, htitle, ?_, hfew, hshort⟩
    · rintro ⟨hanr, hzero⟩
      rw [hk] at hanr
      exact (replayOf_built_iff hk hattempts.2 hreproduced hfile).mp hreplay
        ⟨Option.some.inj hanr, hzero⟩
    · intro id h
      simp only [Context.ids, List.mem_cons, List.not_mem_nil, or_false] at h
      rcases h with rfl | rfl | rfl | rfl | rfl | rfl <;> assumption
  · intro h
    obtain ⟨check, hk⟩ := Option.ne_none_iff_exists'.mp h.checked
    refine ⟨fingerprint_built, h.ids _ (by simp [Context.ids]), h.ids _ (by simp [Context.ids]),
      h.ids _ (by simp [Context.ids]), h.ids _ (by simp [Context.ids]), h.ids _ (by simp [Context.ids]),
      h.ids _ (by simp [Context.ids]), h.titled, detail_built, screen_built, screen_name_built,
      subclassOf_built, check, checkOf_built_iff.mpr hk, severityOf_built, ⟨h.few, h.short⟩, artifactsOf_built, ?_⟩
    refine (replayOf_built_iff hk hattempts.2 hreproduced hfile).mpr ?_
    rintro ⟨rfl, hzero⟩
    exact h.repeated ⟨hk, hzero⟩

/-! ## A hang that did not come again -/

/-- A plain engine that prints its numbers short. -/
def terse : Js := { Js.plain with showNum := fun q => jsSlice (toString q.num) 25 }

theorem shortNumbers_terse : ShortNumbers terse := fun q => jsLength_jsSlice_le (toString q.num) 25

def watering : Mission := ⟨"water", "Water a plant", none⟩

def lookHash : Digest 40 := ⟨"5aa3caa15b8ae4dc3b13a48727bbcc945657c135", by decide, by decide⟩

/-- One step: a tap on the button, after which the platform's log has this signature. -/
def tapped (sig : String) : Round where
  i := 1
  look := ⟨none, 2400, fun _ => 0, lookHash⟩
  events := [.act (.tap 540 1200) 900, .crashes [sig] "10-02 am_anr"]
  kept := some [⟨"mobile_click", [("element", .str "Water"), ("x", .num 500), ("y", .num 500)]⟩]

def tappedRun (sig : String) : MissionResult :=
  runMission terse watering ⟨[], []⟩ [] [tapped sig] none

def onGarden : Context := ⟨"garden", none, "android", "pixel", "job-1", "baseline", none⟩

def allFailed : Uploads := ⟨none, none, none, none, none⟩

def hangSig : String := "ANR: Input dispatching timed out"

def crashSig : String := "java.lang.IllegalStateException: no plant"

/-- What the platform's log said after the tap, replayed twice without coming again. -/
def unrepeated (sig : String) : Confirmed where
  toFlag := crashFlag 1 (newScreen (tapped sig).look) "10-02 am_anr" sig
  step := 1
  screen := newScreen (tapped sig).look
  upTo := 1
  attempts := 2
  reproduced := 0
  replayNotes := ["attempt 1: not reproduced", "attempt 2: not reproduced"]

def hangHash : Digest 40 := ⟨"8131b5a2d6570b2492b347efea8f6a202fa57442", by decide, by decide⟩

def crashHash : Digest 40 := ⟨"4fa942f9f52caa261c2c9a43f9642566b6f1b840", by decide, by decide⟩

theorem hang_refused :
    (unrepeated hangSig).toCandidate ∈ (tappedRun hangSig).candidates ∧
      fileable (unrepeated hangSig) = true ∧
      ¬∃ f, validateFinding terse (.obj (buildFinding terse watering (tappedRun hangSig)
        (unrepeated hangSig) hangHash onGarden allFailed)) = .ok f := by
  refine ⟨List.mem_singleton.mpr rfl, rfl, ?_⟩
  rw [validateFinding_ok_iff]
  rintro ⟨-, -, -, -, -, -, -, -, -, -, -, -, check, hcheck, -, -, -, hreplay⟩
  have hanr : (unrepeated hangSig).check = some .anr := rfl
  have hread : Fields.get? (buildFinding terse watering (tappedRun hangSig) (unrepeated hangSig)
      hangHash onGarden allFailed) "check" = some (.str CheckName.anr.text) := by
    simp [buildFinding, get?_present, hanr]
  rw [checkOf_text hread] at hcheck
  obtain rfl := Except.ok.inj hcheck
  exact (replayOf_built_iff hanr (by decide) (by decide) rfl).mp hreplay ⟨rfl, rfl⟩

/-- A crash that did not come again stands on its log. -/
theorem crash_accepted : ∃ f, validateFinding terse (.obj (buildFinding terse watering
    (tappedRun crashSig) (unrepeated crashSig) crashHash onGarden allFailed)) = .ok f := by
  refine (filed_accepted_iff shortNumbers_terse watering ⟨[], []⟩ [] [tapped crashSig] none
    (unrepeated crashSig) (List.mem_singleton.mpr rfl) (by decide) (by decide) rfl crashHash onGarden
    (by decide) allFailed).mpr ⟨by decide, by decide, by decide, by decide, by decide, ?_⟩
  intro e he
  obtain rfl := List.mem_singleton.mp he
  intro element helement
  obtain rfl : "Water" = element := Option.some.inj helement
  decide

end FleetRunner.Explore
