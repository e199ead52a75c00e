import FleetRunner.Ios.Bench
import FleetRunner.Js.Value
import FleetRunner.Library.Sorting

/-!
# The vision evaluation (`Workloads.swift`)

An evaluation unpacks a model and a set of images, classifies the images of the set's
manifest one after the other, uploads a report, and ends with a final row of accuracies
and latencies. The manifest is whatever the archive holds: its fields are cast by force.
-/

namespace FleetRunner.Ios

open Library

/-! ## Casts -/

/-- A forced cast or a subscript: what is not there is a trap. -/
def forced {α : Type} (x : Option α) : Except Stop α :=
  match x with
  | some a => .ok a
  | none => .error .trap

/-- `value as? String` -/
def stringOf : Json → Option String
  | .str s => some s
  | _ => none

/-- `value as? Int`: a number that is one, or a boolean. -/
def intOf : Json → Option Int
  | .num q => if q.den = 1 ∧ intMin ≤ q.num ∧ q.num ≤ intMax then some q.num else none
  | .bool b => some (if b then 1 else 0)
  | _ => none

def objectOf : Json → Option Fields
  | .obj fields => some fields
  | _ => none

/-- `value as? [[String: Any]]` -/
def objectsOf : Json → Option (List Fields)
  | .arr elems => elems.mapM objectOf
  | _ => none

/-! ## The program -/

/-- What the evaluation meets. The steps before the manifest may throw, and so may the upload. -/
structure Vision where
  ensureModel : Except String Unit
  unzipModel : Except String Unit
  firstEntry : Except String Unit
  ensureSet : Except String Unit
  unzipSet : Except String Unit
  /-- The value that is parsed from the manifest's text. -/
  manifest : Except String Json
  /-- What is thrown for a text that is neither an array nor an object. -/
  fragment : String
  load : Except String Int
  /-- The image of a file can be loaded. -/
  image : String → Bool
  warm : Nat → Except String Unit
  classified : Nat → Except String (List Int × Rat)
  upload : Except String String

structure ImageRow where
  file : String
  label : Int
  top1 : Int
  hit1 : Bool
  hit5 : Bool
  ms : Rat

structure Tally where
  top1 : Nat
  top5 : Nat
  latencies : List Rat
  thermals : List String
  perImage : List ImageRow

structure EvalReport where
  items : Nat
  top1_acc : Rat
  top5_acc : Rat
  latency_p50_ms : Rat
  latency_p95_ms : Rat
  latency_mean_ms : Rat
  load_ms : Int
  thermal : List String
  per_image : List ImageRow

/-- A step that may throw. -/
def trying {α : Type} (x : Except String α) : Posting ResultPost α :=
  Posting.ofExcept (x.mapError Stop.thrown)

section Program

variable (job : JobSpec) (device : Device) (vision : Vision)

def progressRow (iter : Nat) : ResultPost :=
  { jobId := job.jobId, deviceId := device.deviceId, iter := iter, ok := some true }

/-- Every twentieth item has a row. -/
def postProgress (i : Nat) : Posting ResultPost Unit :=
  if (i + 1) % 20 = 0 then postResult (progressRow job device (i + 1)) else pure ()

/-- An image that has been classified. -/
def Tally.add (tally : Tally) (i : Nat) (file : String) (label : Int) (top : List Int) (ms : Rat) :
    Tally :=
  let hit1 := decide (top.head? = some label)
  let hit5 := top.contains label
  { top1 := tally.top1 + if hit1 then 1 else 0
    top5 := tally.top5 + if hit5 then 1 else 0
    latencies := tally.latencies ++ [ms]
    thermals := if i % 20 = 0 then tally.thermals ++ [device.thermal i] else tally.thermals
    perImage := tally.perImage ++ [⟨file, label, top.head?.getD (-1), hit1, hit5, ms⟩] }

/-- The loop over the items, from the `i`-th on. -/
def imageLoop : List Fields → Nat → Tally → Posting ResultPost Tally
  | [], _, tally => pure tally
  | item :: rest, i, tally =>
    if device.isCancelled i then Posting.stop (.thrown "cancelled")
    else do
      let file ← Posting.ofExcept (forced ((item.lookup "file").bind stringOf))
      let label ← Posting.ofExcept (forced ((item.lookup "label").bind intOf))
      if !vision.image file then imageLoop rest (i + 1) tally
      else do
        let result ← trying (vision.classified i)
        postProgress job device i
        imageLoop rest (i + 1) (tally.add device i file label result.1 result.2)

def reportOf (loadMs : Int) (items : List Fields) (tally : Tally) : Except Stop EvalReport := do
  let n := max items.length 1
  let sorted := tally.latencies.insertionSort (· ≤ ·)
  let p50 ← forced sorted[sorted.length / 2]?
  let p95 ← forced sorted[sorted.length * 95 / 100]?
  return ⟨items.length, tally.top1 / n, tally.top5 / n, p50, p95, tally.latencies.sum / n, loadMs,
    tally.thermals, tally.perImage⟩

/-- The items of the manifest, so many at most. -/
def itemsOf (fields : Fields) (limit : Nat) : List Fields :=
  (((fields.lookup "items").bind objectsOf).getD []).take limit

def emptySet : String := "empty eval set failed: HTTP 0"

/-- The evaluation of the items by the backend. -/
def evaluate (items : List Fields) (warmups : Int) : Posting ResultPost EvalReport := do
  let loadMs ← trying vision.load
  match items with
  | [] => Posting.stop (.thrown emptySet)
  | first :: _ => do
    let file ← Posting.ofExcept (forced ((first.lookup "file").bind stringOf))
    if !vision.image file then Posting.stop (.thrown emptySet)
    else do
      let n ← Posting.ofExcept (range 0 warmups)
      Posting.ofExcept (warmUp (fun i => (vision.warm i).mapError Stop.thrown) n 0)
      let tally ← imageLoop job device vision items 0 ⟨0, 0, [], [], []⟩
      Posting.ofExcept (reportOf loadMs items tally)

def limit : Int := (job.params.bind BenchParams.maxItems).getD intMax

def evalWarmups : Int := (job.params.bind BenchParams.warmupIters).getD 3

/-- From the downloads to the upload of the report. -/
def evalTask : Posting ResultPost (EvalReport × String) := do
  trying vision.ensureModel
  trying vision.unzipModel
  trying vision.firstEntry
  trying vision.ensureSet
  trying vision.unzipSet
  let manifest ← trying vision.manifest
  match manifest with
  | .obj fields => do
    let n ← Posting.ofExcept (range 0 (limit job))
    let report ← evaluate job device vision (itemsOf fields n) (evalWarmups job)
    let sha ← trying vision.upload
    return (report, sha)
  | .arr _ => Posting.stop .trap
  | _ => Posting.stop (.thrown vision.fragment)

def evalRow (report : EvalReport) (sha : String) : ResultPost :=
  { jobId := job.jobId, deviceId := device.deviceId, iter := 0, final := true, ok := some true,
    device := some device.descriptor,
    metrics := some
      { loadMs := some report.load_ms, top1Pct := some (.finite (report.top1_acc * 100)),
        top5Pct := some (.finite (report.top5_acc * 100)),
        p50Ms := some (.finite report.latency_p50_ms),
        p95Ms := some (.finite report.latency_p95_ms),
        imagesPerS := some (.finite (1000 / max report.latency_p50_ms 1)),
        peakMemMb := some device.endFootprintMb, memMethod := some "phys_footprint",
        thermal := some report.thermal, batteryStartPct := some device.batteryStart,
        batteryEndPct := some device.batteryEnd },
    artifacts := some [sha] }

def runVisionEval : Posting ResultPost Unit :=
  let fail message := postResult (failRow job device message)
  if job.model.isNone ∨ (job.params.bind BenchParams.inputSha256).isNone then
    fail "vision eval needs model + params.input_sha256"
  else
    Posting.catching (do
      let (report, sha) ← evalTask job device vision
      postResult (evalRow job device report sha)) fail

end Program

/-! ## Steps -/

section Steps

variable {α β : Type} {f : α → Posting ResultPost β}

theorem safe_trying {x : Except String α} :
    ¬ (trying x >>= f).Traps ↔ ∀ a, x = .ok a → ¬ (f a).Traps := by
  cases x with
  | error message => exact iff_of_true nofun nofun
  | ok a => simp [trying, Posting.ofExcept, Except.mapError]

theorem unthrown_forced (x : Option α) : Unthrown (forced x) := by
  intro message
  cases x <;> exact nofun

theorem safe_forced {x : Option α} :
    ¬ (Posting.ofExcept (forced x) >>= f).Traps ↔ ∃ a, x = some a ∧ ¬ (f a).Traps := by
  rw [safe_step (unthrown_forced x)]
  cases x with
  | none => simp [forced]
  | some a => simp [forced]

end Steps

/-! ## The items -/

section Items

variable {job : JobSpec} {device : Device} {vision : Vision}

/-- The item has a file and a label. -/
structure Labelled (item : Fields) : Prop where
  file : ((item.lookup "file").bind stringOf).isSome = true
  label : ((item.lookup "label").bind intOf).isSome = true

variable (vision) in
/-- The loop goes on behind the item: its image cannot be loaded, or it is classified. -/
def goesOn (item : Fields) (i : Nat) : Bool :=
  match (item.lookup "file").bind stringOf with
  | some file => !vision.image file || (vision.classified i).isOk
  | none => false

variable (device vision) in
/-- The items that are looked at. -/
def reachedItems : List Fields → Nat → List Fields
  | [], _ => []
  | item :: rest, i =>
    if device.isCancelled i then []
    else item :: if goesOn vision item i then reachedItems rest (i + 1) else []

theorem goesOn_eq {item : Fields} {i : Nat} {file : String}
    (h : (item.lookup "file").bind stringOf = some file) :
    goesOn vision item i = (!vision.image file || (vision.classified i).isOk) := by
  rw [goesOn, h]

theorem postProgress_posts (i : Nat) : (postProgress job device i).Posts Passing := by
  have hpassing : Passing (progressRow job device (i + 1)) := rfl
  by_cases hi : (i + 1) % 20 = 0
  · rw [postProgress, if_pos hi]
    exact posts_postResult hpassing
  · rw [postProgress, if_neg hi]
    exact List.forall_mem_nil Passing

theorem exists_ok_of_isOk {ε α : Type} {x : Except ε α} (h : x.isOk = true) :
    ∃ a, x = .ok a := by
  cases x with
  | error e => cases h
  | ok a => exact ⟨a, rfl⟩

theorem safe_progress {α : Type} {i : Nat} {next : Unit → Posting ResultPost α} :
    ¬ (postProgress job device i >>= next).Traps ↔ ¬ (next ()).Traps := by
  have hresult : (postProgress job device i).result = .ok () := by
    unfold postProgress
    split <;> rfl
  rw [Posting.Traps, Posting.bind_ok hresult]
  rfl

theorem imageLoop_posts {items : List Fields} {i : Nat} {tally : Tally} :
    (imageLoop job device vision items i tally).Posts Passing := by
  induction items generalizing i tally with
  | nil => exact List.forall_mem_nil Passing
  | cons item rest ih =>
    rw [imageLoop]
    split
    · exact List.forall_mem_nil Passing
    · refine Posting.posts_bind (List.forall_mem_nil Passing) fun file => ?_
      refine Posting.posts_bind (List.forall_mem_nil Passing) fun label => ?_
      split
      · exact ih
      · refine Posting.posts_bind (List.forall_mem_nil Passing) fun result => ?_
        exact Posting.posts_bind (postProgress_posts i) fun _ => ih

/-- The loop does not trap exactly where all items that are looked at have a file and a label. -/
theorem imageLoop_safe_iff {items : List Fields} {i : Nat} {tally : Tally} :
    ¬ (imageLoop job device vision items i tally).Traps ↔
      ∀ item ∈ reachedItems device vision items i, Labelled item := by
  induction items generalizing i tally with
  | nil => exact iff_of_true nofun (List.forall_mem_nil Labelled)
  | cons item rest ih =>
    rw [imageLoop, reachedItems]
    split
    · exact iff_of_true nofun (List.forall_mem_nil Labelled)
    · rw [safe_forced, List.forall_mem_cons]
      constructor
      · rintro ⟨file, hfile, hrest⟩
        obtain ⟨label, hlabel, hrest⟩ := safe_forced.mp hrest
        refine ⟨⟨by rw [hfile]; rfl, by rw [hlabel]; rfl⟩, ?_⟩
        split
        · next hgoes =>
          rw [goesOn_eq hfile] at hgoes
          cases himage : vision.image file with
          | false =>
            rw [himage] at hrest
            exact ih.mp hrest
          | true =>
            rw [himage] at hrest hgoes
            obtain ⟨result, hresult⟩ := exists_ok_of_isOk hgoes
            exact ih.mp (safe_progress.mp (safe_trying.mp hrest result hresult))
        · exact List.forall_mem_nil Labelled
      · rintro ⟨⟨hfile, hlabel⟩, hrest⟩
        obtain ⟨file, hfile⟩ := Option.isSome_iff_exists.mp hfile
        obtain ⟨label, hlabel⟩ := Option.isSome_iff_exists.mp hlabel
        refine ⟨file, hfile, safe_forced.mpr ⟨label, hlabel, ?_⟩⟩
        rw [goesOn_eq hfile] at hrest
        cases himage : vision.image file with
        | false =>
          rw [himage, if_pos (by rfl)] at hrest
          exact ih.mpr hrest
        | true =>
          refine safe_trying.mpr fun result hresult => safe_progress.mpr (ih.mpr ?_)
          rw [himage, hresult, if_pos (by rfl)] at hrest
          exact hrest

/-- No latency is lost. -/
theorem imageLoop_latencies {items : List Fields} {i : Nat} {tally after : Tally}
    (h : (imageLoop job device vision items i tally).result = .ok after) :
    tally.latencies.length ≤ after.latencies.length := by
  induction items generalizing i tally with
  | nil =>
    obtain rfl := Except.ok.inj h
    exact Nat.le_refl _
  | cons item rest ih =>
    rw [imageLoop] at h
    split at h
    · cases h
    · obtain ⟨file, -, h⟩ := Posting.bind_eq_ok.mp h
      obtain ⟨label, -, h⟩ := Posting.bind_eq_ok.mp h
      split at h
      · exact ih h
      · obtain ⟨result, -, h⟩ := Posting.bind_eq_ok.mp h
        obtain ⟨-, -, h⟩ := Posting.bind_eq_ok.mp h
        have hle := ih h
        rw [Tally.add, List.length_append, List.length_singleton] at hle
        omega

/-- An item whose image can be loaded leaves a latency. -/
theorem latencies_of_first {item : Fields} {rest : List Fields} {i : Nat} {tally after : Tally}
    {file : String} (hfile : (item.lookup "file").bind stringOf = some file)
    (himage : vision.image file = true)
    (h : (imageLoop job device vision (item :: rest) i tally).result = .ok after) :
    0 < after.latencies.length := by
  rw [imageLoop] at h
  split at h
  · cases h
  · obtain ⟨file', hfile', h⟩ := Posting.bind_eq_ok.mp h
    obtain ⟨label, -, h⟩ := Posting.bind_eq_ok.mp h
    rw [hfile] at hfile'
    obtain rfl := Except.ok.inj hfile'
    rw [himage, if_neg (by decide)] at h
    obtain ⟨result, -, h⟩ := Posting.bind_eq_ok.mp h
    obtain ⟨-, -, h⟩ := Posting.bind_eq_ok.mp h
    have hle := imageLoop_latencies h
    rw [Tally.add, List.length_append, List.length_singleton] at hle
    omega

end Items

/-! ## The evaluation -/

section Evaluation

variable {job : JobSpec} {device : Device} {vision : Vision}

/-- With one latency at least there are percentiles. -/
theorem reportOf_ok (loadMs : Int) (items : List Fields) {tally : Tally}
    (h : 0 < tally.latencies.length) : ∃ report, reportOf loadMs items tally = .ok report := by
  have hsorted : (tally.latencies.insertionSort (· ≤ ·)).length = tally.latencies.length :=
    List.length_insertionSort _ _
  have hindex : ∀ i, i < tally.latencies.length →
      ∃ q, forced (tally.latencies.insertionSort (· ≤ ·))[i]? = .ok q := fun i hi => by
    rw [List.getElem?_eq_getElem (by omega)]
    exact ⟨_, rfl⟩
  obtain ⟨p50, hp50⟩ := hindex (tally.latencies.length / 2) (by omega)
  obtain ⟨p95, hp95⟩ := hindex (tally.latencies.length * 95 / 100) (by omega)
  unfold reportOf
  dsimp only
  rw [hsorted]
  exact ⟨_, bind_ok_iff.mpr ⟨p50, hp50, bind_ok_iff.mpr ⟨p95, hp95, rfl⟩⟩⟩

/-- The warm-up classifies without an error. -/
def Warms (vision : Vision) (warmups : Int) : Prop :=
  ∀ k : Nat, (k : Int) < warmups → (vision.warm k).isOk = true

/-- What the evaluation needs of the items, once the model is loaded: a file on the first, a count
of warm-ups that is one, and files and labels on those that are looked at. -/
def ItemsFit (device : Device) (vision : Vision) (items : List Fields) (warmups : Int) : Prop :=
  ∀ first ∈ items.head?, ∃ file, (first.lookup "file").bind stringOf = some file ∧
    (vision.image file = true → 0 ≤ warmups ∧
      (Warms vision warmups → ∀ item ∈ reachedItems device vision items 0, Labelled item))

theorem evaluate_posts {items : List Fields} {warmups : Int} :
    (evaluate job device vision items warmups).Posts Passing := by
  refine Posting.posts_bind (List.forall_mem_nil Passing) fun loadMs => ?_
  cases items with
  | nil => exact List.forall_mem_nil Passing
  | cons first rest =>
    refine Posting.posts_bind (List.forall_mem_nil Passing) fun file => ?_
    split
    · exact List.forall_mem_nil Passing
    · refine Posting.posts_bind (List.forall_mem_nil Passing) fun n => ?_
      refine Posting.posts_bind (List.forall_mem_nil Passing) fun _ => ?_
      exact Posting.posts_bind imageLoop_posts fun tally => List.forall_mem_nil Passing

theorem warmUp_warm (n : Nat) (i : Nat) :
    warmUp (fun i => (vision.warm i).mapError Stop.thrown) n i ≠ .error .trap := by
  induction n generalizing i with
  | zero =>
    intro h
    cases h
  | succ n ih =>
    rw [warmUp]
    cases vision.warm i with
    | error message =>
      intro h
      cases h
    | ok u => exact ih (i + 1)

theorem warmUp_eq_ok_iff {warmups : Int} :
    warmUp (fun i => (vision.warm i).mapError Stop.thrown) (warmups - 0).toNat 0 = .ok () ↔
      Warms vision warmups := by
  rw [warmUp_eq_ok]
  refine forall_congr' fun k => imp_congr (by omega) ?_
  rw [Nat.zero_add]
  cases vision.warm k with
  | error message => exact iff_of_false (by simp [Except.mapError]) Bool.false_ne_true
  | ok u => exact iff_of_true ⟨u, rfl⟩ rfl

/-- The iterations behind the warm-up, for a first item whose image can be loaded. -/
theorem evaluated_safe_iff {first : Fields} {rest : List Fields} {file : String}
    (hfile : (first.lookup "file").bind stringOf = some file) (himage : vision.image file = true)
    (loadMs : Int) : ¬ (imageLoop job device vision (first :: rest) 0 ⟨0, 0, [], [], []⟩ >>=
        fun tally => Posting.ofExcept (reportOf loadMs (first :: rest) tally)).Traps ↔
      ∀ item ∈ reachedItems device vision (first :: rest) 0, Labelled item := by
  have hloop : ¬ (imageLoop job device vision (first :: rest) 0 ⟨0, 0, [], [], []⟩).Traps ↔
      ∀ item ∈ reachedItems device vision (first :: rest) 0, Labelled item := imageLoop_safe_iff
  rw [← hloop, Posting.traps_bind]
  refine not_congr (or_iff_left ?_)
  rintro ⟨tally, htally, htraps⟩
  obtain ⟨report, hreport⟩ :=
    reportOf_ok loadMs (first :: rest) (latencies_of_first hfile himage htally)
  rw [Posting.Traps, hreport] at htraps
  cases htraps

theorem evaluate_safe_iff {items : List Fields} {warmups : Int} :
    ¬ (evaluate job device vision items warmups).Traps ↔
      (vision.load.isOk = true → ItemsFit device vision items warmups) := by
  unfold evaluate
  rw [safe_trying]
  cases hload : vision.load with
  | error message => exact iff_of_true nofun nofun
  | ok loadMs =>
    have hloaded : ∀ {P : Int → Prop},
        (∀ a, (Except.ok loadMs : Except String Int) = .ok a → P a) ↔ P loadMs :=
      fun {P} => ⟨fun h => h _ rfl, fun h a ha => Except.ok.inj ha ▸ h⟩
    have hthere : ∀ {P : Prop}, ((Except.ok loadMs : Except String Int).isOk = true → P) ↔ P :=
      fun {P} => ⟨fun h => h rfl, fun h _ => h⟩
    rw [hloaded, hthere]
    cases items with
    | nil => exact iff_of_true nofun nofun
    | cons first rest =>
      have hfirst : ItemsFit device vision (first :: rest) warmups ↔
          ∃ file, (first.lookup "file").bind stringOf = some file ∧
            (vision.image file = true → 0 ≤ warmups ∧ (Warms vision warmups →
              ∀ item ∈ reachedItems device vision (first :: rest) 0, Labelled item)) :=
        ⟨fun h => h first rfl, fun h other hother => Option.some.inj hother ▸ h⟩
      rw [safe_forced, hfirst]
      refine exists_congr fun file => and_congr_right fun hfile => ?_
      cases himage : vision.image file with
      | false => exact iff_of_true nofun nofun
      | true =>
        rw [if_neg (by decide), safe_range, forall_prop_of_true rfl]
        refine and_congr_right fun _ => ?_
        rw [Posting.traps_bind, not_or]
        constructor
        · rintro ⟨-, hrest⟩ hwarms
          refine (evaluated_safe_iff hfile himage loadMs).mp fun htraps => hrest ⟨(), ?_, htraps⟩
          exact warmUp_eq_ok_iff.mpr hwarms
        · intro h
          refine ⟨warmUp_warm _ _, ?_⟩
          rintro ⟨⟨⟩, hwarms, htraps⟩
          exact (evaluated_safe_iff hfile himage loadMs).mpr (h (warmUp_eq_ok_iff.mp hwarms)) htraps

/-- The downloads and the unpacking succeed. -/
structure Prepared (vision : Vision) : Prop where
  ensureModel : vision.ensureModel = .ok ()
  unzipModel : vision.unzipModel = .ok ()
  firstEntry : vision.firstEntry = .ok ()
  ensureSet : vision.ensureSet = .ok ()
  unzipSet : vision.unzipSet = .ok ()

/-- What an evaluation needs of the manifest and the counts, once the files are there: the manifest
is not an array, and where it is an object the limit and the items fit. -/
def VisionFits (job : JobSpec) (device : Device) (vision : Vision) : Prop :=
  Prepared vision →
    (∀ elems, vision.manifest ≠ .ok (.arr elems)) ∧
    ∀ fields, vision.manifest = .ok (.obj fields) → 0 ≤ limit job ∧
      (vision.load.isOk = true →
        ItemsFit device vision (itemsOf fields (limit job).toNat) (evalWarmups job))

theorem evalTask_posts : (evalTask job device vision).Posts Passing := by
  refine Posting.posts_bind (List.forall_mem_nil Passing) fun _ => ?_
  refine Posting.posts_bind (List.forall_mem_nil Passing) fun _ => ?_
  refine Posting.posts_bind (List.forall_mem_nil Passing) fun _ => ?_
  refine Posting.posts_bind (List.forall_mem_nil Passing) fun _ => ?_
  refine Posting.posts_bind (List.forall_mem_nil Passing) fun _ => ?_
  refine Posting.posts_bind (List.forall_mem_nil Passing) fun manifest => ?_
  cases manifest with
  | obj fields =>
    refine Posting.posts_bind (List.forall_mem_nil Passing) fun n => ?_
    refine Posting.posts_bind evaluate_posts fun report => ?_
    exact Posting.posts_bind (List.forall_mem_nil Passing) fun sha => List.forall_mem_nil Passing
  | _ => exact List.forall_mem_nil Passing

theorem evalTask_safe_iff : ¬ (evalTask job device vision).Traps ↔
    VisionFits job device vision := by
  unfold evalTask VisionFits
  simp only [safe_trying]
  have hlast : ∀ report : EvalReport, ¬ (trying vision.upload >>= fun sha =>
      (pure (report, sha) : Posting ResultPost (EvalReport × String))).Traps := fun report =>
    safe_trying.mpr fun sha _ h => nomatch h
  constructor
  · intro h hprepared
    have hmanifest := h () hprepared.ensureModel () hprepared.unzipModel () hprepared.firstEntry ()
      hprepared.ensureSet () hprepared.unzipSet
    refine ⟨fun elems hvalue => hmanifest _ hvalue rfl, fun fields hvalue => ?_⟩
    obtain ⟨hlimit, hrest⟩ := (safe_range _).mp (hmanifest _ hvalue)
    rw [Int.sub_zero, safe_last hlast] at hrest
    exact ⟨hlimit, evaluate_safe_iff.mp hrest⟩
  · rintro h ⟨⟩ hensureModel ⟨⟩ hunzipModel ⟨⟩ hfirstEntry ⟨⟩ hensureSet ⟨⟩ hunzipSet
    intro manifest hvalue
    obtain ⟨harray, hobject⟩ :=
      h ⟨hensureModel, hunzipModel, hfirstEntry, hensureSet, hunzipSet⟩
    cases manifest with
    | obj fields =>
      obtain ⟨hlimit, hitems⟩ := hobject fields hvalue
      refine (safe_range _).mpr ⟨hlimit, ?_⟩
      rw [Int.sub_zero, safe_last hlast]
      exact evaluate_safe_iff.mpr hitems
    | arr elems => exact absurd hvalue (harray elems)
    | _ => exact nofun

theorem encodes_evalRow (report : EvalReport) (sha : String) :
    (evalRow job device report sha).encodes = true := by
  simp [evalRow, ResultPost.encodes, Metrics.numbers]

/-- An evaluation ends in one final row exactly under these conditions. -/
theorem runVisionEval_iff : EndsOnce (runVisionEval job device vision) ↔
    (job.model.isSome = true → (job.params.bind BenchParams.inputSha256).isSome = true →
      VisionFits job device vision) := by
  unfold runVisionEval
  dsimp only
  by_cases hnamed : job.model.isNone = true ∨
      (job.params.bind BenchParams.inputSha256).isNone = true
  · rw [if_pos hnamed]
    refine iff_of_true ((endsOnce_postResult rfl).mpr rfl) fun hmodel hset => ?_
    simp only [← Option.not_isSome, hmodel, hset, Bool.not_true, Bool.false_eq_true, or_self]
      at hnamed
  · have hencodes : ∀ a, (evalTask job device vision).result = .ok a →
        (evalRow job device a.1 a.2).encodes = true := fun a _ => encodes_evalRow a.1 a.2
    rw [if_neg hnamed, endsOnce_catching evalTask_posts (fun _ => rfl) fun _ => ⟨rfl, rfl⟩,
      and_iff_left hencodes, evalTask_safe_iff]
    rw [not_or, Bool.not_eq_true, Bool.not_eq_true, Option.isNone_eq_false_iff,
      Option.isNone_eq_false_iff] at hnamed
    exact ⟨fun h _ _ => h, fun h => h hnamed.1 hnamed.2⟩

end Evaluation

/-- The three jobs end in exactly one final row with finite numbers: exactly under these
conditions. -/
theorem endsOnce_iff (job : JobSpec) (device : Device) :
    (∀ synthetic llama, EndsOnce (runBenchmark job device synthetic llama) ↔
      BenchmarkFits job device synthetic llama) ∧
    (∀ llama pp tg warmups measures,
      EndsOnce (runLlamaBenchmark job device llama pp tg warmups measures) ↔
        (Provided job llama → LlamaFits job device llama pp tg warmups measures)) ∧
    ∀ vision, EndsOnce (runVisionEval job device vision) ↔
      (job.model.isSome = true → (job.params.bind BenchParams.inputSha256).isSome = true →
        VisionFits job device vision) :=
  ⟨runBenchmark_iff job device, fun _ _ _ _ _ => llama_iff, fun _ => runVisionEval_iff⟩

/-! ## Jobs that do not end so -/

def quietDevice : Device where
  deviceId := "d"
  descriptor := "phone"
  batteryStart := 90
  batteryEnd := 90
  thermal _ := "nominal"
  physFootprintMb _ := 100
  endFootprintMb := 100
  isCancelled _ := false
  activeProcessorCount := 6

def noParams : BenchParams where
  promptTokens := none
  genTokens := none
  warmupIters := some 0
  measureIters := none
  nThreads := none
  inputSha256 := some "set"
  maxItems := none
  computeUnits := none

def model : ModelRef := ⟨"m", "gguf", "sha"⟩

def jobOf (backend : Option String) (params : BenchParams) : JobSpec :=
  ⟨"j", some model, backend, some params⟩

/-- A synthetic backend whose iterations fail. -/
def failing : Synthetic := ⟨0, fun _ => ⟨0, 0, 0⟩, fun _ => none⟩

def loaded : Llama := ⟨true, some "http://c", .ok (), some 5, fun _ => .prefillFailed,
  fun _ => .prefillFailed⟩

/-- A set whose manifest is an array. -/
def listed : Vision where
  ensureModel := .ok ()
  unzipModel := .ok ()
  firstEntry := .ok ()
  ensureSet := .ok ()
  unzipSet := .ok ()
  manifest := .ok (.arr [])
  fragment := "no value"
  load := .ok 1
  image _ := true
  warm _ := .ok ()
  classified _ := .ok ([], 1)
  upload := .ok "sha"

/-- No iterations are a trap, an iteration that fails at once leaves no final row, and a large
prompt and a manifest that is an array are traps. -/
theorem endsOnce_fails :
    (runBenchmark (jobOf none { noParams with measureIters := some 0 }) quietDevice failing
      loaded).Traps ∧
    (runBenchmark (jobOf none noParams) quietDevice failing loaded).posts = [] ∧
    (runBenchmark (jobOf (some "llama.cpp") { noParams with promptTokens := some (2 ^ 31) })
      quietDevice failing loaded).Traps ∧
    (runVisionEval (jobOf none noParams) quietDevice listed).Traps := by
  refine ⟨?_, ?_, ?_, rfl⟩
  · rfl
  · rfl
  · rfl

end FleetRunner.Ios
