import FleetRunner.Js.Padded
import FleetRunner.Library.Fallible
import FleetRunner.Library.Firsts
import FleetRunner.Library.Runs
import FleetRunner.Library.Sorting
import FleetRunner.Machine.Job
import Mathlib.Data.List.Perm.Basic
import Mathlib.Logic.Function.Basic

/-!
# Preparing an evaluation set (`workloads/datasetprep.ts`, `recipes.ts`)

A job names an archive of images and a recipe. The images are resized one after
the other into a staging directory, those that come out as another did are
dropped, and the rest are named in order and described in a manifest.

## Implementation notes

The staging directory is a function from the names to the bytes. What a resizer
does is read off its exit and what it writes. The directory holds the images
alone here; the manifest beside them is a value of its own.
-/

namespace FleetRunner.Machine.DatasetPrep

open Library

/-! ## The recipe -/

/-- What a recipe makes of the kept images. -/
structure Labelling where
  items : List Fields
  classes : Option Rat

/-- A recipe for a data set. -/
structure Recipe where
  id : String
  /-- `none` for a recipe that is not for one data set. -/
  license : Option String
  size : Nat
  preprocess : Option String
  labels : List String → Except String Labelling

/-- The license of the recipe or the job; one has to say. -/
def effectiveLicense (recipe : Recipe) (fromJob : Option Json) : Except String String :=
  let job := jsTrim ((fromJob.bind Json.asStr?).getD "")
  match recipe.license.filter fun l => decide (jsTrim l ≠ "") with
  | some license =>
    if job ≠ "" ∧ job ≠ license then
      .error ("recipe '" ++ recipe.id ++ "' states its dataset is " ++ license ++
        "; params.license says " ++ job ++ ". A prep cannot relicense a dataset.")
    else .ok license
  | none =>
    if job = "" then
      .error ("recipe '" ++ recipe.id ++ "' is generic and states no license, so params.license " ++
        "is required — a prepared set with no licence is one nobody can publish results from")
    else .ok job

/-- An item with its label and its file; what else the recipe says of it rides along. -/
def labelledItem (js : Js) (recipe : Recipe) (file : String) (item : Fields) :
    Except String Json :=
  match (Fields.get? item "label").bind Json.asInt? with
  | none =>
    .error ("recipe '" ++ recipe.id ++ "' gave " ++ file ++ " a non-integer label (" ++
      (Fields.get? item "label").elim "undefined" (Json.stringify js) ++ ")")
  | some label => .ok (.obj (Fields.set (Fields.set item "label" (.num label)) "file" (.str file)))

/-- What the manifest says beside its items. -/
def manifestHead (recipe : Recipe) (source license : String) (classes : Option Rat) : Fields :=
  [("recipe", .str recipe.id), ("source", .str source), ("license", .str license)] ++
    (classes.map fun n => ("classes", Json.num n)).toList ++
    ((recipe.preprocess.filter fun p => decide (p ≠ "")).map fun p =>
      ("preprocess", Json.str p)).toList

/-- The manifest of a set. -/
def buildManifest (js : Js) (recipe : Recipe) (source license : String) (names : List String)
    (labelling : Labelling) : Except String Json :=
  if labelling.items.length ≠ names.length then
    .error ("recipe '" ++ recipe.id ++ "' labelled " ++ toString labelling.items.length ++ " of " ++
      toString names.length ++ " images; the manifest must describe every file in the zip")
  else do
    let items ← (names.zip labelling.items).mapM fun x => labelledItem js recipe x.1 x.2
    .ok (.obj (manifestHead recipe source license labelling.classes ++ [("items", .arr items)]))

/-- `000.jpg`, `001.jpg`, and so on, in the order the images were kept. -/
def outputName (index total : Nat) : String :=
  String.ofList (padded (max 3 (Nat.toDigits 10 (total - 1)).length) index ++ ".jpg".toList)

/-! ## The program -/

/-- An entry of a directory. -/
structure Dirent where
  name : String
  isDirectory : Bool

/-- What a preparation meets. -/
structure Tools where
  /-- The protocol of a URL. -/
  protocol : String → Option String
  loadRecipe : Option Json → Except String Recipe
  resizer : Option String
  zip : Bool
  fetchAndExtract : String → Except String Unit
  /-- Of a directory of the archive; none for one that cannot be read. -/
  readdir : String → List Dirent
  /-- Whether the resizer exits with 0, and what it writes. -/
  resize : String → Bool × Option Bytes
  sha256 : Bytes → String
  /-- Whether the beacon in front of an image finds the claim still held. -/
  maybe : Nat → Bool

/-- How a preparation ends without a set. -/
inductive Stop where
  /-- A final row with the error. -/
  | failed (error : String)
  | threw

def refuse {α : Type} (x : Except String α) : Except Stop α := x.mapError .failed

/-- The address the archive comes from. -/
def parseSourceUrl (protocol : String → Option String) (v : Option Json) : Except String String :=
  let s := jsTrim ((v.bind Json.asStr?).getD "")
  if s = "" then .error "dataset-prep needs params.source_url"
  else
    match protocol s with
    | none => .error ("params.source_url is not a URL: " ++ jsSlice s 120)
    | some scheme =>
      if scheme ≠ "http:" ∧ scheme ≠ "https:" then
        .error ("params.source_url must be http or https (got " ++ scheme ++ ")")
      else .ok s

/-- What an image's name ends with. -/
def IMAGE_EXTS : List String := [".jpg", ".jpeg", ".png", ".webp"]

section Walk

variable (js : Js) (readdir : String → List Dirent)

def isImage (name : String) : Bool :=
  IMAGE_EXTS.any fun x => x.toList.isSuffixOf (js.lower name).toList

/-- Every image under a directory, so many directories deep. -/
def walkImages : Nat → String → List String
  | 0, _ => []
  | left + 1, rel =>
    (readdir rel).flatMap fun e =>
      if ['.'].isPrefixOf e.name.toList || decide (e.name = "__MACOSX") then []
      else
        let child := if rel = "" then e.name else rel ++ "/" ++ e.name
        if e.isDirectory then walkImages left child
        else if isImage js e.name then [child]
        else []

/-- The images of the archive, in order. -/
def sortedImages : List String := (walkImages js readdir 9 "").insertionSort jsTextLe

/-- The images that are prepared. -/
def chosenImages (job : JobSpec) : List String :=
  let limit := intParam js job.params "max_items" 0
  let all := sortedImages js readdir
  if 0 < limit then all.take limit.toNat else all

end Walk

/-- A directory, by name. -/
abbrev Dir := String → Option Bytes

/-- How far a preparation is. -/
structure Prep where
  staging : Dir
  /-- The digests met so far, with the image each was met in. -/
  seen : List (String × String)
  kept : List String
  keptNames : List String
  duplicates : Nat
  failedImages : Nat

/-- Nothing looked at yet. -/
def Prep.start : Prep where
  staging := fun _ => none
  seen := []
  kept := []
  keptNames := []
  duplicates := 0
  failedImages := 0

/-- The name a resized image has until all are there. -/
def stagingName (n : Nat) : String := ".staging-" ++ toString n ++ ".jpg"

section Program

variable (js : Js) (tools : Tools)

/-- The directory behind the resizer, and whether it says that it is done and a file is there. -/
def resizeOne (src dst : String) (d : Dir) : Bool × Dir :=
  let d := match (tools.resize src).2 with
    | some bytes => Function.update d dst (some bytes)
    | none => d
  ((tools.resize src).1 && (d dst).isSome, d)

/-- One image: resized, then kept or dropped. -/
def Prep.image (s : Prep) (rel : String) : Prep :=
  let tmp := stagingName s.kept.length
  let (ok, staging) := resizeOne tools rel tmp s.staging
  match if ok then staging tmp else none with
  | none => { s with staging, failedImages := s.failedImages + 1 }
  | some bytes =>
    let digest := tools.sha256 bytes
    if (s.seen.lookup digest).isSome then
      { s with staging := Function.update staging tmp none, duplicates := s.duplicates + 1 }
    else
      { s with staging, seen := (digest, rel) :: s.seen, kept := s.kept ++ [rel],
               keptNames := s.keptNames ++ [tmp] }

/-- The loop over the images, from the `i`-th on. -/
def prepareAll : List String → Nat → Prep → Except Stop Prep
  | [], _, s => .ok s
  | rel :: rest, i, s =>
    if tools.maybe i then prepareAll rest (i + 1) (s.image tools rel)
    else .error (.failed "cancelled")

/-- A file takes another name, and the place of what had it. -/
def rename (d : Dir) (tmp name : String) : Option Dir :=
  (d tmp).map fun bytes => Function.update (Function.update d tmp none) name (some bytes)

/-- Renames one after the other. -/
def renameAll (pairs : List (String × String)) (d : Dir) : Option Dir :=
  pairs.foldlM (fun d p => rename d p.1 p.2) d

/-- The names of a set of this size. -/
def outputNames (total : Nat) : List String := (List.range total).map fun i => outputName i total

/-- A prepared set and what is told about it. -/
structure Prepared where
  recipe : Recipe
  kept : List String
  files : Dir
  manifest : Json
  duplicates : Nat
  unreadable : Nat

def require (b : Bool) (error : String) : Except Stop Unit :=
  if b then .ok () else .error (.failed error)

/-- The preparation, up to where the set is zipped. -/
def runDatasetPrep (job : JobSpec) : Except Stop Prepared := do
  let sourceUrl ← refuse (parseSourceUrl tools.protocol (optProp job.params "source_url"))
  let recipe ← refuse (tools.loadRecipe (optProp job.params "recipe"))
  let license ← refuse (effectiveLicense recipe (optProp job.params "license"))
  require tools.resizer.isSome
    "dataset-prep needs sips (macOS) or ImageMagick; neither resolves on this machine"
  require tools.zip "dataset-prep needs `zip` to publish the prepared set"
  refuse ((tools.fetchAndExtract sourceUrl).mapError fun message =>
    "fetching " ++ sourceUrl ++ " failed: " ++ message)
  require (!(sortedImages js tools.readdir).isEmpty)
    (sourceUrl ++ " contained no images (looked for " ++ ", ".intercalate IMAGE_EXTS ++ ")")
  let chosen := chosenImages js tools.readdir job
  let s ← prepareAll tools chosen 0 .start
  require (!s.kept.isEmpty)
    ("every one of the " ++ toString chosen.length ++ " image(s) failed to resize; is " ++
      tools.resizer.getD "" ++ " working?")
  let names := outputNames s.kept.length
  let files ← (renameAll (s.keptNames.zip names) s.staging).elim (.error .threw) .ok
  let manifest ← refuse ((do
    let labelling ← recipe.labels s.kept
    buildManifest js recipe sourceUrl license names labelling).mapError fun message =>
      "recipe '" ++ recipe.id ++ "' could not label the set: " ++ message)
  .ok { recipe, kept := s.kept, files, manifest, duplicates := s.duplicates,
        unreadable := s.failedImages }

end Program

/-! ## Names -/

theorem stagingName_injective : Function.Injective stagingName := by
  intro i j h
  have hlists := congrArg String.toList h
  simp only [stagingName, String.toList_append, List.append_cancel_right_eq,
    List.append_cancel_left_eq] at hlists
  have hdigits : Nat.toDigits 10 i = Nat.toDigits 10 j := by
    rw [← Nat.toList_repr, ← Nat.toList_repr]
    exact hlists
  rw [← Nat.ofDigitChars_toDigits (b := 10) (n := i) (by decide) (by decide), hdigits,
    Nat.ofDigitChars_toDigits (by decide) (by decide)]

theorem outputName_injective (total : Nat) :
    Function.Injective fun i => outputName i total := by
  intro i j h
  exact padded_injective _ (List.append_cancel_right (String.ofList_injective h))

/-- The names of the set begin with a digit, and those before it with a dot. -/
theorem outputName_ne_stagingName (i total j : Nat) : outputName i total ≠ stagingName j := by
  intro h
  have hlists := congrArg String.toList h
  obtain ⟨c, rest, hcons⟩ := List.exists_cons_of_ne_nil
    (padded_ne_nil (max 3 (Nat.toDigits 10 (total - 1)).length) i)
  have hdigit : c.isDigit = true := isDigit_of_mem_padded (hcons ▸ List.mem_cons_self)
  simp only [outputName, String.toList_ofList, hcons, stagingName, String.toList_append,
    List.cons_append] at hlists
  have hdot : c = '.' := by
    have hhead := congrArg List.head? hlists
    simpa using hhead
  subst hdot
  exact absurd hdigit (by decide)

/-- The names stand in the order of the images. -/
theorem outputName_le {i j total : Nat} (hij : i < j) (hj : j < total) :
    jsTextLe (outputName i total) (outputName j total) := by
  have hlength : ∀ k, k < total →
      (padded (max 3 (Nat.toDigits 10 (total - 1)).length) k).length =
        max 3 (Nat.toDigits 10 (total - 1)).length := by
    intro k hk
    apply length_padded
    apply le_trans (length_toDigits_mono (show k ≤ total - 1 by omega))
    exact Nat.le_max_right _ _
  unfold jsTextLe outputName
  simp only [String.toList_ofList, List.flatMap_append]
  apply unitsLe_of_value_lt
  · exact fun c hc => isDigit_of_mem_padded hc
  · exact fun c hc => isDigit_of_mem_padded hc
  · rw [hlength i (hij.trans hj), hlength j hj]
  · rw [value_padded, value_padded]
    exact hij

theorem outputNames_ordered (total : Nat) :
    (outputNames total).Pairwise fun a b => jsTextLe a b ∧ a ≠ b := by
  unfold outputNames
  rw [List.pairwise_map]
  apply List.Pairwise.imp_of_mem ?_ List.pairwise_lt_range
  intro i j _ hj hij
  refine ⟨outputName_le hij (List.mem_range.mp hj), ?_⟩
  intro heq
  exact absurd (outputName_injective total heq) (Nat.ne_of_lt hij)

/-! ## One image -/

section Image

variable {tools : Tools} {s : Prep}

/-- What an image comes out as, when the resizer says that it is done. -/
def Tools.image? (tools : Tools) (rel : String) : Option Bytes :=
  if (tools.resize rel).1 then (tools.resize rel).2 else none

def Tools.digest? (tools : Tools) (rel : String) : Option String :=
  (tools.image? rel).map tools.sha256

/-- A resizer that fails leaves no file. -/
def Tidy (tools : Tools) : Prop := ∀ rel, (tools.resize rel).1 = false → (tools.resize rel).2 = none

theorem resizeOne_of_free (htidy : Tidy tools) (rel : String) {tmp : String} {d : Dir}
    (hfree : d tmp = none) :
    resizeOne tools rel tmp d =
      ((tools.image? rel).isSome,
        (tools.image? rel).elim d fun bytes => Function.update d tmp (some bytes)) := by
  unfold resizeOne Tools.image?
  cases hexit : (tools.resize rel).1 with
  | false => simp [htidy rel hexit, hfree]
  | true =>
      cases hwritten : (tools.resize rel).2 with
      | none => simp [hfree]
      | some bytes => simp

variable {rel : String}

/-! What one image does to a preparation with room for it. -/

theorem image_unread (htidy : Tidy tools)
    (hfree : s.staging (stagingName s.kept.length) = none) (himage : tools.image? rel = none) :
    s.image tools rel = { s with failedImages := s.failedImages + 1 } := by
  simp [Prep.image, resizeOne_of_free htidy rel hfree, himage]

theorem image_seen (htidy : Tidy tools)
    (hfree : s.staging (stagingName s.kept.length) = none) {bytes : Bytes}
    (himage : tools.image? rel = some bytes)
    (hseen : (s.seen.lookup (tools.sha256 bytes)).isSome = true) :
    s.image tools rel = { s with duplicates := s.duplicates + 1 } := by
  have hback : Function.update s.staging (stagingName s.kept.length) none = s.staging := by
    rw [← hfree, Function.update_eq_self]
  simp only [Prep.image, resizeOne_of_free htidy rel hfree, himage, Option.isSome_some,
    Option.elim_some, if_true, Function.update_self, hseen, Function.update_idem, hback]

theorem image_new (htidy : Tidy tools)
    (hfree : s.staging (stagingName s.kept.length) = none) {bytes : Bytes}
    (himage : tools.image? rel = some bytes)
    (hseen : ¬(s.seen.lookup (tools.sha256 bytes)).isSome = true) :
    s.image tools rel =
      { s with
        staging := Function.update s.staging (stagingName s.kept.length) (some bytes)
        seen := (tools.sha256 bytes, rel) :: s.seen
        kept := s.kept ++ [rel]
        keptNames := s.keptNames ++ [stagingName s.kept.length] } := by
  simp only [Prep.image, resizeOne_of_free htidy rel hfree, himage, Option.isSome_some,
    Option.elim_some, if_true, Function.update_self, if_neg hseen]

/-- The files of the first images are there under the names they have, and no others. -/
def Holding (tools : Tools) (kept : List String) (name : Nat → String) (d : Dir) : Prop :=
  ∀ file bytes, d file = some bytes ↔
    ∃ i rel, kept[i]? = some rel ∧ file = name i ∧ tools.image? rel = some bytes

theorem Holding.free {kept : List String} {name : Nat → String} {d : Dir}
    (h : Holding tools kept name d) (hname : Function.Injective name) :
    d (name kept.length) = none := by
  rw [Option.eq_none_iff_forall_not_mem]
  intro bytes hmem
  obtain ⟨i, rel, hi, heq, -⟩ := (h _ _).mp hmem
  rw [← hname heq, List.getElem?_length] at hi
  cases hi

theorem Holding.concat {kept : List String} {name : Nat → String} {d : Dir}
    (h : Holding tools kept name d) (hname : Function.Injective name) {rel : String} {bytes : Bytes}
    (himage : tools.image? rel = some bytes) :
    Holding tools (kept ++ [rel]) name (Function.update d (name kept.length) (some bytes)) := by
  intro file got
  by_cases hfile : file = name kept.length
  · subst hfile
    rw [Function.update_self, Option.some.injEq]
    constructor
    · rintro rfl
      exact ⟨kept.length, rel, by simp, rfl, himage⟩
    · rintro ⟨i, rel', hi, heq, hgot⟩
      rw [← hname heq, List.getElem?_concat_length] at hi
      rw [← Option.some.inj hi, himage] at hgot
      exact Option.some.inj hgot
  · rw [Function.update_of_ne hfile, h]
    constructor
    · rintro ⟨i, rel', hi, heq, hgot⟩
      refine ⟨i, rel', ?_, heq, hgot⟩
      rw [List.getElem?_append_left (List.getElem?_eq_some_iff.mp hi).1]
      exact hi
    · rintro ⟨i, rel', hi, heq, hgot⟩
      refine ⟨i, rel', ?_, heq, hgot⟩
      rw [List.getElem?_append] at hi
      split at hi
      · exact hi
      · rename_i hlong
        have hlast : i = kept.length := by
          have hshort := (List.getElem?_eq_some_iff.mp hi).1
          simp only [List.length_singleton] at hshort
          omega
        exact absurd (heq.trans (congrArg name hlast)) hfile

/-- A preparation that has looked at some images. -/
structure Looked (tools : Tools) (past : List String) (s : Prep) : Prop where
  kept : s.kept = firsts tools.digest? past
  keptNames : s.keptNames = (List.range s.kept.length).map stagingName
  seen : ∀ d, (s.seen.lookup d).isSome = true ↔ some d ∈ s.kept.map tools.digest?
  staging : Holding tools s.kept stagingName s.staging
  counted : s.kept.length + s.duplicates + s.failedImages = past.length

theorem looked_start (tools : Tools) : Looked tools [] .start where
  kept := rfl
  keptNames := rfl
  seen d := by simp [Prep.start]
  staging file bytes := by simp [Prep.start]
  counted := rfl

theorem looked_image (htidy : Tidy tools) {past : List String} (h : Looked tools past s)
    (rel : String) : Looked tools (past ++ [rel]) (s.image tools rel) := by
  have hfree := h.staging.free stagingName_injective
  have hcounted := h.counted
  cases himage : tools.image? rel with
  | none =>
      rw [image_unread htidy hfree himage]
      have hdigest : tools.digest? rel = none := by simp [Tools.digest?, himage]
      constructor
      case kept => rw [firsts_concat, keepNew_none hdigest, ← h.kept]
      case keptNames => exact h.keptNames
      case seen => exact h.seen
      case staging => exact h.staging
      case counted =>
        simp only [List.length_append, List.length_singleton]
        omega
  | some bytes =>
      have hdigest : tools.digest? rel = some (tools.sha256 bytes) := by
        simp [Tools.digest?, himage]
      by_cases hseen : (s.seen.lookup (tools.sha256 bytes)).isSome = true
      · rw [image_seen htidy hfree himage hseen]
        have hold : tools.digest? rel ∈ (firsts tools.digest? past).map tools.digest? := by
          rw [hdigest, ← h.kept]
          exact (h.seen _).mp hseen
        constructor
        case kept => rw [firsts_concat, keepNew_old hold, ← h.kept]
        case keptNames => exact h.keptNames
        case seen => exact h.seen
        case staging => exact h.staging
        case counted =>
          simp only [List.length_append, List.length_singleton]
          omega
      · rw [image_new htidy hfree himage hseen]
        have hnew : some (tools.sha256 bytes) ∉ (firsts tools.digest? past).map tools.digest? := by
          rw [← h.kept]
          exact fun hmem => hseen ((h.seen _).mpr hmem)
        constructor
        case kept => rw [firsts_concat, keepNew_new hdigest hnew, ← h.kept]
        case keptNames => simp [h.keptNames, List.range_succ]
        case seen =>
          intro d
          have hrest := h.seen d
          simp only [List.map_append, List.map_singleton, List.mem_append, List.mem_singleton,
            hdigest, Option.some.injEq, ← hrest]
          by_cases hd : d = tools.sha256 bytes
          · simp [hd]
          · rw [List.lookup_cons, beq_false_of_ne hd]
            simp only [hd, or_false]
        case staging => exact h.staging.concat stagingName_injective himage
        case counted =>
          simp only [List.length_append, List.length_singleton]
          omega

/-- A loop that is not cancelled looks at every image. -/
theorem prepareAll_eq_ok {images : List String} {i : Nat} {s s' : Prep}
    (h : prepareAll tools images i s = .ok s') : s' = run (Prep.image tools) s images := by
  induction images generalizing i s with
  | nil => exact (Except.ok.inj h).symm
  | cons rel rest ih =>
      rw [prepareAll] at h
      split at h
      · exact ih h
      · cases h

theorem looked_all (htidy : Tidy tools) (images : List String) :
    Looked tools images (run (Prep.image tools) .start images) := by
  have hok : Along (Prep.image tools) (fun _ _ => True) .start images :=
    along_of_forall (fun _ _ => trivial) _ images
  exact history_invariant (I := Looked tools) (looked_start tools)
    (fun _ rel hpast _ => looked_image htidy hpast rel) hok

end Image

/-! ## The names and the manifest -/

section Finish

variable {js : Js} {tools : Tools} {kept : List String} {d : Dir}

/-- The name of an image once so many of them have their own. -/
def nameAt (total m i : Nat) : String := if i < m then outputName i total else stagingName i

theorem nameAt_injective (total m : Nat) : Function.Injective (nameAt total m) := by
  intro i j h
  unfold nameAt at h
  split at h
  · split at h
    · exact outputName_injective total h
    · exact absurd h (outputName_ne_stagingName _ _ _)
  · split at h
    · exact absurd h.symm (outputName_ne_stagingName _ _ _)
    · exact stagingName_injective h

theorem nameAt_succ {total m i : Nat} (h : i ≠ m) : nameAt total (m + 1) i = nameAt total m i := by
  unfold nameAt
  by_cases hi : i < m
  · rw [if_pos hi, if_pos (by omega)]
  · rw [if_neg hi, if_neg (by omega)]

/-- One image takes its name, and the other files stay. -/
theorem rename_held {total m : Nat} (h : Holding tools kept (nameAt total m) d) {rel : String}
    (hrel : kept[m]? = some rel) {bytes : Bytes} (himage : tools.image? rel = some bytes) :
    ∃ d', rename d (stagingName m) (outputName m total) = some d' ∧
      Holding tools kept (nameAt total (m + 1)) d' := by
  have hold : nameAt total m m = stagingName m := if_neg (Nat.lt_irrefl m)
  have hnew : nameAt total (m + 1) m = outputName m total := if_pos (Nat.lt_succ_self m)
  have hthere : d (stagingName m) = some bytes := (h _ _).mpr ⟨m, rel, hrel, hold.symm, himage⟩
  refine ⟨Function.update (Function.update d (stagingName m) none) (outputName m total)
    (some bytes), ?_, ?_⟩
  · rw [rename, hthere]
    rfl
  intro file got
  by_cases hfile : file = outputName m total
  · subst hfile
    rw [Function.update_self, Option.some.injEq]
    constructor
    · rintro rfl
      exact ⟨m, rel, hrel, hnew.symm, himage⟩
    · rintro ⟨i, rel', hi, heq, hgot⟩
      obtain rfl : m = i := nameAt_injective total (m + 1) (hnew.trans heq)
      rw [← Option.some.inj (hrel.symm.trans hi), himage] at hgot
      exact Option.some.inj hgot
  · rw [Function.update_of_ne hfile]
    by_cases hgone : file = stagingName m
    · subst hgone
      rw [Function.update_self]
      constructor
      · intro hnone
        cases hnone
      · rintro ⟨i, rel', hi, heq, hgot⟩
        by_cases him : i = m
        · subst him
          exact absurd (heq.trans hnew) hfile
        · rw [nameAt_succ him, ← hold] at heq
          exact absurd (nameAt_injective total m heq).symm him
    · rw [Function.update_of_ne hgone, h]
      refine exists_congr fun i => exists_congr fun rel' => and_congr_right fun _ => ?_
      by_cases him : i = m
      · subst him
        rw [hold, hnew]
        exact iff_of_false (fun hand => hgone hand.1) fun hand => hfile hand.1
      · rw [nameAt_succ him]

theorem renameAll_held (h : Holding tools kept stagingName d)
    (hread : ∀ rel ∈ kept, (tools.image? rel).isSome = true) (total : Nat) {m : Nat}
    (hm : m ≤ kept.length) :
    ∃ d', renameAll ((List.range m).map fun i => (stagingName i, outputName i total)) d = some d' ∧
      Holding tools kept (nameAt total m) d' := by
  induction m with
  | zero =>
      refine ⟨d, rfl, ?_⟩
      have hnames : nameAt total 0 = stagingName := funext fun i => if_neg (Nat.not_lt_zero i)
      rw [hnames]
      exact h
  | succ m ih =>
      obtain ⟨d', hd', hheld⟩ := ih (Nat.le_of_succ_le hm)
      have hrel : kept[m]? = some kept[m] := List.getElem?_eq_getElem hm
      obtain ⟨bytes, himage⟩ := Option.isSome_iff_exists.mp (hread _ (List.getElem_mem hm))
      obtain ⟨d'', hd'', hheld'⟩ := rename_held hheld hrel himage
      refine ⟨d'', ?_, hheld'⟩
      unfold renameAll at hd' ⊢
      rw [List.range_succ, List.map_append, List.foldlM_append, hd']
      simpa using hd''

/-- The label of an item, when it is a whole number. -/
def labelOf (item : Fields) : Option Int := (Fields.get? item "label").bind Json.asInt?

/-- What a reader of a manifest finds: files with their labels, in order. -/
def Lists (manifest : Json) (pairs : List (String × Int)) : Prop :=
  ∃ items, manifest.prop "items" = some (.arr items) ∧
    List.Forall₂ (fun item pair => item.prop "file" = some (.str pair.1) ∧
      item.prop "label" = some (.num pair.2)) items pairs

theorem labelledItem_eq_ok {recipe : Recipe} {file : String} {item : Fields} {v : Json}
    (h : labelledItem js recipe file item = .ok v) : ∃ label, labelOf item = some label ∧
      v.prop "file" = some (.str file) ∧ v.prop "label" = some (.num label) := by
  unfold labelledItem at h
  split at h
  · cases h
  · rename_i label hlabel
    obtain rfl := Except.ok.inj h
    refine ⟨label, hlabel, ?_, ?_⟩
    · rw [Json.prop_obj, Fields.get?_set_self]
    · rw [Json.prop_obj, Fields.get?_set_of_ne _ (by decide), Fields.get?_set_self]

theorem lists_of_mapM {recipe : Recipe} {names : List String} {labelled : List Fields}
    (hlength : labelled.length = names.length) {items : List Json}
    (h : (names.zip labelled).mapM (fun x => labelledItem js recipe x.1 x.2) = .ok items) :
    ∃ labels : List Int, labelled.map labelOf = labels.map some ∧
      List.Forall₂ (fun item pair => item.prop "file" = some (.str pair.1) ∧
        item.prop "label" = some (.num pair.2)) items (names.zip labels) := by
  induction names generalizing labelled items with
  | nil =>
      obtain rfl := List.length_eq_zero_iff.mp hlength
      obtain rfl := Except.ok.inj h
      exact ⟨[], rfl, .nil⟩
  | cons name names ih =>
      cases labelled with
      | nil => cases hlength
      | cons item labelled =>
          rw [List.zip_cons_cons, List.mapM_cons] at h
          obtain ⟨v, hv, h⟩ := bind_eq_ok h
          obtain ⟨rest, hrest, h⟩ := bind_eq_ok h
          obtain rfl := Except.ok.inj h
          obtain ⟨label, hlabel, hfile, hread⟩ := labelledItem_eq_ok hv
          obtain ⟨labels, hlabels, hlisted⟩ := ih (Nat.succ.inj hlength) hrest
          refine ⟨label :: labels, ?_, .cons ⟨hfile, hread⟩ hlisted⟩
          rw [List.map_cons, List.map_cons, hlabel, hlabels]

/-- Nothing in front of the items has their name. -/
theorem items_not_in_head (recipe : Recipe) (source license : String) (classes : Option Rat)
    (items : Json) : Fields.get? (manifestHead recipe source license classes ++ [("items", items)])
      "items" = some items := by
  unfold manifestHead
  cases classes <;> cases recipe.preprocess.filter fun p => decide (p ≠ "") <;>
    simp [Fields.get?_cons]

theorem buildManifest_eq_ok {recipe : Recipe} {source license : String} {names : List String}
    {labelling : Labelling} {manifest : Json}
    (h : buildManifest js recipe source license names labelling = .ok manifest) :
    ∃ labels : List Int, labelling.items.map labelOf = labels.map some ∧
      labels.length = names.length ∧ Lists manifest (names.zip labels) := by
  unfold buildManifest at h
  split at h
  · cases h
  · rename_i hlength
    obtain ⟨items, hitems, h⟩ := bind_eq_ok h
    obtain rfl := Except.ok.inj h
    obtain ⟨labels, hlabels, hlisted⟩ := lists_of_mapM (not_not.mp hlength) hitems
    have hcount := congrArg List.length hlabels
    simp only [List.length_map] at hcount
    refine ⟨labels, hlabels, by omega, items, ?_, hlisted⟩
    rw [Json.prop_obj, items_not_in_head]

end Finish

/-! ## The set -/

section Set

variable {js : Js} {tools : Tools} {job : JobSpec} {p : Prepared}

/-- A set as it should be of the images that were chosen: those that come out, each once, the
first of its kind; in order; under their names, with nothing beside them; and the manifest lists
each with the label the recipe has for it. -/
structure Faithful (tools : Tools) (chosen : List String) (p : Prepared) : Prop where
  sublist : p.kept.Sublist chosen
  distinct : (p.kept.map tools.digest?).Nodup
  complete : ∀ front rel rest, chosen = front ++ rel :: rest → ∀ d, tools.digest? rel = some d →
    ∃ first ∈ p.kept, first ∈ front ++ [rel] ∧ tools.digest? first = some d
  counted : p.kept.length + p.duplicates + p.unreadable = chosen.length
  files : ∀ file bytes, p.files file = some bytes ↔ ∃ i rel, p.kept[i]? = some rel ∧
    file = outputName i p.kept.length ∧ tools.image? rel = some bytes
  ordered : (outputNames p.kept.length).Pairwise fun a b => jsTextLe a b ∧ a ≠ b
  labelled : ∃ labelling, p.recipe.labels p.kept = .ok labelling ∧ ∃ labels : List Int,
    labelling.items.map labelOf = labels.map some ∧ labels.length = p.kept.length ∧
      Lists p.manifest ((outputNames p.kept.length).zip labels)

theorem refuse_eq_ok {α : Type} {x : Except String α} {a : α} (h : refuse x = .ok a) :
    x = .ok a := by
  cases x with
  | error message => cases h
  | ok b => exact congrArg Except.ok (Except.ok.inj h)

theorem mapError_eq_ok {α : Type} {x : Except String α} {f : String → String} {a : α}
    (h : x.mapError f = .ok a) : x = .ok a := by
  cases x with
  | error message => cases h
  | ok b => exact congrArg Except.ok (Except.ok.inj h)

/-- What a preparation that ends with a set has gone through. -/
theorem runDatasetPrep_eq_ok (h : runDatasetPrep js tools job = .ok p) :
    ∃ s source license labelling,
      prepareAll tools (chosenImages js tools.readdir job) 0 .start = .ok s ∧
      renameAll (s.keptNames.zip (outputNames s.kept.length)) s.staging = some p.files ∧
      p.recipe.labels s.kept = .ok labelling ∧
      buildManifest js p.recipe source license (outputNames s.kept.length) labelling =
        .ok p.manifest ∧
      p.kept = s.kept ∧ p.duplicates = s.duplicates ∧ p.unreadable = s.failedImages := by
  unfold runDatasetPrep at h
  obtain ⟨source, -, h⟩ := bind_eq_ok h
  obtain ⟨recipe, -, h⟩ := bind_eq_ok h
  obtain ⟨license, -, h⟩ := bind_eq_ok h
  obtain ⟨-, -, h⟩ := bind_eq_ok h
  obtain ⟨-, -, h⟩ := bind_eq_ok h
  obtain ⟨-, -, h⟩ := bind_eq_ok h
  obtain ⟨-, -, h⟩ := bind_eq_ok h
  obtain ⟨s, hs, h⟩ := bind_eq_ok h
  obtain ⟨-, -, h⟩ := bind_eq_ok h
  obtain ⟨files, hfiles, h⟩ := bind_eq_ok h
  obtain ⟨manifest, hmanifest, h⟩ := bind_eq_ok h
  obtain rfl := Except.ok.inj h
  obtain ⟨labelling, hlabelling, hbuilt⟩ := bind_eq_ok (mapError_eq_ok (refuse_eq_ok hmanifest))
  have hrenamed :
      renameAll (s.keptNames.zip (outputNames s.kept.length)) s.staging = some files := by
    cases hall : renameAll (s.keptNames.zip (outputNames s.kept.length)) s.staging with
    | none =>
        rw [hall] at hfiles
        cases hfiles
    | some d =>
        rw [hall] at hfiles
        exact congrArg some (Except.ok.inj hfiles)
  exact ⟨s, source, license, labelling, hs, hrenamed, hlabelling, hbuilt, rfl, rfl, rfl⟩

/-- A set goes by the recipe that was loaded. -/
theorem recipe_of_loadRecipe {recipe : Recipe}
    (hload : tools.loadRecipe (optProp job.params "recipe") = .ok recipe)
    (h : runDatasetPrep js tools job = .ok p) : p.recipe = recipe := by
  unfold runDatasetPrep at h
  obtain ⟨source, -, h⟩ := bind_eq_ok h
  obtain ⟨loaded, hloaded, h⟩ := bind_eq_ok h
  obtain ⟨license, -, h⟩ := bind_eq_ok h
  obtain ⟨-, -, h⟩ := bind_eq_ok h
  obtain ⟨-, -, h⟩ := bind_eq_ok h
  obtain ⟨-, -, h⟩ := bind_eq_ok h
  obtain ⟨-, -, h⟩ := bind_eq_ok h
  obtain ⟨s, -, h⟩ := bind_eq_ok h
  obtain ⟨-, -, h⟩ := bind_eq_ok h
  obtain ⟨files, -, h⟩ := bind_eq_ok h
  obtain ⟨manifest, -, h⟩ := bind_eq_ok h
  obtain rfl := Except.ok.inj h
  exact Except.ok.inj ((refuse_eq_ok hloaded).symm.trans hload)

end Set

variable {js : Js} {tools : Tools} {job : JobSpec} {p : Prepared}

/-- A set that is prepared is as it should be, whatever the archive holds, whichever images come
out alike and whichever cannot be read. -/
theorem prepared_faithful (htidy : Tidy tools) (h : runDatasetPrep js tools job = .ok p) :
    Faithful tools (chosenImages js tools.readdir job) p := by
  obtain ⟨s, source, license, labelling, hs, hrenamed, hlabelling, hbuilt, hkept, hduplicates,
    hunreadable⟩ := runDatasetPrep_eq_ok h
  have hlooked := looked_all htidy (chosenImages js tools.readdir job)
  rw [← prepareAll_eq_ok hs] at hlooked
  have hfirsts := hlooked.kept
  rw [← hkept] at hfirsts
  constructor
  case sublist => exact hfirsts ▸ firsts_sublist _
  case distinct => exact hfirsts ▸ nodup_keys_firsts _
  case complete =>
    intro front rel rest hsplit d hd
    rw [hfirsts, hsplit]
    exact exists_first hd
  case counted =>
    rw [hkept, hduplicates, hunreadable]
    exact hlooked.counted
  case files =>
    have hread : ∀ rel ∈ s.kept, (tools.image? rel).isSome = true := by
      intro rel hrel
      have hkey := isSome_of_mem_firsts (hlooked.kept ▸ hrel)
      simpa [Tools.digest?] using hkey
    obtain ⟨d, hd, hheld⟩ := renameAll_held hlooked.staging hread s.kept.length le_rfl
    have hpairs : s.keptNames.zip (outputNames s.kept.length) =
        (List.range s.kept.length).map fun i => (stagingName i, outputName i s.kept.length) := by
      rw [hlooked.keptNames, outputNames, List.zip_map']
    rw [hpairs, hd] at hrenamed
    rw [← Option.some.inj hrenamed, hkept]
    intro file bytes
    rw [hheld file bytes]
    refine exists_congr fun i => exists_congr fun rel => and_congr_right fun hrel => ?_
    rw [nameAt, if_pos (List.getElem?_eq_some_iff.mp hrel).1]
  case ordered => exact outputNames_ordered _
  case labelled =>
    obtain ⟨labels, hlabels, hcount, hlisted⟩ := buildManifest_eq_ok hbuilt
    rw [hkept]
    exact ⟨labelling, hlabelling, labels, hlabels, by simpa [outputNames] using hcount, hlisted⟩

/-! ## The shipped recipes -/

/-- The directory right above a file. -/
def classOf (relPath : String) : String :=
  let parts := relPath.toList.splitOn '/'
  if 1 < parts.length then String.ofList (parts.getD (parts.length - 2) []) else ""

/-- The names of the directories there are, in order. -/
def classesOf (files : List String) : List String :=
  (firsts some (files.map classOf)).insertionSort jsTextLe

/-- `dir-labels.mjs`: one directory a class. -/
def dirLabels : Recipe where
  id := "dir-labels"
  license := none
  size := 224
  preprocess := some "center-crop, resize 224, RGB; ImageNet mean/std applied on-device"
  labels files := .ok
    { classes := some (classesOf files).length
      items := files.map fun f =>
        [("label", .num (((classesOf files).idxOf (classOf f) : Nat) : Int)),
          ("class", .str (classOf f))] }

/-- The index a directory of `plant-id.mjs` names. -/
def plantLabel (relPath : String) : Int :=
  let dir := (classOf relPath).toList
  if dir ≠ [] ∧ dir.all Char.isDigit ∧ Nat.ofDigitChars 10 dir 0 < 1081 then
    Nat.ofDigitChars 10 dir 0
  else -1

/-- `plant-id.mjs`: the directory is the index of the class. -/
def plantId : Recipe where
  id := "plant-id"
  license := some "CC-BY-SA-4.0"
  size := 224
  preprocess := some "center-crop, resize 224, RGB; ImageNet mean/std applied on-device"
  labels files := .ok
    { classes := some 1081
      items := files.map fun f =>
        [("label", .num (plantLabel f)), ("species_dir", .str (classOf f))] }

theorem labelOf_num (label : Int) (rest : Fields) :
    labelOf (("label", .num label) :: rest) = some label := by
  simp [labelOf, Fields.get?_cons, Json.asInt?]

theorem plantLabel_bounds (relPath : String) :
    -1 ≤ plantLabel relPath ∧ plantLabel relPath < 1081 := by
  unfold plantLabel
  dsimp only
  split
  · rename_i hindex
    have hsmall := hindex.2.2
    generalize Nat.ofDigitChars 10 (classOf relPath).toList 0 = n at hsmall
    omega
  · exact ⟨le_rfl, by decide⟩

/-- A class has its index among the classes there are. -/
theorem idxOf_classesOf {files : List String} {f : String} (h : f ∈ files) :
    (classesOf files).idxOf (classOf f) < (classesOf files).length := by
  rw [List.idxOf_lt_length_iff, classesOf, List.mem_insertionSort]
  have hmem : some (classOf f) ∈
      (firsts (some : String → Option String) (files.map classOf)).map some :=
    mem_keys_firsts.mpr (List.mem_map_of_mem (List.mem_map_of_mem h))
  obtain ⟨c, hc, heq⟩ := List.mem_map.mp hmem
  exact Option.some.inj heq ▸ hc

theorem length_classesOf_le (files : List String) : (classesOf files).length ≤ files.length := by
  rw [classesOf, List.length_insertionSort]
  apply ((firsts_sublist _).length_le).trans
  exact (List.length_map classOf).le

namespace Sample

/-- An archive of two species, with one picture in two files. -/
def plants : Tools where
  protocol _ := some "https:"
  loadRecipe _ := .ok plantId
  resizer := some "/usr/bin/sips"
  zip := true
  fetchAndExtract _ := .ok ()
  readdir path :=
    if path = "" then [⟨"7", true⟩, ⟨"12", true⟩]
    else if path = "7" then [⟨"c.jpg", false⟩]
    else if path = "12" then [⟨"b.jpg", false⟩, ⟨"a.jpg", false⟩, ⟨"notes.txt", false⟩]
    else []
  resize src := (true, some (if src = "7/c.jpg" then [7] else [12]))
  sha256 bytes :=
    if bytes = [7] then "ca358758f6d27e6cf45272937977a748fd88391db679ceda7dc7bf1f005ee879"
    else "ef6cbd2161eaea7943ce8693b9824d23d1793ffb1c0fca05b600d3899b44c977"
  maybe _ := true

def asked : JobSpec where
  job_id := "j"
  workload := "dataset-prep"
  model := none
  params := some (.obj [("source_url", .str "https://plants/set.zip"), ("recipe", .str "plant-id")])

theorem exists_prepared : ∃ p, runDatasetPrep Js.plain plants asked = .ok p ∧
    p.recipe = plantId := by
  obtain ⟨p, hp, -⟩ := exists_of_okAnd (x := runDatasetPrep Js.plain plants asked)
    (p := fun p => decide (p.kept = ["12/a.jpg", "7/c.jpg"])) (by decide +kernel)
  exact ⟨p, hp, recipe_of_loadRecipe rfl hp⟩

end Sample

/-- Three files of two pictures, prepared to two images. -/
theorem prepared_faithful_plants : ∃ p, runDatasetPrep Js.plain Sample.plants Sample.asked = .ok p ∧
    p.kept = ["12/a.jpg", "7/c.jpg"] ∧
    Faithful Sample.plants (chosenImages Js.plain Sample.plants.readdir Sample.asked) p := by
  have htidy : Tidy Sample.plants := by
    intro rel h
    cases h
  obtain ⟨p, hp, hkept⟩ := exists_of_okAnd (x := runDatasetPrep Js.plain Sample.plants Sample.asked)
    (p := fun p => decide (p.kept = ["12/a.jpg", "7/c.jpg"])) (by decide +kernel)
  exact ⟨p, hp, of_decide_eq_true hkept, prepared_faithful htidy hp⟩

/-! ## The order a directory is read in -/

section Order

variable {readdir' : String → List Dirent}

/-- A walk meets the same images, whatever order the directories are read in. -/
theorem walkImages_perm {readdir : String → List Dirent}
    (h : ∀ path, (readdir path).Perm (readdir' path)) (left : Nat) (rel : String) :
    (walkImages js readdir left rel).Perm (walkImages js readdir' left rel) := by
  induction left generalizing rel with
  | zero => exact List.Perm.refl []
  | succ left ih =>
      rw [walkImages, walkImages]
      apply List.Perm.flatMap (h rel)
      intro e _
      split
      · exact List.Perm.refl []
      · dsimp only
        split
        · exact ih _
        · exact List.Perm.refl _

theorem sortedImages_of_perm {readdir : String → List Dirent}
    (h : ∀ path, (readdir path).Perm (readdir' path)) :
    sortedImages js readdir = sortedImages js readdir' := by
  apply insertionSort_eq_of_perm (walkImages_perm h 9 "")
  exact fun a _ b _ => antisymm_of jsTextLe

theorem prepareAll_readdir (images : List String) (i : Nat) (s : Prep) :
    prepareAll { tools with readdir := readdir' } images i s = prepareAll tools images i s := by
  induction images generalizing i s with
  | nil => rfl
  | cons rel rest ih =>
      rw [prepareAll, prepareAll, ih]
      rfl

/-- The same archive is prepared to the same set, or fails with the same words, in whatever order
a file system lists its directories. -/
theorem prepared_any_order (h : ∀ path, (tools.readdir path).Perm (readdir' path)) :
    runDatasetPrep js { tools with readdir := readdir' } job = runDatasetPrep js tools job := by
  have hchosen : chosenImages js readdir' job = chosenImages js tools.readdir job := by
    rw [chosenImages, chosenImages, sortedImages_of_perm h]
  have hsorted : sortedImages js readdir' = sortedImages js tools.readdir :=
    (sortedImages_of_perm h).symm
  unfold runDatasetPrep
  simp only [prepareAll_readdir, hchosen, hsorted]

end Order

/-- The archive of the sample, listed backwards. -/
theorem prepared_any_order_backwards :
    runDatasetPrep Js.plain { Sample.plants with readdir := fun path =>
      (Sample.plants.readdir path).reverse } Sample.asked =
    runDatasetPrep Js.plain Sample.plants Sample.asked :=
  prepared_any_order fun path => (List.reverse_perm (Sample.plants.readdir path)).symm

end FleetRunner.Machine.DatasetPrep
