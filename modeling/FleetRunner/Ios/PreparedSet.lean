import FleetRunner.Ios.VisionEval
import FleetRunner.Machine.DatasetPrep

/-!
# A prepared set on a device (`datasetprep.ts`, `Workloads.swift`)

A machine prepares an evaluation set and a device evaluates a model on it. The
device casts the fields of the manifest by force, so the two agree only as far
as the machine writes what the device reads.

## Implementation notes

The device reads the manifest the machine wrote, as a value.
-/

namespace FleetRunner.Ios

open Library
open Machine.DatasetPrep (Lists Tools labelOf outputNames runDatasetPrep)

/-! ## What the device reads -/

section Reading

variable {fields : Fields} {pairs : List (String × Int)}

theorem lookup_eq_get? (fields : Fields) (k : String) : fields.lookup k = Fields.get? fields k := by
  induction fields with
  | nil => rfl
  | cons entry rest ih =>
      obtain ⟨j, v⟩ := entry
      rw [Fields.get?_cons, List.lookup_cons, ih]
      by_cases hj : j = k
      · simp [hj]
      · rw [beq_false_of_ne (Ne.symm hj), if_neg hj]

/-- The file and the label of an item, as they are cast. -/
def ReadAs (item : Fields) (pair : String × Int) : Prop :=
  (item.lookup "file").bind stringOf = some pair.1 ∧
    (item.lookup "label").bind intOf = some pair.2

/-- A label the device can hold. -/
def Fits (label : Int) : Prop := intMin ≤ label ∧ label ≤ intMax

theorem intOf_num {label : Int} (h : Fits label) : intOf (.num label) = some label := by
  have hwhole : (label : Rat).den = 1 ∧ intMin ≤ (label : Rat).num ∧ (label : Rat).num ≤ intMax :=
    ⟨Rat.den_intCast label, h⟩
  exact if_pos hwhole

theorem readAs_of_prop {item : Json} {pair : String × Int}
    (hfile : item.prop "file" = some (.str pair.1))
    (hlabel : item.prop "label" = some (.num pair.2)) (hfits : Fits pair.2) :
    ∃ fields, objectOf item = some fields ∧ ReadAs fields pair := by
  cases item with
  | obj fields =>
      rw [Json.prop_obj] at hfile hlabel
      refine ⟨fields, rfl, ?_, ?_⟩
      · rw [lookup_eq_get?, hfile]
        rfl
      · rw [lookup_eq_get?, hlabel]
        exact intOf_num hfits
  | _ => cases hfile

theorem objectsOf_listed {items : List Json}
    (h : List.Forall₂ (fun item pair => item.prop "file" = some (.str pair.1) ∧
      item.prop "label" = some (.num pair.2)) items pairs)
    (hfits : ∀ pair ∈ pairs, Fits pair.2) :
    ∃ objects, items.mapM objectOf = some objects ∧ List.Forall₂ ReadAs objects pairs := by
  induction h with
  | nil => exact ⟨[], rfl, .nil⟩
  | @cons item pair items pairs hitem _ ih =>
      obtain ⟨fields, hfields, hread⟩ :=
        readAs_of_prop hitem.1 hitem.2 (hfits pair List.mem_cons_self)
      obtain ⟨objects, hobjects, hreads⟩ :=
        ih fun other hother => hfits other (List.mem_cons_of_mem pair hother)
      refine ⟨fields :: objects, ?_, .cons hread hreads⟩
      rw [List.mapM_cons, hfields, hobjects]
      rfl

/-- The device takes the first of the items the manifest lists. -/
theorem itemsOf_listed (h : Lists (.obj fields) pairs) (hfits : ∀ pair ∈ pairs, Fits pair.2)
    (limit : Nat) : List.Forall₂ ReadAs (itemsOf fields limit) (pairs.take limit) := by
  obtain ⟨items, hitems, hlisted⟩ := h
  obtain ⟨objects, hobjects, hreads⟩ := objectsOf_listed hlisted hfits
  have hthere : (fields.lookup "items").bind objectsOf = some objects := by
    rw [lookup_eq_get?, show Fields.get? fields "items" = some (.arr items) from hitems]
    exact hobjects
  rw [itemsOf, hthere]
  exact List.forall₂_take limit hreads

end Reading

/-! ## What the device makes of it -/

section Evaluation

variable {job : JobSpec} {device : Device} {vision : Vision} {pairs : List (String × Int)}

theorem labelled_of_readAs {item : Fields} {pair : String × Int} (h : ReadAs item pair) :
    Labelled item :=
  ⟨by rw [h.1]; rfl, by rw [h.2]; rfl⟩

theorem reachedItems_subset (items : List Fields) (i : Nat) :
    reachedItems device vision items i ⊆ items := by
  induction items generalizing i with
  | nil => exact List.Subset.refl []
  | cons item rest ih =>
      rw [reachedItems]
      split
      · exact List.nil_subset _
      · apply List.cons_subset_cons
        split
        · exact ih (i + 1)
        · exact List.nil_subset _

theorem labelled_of_reads {items : List Fields} (h : List.Forall₂ ReadAs items pairs) :
    ∀ item ∈ items, Labelled item := by
  induction h with
  | nil => exact List.forall_mem_nil Labelled
  | cons hread _ ih => exact List.forall_mem_cons.mpr ⟨labelled_of_readAs hread, ih⟩

/-- Items that are read as they should be ask nothing more of the device than a count of
warm-ups. -/
theorem itemsFit_of_readAs {items : List Fields} (h : List.Forall₂ ReadAs items pairs)
    {warmups : Int} (hwarmups : 0 ≤ warmups) : ItemsFit device vision items warmups := by
  have hlabelled := labelled_of_reads h
  intro first hfirst
  have hmem : first ∈ items := List.mem_of_head? hfirst
  obtain ⟨file, hfile⟩ := Option.isSome_iff_exists.mp (hlabelled first hmem).file
  refine ⟨file, hfile, fun _ => ⟨hwarmups, fun _ item hitem => ?_⟩⟩
  exact hlabelled item (reachedItems_subset items 0 hitem)

def ImageRow.pair (row : ImageRow) : String × Int := (row.file, row.label)

/-- The loop leaves a row for each image that can be loaded, under its name and its label. -/
theorem imageLoop_rows {items : List Fields} (hreads : List.Forall₂ ReadAs items pairs) {i : Nat}
    {tally after : Tally} (h : (imageLoop job device vision items i tally).result = .ok after) :
    after.perImage.map ImageRow.pair =
      tally.perImage.map ImageRow.pair ++ pairs.filter fun pair => vision.image pair.1 := by
  induction hreads generalizing i tally with
  | nil =>
      obtain rfl := Except.ok.inj h
      simp
  | @cons item pair items pairs hread _ ih =>
      rw [imageLoop] at h
      split at h
      · cases h
      · obtain ⟨file, hfile, h⟩ := Posting.bind_eq_ok.mp h
        obtain ⟨label, hlabel, h⟩ := Posting.bind_eq_ok.mp h
        rw [hread.1] at hfile
        rw [hread.2] at hlabel
        obtain rfl := Except.ok.inj hfile
        obtain rfl := Except.ok.inj hlabel
        split at h
        · rename_i himage
          rw [ih h, List.filter_cons_of_neg]
          simpa using himage
        · rename_i himage
          obtain ⟨result, -, h⟩ := Posting.bind_eq_ok.mp h
          obtain ⟨-, -, h⟩ := Posting.bind_eq_ok.mp h
          rw [ih h, List.filter_cons_of_pos (by simpa using himage)]
          simp [Tally.add, ImageRow.pair]

theorem trying_eq_ok {α : Type} {x : Except String α} {a : α} (h : (trying x).result = .ok a) :
    x = .ok a := by
  cases x with
  | error message => cases h
  | ok b => exact congrArg Except.ok (Except.ok.inj h)

theorem reportOf_rows {loadMs : Int} {items : List Fields} {tally : Tally} {report : EvalReport}
    (h : reportOf loadMs items tally = .ok report) : report.per_image = tally.perImage := by
  obtain ⟨p50, -, h⟩ := bind_eq_ok h
  obtain ⟨p95, -, h⟩ := bind_eq_ok h
  obtain rfl := Except.ok.inj h
  rfl

/-- An evaluation that ends has looked at all items. -/
theorem evaluate_rows {items : List Fields} (hreads : List.Forall₂ ReadAs items pairs)
    {warmups : Int} {report : EvalReport}
    (h : (evaluate job device vision items warmups).result = .ok report) :
    report.per_image.map ImageRow.pair = pairs.filter fun pair => vision.image pair.1 := by
  obtain ⟨loadMs, -, h⟩ := Posting.bind_eq_ok.mp h
  cases items with
  | nil => cases h
  | cons first rest =>
      obtain ⟨file, -, h⟩ := Posting.bind_eq_ok.mp h
      split at h
      · cases h
      · obtain ⟨n, -, h⟩ := Posting.bind_eq_ok.mp h
        obtain ⟨-, -, h⟩ := Posting.bind_eq_ok.mp h
        obtain ⟨tally, htally, h⟩ := Posting.bind_eq_ok.mp h
        rw [reportOf_rows h, imageLoop_rows hreads htally]
        rfl

theorem evalTask_rows {manifest : Json} (hmanifest : vision.manifest = .ok manifest)
    (hlists : Lists manifest pairs) (hfits : ∀ pair ∈ pairs, Fits pair.2) {report : EvalReport}
    {sha : String} (h : (evalTask job device vision).result = .ok (report, sha)) :
    report.per_image.map ImageRow.pair =
      (pairs.take (limit job).toNat).filter fun pair => vision.image pair.1 := by
  unfold evalTask at h
  obtain ⟨-, -, h⟩ := Posting.bind_eq_ok.mp h
  obtain ⟨-, -, h⟩ := Posting.bind_eq_ok.mp h
  obtain ⟨-, -, h⟩ := Posting.bind_eq_ok.mp h
  obtain ⟨-, -, h⟩ := Posting.bind_eq_ok.mp h
  obtain ⟨-, -, h⟩ := Posting.bind_eq_ok.mp h
  obtain ⟨m, hm, h⟩ := Posting.bind_eq_ok.mp h
  obtain rfl := Except.ok.inj (hmanifest.symm.trans (trying_eq_ok hm))
  cases manifest with
  | obj fields =>
      obtain ⟨n, hn, h⟩ := Posting.bind_eq_ok.mp h
      obtain ⟨got, hgot, h⟩ := Posting.bind_eq_ok.mp h
      obtain ⟨sha', -, h⟩ := Posting.bind_eq_ok.mp h
      obtain ⟨rfl, rfl⟩ := Prod.mk.inj (Except.ok.inj h)
      have hcount : n = (limit job).toNat := by
        have hrange := (range_eq_ok.mp hn).2
        rw [Int.sub_zero] at hrange
        exact hrange.symm
      rw [hcount] at hgot
      exact evaluate_rows (itemsOf_listed hlists hfits _) hgot
  | _ =>
      obtain ⟨items, hitems, -⟩ := hlists
      cases hitems

/-- A manifest that is an object with items as they should be suits every device. -/
theorem visionFits_of_lists {manifest : Json} (hmanifest : vision.manifest = .ok manifest)
    (hlists : Lists manifest pairs) (hfits : ∀ pair ∈ pairs, Fits pair.2)
    (hlimit : 0 ≤ limit job) (hwarmups : 0 ≤ evalWarmups job) : VisionFits job device vision := by
  intro _
  constructor
  · intro elems harray
    obtain rfl := Except.ok.inj (hmanifest.symm.trans harray)
    obtain ⟨items, hitems, -⟩ := hlists
    cases hitems
  · intro fields hobject
    obtain rfl := Except.ok.inj (hmanifest.symm.trans hobject)
    exact ⟨hlimit, fun _ => itemsFit_of_readAs (itemsOf_listed hlists hfits _) hwarmups⟩

end Evaluation

/-! ## From the machine to the device -/

/-- The recipe gives the images no label the device cannot hold. -/
def LabelsFit (recipe : Machine.DatasetPrep.Recipe) (files : List String) : Prop :=
  ∀ labelling, recipe.labels files = .ok labelling → ∀ item ∈ labelling.items, ∀ label,
    labelOf item = some label → Fits label

theorem plantId_labelsFit (files : List String) :
    LabelsFit Machine.DatasetPrep.plantId files := by
  intro labelling hlabelling item hitem label hlabel
  obtain rfl := Except.ok.inj hlabelling
  obtain ⟨f, -, rfl⟩ := List.mem_map.mp hitem
  rw [Machine.DatasetPrep.labelOf_num] at hlabel
  obtain rfl := Option.some.inj hlabel
  obtain ⟨hlow, hhigh⟩ := Machine.DatasetPrep.plantLabel_bounds f
  unfold Fits intMin intMax
  omega

theorem dirLabels_labelsFit {files : List String} (h : files.length ≤ 2 ^ 63) :
    LabelsFit Machine.DatasetPrep.dirLabels files := by
  intro labelling hlabelling item hitem label hlabel
  obtain rfl := Except.ok.inj hlabelling
  obtain ⟨f, hf, rfl⟩ := List.mem_map.mp hitem
  rw [Machine.DatasetPrep.labelOf_num] at hlabel
  obtain rfl := Option.some.inj hlabel
  have hindex := Machine.DatasetPrep.idxOf_classesOf hf
  have hcount := Machine.DatasetPrep.length_classesOf_le files
  unfold Fits intMin intMax
  omega

variable {job : JobSpec} {device : Device} {vision : Vision} {js : Js} {tools : Tools}
  {prep : Machine.JobSpec} {p : Machine.DatasetPrep.Prepared}

/-- A set a machine prepared never stops a device: the evaluation of it ends in one final row, and
one that goes through scores each image it can load, in order and under its name, against the
label the recipe gave the image of that name. -/
theorem prepared_evaluates (hprep : runDatasetPrep js tools prep = .ok p)
    (hlabels : LabelsFit p.recipe p.kept) (hmanifest : vision.manifest = .ok p.manifest)
    (hlimit : 0 ≤ limit job) (hwarmups : 0 ≤ evalWarmups job) :
    EndsOnce (runVisionEval job device vision) ∧
    ∃ labelling, p.recipe.labels p.kept = .ok labelling ∧ ∃ labels : List Int,
      labelling.items.map labelOf = labels.map some ∧
      ∀ report sha, (evalTask job device vision).result = .ok (report, sha) →
        report.per_image.map ImageRow.pair =
          (((outputNames p.kept.length).zip labels).take (limit job).toNat).filter
            fun pair => vision.image pair.1 := by
  obtain ⟨s, source, license, labelling, -, -, hlabelling, hbuilt, hkept, -, -⟩ :=
    Machine.DatasetPrep.runDatasetPrep_eq_ok hprep
  obtain ⟨labels, hread, -, hlists⟩ := Machine.DatasetPrep.buildManifest_eq_ok hbuilt
  rw [← hkept] at hlabelling hlists
  have hfits : ∀ pair ∈ (outputNames p.kept.length).zip labels, Fits pair.2 := by
    intro pair hpair
    have hlabel : some pair.2 ∈ labelling.items.map labelOf :=
      hread ▸ List.mem_map_of_mem (List.of_mem_zip hpair).2
    obtain ⟨item, hitem, heq⟩ := List.mem_map.mp hlabel
    exact hlabels labelling hlabelling item hitem pair.2 heq
  refine ⟨?_, labelling, hlabelling, labels, hread, ?_⟩
  · exact runVisionEval_iff.mpr fun _ _ =>
      visionFits_of_lists hmanifest hlists hfits hlimit hwarmups
  · intro report sha hreport
    exact evalTask_rows hmanifest hlists hfits hreport

/-- The plants of the sample, on a phone. -/
theorem prepared_evaluates_plants : ∃ p,
    runDatasetPrep Js.plain Machine.DatasetPrep.Sample.plants Machine.DatasetPrep.Sample.asked =
      .ok p ∧
    EndsOnce (runVisionEval (jobOf none noParams) quietDevice
      { listed with manifest := .ok p.manifest }) := by
  obtain ⟨p, hp, hrecipe⟩ := Machine.DatasetPrep.Sample.exists_prepared
  have hlabels : LabelsFit p.recipe p.kept := hrecipe ▸ plantId_labelsFit p.kept
  exact ⟨p, hp, (prepared_evaluates hp hlabels rfl (by decide) (by decide)).1⟩

end FleetRunner.Ios
