import FleetRunner.Embed.Android
import FleetRunner.Embed.Ios
import FleetRunner.Library.Table
import Mathlib.Algebra.Field.Rat
import Mathlib.Algebra.Order.Ring.Rat
import Mathlib.Data.Rat.Sqrt

/-!
# When the two runners agree

Each runner's outcome is the eval of the judgements it reads. They read the same
judgements where neither takes a value for something the other does not, and
agree there whatever the backend; which of them fails depends on the document
alone once the backend is sound.
-/

namespace FleetRunner.Embed

open Library
open Embed.Ios (Foundation)

/-- Queries and documents are judged alike by their positions. -/
def SameJudgements (f : Foundation) (root : Members) : Prop :=
  ∀ i < (Android.reading.queries root).length,
    (Android.reading.judgedOf root).judged i = ((Ios.reading f).judgedOf root).judged i ∧
    ∀ j < (Android.reading.docs root).length,
      (Android.reading.judgedOf root).relevant i j = ((Ios.reading f).judgedOf root).relevant i j

/-- Neither runner finds a judged query in a document it accepts, or both accept
it and judge alike. -/
def ReadAlike (f : Foundation) (root : Members) : Prop :=
  (Android.reading.judgedQueries root = 0 ∧ (Ios.reading f).judgedQueries root = 0) ∨
    (Android.reading.reads root = true ∧ (Ios.reading f).reads root = true ∧
      SameJudgements f root)

section Reading

variable {f : Foundation} {root : Members}

/-- A key the runners read names the same value for both. -/
theorem get?_eq (f : Foundation) {o : Members} (hnodup : (o.map Prod.fst).Nodup) {k : String}
    (hk : k ∈ Ios.corpusKeys) : Ios.get? f o k = Android.get? o k := by
  have hpred : ∀ p : String × JsonElement, Ios.same f p.1 k = decide (p.1 = k) := by
    intro p
    rw [Ios.same, decide_eq_decide]
    exact ⟨f.plain k hk p.1, congrArg f.nfc⟩
  rw [Ios.get?, Android.get?, funext hpred]
  apply congrArg
  apply Option.ext
  intro p
  have hfind : ∀ l : Members, (l.map Prod.fst).Nodup →
      ((l.find? fun p => decide (p.1 = k)) = some p ↔ p ∈ l ∧ p.1 = k) :=
    fun l hl => Table.find?_eq_some_iff (t := ⟨l, hl⟩)
  have horder := f.order_perm o
  rw [hfind _ ((horder.map Prod.fst).nodup_iff.mpr hnodup), hfind _ hnodup, horder.mem_iff]

theorem textOf_eq {el : JsonElement} (hel : el.WellFormed)
    (ha : Android.readsEntry el = true) (hi : Ios.readsEntry f el = true) :
    Android.textOf el = Ios.textOf f el := by
  cases el with
  | str s => rfl
  | obj o =>
      rw [JsonElement.WellFormed] at hel
      have hget := get?_eq f hel.1 (k := "text") (by simp [Ios.corpusKeys])
      have hi : (Ios.get? f o "text").any Ios.isString = true := hi
      rw [hget] at hi
      change ((Android.get? o "text").bind Android.content?).getD "" =
        ((Ios.get? f o "text").bind Ios.string?).getD ""
      rw [hget]
      cases htext : Android.get? o "text" with
      | none => rfl
      | some v =>
          rw [htext] at hi
          cases v with
          | str s => rfl
          | _ => cases hi
  | _ => cases hi

end Reading

/-- The two runners have the same elements to read. -/
theorem elements_eq (f : Foundation) {doc : JsonElement} (hdoc : doc.WellFormed) {k : String}
    (hk : k ∈ Ios.corpusKeys) :
    elements (Ios.get? f (rootOf doc) k) = elements (Android.get? (rootOf doc) k) ∧
      ∀ el ∈ elements (Android.get? (rootOf doc) k), el.WellFormed := by
  cases doc with
  | obj o =>
      rw [JsonElement.WellFormed] at hdoc
      obtain ⟨hnodup, hfields⟩ := hdoc
      change elements (Ios.get? f o k) = elements (Android.get? o k) ∧
        ∀ el ∈ elements (Android.get? o k), el.WellFormed
      refine ⟨by rw [get?_eq f hnodup hk], fun el hel => ?_⟩
      cases hget : Android.get? o k with
      | none =>
          rw [hget] at hel
          cases hel
      | some v =>
          obtain ⟨p, hp, rfl⟩ := Option.map_eq_some_iff.mp hget
          have hv := hfields.mem p (List.mem_of_find?_eq_some hp)
          rw [hget] at hel
          cases hvalue : p.2 with
          | arr xs =>
              rw [hvalue, JsonElement.WellFormed] at hv
              rw [hvalue] at hel
              exact hv.mem el hel
          | _ =>
              rw [hvalue] at hel
              cases hel
  | _ =>
      have hempty : f.order [] = [] := List.perm_nil.mp (f.order_perm [])
      change elements (Ios.get? f [] k) = [] ∧ ∀ el ∈ ([] : List JsonElement), el.WellFormed
      simp [Ios.get?, hempty, elements]

section Runs

variable {K : Type} [Field K] [LinearOrder K] (f : Foundation) (sqrt : K → K)
  (embed : String → Vec K)

/-- Both runners fail the job, or both report the same numbers. -/
def Agree (doc : JsonElement) : Prop :=
  ((Android.runner sqrt).run sqrt embed doc).toOption =
    ((Ios.runner f sqrt).run sqrt embed doc).toOption

variable {f} {sqrt} {embed} {doc : JsonElement} {r : Runner K} {d : Reading}

/-- A runner reports as scored the queries that are judged, if there is one. -/
theorem queries_scored_run (h : Computes sqrt r d) {report : Report}
    (hrun : (r.run sqrt embed doc).toOption = some report) :
    report.queries_scored = d.judgedQueries (rootOf doc) ∧ d.judgedQueries (rootOf doc) ≠ 0 := by
  rw [h.toOption_run] at hrun
  rw [Reading.judgedQueries]
  split at hrun
  · rename_i hreads
    rw [if_pos hreads]
    exact queries_scored_evaluate hrun
  · cases hrun

theorem run_eq_none (h : Computes sqrt r d) (hzero : d.judgedQueries (rootOf doc) = 0) :
    (r.run sqrt embed doc).toOption = none := by
  by_contra hne
  obtain ⟨report, hreport⟩ := Option.ne_none_iff_exists'.mp hne
  exact (queries_scored_run h hreport).2 hzero

/-- With a sound backend it takes a judged query to report. -/
theorem exists_run (h : Computes sqrt r d) (hsound : Sound sqrt embed)
    (hne : d.judgedQueries (rootOf doc) ≠ 0) :
    ∃ report, (r.run sqrt embed doc).toOption = some report := by
  rw [Reading.judgedQueries] at hne
  split at hne
  · rename_i hreads
    rw [h.toOption_run, if_pos hreads]
    exact exists_evaluate hsound hne
  · exact absurd rfl hne

theorem texts_eq (hdoc : doc.WellFormed) {k : String} (hk : k ∈ Ios.corpusKeys)
    (ha : (elements (Android.get? (rootOf doc) k)).all Android.readsEntry = true)
    (hi : (elements (Ios.get? f (rootOf doc) k)).all (Ios.readsEntry f) = true) :
    (elements (Android.get? (rootOf doc) k)).map Android.textOf =
      (elements (Ios.get? f (rootOf doc) k)).map (Ios.textOf f) := by
  obtain ⟨hsame, hwell⟩ := elements_eq f hdoc hk
  rw [hsame] at hi ⊢
  apply List.map_congr_left
  intro el hel
  exact textOf_eq (hwell el hel) (List.all_eq_true.mp ha el hel) (List.all_eq_true.mp hi el hel)

/-- A document that both accept and judge alike has one outcome. -/
theorem evaluate_eq (hdoc : doc.WellFormed) (ha : Android.reading.reads (rootOf doc) = true)
    (hi : (Ios.reading f).reads (rootOf doc) = true) (hsame : SameJudgements f (rootOf doc)) :
    evaluate sqrt embed (Android.reading.judgedOf (rootOf doc)) =
      evaluate sqrt embed ((Ios.reading f).judgedOf (rootOf doc)) := by
  simp only [Reading.reads, Bool.and_eq_true] at ha hi
  obtain ⟨⟨⟨-, hdocs⟩, -, hqueries⟩, -⟩ := ha
  obtain ⟨⟨⟨-, hdocs'⟩, -, hqueries'⟩, -⟩ := hi
  have hlength : ∀ xs : List JsonElement, (xs.map Android.textOf).length = xs.length :=
    fun _ => List.length_map _
  apply evaluate_congr
  · exact texts_eq hdoc (by simp [Ios.corpusKeys]) hdocs hdocs'
  · exact texts_eq hdoc (by simp [Ios.corpusKeys]) hqueries hqueries'
  · intro i hbound
    exact (hsame i (by simpa [Reading.judgedOf] using hbound)).1
  · intro i hbound j hj
    exact (hsame i (by simpa [Reading.judgedOf] using hbound)).2 j
      (by simpa [Reading.judgedOf] using hj)

/-- Where the backend is sound, one outcome is one number of judged queries. -/
theorem judgedQueries_of_agree (hsound : Sound sqrt embed) (h : Agree f sqrt embed doc) :
    Android.reading.judgedQueries (rootOf doc) = (Ios.reading f).judgedQueries (rootOf doc) := by
  have hA := Android.computes sqrt
  have hI := Ios.computes f sqrt
  by_cases ha : Android.reading.judgedQueries (rootOf doc) = 0
  · by_contra hne
    rw [ha] at hne
    obtain ⟨report, hreport⟩ := exists_run hI hsound (Ne.symm hne)
    rw [Agree, hreport, run_eq_none hA ha] at h
    cases h
  · obtain ⟨report, hreport⟩ := exists_run hA hsound ha
    rw [Agree, hreport] at h
    rw [← (queries_scored_run hA hreport).1, ← (queries_scored_run hI h.symm).1]

/-- The runners agree on a document that they read alike, whatever the backend; and where the
backend is sound they agree only if both find the same number of judged queries in it, none in a
document that is not accepted. -/
theorem runners_agree (f : Foundation) (sqrt : K → K) (embed : String → Vec K)
    {doc : JsonElement} (hdoc : doc.WellFormed) :
    (ReadAlike f (rootOf doc) → Agree f sqrt embed doc) ∧
    (Sound sqrt embed → Agree f sqrt embed doc →
      Android.reading.judgedQueries (rootOf doc) =
        (Ios.reading f).judgedQueries (rootOf doc)) := by
  refine ⟨?_, judgedQueries_of_agree⟩
  have hA := Android.computes sqrt
  have hI := Ios.computes f sqrt
  rintro (⟨ha, hi⟩ | ⟨ha, hi, hsame⟩)
  · rw [Agree, run_eq_none hA ha, run_eq_none hI hi]
  · rw [Agree, hA.toOption_run, hI.toOption_run, if_pos ha, if_pos hi]
    exact evaluate_eq hdoc ha hi hsame

end Runs

/-! ## A document that is a number -/

namespace Sample

/-- A backend with one direction for the control probe and one for all else. -/
def backend (text : String) : Vec Rat :=
  if text = probeOther then [some 0, some 1] else [some 1, some 0]

/-- One document, and one query that it is relevant to. -/
def corpus (doc : JsonElement) : JsonElement :=
  .obj [("docs", .arr [doc]), ("queries", .arr [.str "ferns"]),
    ("relevant", .obj [("0", .arr [.str "0"])])]

end Sample

theorem wellFormed_corpus {doc : JsonElement} (h : doc.WellFormed) :
    (Sample.corpus doc).WellFormed := by
  simp [Sample.corpus, JsonElement.WellFormed, JsonElement.WellFormedElems,
    JsonElement.WellFormedFields, h]

theorem runners_agree_text :
    (Sample.corpus (.str "moss")).WellFormed ∧
    Agree .ascii Rat.sqrt Sample.backend (Sample.corpus (.str "moss")) := by
  have hdoc : (Sample.corpus (.str "moss")).WellFormed :=
    wellFormed_corpus (by simp [JsonElement.WellFormed])
  refine ⟨hdoc, (runners_agree .ascii Rat.sqrt Sample.backend hdoc).1 (Or.inr ⟨?_, ?_, ?_⟩)⟩
  · decide
  · decide
  · unfold SameJudgements
    decide

/-- Android embeds the digits; iOS finds neither a string nor an object. -/
theorem number_only_on_android :
    (Sample.corpus (.num "7")).WellFormed ∧
    ((Android.runner Rat.sqrt).run Rat.sqrt Sample.backend (Sample.corpus (.num "7"))).toOption =
      some ⟨1, 1, 1, 1⟩ ∧
    ((Ios.runner .ascii Rat.sqrt).run Rat.sqrt Sample.backend
      (Sample.corpus (.num "7"))).toOption = none ∧
    ¬Agree .ascii Rat.sqrt Sample.backend (Sample.corpus (.num "7")) := by
  have hAndroid : ((Android.runner Rat.sqrt).run Rat.sqrt Sample.backend
      (Sample.corpus (.num "7"))).toOption = some ⟨1, 1, 1, 1⟩ := by decide +kernel
  have hIos : ((Ios.runner .ascii Rat.sqrt).run Rat.sqrt Sample.backend
      (Sample.corpus (.num "7"))).toOption = none := by decide
  refine ⟨wellFormed_corpus (by simp [JsonElement.WellFormed]), hAndroid, hIos, fun h => ?_⟩
  rw [Agree, hAndroid, hIos] at h
  cases h

end FleetRunner.Embed
