import FleetRunner.Embed.Corpus
import FleetRunner.Library.Fallible

/-!
# An embedding eval on judgements

What a run counts depends on the texts, on which queries are judged, and on
which documents are relevant to which query; not on how anything is named.
`evaluate` is the run on these alone. Each runner is shown to compute it for
the judgements it reads from a document.
-/

namespace FleetRunner.Embed

open Library

/-- Documents and queries by their positions. -/
structure Judged where
  docTexts : List String
  queryTexts : List String
  judged : Nat → Bool
  relevant : Nat → Nat → Bool

section Evaluate

variable {K : Type} [Field K] [LinearOrder K] (sqrt : K → K) (embed : String → Vec K)

/-- The vector of a text, when it is one of the width and has a direction. -/
def vectorOf (dim : Nat) (text : String) : Option (Vec K) :=
  if (embed text).length ≠ dim then none
  else if hasDirection (embed text) then some (embed text) else none

/-- Embedding an entry is embedding its text. -/
theorem toOption_embedOne (dim : Nat) (what : String) (entry : CorpusEntry) :
    (embedOne embed dim what entry).toOption = vectorOf embed dim entry.text := by
  simp only [embedOne, vectorOf]
  split
  · rfl
  · split <;> rfl

/-- The positions of the documents, most similar first. -/
def ranking (vec : Vec K) (docVectors : List (Vec K)) : List Nat :=
  (List.range docVectors.length).insertionSort fun i j =>
    similarity sqrt vec (docVectors.getD j []) ≤ similarity sqrt vec (docVectors.getD i [])

def hit (top : List Nat) (relevant : Nat → Bool) (k : Nat) : Bool := (top.take k).any relevant

def tallyQuery (j : Judged) (docVectors : List (Vec K)) (dim : Nat) (t : Tally)
    (query : String × Nat) : Option Tally :=
  (vectorOf embed dim query.1).map fun vec =>
    if j.judged query.2 then
      let top := ranking sqrt vec docVectors
      t.add (hit top (j.relevant query.2) 1) (hit top (j.relevant query.2) 5)
        (hit top (j.relevant query.2) 10)
    else t

def evaluate (j : Judged) : Option Report :=
  (probed sqrt embed).toOption.bind fun dim =>
    (j.docTexts.mapM (vectorOf embed dim)).bind fun docVectors =>
      (j.queryTexts.zipIdx.foldlM (tallyQuery sqrt embed j docVectors dim) Tally.zero).bind fun t =>
        t.report.toOption

/-! ## What decides the outcome -/

variable {sqrt} {embed}

theorem scored_tallyQuery {j : Judged} {docVectors : List (Vec K)} {dim : Nat} {t t' : Tally}
    {query : String × Nat} (h : tallyQuery sqrt embed j docVectors dim t query = some t') :
    t'.scored = t.scored + (j.judged query.2).toNat := by
  obtain ⟨vec, -, rfl⟩ := Option.map_eq_some_iff.mp h
  cases j.judged query.2 <;> rfl

/-- The queries that count are the judged ones. -/
theorem scored_foldlM {j : Judged} {docVectors : List (Vec K)} {dim : Nat}
    {queries : List (String × Nat)} {t t' : Tally}
    (h : queries.foldlM (tallyQuery sqrt embed j docVectors dim) t = some t') :
    t'.scored = t.scored + (queries.countP fun q => j.judged q.2) := by
  induction queries generalizing t with
  | nil =>
      obtain rfl : t = t' := by simpa using h
      simp
  | cons q rest ih =>
      rw [List.foldlM_cons] at h
      obtain ⟨mid, hmid, hrest⟩ := Option.bind_eq_some_iff.mp h
      rw [ih hrest, scored_tallyQuery hmid, List.countP_cons]
      cases j.judged q.2 with
      | false => simp
      | true =>
          simp only [Bool.toNat_true, if_true]
          omega

theorem exists_report {t : Tally} (h : t.scored ≠ 0) : ∃ r, t.report.toOption = some r := by
  rw [Tally.report, if_neg h]
  exact ⟨_, rfl⟩

/-- How many queries are judged. -/
def Judged.judgedCount (j : Judged) : Nat := (List.range j.queryTexts.length).countP j.judged

theorem countP_zipIdx (j : Judged) :
    (j.queryTexts.zipIdx.countP fun q => j.judged q.2) = j.judgedCount := by
  rw [Judged.judgedCount, List.range_eq_range', ← List.zipIdx_map_snd, List.countP_map]
  rfl

/-- What is reported as scored is the number of judged queries, of which there is one. -/
theorem queries_scored_evaluate {j : Judged} {r : Report} (h : evaluate sqrt embed j = some r) :
    r.queries_scored = j.judgedCount ∧ j.judgedCount ≠ 0 := by
  obtain ⟨dim, -, h⟩ := Option.bind_eq_some_iff.mp h
  obtain ⟨docVectors, -, h⟩ := Option.bind_eq_some_iff.mp h
  obtain ⟨t, ht, h⟩ := Option.bind_eq_some_iff.mp h
  have hscored : t.scored = j.judgedCount := by
    rw [scored_foldlM ht, countP_zipIdx]
    simp [Tally.zero]
  rw [← hscored]
  unfold Tally.report at h
  split at h
  · cases h
  · rename_i hne
    obtain rfl := Option.some.inj h
    exact ⟨rfl, hne⟩

/-- The backend passes its probe, and every text has a vector of that width. -/
def Sound (sqrt : K → K) (embed : String → Vec K) : Prop :=
  ∃ dim, probed sqrt embed = .ok dim ∧ ∀ text, vectorOf embed dim text = some (embed text)

/-- With a sound backend a judged query is all it takes. -/
theorem exists_evaluate {j : Judged} (hsound : Sound sqrt embed) (h : j.judgedCount ≠ 0) :
    ∃ r, evaluate sqrt embed j = some r := by
  obtain ⟨dim, hdim, hvector⟩ := hsound
  have hdocs : j.docTexts.mapM (vectorOf embed dim) = some (j.docTexts.map embed) := by
    rw [funext hvector]
    exact List.mapM_pure
  obtain ⟨t, ht⟩ : ∃ t, j.queryTexts.zipIdx.foldlM
      (tallyQuery sqrt embed j (j.docTexts.map embed) dim) Tally.zero = some t := by
    generalize Tally.zero = start
    generalize j.queryTexts.zipIdx = queries
    induction queries generalizing start with
    | nil => exact ⟨start, rfl⟩
    | cons q rest ih =>
        rw [List.foldlM_cons, tallyQuery, hvector]
        exact ih _
  have hscored : t.scored ≠ 0 := by
    rw [scored_foldlM ht, countP_zipIdx]
    simpa [Tally.zero] using h
  obtain ⟨r, hr⟩ := exists_report hscored
  refine ⟨r, ?_⟩
  rw [evaluate, hdim]
  simp [Except.toOption, hdocs, ht, ← hr]

/-- Judgements that agree on the positions there are give the same outcome. -/
theorem evaluate_congr {j j' : Judged} (hdocs : j.docTexts = j'.docTexts)
    (hqueries : j.queryTexts = j'.queryTexts)
    (hjudged : ∀ i < j.queryTexts.length, j.judged i = j'.judged i)
    (hrelevant : ∀ i < j.queryTexts.length, ∀ d < j.docTexts.length,
      j.relevant i d = j'.relevant i d) :
    evaluate sqrt embed j = evaluate sqrt embed j' := by
  unfold evaluate
  rw [← hdocs, ← hqueries]
  apply congrArg
  funext dim
  cases hvectors : j.docTexts.mapM (vectorOf embed dim) with
  | none => rfl
  | some docVectors =>
      have hlength : docVectors.length = j.docTexts.length := length_of_mapM hvectors
      have hstep : ∀ q ∈ j.queryTexts.zipIdx, ∀ t,
          tallyQuery sqrt embed j docVectors dim t q =
            tallyQuery sqrt embed j' docVectors dim t q := by
        intro q hq t
        have hi : q.2 < j.queryTexts.length := by
          have hbound := List.snd_lt_add_of_mem_zipIdx hq
          omega
        have hhit : ∀ vec k, hit (ranking sqrt vec docVectors) (j.relevant q.2) k =
            hit (ranking sqrt vec docVectors) (j'.relevant q.2) k := by
          intro vec k
          apply any_congr_mem
          intro d hd
          apply hrelevant q.2 hi
          have hmem := (List.mem_insertionSort _).mp (List.mem_of_mem_take hd)
          rw [← hlength]
          exact List.mem_range.mp hmem
        simp only [tallyQuery, hjudged q.2 hi, hhit]
      simp only [Option.bind_some, foldlM_congr_mem hstep]

end Evaluate

end FleetRunner.Embed
