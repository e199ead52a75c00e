import FleetRunner.Embed.Evaluate

/-!
# The run both runners make (`EmbedEvalEngine.run`, `runEmbedEval`)

The two runners parse a corpus, probe the backend, embed the documents and score
the queries in the same order. A `Runner` is what they do differently on the
way. A `Reading` says what such a runner makes of a document without running
it; `run_eq` is that the run is `evaluate` on what was read.
-/

namespace FleetRunner.Embed

open Library

/-- What one runner does its own way. -/
structure Runner (K : Type) where
  /-- the document as an object -/
  root : JsonElement → Except Failure Members
  get? : Members → String → Option JsonElement
  /-- one element of `docs` or `queries` -/
  entry : String → Nat → JsonElement → Except Failure CorpusEntry
  /-- the ids under each key of `relevant` -/
  judgements : Option JsonElement → Except Failure (List (String × List String))
  relevantTo : Corpus → String → List String
  rank : Vec K → List String → List (Vec K) → List String
  hitAt : List String → List String → Nat → Bool

namespace Runner

variable {K : Type} (r : Runner K)

def entries (arr : Option JsonElement) (what : String) : Except Failure (List CorpusEntry) :=
  match arr with
  | some (.arr xs) => xs.zipIdx.mapM fun p => r.entry what p.2 p.1
  | _ => .error (.missing what)

/-- `Corpus.parse` -/
def parse (root : Members) : Except Failure Corpus := do
  let docs ← r.entries (r.get? root "docs") "docs"
  let queries ← r.entries (r.get? root "queries") "queries"
  let relevant ← r.judgements (r.get? root "relevant")
  if docs.isEmpty then .error .noDocs
  else if queries.isEmpty then .error .noQueries
  else .ok ⟨docs, queries, relevant⟩

variable [Field K] [LinearOrder K] (sqrt : K → K) (embed : String → Vec K)

/-- A query without a judgement is embedded and not scored. -/
def scoreQuery (corpus : Corpus) (docVectors : List (Vec K)) (dim : Nat) (t : Tally)
    (query : CorpusEntry) : Except Failure Tally := do
  let relevant := r.relevantTo corpus query.id
  let vec ← embedOne embed dim "query" query
  if relevant.isEmpty then .ok t
  else
    let ranked := r.rank vec (corpus.docs.map CorpusEntry.id) docVectors
    .ok (t.add (r.hitAt ranked relevant 1) (r.hitAt ranked relevant 5) (r.hitAt ranked relevant 10))

/-- The job on a document that was parsed. -/
def run (doc : JsonElement) : Except Failure Report := do
  let corpus ← r.parse (← r.root doc)
  let dim ← probed sqrt embed
  let docVectors ← corpus.docs.mapM (embedOne embed dim "doc")
  let t ← corpus.queries.foldlM (r.scoreQuery embed corpus docVectors dim) Tally.zero
  t.report

end Runner

/-- What a runner makes of the values in a document. -/
structure Reading where
  get? : Members → String → Option JsonElement
  /-- when two ids are the same -/
  same : String → String → Bool
  readsEntry : JsonElement → Bool
  idOf : Nat → JsonElement → String
  textOf : JsonElement → String
  readsTable : Option JsonElement → Bool
  table : Option JsonElement → List (String × List String)

namespace Reading

variable (d : Reading) (root : Members)

def docs : List JsonElement := elements (d.get? root "docs")

def queries : List JsonElement := elements (d.get? root "queries")

/-- The document is accepted. -/
def reads : Bool :=
  (!(d.docs root).isEmpty && (d.docs root).all d.readsEntry) &&
    (!(d.queries root).isEmpty && (d.queries root).all d.readsEntry) &&
      d.readsTable (d.get? root "relevant")

/-- The ids judged relevant to a query of this name. -/
def relevantIds (id : String) : List String :=
  (((d.table (d.get? root "relevant")).find? fun p => d.same p.1 id).map Prod.snd).getD []

/-- The id of an element by its position. -/
def idAt (xs : List JsonElement) (i : Nat) : String := d.idOf i (xs.getD i .null)

def judgedOf : Judged where
  docTexts := (d.docs root).map d.textOf
  queryTexts := (d.queries root).map d.textOf
  judged i := !(d.relevantIds root (d.idAt (d.queries root) i)).isEmpty
  relevant i j := (d.relevantIds root (d.idAt (d.queries root) i)).any fun r =>
    d.same r (d.idAt (d.docs root) j)

/-- How many queries are judged in a document that is accepted. -/
def judgedQueries : Nat := if d.reads root then (d.judgedOf root).judgedCount else 0

def entryOf (p : JsonElement × Nat) : CorpusEntry := ⟨d.idOf p.2 p.1, d.textOf p.1⟩

def corpusOf : Corpus where
  docs := (d.docs root).zipIdx.map d.entryOf
  queries := (d.queries root).zipIdx.map d.entryOf
  relevant := d.table (d.get? root "relevant")

end Reading

/-- The runner makes of a document what the reading says. -/
structure Computes {K : Type} [Field K] [LinearOrder K] (sqrt : K → K) (r : Runner K)
    (d : Reading) : Prop where
  get_eq : r.get? = d.get?
  root_eq : ∀ doc, (r.root doc).toOption = some (rootOf doc) ∨
    (r.root doc).toOption = none ∧ d.reads (rootOf doc) = false
  entry_eq : ∀ what i el, (r.entry what i el).toOption =
    if d.readsEntry el then some (d.entryOf (el, i)) else none
  table_eq : ∀ o, (r.judgements o).toOption = if d.readsTable o then some (d.table o) else none
  relevantTo_eq : ∀ corpus id, r.relevantTo corpus id =
    ((corpus.relevant.find? fun p => d.same p.1 id).map Prod.snd).getD []
  rank_eq : ∀ vec (ids : List String) (vectors : List (Vec K)), ids.length = vectors.length →
    r.rank vec ids vectors = (ranking sqrt vec vectors).map fun i => ids.getD i ""
  hit_eq : ∀ (ranked relevant : List String) k, relevant.isEmpty = false → 0 < k →
    r.hitAt ranked relevant k = (ranked.take k).any fun id => relevant.any fun s => d.same s id

namespace Computes

variable {K : Type} [Field K] [LinearOrder K] {sqrt : K → K} {embed : String → Vec K}
  {r : Runner K} {d : Reading}

/-- Reading `docs` or `queries`: refused when there is nothing in it, or an element is. -/
theorem toOption_entries (h : Computes sqrt r d) (arr : Option JsonElement) (what : String) :
    (r.entries arr what).toOption.filter (fun es => !es.isEmpty) =
      if !(elements arr).isEmpty && (elements arr).all d.readsEntry then
        some ((elements arr).zipIdx.map d.entryOf) else none := by
  unfold Runner.entries
  split
  · rename_i xs
    have hall : (xs.zipIdx.all fun p => d.readsEntry p.1) = xs.all d.readsEntry := by
      nth_rewrite 2 [← List.zipIdx_map_fst 0 xs]
      rw [List.all_map]
      rfl
    simp only [toOption_mapM, h.entry_eq]
    rw [mapM_ite (fun p : JsonElement × Nat => d.readsEntry p.1) d.entryOf, hall]
    rw [elements_arr]
    cases xs with
    | nil => rfl
    | cons x rest =>
        by_cases hreads : (x :: rest).all d.readsEntry = true
        · simp [hreads, Option.filter]
        · simp [hreads]
  · rename_i hne
    have hnil : elements arr = [] := by
      unfold elements
      split
      · exact absurd rfl (hne _)
      · rfl
    simp [hnil]

omit [Field K] [LinearOrder K] in
/-- What is wrong with a document is noticed in any order. -/
theorem toOption_parse_eq (root : Members) :
    (r.parse root).toOption =
      ((r.entries (r.get? root "docs") "docs").toOption.filter fun es => !es.isEmpty).bind
        fun docs =>
      ((r.entries (r.get? root "queries") "queries").toOption.filter fun es => !es.isEmpty).bind
        fun queries =>
      (r.judgements (r.get? root "relevant")).toOption.map fun relevant =>
        ⟨docs, queries, relevant⟩ := by
  rw [Runner.parse, toOption_bind]
  cases (r.entries (r.get? root "docs") "docs").toOption with
  | none => rfl
  | some docs =>
      rw [Option.bind_some, toOption_bind]
      cases (r.entries (r.get? root "queries") "queries").toOption with
      | none => cases docs <;> rfl
      | some queries =>
          rw [Option.bind_some, toOption_bind]
          cases (r.judgements (r.get? root "relevant")).toOption with
          | none => cases docs <;> cases queries <;> rfl
          | some relevant => cases docs <;> cases queries <;> rfl

theorem toOption_parse (h : Computes sqrt r d) (root : Members) :
    (r.parse root).toOption = if d.reads root then some (d.corpusOf root) else none := by
  rw [toOption_parse_eq, h.toOption_entries, h.toOption_entries, h.table_eq, h.get_eq]
  change (if (!(d.docs root).isEmpty && (d.docs root).all d.readsEntry) then
    some ((d.docs root).zipIdx.map d.entryOf) else none).bind (fun docs =>
      (if (!(d.queries root).isEmpty && (d.queries root).all d.readsEntry) then
        some ((d.queries root).zipIdx.map d.entryOf) else none).bind fun queries =>
          (if d.readsTable (d.get? root "relevant") then
            some (d.table (d.get? root "relevant")) else none).map fun relevant =>
              (⟨docs, queries, relevant⟩ : Corpus)) = _
  unfold Reading.reads
  cases !(d.docs root).isEmpty && (d.docs root).all d.readsEntry with
  | false => rfl
  | true =>
      cases !(d.queries root).isEmpty && (d.queries root).all d.readsEntry with
      | false => rfl
      | true => cases d.readsTable (d.get? root "relevant") <;> rfl

theorem docs_text (root : Members) :
    (d.corpusOf root).docs.map CorpusEntry.text = (d.judgedOf root).docTexts := by
  change ((d.docs root).zipIdx.map d.entryOf).map CorpusEntry.text = (d.docs root).map d.textOf
  nth_rewrite 2 [← List.zipIdx_map_fst 0 (d.docs root)]
  rw [List.map_map, List.map_map]
  rfl

/-- The id a document was given is the id at its position. -/
theorem docs_id {root : Members} {i : Nat} (hi : i < (d.docs root).length) :
    ((d.corpusOf root).docs.map CorpusEntry.id).getD i "" = d.idAt (d.docs root) i := by
  simp [Reading.corpusOf, Reading.entryOf, Reading.idAt, List.getD, hi]

theorem hitAt_eq (h : Computes sqrt r d) {root : Members} {vectors : List (Vec K)}
    (hlength : vectors.length = (d.docs root).length) (vec : Vec K) {relevant : List String}
    (hne : relevant.isEmpty = false) {k : Nat} (hk : 0 < k) :
    r.hitAt (r.rank vec ((d.corpusOf root).docs.map CorpusEntry.id) vectors) relevant k =
      hit (ranking sqrt vec vectors)
        (fun i => relevant.any fun s => d.same s (d.idAt (d.docs root) i)) k := by
  have hids : ((d.corpusOf root).docs.map CorpusEntry.id).length = vectors.length := by
    simp [Reading.corpusOf, hlength]
  rw [h.hit_eq _ _ _ hne hk, h.rank_eq _ _ _ hids, hit, ← List.map_take, List.any_map]
  apply any_congr_mem
  intro i hi
  have hmem := (List.mem_insertionSort _).mp (List.mem_of_mem_take hi)
  have hbound : i < (d.docs root).length := hlength ▸ List.mem_range.mp hmem
  simp only [Function.comp_apply, docs_id hbound]

theorem toOption_scoreQuery (h : Computes sqrt r d) {root : Members} {vectors : List (Vec K)}
    (hlength : vectors.length = (d.docs root).length) (dim : Nat) (t : Tally)
    {p : JsonElement × Nat} (hp : p ∈ (d.queries root).zipIdx) :
    (r.scoreQuery embed (d.corpusOf root) vectors dim t (d.entryOf p)).toOption =
      tallyQuery sqrt embed (d.judgedOf root) vectors dim t (d.textOf p.1, p.2) := by
  have hid : d.idAt (d.queries root) p.2 = d.idOf p.2 p.1 := by
    have hget := List.mk_mem_zipIdx_iff_getElem?.mp hp
    simp [Reading.idAt, List.getD, hget]
  have hrelevant : r.relevantTo (d.corpusOf root) (d.entryOf p).id =
      d.relevantIds root (d.idAt (d.queries root) p.2) := by
    rw [h.relevantTo_eq, hid]
    rfl
  have htext : (d.entryOf p).text = d.textOf p.1 := rfl
  have hjudged : (d.judgedOf root).judged p.2 =
      !(d.relevantIds root (d.idAt (d.queries root) p.2)).isEmpty := rfl
  rw [Runner.scoreQuery, toOption_bind, toOption_embedOne, tallyQuery, hrelevant, htext]
  cases vectorOf embed dim (d.textOf p.1) with
  | none => rfl
  | some vec =>
      cases hempty : (d.relevantIds root (d.idAt (d.queries root) p.2)).isEmpty with
      | true => simp [hempty, hjudged]
      | false =>
          have hhit : ∀ k, 0 < k → _ = _ := fun k => h.hitAt_eq hlength vec hempty
          simp only [hempty, hjudged, Option.bind_some, Option.map_some, Bool.false_eq_true,
            if_false, Bool.not_false, if_true, toOption_ok, hhit 1 (by omega), hhit 5 (by omega),
            hhit 10 (by omega)]
          rfl

theorem toOption_foldlM_scoreQuery (h : Computes sqrt r d) {root : Members}
    {vectors : List (Vec K)} (hlength : vectors.length = (d.docs root).length) (dim : Nat)
    (t : Tally) :
    ((d.corpusOf root).queries.foldlM (r.scoreQuery embed (d.corpusOf root) vectors dim) t).toOption
      = (d.judgedOf root).queryTexts.zipIdx.foldlM
          (tallyQuery sqrt embed (d.judgedOf root) vectors dim) t := by
  have hqueries : (d.judgedOf root).queryTexts.zipIdx =
      (d.queries root).zipIdx.map (Prod.map d.textOf id) := List.zipIdx_map
  rw [toOption_foldlM, hqueries, List.foldlM_map, Reading.corpusOf, List.foldlM_map]
  apply foldlM_congr_mem
  intro p hp t
  exact h.toOption_scoreQuery hlength dim t hp

/-- The run on a document is the eval of what was read from it. -/
theorem toOption_run (h : Computes sqrt r d) (doc : JsonElement) :
    (r.run sqrt embed doc).toOption =
      if d.reads (rootOf doc) then evaluate sqrt embed (d.judgedOf (rootOf doc)) else none := by
  rw [Runner.run, toOption_bind]
  rcases h.root_eq doc with hroot | ⟨hroot, hreads⟩
  · rw [hroot, Option.bind_some, toOption_bind, h.toOption_parse]
    by_cases hreads : d.reads (rootOf doc) = true
    · rw [if_pos hreads, if_pos hreads, Option.bind_some, toOption_bind, evaluate]
      apply congrArg
      funext dim
      have hembed : ∀ e, (embedOne embed dim "doc" e).toOption =
          (vectorOf embed dim ∘ CorpusEntry.text) e := toOption_embedOne embed dim "doc"
      rw [toOption_bind, toOption_mapM, ← docs_text, List.mapM_map, funext hembed]
      cases hvectors : (d.corpusOf (rootOf doc)).docs.mapM
          fun e => (vectorOf embed dim ∘ CorpusEntry.text) e with
      | none => rfl
      | some vectors =>
          have hlength : vectors.length = (d.docs (rootOf doc)).length := by
            rw [length_of_mapM hvectors]
            simp [Reading.corpusOf]
          rw [Option.bind_some, Option.bind_some, toOption_bind,
            h.toOption_foldlM_scoreQuery hlength]
    · rw [if_neg hreads, if_neg hreads]
      rfl
  · rw [hroot, hreads]
    rfl

end Computes

end FleetRunner.Embed
