import FleetRunner.Embed.Runner

/-!
# The Android runner (`EmbedEvalEngine.kt`)

An entry is read as its `content`, the text of any value that is neither an
array nor an object; so a number, a boolean and `null` are texts and ids too.
Strings are equal when their characters are.
-/

namespace FleetRunner.Embed.Android

open Library

def get? (o : Members) (k : String) : Option JsonElement :=
  (o.find? fun p => decide (p.1 = k)).map Prod.snd

/-- `doc.jsonObject` -/
def root (doc : JsonElement) : Except Failure Members :=
  match doc with
  | .obj o => .ok o
  | _ => .error .notObject

/-- What `content` is, for an element that is primitive. -/
def content? : JsonElement → Option String
  | .null => some "null"
  | .bool b => some (if b then "true" else "false")
  | .num literal => some literal
  | .str s => some s
  | .arr _ => none
  | .obj _ => none

/-- `el.jsonPrimitive.content` -/
def content (el : JsonElement) : Except Failure String :=
  match content? el with
  | some s => .ok s
  | none => .error .notPrimitive

/-- One element of `docs` or `queries`. -/
def entry (what : String) (i : Nat) (el : JsonElement) : Except Failure CorpusEntry :=
  match el with
  | .arr _ => .error (.neither what i)
  | .obj o => do
    let id ← match get? o "id" with
      | some v => content v
      | none => .ok (toString i)
    let text ← match get? o "text" with
      | some v => content v
      | none => .error (.noText what i)
    .ok ⟨id, text⟩
  | el => do .ok ⟨toString i, ← content el⟩

/-- The ids under one key of `relevant`. -/
def judgement (p : String × JsonElement) : Except Failure (String × List String) :=
  match p.2 with
  | .arr xs => do .ok (p.1, ← xs.mapM content)
  | _ => .ok (p.1, [])

def judgements (relevant : Option JsonElement) : Except Failure (List (String × List String)) :=
  (members relevant).mapM judgement

/-- `corpus.relevant[id] ?: emptySet()` -/
def relevantTo (corpus : Corpus) (id : String) : List String :=
  ((corpus.relevant.find? fun p => decide (p.1 = id)).map Prod.snd).getD []

def hitAt (ranked relevant : List String) (k : Nat) : Bool :=
  if relevant.isEmpty || k ≤ 0 then false
  else (List.range (min k ranked.length)).any fun i => decide (ranked.getD i "" ∈ relevant)

section Runner

variable {K : Type} [Field K] [LinearOrder K] (sqrt : K → K)

/-- `sortedByDescending` over the indices. -/
def rank (query : Vec K) (docIds : List String) (docVectors : List (Vec K)) : List String :=
  ((List.range docIds.length).insertionSort fun i j =>
    similarity sqrt query (docVectors.getD j []) ≤ similarity sqrt query (docVectors.getD i [])).map
    fun i => docIds.getD i ""

def runner : Runner K where
  root := root
  get? := get?
  entry := entry
  judgements := judgements
  relevantTo := relevantTo
  rank := rank sqrt
  hitAt := hitAt

end Runner

/-! ## What the runner reads -/

def primitive (el : JsonElement) : Bool := (content? el).isSome

/-- A value with a content, or an object whose text has one and whose id, if any. -/
def readsEntry : JsonElement → Bool
  | .arr _ => false
  | .obj o => (get? o "text").any primitive && (get? o "id").all primitive
  | _ => true

def idOf (i : Nat) : JsonElement → String
  | .obj o => ((get? o "id").bind content?).getD (toString i)
  | _ => toString i

def textOf : JsonElement → String
  | .obj o => ((get? o "text").bind content?).getD ""
  | el => (content? el).getD ""

def reading : Reading where
  get? := get?
  same s t := decide (s = t)
  readsEntry := readsEntry
  idOf := idOf
  textOf := textOf
  readsTable relevant := (members relevant).all fun p => (elements (some p.2)).all primitive
  table relevant := (members relevant).map fun p =>
    (p.1, (elements (some p.2)).filterMap content?)

theorem toOption_content (el : JsonElement) : (content el).toOption = content? el := by
  unfold content
  cases content? el <;> rfl

theorem toOption_entry (what : String) (i : Nat) (el : JsonElement) :
    (entry what i el).toOption =
      if readsEntry el then some (reading.entryOf (el, i)) else none := by
  cases el with
  | null => rfl
  | bool b => rfl
  | num literal => rfl
  | str s => rfl
  | arr xs => rfl
  | obj o =>
      have hreads : readsEntry (.obj o) =
          ((get? o "text").any primitive && (get? o "id").all primitive) := rfl
      rw [hreads]
      simp only [entry, Reading.entryOf, reading, idOf, textOf]
      cases hid : get? o "id" with
      | none =>
          cases htext : get? o "text" with
          | none => rfl
          | some v =>
              cases hv : content? v <;> simp [toOption_bind, toOption_content, hv, primitive]
      | some w =>
          cases htext : get? o "text" with
          | none => cases hw : content? w <;> simp [toOption_bind, toOption_content, hw]
          | some v =>
              cases hw : content? w <;> cases hv : content? v <;>
                simp [toOption_bind, toOption_content, hv, hw, primitive]

/-- Contents of elements that all have one. -/
theorem mapM_content? (xs : List JsonElement) :
    xs.mapM content? = if xs.all primitive then some (xs.filterMap content?) else none := by
  induction xs with
  | nil => rfl
  | cons x rest ih =>
      rw [List.mapM_cons, ih, List.all_cons]
      cases hx : content? x with
      | none => simp [primitive, hx]
      | some s =>
          have hprimitive : primitive x = true := by simp [primitive, hx]
          rw [hprimitive, Bool.true_and, List.filterMap_cons_some hx]
          cases rest.all primitive <;> rfl

theorem toOption_judgement (p : String × JsonElement) :
    (judgement p).toOption = if (elements (some p.2)).all primitive then
      some (p.1, (elements (some p.2)).filterMap content?) else none := by
  obtain ⟨key, v⟩ := p
  cases v with
  | arr xs =>
      simp only [judgement, toOption_bind, toOption_mapM, toOption_content, mapM_content?,
        elements_arr]
      by_cases hall : xs.all primitive = true <;> simp [hall]
  | null => rfl
  | bool b => rfl
  | num literal => rfl
  | str s => rfl
  | obj o => rfl

theorem toOption_judgements (relevant : Option JsonElement) :
    (judgements relevant).toOption =
      if reading.readsTable relevant then some (reading.table relevant) else none := by
  simp only [judgements, toOption_mapM, toOption_judgement]
  exact mapM_ite (fun p : String × JsonElement => (elements (some p.2)).all primitive) _ _

/-- The loop over the first places. -/
theorem range_any_getD (ranked : List String) (p : String → Bool) (k : Nat) :
    ((List.range (min k ranked.length)).any fun i => p (ranked.getD i "")) =
      (ranked.take k).any p := by
  have hplaces : (List.range (min k ranked.length)).map (fun i => ranked.getD i "") =
      ranked.take k := by
    apply List.ext_getElem
    · simp
    · intro i hi _
      have hbound : i < ranked.length := by
        simp only [List.length_map, List.length_range] at hi
        omega
      simp [List.getD, hbound]
  rw [← hplaces, List.any_map]
  rfl

theorem computes {K : Type} [Field K] [LinearOrder K] (sqrt : K → K) :
    Computes sqrt (runner sqrt) reading where
  get_eq := rfl
  root_eq doc := by
    cases doc with
    | obj o => exact Or.inl rfl
    | _ => exact Or.inr ⟨rfl, rfl⟩
  entry_eq := toOption_entry
  table_eq := toOption_judgements
  relevantTo_eq _ _ := rfl
  rank_eq vec ids vectors hlength := by
    change rank sqrt vec ids vectors = _
    rw [rank, hlength]
    rfl
  hit_eq ranked relevant k hne hk := by
    have hpos : decide (k ≤ 0) = false := decide_eq_false (by omega)
    have hmem : ∀ id, decide (id ∈ relevant) = relevant.any fun s => decide (s = id) := by
      intro id
      rw [Bool.eq_iff_iff, decide_eq_true_iff, List.any_eq_true]
      simp
    change hitAt ranked relevant k = _
    rw [hitAt, hne, hpos, range_any_getD ranked fun id => decide (id ∈ relevant), funext hmem]
    rfl

end FleetRunner.Embed.Android
