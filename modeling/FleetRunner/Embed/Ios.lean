import FleetRunner.Embed.Runner

/-!
# The iOS runner (`EmbedEvalWorkload.swift`)

A text is a string and nothing else; an id and an entry of `relevant` are
whatever `String(describing:)` prints. Strings are equal when they are
canonically equivalent, also as keys of a dictionary.

## Implementation notes

How a value that is no string prints, which strings are equivalent, and the
order a dictionary is walked in belong to the system's libraries. Of several
keys that are equivalent a dictionary keeps one; the order decides which.
-/

namespace FleetRunner.Embed.Ios

open Library

/-- The keys the runner reads. -/
def corpusKeys : List String := ["docs", "queries", "relevant", "id", "text"]

/-- What the system supplies. -/
structure Foundation where
  /-- two strings are equal when this is -/
  nfc : String → String
  /-- a plain ASCII key is equivalent to itself only -/
  plain : ∀ k ∈ corpusKeys, ∀ s, nfc s = nfc k → s = k
  /-- `String(describing: value)` -/
  describing : JsonElement → String
  describing_str : ∀ s, describing (.str s) = s
  /-- the order a dictionary made of these entries is walked in -/
  order : Members → Members
  order_perm : ∀ o, (order o).Perm o

/-- Plain ASCII strings, whole numbers, and dictionaries in the order they were written. -/
def Foundation.ascii : Foundation where
  nfc s := s
  plain _ _ _ h := h
  describing el :=
    match el with
    | .null => "<null>"
    | .bool b => if b then "1" else "0"
    | .num literal => literal
    | .str s => s
    | .arr _ => "()"
    | .obj _ => "\x7b\x7d"
  describing_str _ := rfl
  order o := o
  order_perm _ := List.Perm.refl _

section Parse

variable (f : Foundation)

def same (s t : String) : Bool := decide (f.nfc s = f.nfc t)

def get? (o : Members) (k : String) : Option JsonElement :=
  ((f.order o).find? fun p => same f p.1 k).map Prod.snd

/-- `jsonObject(…) as? [String: Any] ?? [:]` -/
def root (doc : JsonElement) : Except Failure Members := .ok (rootOf doc)

/-- One element of `docs` or `queries`. -/
def entry (what : String) (i : Nat) (el : JsonElement) : Except Failure CorpusEntry :=
  match el with
  | .str text => .ok ⟨toString i, text⟩
  | .obj o =>
    match get? f o "text" with
    | some (.str text) => .ok ⟨((get? f o "id").map f.describing).getD (toString i), text⟩
    | _ => .error (.noText what i)
  | _ => .error (.neither what i)

/-- The ids under one key of `relevant`. -/
def judgement (p : String × JsonElement) : String × List String :=
  (p.1, (elements (some p.2)).map f.describing)

def judgements (relevant : Option JsonElement) : Except Failure (List (String × List String)) :=
  .ok ((f.order (members relevant)).map (judgement f))

/-- `corpus.relevant[id] ?? []` -/
def relevantTo (corpus : Corpus) (id : String) : List String :=
  ((corpus.relevant.find? fun p => same f p.1 id).map Prod.snd).getD []

/-- `relevant.contains(id)` -/
def contains (relevant : List String) (id : String) : Bool := relevant.any fun s => same f s id

def hitAt (ranked relevant : List String) (k : Nat) : Bool :=
  if relevant.isEmpty || k ≤ 0 then false
  else (ranked.take k).any (contains f relevant)

end Parse

section Runner

variable {K : Type} [Field K] [LinearOrder K] (f : Foundation) (sqrt : K → K)

/-- Pairs of id and similarity, sorted by `>`. -/
def rank (query : Vec K) (docIds : List String) (docVectors : List (Vec K)) : List String :=
  let scored := docIds.zipIdx.map fun p => (p.1, similarity sqrt query (docVectors.getD p.2 []))
  (scored.insertionSort fun a b => ¬b.2 > a.2).map Prod.fst

def runner : Runner K where
  root := root
  get? := get? f
  entry := entry f
  judgements := judgements f
  relevantTo := relevantTo f
  rank := rank sqrt
  hitAt := hitAt f

end Runner

/-! ## What the runner reads -/

section Reading

variable (f : Foundation)

def isString : JsonElement → Bool
  | .str _ => true
  | _ => false

/-- A string, or an object whose text is one. -/
def readsEntry : JsonElement → Bool
  | .str _ => true
  | .obj o => (get? f o "text").any isString
  | _ => false

def idOf (i : Nat) : JsonElement → String
  | .obj o => ((get? f o "id").map f.describing).getD (toString i)
  | _ => toString i

def string? : JsonElement → Option String
  | .str s => some s
  | _ => none

def textOf : JsonElement → String
  | .str s => s
  | .obj o => ((get? f o "text").bind string?).getD ""
  | _ => ""

def reading : Reading where
  get? := get? f
  same := same f
  readsEntry := readsEntry f
  idOf := idOf f
  textOf := textOf f
  readsTable _ := true
  table relevant := (f.order (members relevant)).map (judgement f)

theorem toOption_entry (what : String) (i : Nat) (el : JsonElement) :
    (entry f what i el).toOption =
      if readsEntry f el then some ((reading f).entryOf (el, i)) else none := by
  cases el with
  | null => rfl
  | bool b => rfl
  | num literal => rfl
  | str s => rfl
  | arr xs => rfl
  | obj o =>
      have hreads : readsEntry f (.obj o) = (get? f o "text").any isString := rfl
      rw [hreads]
      simp only [entry, Reading.entryOf, reading, idOf, textOf]
      cases get? f o "text" with
      | none => rfl
      | some v => cases v <;> rfl

/-- Sorting the pairs is sorting the positions. -/
theorem rank_eq {K : Type} [Field K] [LinearOrder K] (sqrt : K → K) (vec : Vec K)
    (ids : List String) (vectors : List (Vec K)) (hlength : ids.length = vectors.length) :
    rank sqrt vec ids vectors = (ranking sqrt vec vectors).map fun i => ids.getD i "" := by
  have hscored : ids.zipIdx.map (fun p => (p.1, similarity sqrt vec (vectors.getD p.2 []))) =
      (List.range vectors.length).map fun i =>
        (ids.getD i "", similarity sqrt vec (vectors.getD i [])) := by
    apply List.ext_getElem
    · simp [hlength]
    · intro i hi _
      have hbound : i < ids.length := by simpa using hi
      simp [List.getD, hbound]
  have hsort := List.map_insertionSort
    (r := fun i j => similarity sqrt vec (vectors.getD j []) ≤ similarity sqrt vec (vectors.getD i []))
    (s := fun a b : String × WithBot K => ¬b.2 > a.2)
    (fun i => (ids.getD i "", similarity sqrt vec (vectors.getD i [])))
    (List.range vectors.length) (fun i _ j _ => by simp)
  rw [rank, hscored, ← hsort, List.map_map]
  rfl

theorem computes {K : Type} [Field K] [LinearOrder K] (sqrt : K → K) :
    Computes sqrt (runner f sqrt) (reading f) where
  get_eq := rfl
  root_eq _ := Or.inl rfl
  entry_eq := toOption_entry f
  table_eq _ := rfl
  relevantTo_eq _ _ := rfl
  rank_eq := rank_eq sqrt
  hit_eq ranked relevant k hne hk := by
    have hpos : decide (k ≤ 0) = false := decide_eq_false (by omega)
    change hitAt f ranked relevant k = _
    rw [hitAt, hne, hpos]
    rfl

end Reading

end FleetRunner.Embed.Ios
