import FleetRunner.Explore.Types
import FleetRunner.Library.Percent
import FleetRunner.Library.Runs

/-!
# The screen map across nights (`screenmap.ts`)

A screen is what is on it: its tokens, or its picture where there is no tree.
Its id is digested from them when it is added; a later, richer view of it takes
the place of its tokens and leaves its id.

## Implementation notes

The digest is the engine's: `sha1` gives the 40 hex digits of a text, and every
statement holds for any choice of it. `now` is the clock. A stored screen is a
`ScreenEntry` with what matching and the morning list read of it.
-/

namespace FleetRunner.Explore

open Library

namespace Screens

/-- A node of the tree, with what identifies a control. -/
structure Node extends A11yNode where
  id : String
  cls : String
  tappable : Bool

/-- `s.split(sep).pop()` -/
def lastPart (sep : Char) (s : String) : String :=
  String.ofList (s.toList.reverse.takeWhile fun c => c ≠ sep).reverse

/-- `s.replace(/^XCUIElementType/, "")` -/
def bareClass (s : String) : String :=
  let p := "XCUIElementType".toList
  if p <+: s.toList then String.ofList (s.toList.drop p.length) else s

variable (js : Js)

/-- A text that is short and holds no digit is a label. -/
def labelToken? (text : String) : Option String :=
  let s := jsTrim text
  if jsLength s < 2 ∨ 32 < jsLength s then none
  else if s.toList.any Char.isDigit then none
  else some ("t:" ++ js.lower s)

def nodeTokens (n : Node) : List String :=
  (if n.id ≠ "" then ["id:" ++ lastPart '/' n.id] else []) ++
    (if n.tappable = true ∧ bareClass (lastPart '.' n.cls) ≠ "" then
      ["tap:" ++ bareClass (lastPart '.' n.cls)] else []) ++
    [n.text, n.label].filterMap (labelToken? js)

/-- `new Set(..)`: the first of each. -/
def addNew (out : List String) (token : String) : List String :=
  if token ∈ out then out else out ++ [token]

def screenTokens (nodes : List Node) : List String :=
  ((nodes.flatMap (nodeTokens js)).foldl addNew []).insertionSort jsTextLe

def jaccard (a b : List String) : Rat :=
  if a = [] ∧ b = [] then 1
  else
    let inter := (a.filter fun t => decide (t ∈ b)).length
    (inter : Rat) / ((a.length : Rat) + b.length - inter)

/-- The value a unit has to `parseInt(u, 16)`, with `NaN` as the bits see it. -/
def unitValues (c : Char) : List Nat :=
  if charUnits c = 1 then [(hexValue c).getD 0] else [0, 0]

/-- The bits of one hex digit. -/
def bitCount (x : Nat) : Nat := x % 2 + x / 2 % 2 + x / 4 % 2 + x / 8 % 2

def hamming (a b : String) : Nat :=
  if jsLength a ≠ jsLength b then jsLength a * 4
  else
    (List.zipWith (fun x y => bitCount (x ^^^ y)) (a.toList.flatMap unitValues)
      (b.toList.flatMap unitValues)).sum

/-- What a stored screen is matched by. -/
structure Shape where
  tokens : List String
  hash : Option String

structure Stored extends Shape where
  entry : ScreenEntry
  firstSeen : String
  lastSeen : String
  visits : Nat
  nights : List String

/-- One look at the screen, with the night and the clock. -/
structure Sight where
  nodes : Option (List Node)
  hash : String
  height : Rat
  night : String
  now : String

structure ScreenMap where
  screens : List Stored
  dirty : Bool
  seenThisRun : List String
  /-- `screenmap.json`, once it has been written -/
  file : Option (List Stored)

/-- A map that has no file yet. -/
def empty : ScreenMap := ⟨[], false, [], none⟩

def Sight.tokens (o : Sight) : List String := (o.nodes.map (screenTokens js)).getD []

/-- `tokens.join("|") || hash` -/
def Sight.identity (o : Sight) : String :=
  let joined := "|".intercalate (o.tokens js)
  if joined ≠ "" then joined else o.hash

def score (o : Sight) (s : Shape) : Rat :=
  if o.tokens js ≠ [] ∧ s.tokens ≠ [] then jaccard (o.tokens js) s.tokens
  else
    match s.hash with
    | some hash => if hash ≠ "" ∧ hamming o.hash hash ≤ 10 then 99 / 100 else 0
    | none => 0

/-- The screen most like the one in front, with where it stands. -/
def closest {α : Type} (shape : α → Shape) (o : Sight) (screens : List α) : Option (α × Nat) :=
  firstBest (fun b s => decide (score js o (shape b.1) < score js o (shape s.1)))
    (screens.zipIdx.filter fun s => decide (0 < score js o (shape s.1)))

/-- The screen in front is one of these. -/
def known? {α : Type} (shape : α → Shape) (o : Sight) (screens : List α) : Option (α × Nat) :=
  (closest js shape o screens).filter fun b => decide (3 / 5 ≤ score js o (shape b.1))

/-- A richer view of the same screen becomes its tokens. -/
def richer (o : Sight) (b : Shape) : Shape :=
  if b.tokens.length < (o.tokens js).length ∧ 4 / 5 < score js o b then
    { b with tokens := o.tokens js }
  else b

variable (sha1 : String → Digest 40)

/-- What the map of the mission is told about a look. -/
def Sight.look (o : Sight) (of : ScreenEntry → Rat) : Look where
  nodes := o.nodes.map fun ns => ns.map Node.toA11yNode
  height := o.height
  score := of
  hash := sha1 (o.identity js)

/-- The id a look gets when it is new to the map. -/
def Sight.newId (o : Sight) : String := jsSlice (sha1 (o.identity js)).text 10

def Sight.added (o : Sight) : Stored where
  entry := newScreen (o.look js sha1 fun _ => 0)
  tokens := o.tokens js
  hash := some o.hash
  firstSeen := o.now
  lastSeen := o.now
  visits := 0
  nights := []

/-- `xs.slice(-n)` -/
def lastOf {α : Type} (n : Nat) (xs : List α) : List α := xs.drop (xs.length - n)

def visit (o : Sight) (s : Stored) : Stored :=
  { s with
    visits := s.visits + 1
    lastSeen := o.now
    nights := if o.night ∈ s.nights then s.nights else lastOf 30 (s.nights ++ [o.night]) }

structure Identified where
  entry : Stored
  newEver : Bool
  newThisRun : Bool
  map : ScreenMap

def identify (m : ScreenMap) (o : Sight) : Identified :=
  let placed : Stored × Bool × List Stored :=
    match known? js Stored.toShape o m.screens with
    | none => (visit o (o.added js sha1), true, m.screens ++ [visit o (o.added js sha1)])
    | some (b, i) =>
      let s := visit o { b with toShape := richer js o b.toShape }
      (s, false, m.screens.set i s)
  let seen := decide (placed.1.entry.id ∈ m.seenThisRun)
  { entry := placed.1
    newEver := placed.2.1
    newThisRun := !seen
    map :=
      { m with
        screens := placed.2.2
        dirty := true
        seenThisRun := if seen then m.seenThisRun else m.seenThisRun ++ [placed.1.entry.id] } }

def byId (m : ScreenMap) (id : String) : Option Stored :=
  m.screens.find? fun s => decide (s.entry.id = id)

def save (m : ScreenMap) : ScreenMap :=
  if m.dirty then { m with file := some m.screens, dirty := false } else m

/-- `new ScreenMap(app)` on the file there is -/
def reload (m : ScreenMap) : ScreenMap :=
  { screens := m.file.getD [], dirty := false, seenThisRun := [], file := m.file }

inductive Op where
  | identify (o : Sight)
  | save
  | reload

def step (m : ScreenMap) : Op → ScreenMap
  | .identify o => (identify js sha1 m o).map
  | .save => save m
  | .reload => reload m

/-! ## One id, one screen -/

def ids (m : ScreenMap) : List String := m.screens.map fun s => s.entry.id

def fileIds (m : ScreenMap) : List String := (m.file.getD []).map fun s => s.entry.id

/-- No two stored screens have the same id. -/
def Unique (m : ScreenMap) : Prop := (ids m).Nodup

/-- A screen that is stored before and after a step has the id it had. -/
def KeepsIds (m m' : ScreenMap) : Prop :=
  ∀ (i : Nat) (s s' : Stored), m.screens[i]? = some s → m'.screens[i]? = some s' →
    s'.entry.id = s.entry.id

/-- What is promised of one step. -/
structure Kept (m : ScreenMap) (op : Op) : Prop where
  unique : Unique (step js sha1 m op)
  keepsIds : KeepsIds m (step js sha1 m op)
  stored : ∀ o, op = .identify o →
    (identify js sha1 m o).entry ∈ (step js sha1 m op).screens

/-- A look that is new to the map gets an id that no stored screen was given. -/
def Fresh (m : ScreenMap) : Op → Prop
  | .identify o => known? js Stored.toShape o m.screens = none → o.newId js sha1 ∉ ids m
  | _ => True

variable {js} {sha1}

/-- In a map of unique ids an id finds its screen. -/
theorem byId_of_unique {m : ScreenMap} (h : Unique m) {s : Stored} (hs : s ∈ m.screens) :
    byId m s.entry.id = some s := by
  unfold byId
  unfold Unique ids at h
  generalize m.screens = screens at h hs
  induction screens with
  | nil => cases hs
  | cons r rest ih =>
      rw [List.map_cons, List.nodup_cons] at h
      rcases List.mem_cons.mp hs with rfl | hrest
      · simp
      · have hne : r.entry.id ≠ s.entry.id := by
          intro heq
          exact h.1 (heq ▸ List.mem_map_of_mem (f := fun s : Stored => s.entry.id) hrest)
        simpa [List.find?_cons, hne] using ih h.2 hrest

theorem known_getElem {o : Sight} {screens : List Stored} {b : Stored} {i : Nat}
    (h : known? js Stored.toShape o screens = some (b, i)) : screens[i]? = some b := by
  have hclosest := (Option.filter_eq_some_iff.mp h).1
  have hmem := (List.mem_filter.mp (mem_of_firstBest hclosest)).1
  simpa using List.mem_zipIdx_iff_getElem?.mp hmem

@[simp] theorem entry_visit (o : Sight) (s : Stored) : (visit o s).entry = s.entry := rfl

/-- Identifying adds the id of a look that is new, and changes none. -/
theorem ids_identify (m : ScreenMap) (o : Sight) :
    ids (identify js sha1 m o).map =
      ids m ++ if known? js Stored.toShape o m.screens = none then [o.newId js sha1] else [] := by
  unfold identify ids
  cases hknown : known? js Stored.toShape o m.screens with
  | none =>
      simp only [if_true, List.map_append, List.map_cons, List.map_nil]
      rfl
  | some p =>
      obtain ⟨b, i⟩ := p
      have hb := known_getElem hknown
      obtain ⟨hi, hget⟩ := List.getElem?_eq_some_iff.mp hb
      simp only [reduceCtorEq, if_false, List.append_nil, List.map_set, entry_visit]
      rw [← hget]
      refine List.ext_getElem (by simp) fun j hj hj' => ?_
      by_cases hij : i = j
      · subst hij
        simp
      · simp [hij]

theorem identify_stored (m : ScreenMap) (o : Sight) :
    (identify js sha1 m o).entry ∈ (identify js sha1 m o).map.screens := by
  unfold identify
  cases hknown : known? js Stored.toShape o m.screens with
  | none => exact List.mem_append_right _ (List.mem_singleton_self _)
  | some p =>
      obtain ⟨b, i⟩ := p
      obtain ⟨hi, -⟩ := List.getElem?_eq_some_iff.mp (known_getElem hknown)
      exact List.mem_set hi _

/-- What the file holds are the first screens of the map. -/
def Saved (m : ScreenMap) : Prop := fileIds m <+: ids m

theorem saved_step {m : ScreenMap} (h : Saved m) (op : Op) : Saved (step js sha1 m op) := by
  cases op with
  | identify o =>
      change fileIds m <+: ids (identify js sha1 m o).map
      rw [ids_identify]
      exact h.trans (List.prefix_append _ _)
  | save =>
      change Saved (save m)
      unfold save
      split
      · exact List.prefix_rfl
      · exact h
  | reload => exact List.prefix_rfl

theorem getElem?_of_isPrefix {α : Type} {xs ys : List α} (h : xs <+: ys) {i : Nat} {x : α}
    (hx : xs[i]? = some x) : ys[i]? = some x := by
  obtain ⟨rest, rfl⟩ := h
  obtain ⟨hi, -⟩ := List.getElem?_eq_some_iff.mp hx
  rw [List.getElem?_append_left hi, hx]

/-- Of two maps the ids of one start with those of the other. -/
theorem keepsIds_of_prefix {m m' : ScreenMap} (h : ids m <+: ids m' ∨ ids m' <+: ids m) :
    KeepsIds m m' := by
  intro i s s' hs hs'
  have hid : (ids m)[i]? = some s.entry.id := by simp [ids, hs]
  have hid' : (ids m')[i]? = some s'.entry.id := by simp [ids, hs']
  rcases h with h | h
  · exact Option.some.inj (hid'.symm.trans (getElem?_of_isPrefix h hid))
  · exact Option.some.inj ((getElem?_of_isPrefix h hid').symm.trans hid)

theorem keepsIds_step {m : ScreenMap} (h : Saved m) (op : Op) :
    KeepsIds m (step js sha1 m op) := by
  apply keepsIds_of_prefix
  cases op with
  | identify o =>
      refine Or.inl ?_
      change ids m <+: ids (identify js sha1 m o).map
      rw [ids_identify]
      exact List.prefix_append _ _
  | save =>
      refine Or.inl ?_
      change ids m <+: ids (save m)
      unfold save
      split <;> exact List.prefix_rfl
  | reload => exact Or.inr h

/-- A step from a map of unique ids leads to one exactly when it is no look that is new to the
map and whose id is taken. -/
theorem unique_step_iff {m : ScreenMap} (hsaved : Saved m) (h : Unique m) (op : Op) :
    Unique (step js sha1 m op) ↔ Fresh js sha1 m op := by
  cases op with
  | identify o =>
      change (ids (identify js sha1 m o).map).Nodup ↔ _
      rw [ids_identify]
      unfold Fresh
      by_cases hnew : known? js Stored.toShape o m.screens = none
      · rw [if_pos hnew]
        constructor
        · intro hnodup _ hmem
          exact (List.nodup_append.mp hnodup).2.2 _ hmem _ (List.mem_singleton_self _) rfl
        · intro hfresh
          refine List.nodup_append.mpr ⟨h, List.nodup_singleton _, ?_⟩
          rintro a ha b hb rfl
          exact hfresh hnew (List.mem_singleton.mp hb ▸ ha)
      · rw [if_neg hnew, List.append_nil]
        exact iff_of_true h fun hnone => absurd hnone hnew
  | save =>
      refine iff_of_true ?_ trivial
      change Unique (save m)
      unfold save
      split <;> exact h
  | reload => exact iff_of_true (h.sublist hsaved.sublist) trivial

/-- Every step of a run keeps one id for one screen exactly when no look that is new to the map
has an id that is taken. -/
theorem screen_ids_iff (js : Js) (sha1 : String → Digest 40) (ops : List Op) :
    (∀ past op, past ++ [op] <+: ops → Kept js sha1 (run (step js sha1) empty past) op) ↔
      Along (step js sha1) (Fresh js sha1) empty ops := by
  have hempty : Saved empty := List.prefix_rfl
  have hsaved : ∀ past, Saved (run (step js sha1) empty past) := fun past =>
    invariant_all (I := Saved) (fun m op hm => saved_step hm op) hempty past
  have hiff : (∀ past, past <+: ops → Unique (run (step js sha1) empty past)) ↔
      Along (step js sha1) (Fresh js sha1) empty ops :=
    steps_iff (I := Saved) (P := Unique) (fun m op hm => saved_step hm op)
      (fun m op hm hu => unique_step_iff hm hu op) hempty List.nodup_nil ops
  rw [← hiff]
  constructor
  · intro h past hpast
    cases past using List.reverseRecOn with
    | nil => exact List.nodup_nil
    | append_singleton older op =>
        rw [run_concat]
        exact (h older op hpast).unique
  · intro h past op hpast
    refine ⟨?_, keepsIds_step (hsaved past) op, ?_⟩
    · rw [← run_concat (step js sha1)]
      exact h (past ++ [op]) hpast
    · rintro o rfl
      exact identify_stored _ o

/-! ## The map a mission is modelled with -/

section Mission

variable (js) (sha1)

/-- How like the one in front the stored screen with this entry is. -/
def scoreOf (m : ScreenMap) (o : Sight) (e : ScreenEntry) : Rat :=
  match m.screens.find? fun s => decide (s.entry.id = e.id) with
  | some s => score js o s.toShape
  | none => 0

theorem scoreOf_entry {m : ScreenMap} (h : Unique m) (o : Sight) {s : Stored}
    (hs : s ∈ m.screens) : scoreOf js m o s.entry = score js o s.toShape := by
  have hfound := byId_of_unique h hs
  unfold byId at hfound
  rw [scoreOf, hfound]

/-- As long as ids are unique, a mission that knows of a stored screen only its entry is told
by its own map what this one tells. -/
theorem identify_entries {m : ScreenMap} (h : Unique m) (o : Sight) :
    Explore.identify (m.screens.map Stored.entry) (o.look js sha1 (scoreOf js m o)) =
      ((identify js sha1 m o).entry.entry,
        (identify js sha1 m o).map.screens.map Stored.entry) := by
  have hscore : ∀ p ∈ m.screens.zipIdx,
      (o.look js sha1 (scoreOf js m o)).score p.1.entry = score js o p.1.toShape := fun p hp =>
    scoreOf_entry js h o (List.fst_mem_of_mem_zipIdx hp)
  have hfilter : ((m.screens.map Stored.entry).filter fun s =>
      decide (0 < (o.look js sha1 (scoreOf js m o)).score s)) =
        (m.screens.zipIdx.filter fun s => decide (0 < score js o s.1.toShape)).map
          fun p => p.1.entry := by
    have hzip : m.screens.map Stored.entry = m.screens.zipIdx.map fun p => p.1.entry := by
      conv_lhs => rw [← List.zipIdx_map_fst 0 m.screens]
      rw [List.map_map]
      rfl
    rw [hzip, List.filter_map]
    congr 1
    refine List.filter_congr fun p hp => ?_
    simp only [Function.comp_apply, hscore p hp]
  have hbest : firstBest (fun best s => decide ((o.look js sha1 (scoreOf js m o)).score best <
      (o.look js sha1 (scoreOf js m o)).score s)) ((m.screens.map Stored.entry).filter fun s =>
        decide (0 < (o.look js sha1 (scoreOf js m o)).score s)) =
      (closest js Stored.toShape o m.screens).map fun p => p.1.entry := by
    rw [hfilter]
    refine firstBest_map fun p hp q hq => ?_
    rw [hscore p (List.mem_filter.mp hp).1, hscore q (List.mem_filter.mp hq).1]
  unfold Explore.identify identify known?
  simp only [hbest]
  cases hclosest : closest js Stored.toShape o m.screens with
  | none =>
      simp only [Option.map_none, Option.filter_none, List.map_append, List.map_cons, List.map_nil]
      rfl
  | some p =>
      obtain ⟨b, i⟩ := p
      have hmem := (List.mem_filter.mp (mem_of_firstBest hclosest)).1
      have hget : m.screens[i]? = some b := by
        simpa using List.mem_zipIdx_iff_getElem?.mp hmem
      obtain ⟨hi, hgeti⟩ := List.getElem?_eq_some_iff.mp hget
      simp only [Option.map_some, Option.filter_some, hscore _ hmem]
      by_cases hlow : score js o b.toShape < 3 / 5
      · rw [if_pos hlow, if_neg (by rw [decide_eq_true_eq]; exact Rat.not_le.mpr hlow)]
        simp only [List.map_append, List.map_cons, List.map_nil]
        rfl
      · rw [if_neg hlow, if_pos (decide_eq_true (Rat.not_lt.mp hlow))]
        simp only [List.map_set, entry_visit]
        congr 1
        refine List.ext_getElem (by simp) fun j hj hj' => ?_
        by_cases hij : i = j
        · subst hij
          simp [hgeti]
        · simp [hij]

end Mission

/-! ## What the ids of a night are -/

section Night

variable (js) (sha1)

/-- What a look makes of the shapes the map has. -/
def nextShapes (o : Sight) (shapes : List Shape) : List Shape :=
  match known? js id o shapes with
  | none => shapes ++ [⟨o.tokens js, some o.hash⟩]
  | some (b, i) => shapes.set i (richer js o b)

/-- The identity texts of the looks that are new to the map, in order. -/
def births : List Shape → List Sight → List String
  | _, [] => []
  | shapes, o :: rest =>
    (if (known? js id o shapes).isNone = true then [o.identity js] else []) ++
      births (nextShapes js o shapes) rest

theorem known?_map (o : Sight) (screens : List Stored) :
    known? js id o (screens.map Stored.toShape) =
      (known? js Stored.toShape o screens).map fun p => (p.1.toShape, p.2) := by
  have hclosest : closest js id o (screens.map Stored.toShape) =
      (closest js Stored.toShape o screens).map fun p => (p.1.toShape, p.2) := by
    unfold closest
    rw [List.zipIdx_map, List.filter_map]
    exact firstBest_map fun _ _ _ _ => rfl
  unfold known?
  rw [hclosest, Option.filter_map]
  rfl

theorem shapes_identify (m : ScreenMap) (o : Sight) :
    (identify js sha1 m o).map.screens.map Stored.toShape =
      nextShapes js o (m.screens.map Stored.toShape) := by
  unfold identify nextShapes
  rw [known?_map]
  cases known? js Stored.toShape o m.screens with
  | none =>
      simp only [Option.map_none, List.map_append, List.map_cons, List.map_nil]
      rfl
  | some p =>
      simp only [Option.map_some, List.map_set]
      rfl

/-- Over one session the map hands out the digests of what its new looks are identified by. -/
theorem ids_visits (m : ScreenMap) (os : List Sight) :
    ids (run (step js sha1) m (os.map Op.identify)) =
      ids m ++ (births js (m.screens.map Stored.toShape) os).map fun t =>
        jsSlice (sha1 t).text 10 := by
  induction os generalizing m with
  | nil => exact (List.append_nil _).symm
  | cons o rest ih =>
      have hnew : (known? js id o (m.screens.map Stored.toShape)).isNone = true ↔
          known? js Stored.toShape o m.screens = none := by
        rw [known?_map, Option.isNone_iff_eq_none, Option.map_eq_none_iff]
      rw [List.map_cons, run_cons, ih]
      change ids (identify js sha1 m o).map ++ _ = _
      rw [ids_identify]
      change _ ++ (births js ((identify js sha1 m o).map.screens.map Stored.toShape) rest).map _ = _
      rw [shapes_identify, births, List.map_append, ← List.append_assoc]
      congr 2
      by_cases hnone : known? js Stored.toShape o m.screens = none
      · rw [if_pos hnone, if_pos (hnew.mpr hnone)]
        rfl
      · rw [if_neg hnone, if_neg fun h => hnone (hnew.mp h)]
        rfl

end Night

/-- A screen of controls that have these ids. -/
def controls (names : List String) : Sight where
  nodes := some (names.map fun n =>
    { text := "", label := "", bounds := none, id := n, cls := "", tappable := false })
  hash := ""
  height := 2400
  night := "n1"
  now := "2026-01-01T00:00:00.000Z"

/-- A list that loads four rows one by one and is emptied again. -/
def emptiedAgain : List Sight :=
  [controls ["a", "b", "c", "d", "e"], controls ["a", "b", "c", "d", "e", "f"],
    controls ["a", "b", "c", "d", "e", "f", "g"], controls ["a", "b", "c", "d", "e", "f", "g", "h"],
    controls ["a", "b", "c", "d", "e", "f", "g", "h", "i"], controls ["a", "b", "c", "d", "e"]]

/-- Each richer view takes the place of the one before, so the first one is new again, and
gets the id it was given before. No digest changes that. -/
theorem emptied_twice :
    ¬∃ sha1 : String → Digest 40, ∀ past op, past ++ [op] <+: emptiedAgain.map Op.identify →
      Kept Js.plain sha1 (run (step Js.plain sha1) empty past) op := by
  rintro ⟨sha1, h⟩
  have hunique := (h ((emptiedAgain.dropLast).map Op.identify)
    (.identify (controls ["a", "b", "c", "d", "e"])) List.prefix_rfl).unique
  rw [← run_concat (step Js.plain sha1)] at hunique
  have hbirths : births Js.plain [] emptiedAgain =
      ["id:a|id:b|id:c|id:d|id:e", "id:a|id:b|id:c|id:d|id:e"] := by decide +kernel
  have hids : ids (run (step Js.plain sha1) empty (emptiedAgain.map Op.identify)) =
      [] ++ (births Js.plain [] emptiedAgain).map fun t => jsSlice (sha1 t).text 10 :=
    ids_visits Js.plain sha1 empty emptiedAgain
  rw [hbirths] at hids
  have hnodup : (ids (run (step Js.plain sha1) empty (emptiedAgain.map Op.identify))).Nodup := hunique
  rw [hids] at hnodup
  simp at hnodup

end Screens

end FleetRunner.Explore
