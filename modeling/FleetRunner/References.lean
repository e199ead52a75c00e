import FleetRunner.Library.Fallible
import FleetRunner.Mutations

/-!
# What substitution leaves in a spec (`substituteDepRefs`)

A reference that is a whole string becomes the value it names, and one inside a
longer string becomes that value's text. `ownValue` says what a string becomes
when each of the references in it is replaced by its own value, and
`Substituted` says that a spec was filled so, everywhere.

## Implementation notes

The three searches read one text differently. The pattern for a whole string is
tried first, and its id may run over a closing brace: a string that begins with
one reference and ends with another is read as a single one. A key is searched
when the spec is checked and never filled.
-/

namespace FleetRunner

open Library

/-! ## Strings and keys of a value -/

namespace Json

mutual

/-- Every string in value position, in order. -/
def strings : Json → List String
  | .str s => [s]
  | .arr xs => elemStrings xs
  | .obj fs => fieldStrings fs
  | _ => []

def elemStrings : List Json → List String
  | [] => []
  | x :: rest => strings x ++ elemStrings rest

def fieldStrings : List (String × Json) → List String
  | [] => []
  | (_, v) :: rest => strings v ++ fieldStrings rest

end

mutual

/-- Every key of every object, in order. -/
def keys : Json → List String
  | .arr xs => elemKeys xs
  | .obj fs => fieldKeys fs
  | _ => []

def elemKeys : List Json → List String
  | [] => []
  | x :: rest => keys x ++ elemKeys rest

def fieldKeys : List (String × Json) → List String
  | [] => []
  | (k, v) :: rest => k :: keys v ++ fieldKeys rest

end

mutual

/-- Put a value in the place of each string. -/
def mapStrings (f : String → Json) : Json → Json
  | .str s => f s
  | .arr xs => .arr (mapElems f xs)
  | .obj fs => .obj (mapFields f fs)
  | v => v

def mapElems (f : String → Json) : List Json → List Json
  | [] => []
  | x :: rest => mapStrings f x :: mapElems f rest

def mapFields (f : String → Json) : List (String × Json) → List (String × Json)
  | [] => []
  | (k, v) :: rest => (k, mapStrings f v) :: mapFields f rest

end

mutual

/-- A value filled in two ways the same was filled the same at every string. -/
theorem eq_of_mapStrings_eq {f g : String → Json} :
    ∀ {v : Json}, mapStrings f v = mapStrings g v → ∀ s ∈ strings v, f s = g s
  | .null, _, s, hs => by simp [strings] at hs
  | .bool _, _, s, hs => by simp [strings] at hs
  | .num _, _, s, hs => by simp [strings] at hs
  | .str t, h, s, hs => by
      obtain rfl : s = t := by simpa [strings] using hs
      simpa only [mapStrings] using h
  | .arr xs, h, s, hs => by
      simp only [mapStrings, arr.injEq] at h
      exact eq_of_mapElems_eq h s (by simpa only [strings] using hs)
  | .obj fs, h, s, hs => by
      simp only [mapStrings, obj.injEq] at h
      exact eq_of_mapFields_eq h s (by simpa only [strings] using hs)

theorem eq_of_mapElems_eq {f g : String → Json} :
    ∀ {xs : List Json}, mapElems f xs = mapElems g xs → ∀ s ∈ elemStrings xs, f s = g s
  | [], _, s, hs => by simp [elemStrings] at hs
  | x :: rest, h, s, hs => by
      simp only [mapElems, List.cons.injEq] at h
      simp only [elemStrings, List.mem_append] at hs
      rcases hs with hs | hs
      · exact eq_of_mapStrings_eq h.1 s hs
      · exact eq_of_mapElems_eq h.2 s hs

theorem eq_of_mapFields_eq {f g : String → Json} :
    ∀ {fs : List (String × Json)}, mapFields f fs = mapFields g fs →
      ∀ s ∈ fieldStrings fs, f s = g s
  | [], _, s, hs => by simp [fieldStrings] at hs
  | (k, v) :: rest, h, s, hs => by
      simp only [mapFields, List.cons.injEq, Prod.mk.injEq, true_and] at h
      simp only [fieldStrings, List.mem_append] at hs
      rcases hs with hs | hs
      · exact eq_of_mapStrings_eq h.1 s hs
      · exact eq_of_mapFields_eq h.2 s hs

end

mutual

theorem strings_mapStrings (f : String → Json) :
    ∀ v : Json, strings (mapStrings f v) = (strings v).flatMap fun s => strings (f s)
  | .null => by simp [mapStrings, strings]
  | .bool _ => by simp [mapStrings, strings]
  | .num _ => by simp [mapStrings, strings]
  | .str s => by simp [mapStrings, strings]
  | .arr xs => by simp only [mapStrings, strings, elemStrings_mapElems f xs]
  | .obj fs => by simp only [mapStrings, strings, fieldStrings_mapFields f fs]

theorem elemStrings_mapElems (f : String → Json) :
    ∀ xs : List Json, elemStrings (mapElems f xs) = (elemStrings xs).flatMap fun s => strings (f s)
  | [] => rfl
  | x :: rest => by
      simp only [mapElems, elemStrings, strings_mapStrings f x, elemStrings_mapElems f rest,
        List.flatMap_append]

theorem fieldStrings_mapFields (f : String → Json) :
    ∀ fs : List (String × Json),
      fieldStrings (mapFields f fs) = (fieldStrings fs).flatMap fun s => strings (f s)
  | [] => rfl
  | (k, v) :: rest => by
      simp only [mapFields, fieldStrings, strings_mapStrings f v, fieldStrings_mapFields f rest,
        List.flatMap_append]

end

mutual

/-- The keys stay, and the keys of what was put in are added. -/
theorem mem_keys_mapStrings (f : String → Json) (t : String) :
    ∀ v : Json, t ∈ keys (mapStrings f v) ↔ t ∈ keys v ∨ ∃ s ∈ strings v, t ∈ keys (f s)
  | .null => by simp [mapStrings, strings, keys]
  | .bool _ => by simp [mapStrings, strings, keys]
  | .num _ => by simp [mapStrings, strings, keys]
  | .str s => by simp [mapStrings, strings, keys]
  | .arr xs => by simp only [mapStrings, strings, keys, mem_elemKeys_mapElems f t xs]
  | .obj fs => by simp only [mapStrings, strings, keys, mem_fieldKeys_mapFields f t fs]

theorem mem_elemKeys_mapElems (f : String → Json) (t : String) :
    ∀ xs : List Json, t ∈ elemKeys (mapElems f xs) ↔
      t ∈ elemKeys xs ∨ ∃ s ∈ elemStrings xs, t ∈ keys (f s)
  | [] => by simp [mapElems, elemKeys, elemStrings]
  | x :: rest => by
      simp only [mapElems, elemKeys, elemStrings, List.mem_append, mem_keys_mapStrings f t x,
        mem_elemKeys_mapElems f t rest, or_and_right, exists_or]
      grind

theorem mem_fieldKeys_mapFields (f : String → Json) (t : String) :
    ∀ fs : List (String × Json), t ∈ fieldKeys (mapFields f fs) ↔
      t ∈ fieldKeys fs ∨ ∃ s ∈ fieldStrings fs, t ∈ keys (f s)
  | [] => by simp [mapFields, fieldKeys, fieldStrings]
  | (k, v) :: rest => by
      simp only [mapFields, fieldKeys, fieldStrings, List.mem_append, List.mem_cons,
        List.cons_append, mem_keys_mapStrings f t v, mem_fieldKeys_mapFields f t rest,
        or_and_right, exists_or]
      grind

end

/-- Every string of a value, keys among them. -/
def texts (v : Json) : List String := strings v ++ keys v

end Json

/-! ## The three searches -/

theorem refSuffix?_length {cs : List Char} {field : String} {after : List Char}
    (h : refSuffix? cs = some (field, after)) : after.length ≤ cs.length := by
  simp only [refSuffix?] at h
  split at h
  · simp only [Option.some.injEq, Prod.mk.injEq] at h
    obtain ⟨-, rfl⟩ := h
    simp
  · split at h
    · split at h
      · cases h
      · cases h
      · rename_i hdrop _
        split at h
        · simp only [Option.some.injEq, Prod.mk.injEq] at h
          obtain ⟨-, rfl⟩ := h
          have hlen := congrArg List.length hdrop
          have hle := (List.dropWhile_suffix (l := cs.drop ".metrics.".toList.length)
            fun c => c ≠ closeBrace && c ≠ '.').length_le
          simp only [List.length_cons, List.length_drop] at hlen hle
          omega
        · cases h
    · cases h

theorem refId?_length {whole : Bool} {id cs : List Char} {found field : String} {after : List Char}
    (h : refId? whole id cs = some (found, field, after)) : after.length < cs.length := by
  induction cs generalizing id with
  | nil => simp [refId?] at h
  | cons c rest ih =>
      rw [refId?] at h
      split at h
      · cases h
      · split at h
        · rename_i f a hs
          have hle := refSuffix?_length hs
          split at h
          · have := ih h
            simp only [List.length_cons]
            omega
          · simp only [Option.some.injEq, Prod.mk.injEq] at h
            obtain ⟨-, -, rfl⟩ := h
            simp only [List.length_cons]
            omega
        · have := ih h
          simp only [List.length_cons]
          omega

/-- A match that ends with the text is the match of the whole text. -/
theorem refId?_whole {id cs : List Char} {found field : String}
    (h : refId? false id cs = some (found, field, [])) :
    refId? true id cs = some (found, field, []) := by
  induction cs generalizing id with
  | nil => simp [refId?] at h
  | cons c rest ih =>
      rw [refId?] at h ⊢
      split at h
      · cases h
      · rename_i hline
        rw [if_neg hline]
        split at h
        · rename_i f a hs
          simp only [Bool.false_and, Bool.false_eq_true, if_false, Option.some.injEq,
            Prod.mk.injEq] at h
          obtain ⟨rfl, rfl, rfl⟩ := h
          simp
        · exact ih h

theorem refAt?_length {whole : Bool} {cs : List Char} {ref : DepRef} {after : List Char}
    (h : refAt? whole cs = some (ref, after)) : after.length < cs.length := by
  simp only [refAt?] at h
  split at h
  · obtain ⟨⟨found, field, rest⟩, hid, hout⟩ := Option.map_eq_some_iff.mp h
    simp only [Prod.mk.injEq] at hout
    obtain ⟨-, rfl⟩ := hout
    have hlt := refId?_length hid
    rw [List.length_drop] at hlt
    omega
  · cases h

theorem refAt?_whole {cs : List Char} {ref : DepRef} (h : refAt? false cs = some (ref, [])) :
    refAt? true cs = some (ref, []) := by
  simp only [refAt?] at h ⊢
  split at h
  · rename_i hstart
    rw [if_pos hstart]
    obtain ⟨⟨found, field, rest⟩, hid, hout⟩ := Option.map_eq_some_iff.mp h
    simp only [Prod.mk.injEq] at hout
    obtain ⟨href, rfl⟩ := hout
    rw [refId?_whole hid, Option.map_some, ← href]
  · cases h

/-- A text that is one reference is found whole. -/
theorem refAt?_of_segments {cs : List Char} {ref : DepRef}
    (h : segments cs.length cs = [.inr ref]) : refAt? true cs = some (ref, []) := by
  cases cs with
  | nil => simp [segments] at h
  | cons c rest =>
      rw [List.length_cons, segments] at h
      split at h
      · rename_i found after hat
        simp only [List.cons.injEq, Sum.inr.injEq] at h
        obtain ⟨rfl, hrest⟩ := h
        have hlt := refAt?_length hat
        have hnil : after = [] := by
          cases after with
          | nil => rfl
          | cons d more =>
              obtain ⟨n, hn⟩ : ∃ n, rest.length = n + 1 :=
                Nat.exists_eq_succ_of_ne_zero (by simp only [List.length_cons] at hlt; omega)
              rw [hn, segments] at hrest
              split at hrest <;> cases hrest
        subst hnil
        exact refAt?_whole hat
      · simp at h

/-! ## What a spec should become -/

/-- No reference is left in any string or key. -/
def Json.NoRefs (v : Json) : Prop := ∀ t ∈ v.texts, depRefs t.toList = []

section Substitution

variable (js : Js) (resolve : String → String → Except String Json)

/-- A character stays; a reference becomes the text of its own value. -/
def ownSegment : Char ⊕ DepRef → Option String
  | .inl c => some (String.singleton c)
  | .inr ref => (resolve ref.job_id ref.field).toOption.bind fun v => (v.text js).toOption

/-- The text with each of its references replaced, when every one has a value. -/
def ownText (s : String) : Option String :=
  ((segments s.toList.length s.toList).mapM (ownSegment js resolve)).map String.join

/-- What a string of a spec stands for: a single reference is its value. -/
def ownValue (s : String) : Option Json :=
  match segments s.toList.length s.toList with
  | [.inr ref] => (resolve ref.job_id ref.field).toOption
  | _ => (ownText js resolve s).map .str

/-- Nothing is reported, every string became its own value, and no reference is
left anywhere. -/
structure Substituted (spec : Json) (out : Json × List String) : Prop where
  unresolved : out.2 = []
  own : ∃ f : String → Json, out.1 = spec.mapStrings f ∧
    ∀ s ∈ spec.strings, ownValue js resolve s = some (f s)
  left : out.1.NoRefs

/-- A string that can be filled. Read whole it is its one reference, or the
longer reference it is taken for has just the value the string should become. -/
def Fillable (s : String) : Prop :=
  ∃ v, ownValue js resolve s = some v ∧ v.NoRefs ∧
    ∀ ref after, refAt? true s.toList = some (ref, after) →
      segments s.toList.length s.toList = [.inr ref] ∨ resolve ref.job_id ref.field = .ok v

mutual

/-- The walk fills each string by itself. -/
theorem substituteDepRefs_eq : ∀ v : Json, substituteDepRefs js resolve v =
    (v.mapStrings fun s => (fillRefs js resolve s).1,
      v.strings.flatMap fun s => (fillRefs js resolve s).2)
  | .null => rfl
  | .bool _ => rfl
  | .num _ => rfl
  | .str s => by simp [substituteDepRefs, Json.mapStrings, Json.strings]
  | .arr xs => by
      simp only [substituteDepRefs, Json.mapStrings, Json.strings, substituteElems_eq xs]
  | .obj fs => by
      simp only [substituteDepRefs, Json.mapStrings, Json.strings, substituteFields_eq fs]

theorem substituteElems_eq : ∀ xs : List Json, substituteElems js resolve xs =
    (Json.mapElems (fun s => (fillRefs js resolve s).1) xs,
      (Json.elemStrings xs).flatMap fun s => (fillRefs js resolve s).2)
  | [] => rfl
  | x :: rest => by
      simp only [substituteElems, Json.mapElems, Json.elemStrings, substituteDepRefs_eq x,
        substituteElems_eq rest, List.flatMap_append]

theorem substituteFields_eq : ∀ fs : List (String × Json), substituteFields js resolve fs =
    (Json.mapFields (fun s => (fillRefs js resolve s).1) fs,
      (Json.fieldStrings fs).flatMap fun s => (fillRefs js resolve s).2)
  | [] => rfl
  | (k, v) :: rest => by
      simp only [substituteFields, Json.mapFields, Json.fieldStrings, substituteDepRefs_eq v,
        substituteFields_eq rest, List.flatMap_append]

end

variable {js} {resolve}

theorem fillSegment_eq {piece : Char ⊕ DepRef} {t : String}
    (h : ownSegment js resolve piece = some t) : fillSegment js resolve piece = (t, []) := by
  cases piece with
  | inl c => simpa [ownSegment, fillSegment] using h
  | inr ref =>
      obtain ⟨v, hv, ht⟩ := Option.bind_eq_some_iff.mp h
      have hres : resolve ref.job_id ref.field = .ok v := toOption_eq_some.mp hv
      have htext : v.text js = .ok t := toOption_eq_some.mp ht
      simp [fillSegment, hres, interpolated, htext]

theorem fillSegments_eq {pieces : List (Char ⊕ DepRef)} {ts : List String}
    (h : pieces.mapM (ownSegment js resolve) = some ts) :
    pieces.map (fillSegment js resolve) = ts.map fun t => (t, []) := by
  induction pieces generalizing ts with
  | nil =>
      obtain rfl : ts = [] := by simpa using h.symm
      rfl
  | cons piece rest ih =>
      rw [List.mapM_cons] at h
      obtain ⟨t, ht, h⟩ := Option.bind_eq_some_iff.mp h
      obtain ⟨more, hmore, h⟩ := Option.bind_eq_some_iff.mp h
      obtain rfl : ts = t :: more := (Option.some.inj h).symm
      rw [List.map_cons, List.map_cons, fillSegment_eq ht, ih hmore]

theorem ownValue_of_single {s : String} {ref : DepRef}
    (h : segments s.toList.length s.toList = [.inr ref]) :
    ownValue js resolve s = (resolve ref.job_id ref.field).toOption := by
  rw [ownValue, h]

theorem ownValue_of_longer {s : String}
    (h : ∀ ref, segments s.toList.length s.toList ≠ [.inr ref]) :
    ownValue js resolve s = (ownText js resolve s).map .str := by
  unfold ownValue
  split
  · rename_i ref hone
    exact absurd hone (h ref)
  · rfl

/-- What the search for a whole string finds decides how a string is filled. -/
theorem fillRefs_of_whole {s : String} {ref : DepRef} {after : List Char}
    (h : refAt? true s.toList = some (ref, after)) {v : Json} :
    fillRefs js resolve s = (v, []) ↔ resolve ref.job_id ref.field = .ok v := by
  simp only [fillRefs, h]
  cases hres : resolve ref.job_id ref.field with
  | ok w => simp
  | error why => simp

/-- A string is filled by its own value exactly when the whole string is not
taken for a reference that says something else. -/
theorem fillRefs_eq_own_iff {s : String} {v : Json} (hown : ownValue js resolve s = some v) :
    fillRefs js resolve s = (v, []) ↔
      ∀ ref after, refAt? true s.toList = some (ref, after) →
        segments s.toList.length s.toList = [.inr ref] ∨ resolve ref.job_id ref.field = .ok v := by
  cases hwhole : refAt? true s.toList with
  | some found =>
      obtain ⟨ref, after⟩ := found
      rw [fillRefs_of_whole hwhole]
      constructor
      · rintro hres ref' after' hfound
        cases hfound
        exact Or.inr hres
      · intro h
        rcases h ref after rfl with hone | hres
        · rw [ownValue_of_single hone] at hown
          exact toOption_eq_some.mp hown
        · exact hres
  | none =>
      have hlonger : ∀ ref, segments s.toList.length s.toList ≠ [.inr ref] := by
        intro ref hone
        rw [refAt?_of_segments hone] at hwhole
        cases hwhole
      rw [ownValue_of_longer hlonger, ownText, Option.map_map] at hown
      obtain ⟨ts, hts, rfl⟩ := Option.map_eq_some_iff.mp hown
      have hparts := fillSegments_eq hts
      constructor
      · intro _ ref after hfound
        cases hfound
      · intro _
        simp [fillRefs, hwhole, hparts, Function.comp_def]

theorem noRefs_mapStrings {f : String → Json} {v : Json} :
    (v.mapStrings f).NoRefs ↔
      (∀ s ∈ v.strings, (f s).NoRefs) ∧ ∀ k ∈ v.keys, depRefs k.toList = [] := by
  simp only [Json.NoRefs, Json.texts, List.mem_append, Json.strings_mapStrings, List.mem_flatMap,
    Json.mem_keys_mapStrings]
  constructor
  · intro h
    refine ⟨fun s hs t ht => h t ?_, fun k hk => h k (Or.inr (Or.inl hk))⟩
    rcases ht with ht | ht
    · exact Or.inl ⟨s, hs, ht⟩
    · exact Or.inr (Or.inr ⟨s, hs, ht⟩)
  · rintro ⟨hvalues, hkeys⟩ t (⟨s, hs, ht⟩ | hk | ⟨s, hs, ht⟩)
    · exact hvalues s hs t (Or.inl ht)
    · exact hkeys t hk
    · exact hvalues s hs t (Or.inr ht)

/-- A spec is filled, everywhere and with nothing to report, exactly when each of its strings
can be filled and none of its keys holds a reference. -/
theorem substituted_iff (js : Js) (resolve : String → String → Except String Json) (spec : Json) :
    Substituted js resolve spec (substituteDepRefs js resolve spec) ↔
      (∀ s ∈ spec.strings, Fillable js resolve s) ∧ ∀ k ∈ spec.keys, depRefs k.toList = [] := by
  rw [substituteDepRefs_eq]
  constructor
  · rintro ⟨hunresolved, ⟨f, hf, hown⟩, hleft⟩
    have hfill := Json.eq_of_mapStrings_eq hf
    obtain ⟨hvalues, hkeys⟩ := noRefs_mapStrings.mp hleft
    refine ⟨fun s hs => ?_, hkeys⟩
    have hsingle : fillRefs js resolve s = (f s, []) :=
      Prod.ext (hfill s hs) (List.flatMap_eq_nil_iff.mp hunresolved s hs)
    refine ⟨f s, hown s hs, ?_, (fillRefs_eq_own_iff (hown s hs)).mp hsingle⟩
    rw [← hfill s hs]
    exact hvalues s hs
  · rintro ⟨hfillable, hkeys⟩
    have hfill : ∀ s ∈ spec.strings, ∃ v, fillRefs js resolve s = (v, []) ∧
        ownValue js resolve s = some v ∧ v.NoRefs := by
      intro s hs
      obtain ⟨v, hown, hv, hwhole⟩ := hfillable s hs
      exact ⟨v, (fillRefs_eq_own_iff hown).mpr hwhole, hown, hv⟩
    refine ⟨List.flatMap_eq_nil_iff.mpr fun s hs => ?_, ⟨_, rfl, fun s hs => ?_⟩,
      noRefs_mapStrings.mpr ⟨fun s hs => ?_, hkeys⟩⟩
    · obtain ⟨v, hv, -, -⟩ := hfill s hs
      rw [hv]
    · obtain ⟨v, hv, hown, -⟩ := hfill s hs
      rw [hv, hown]
    · obtain ⟨v, hv, -, hno⟩ := hfill s hs
      rw [hv]
      exact hno

end Substitution

/-! ## Two references in one string -/

/-- What is checked before a spec is filled: each reference found in its text
names a dependency and has a value, which brings no reference of its own. -/
structure Accepted (js : Js) (db : Db) (spec : Json) (deps : List String) : Prop where
  named : validateDepRefs (spec.chars js) deps = none
  resolves : ∀ ref ∈ depRefs (spec.chars js), ∃ v, resolveDepRef db ref.job_id ref.field = .ok v ∧
    ∀ t ∈ v.texts, strIncludes t "$\x7bjobs." = false

namespace Sample

/-- The final row of a job that uploaded one artifact. -/
def finalRow (jobId : String) (digit : Char) : Result where
  job_id := jobId
  device_id := "d1"
  iter := 0
  payload := .obj [("final", .bool true),
    ("artifacts", .arr [.str (String.ofList (List.replicate 64 digit))])]

def bothDone : Db where
  __ := Db.empty
  results := (Table.empty.replace (finalRow "a" '1')).replace (finalRow "b" '2')

/-- The artifact of `a`, a dash, the artifact of `b`. -/
def pair : Json := .obj [("pair", .str "$\x7bjobs.a.artifact\x7d-$\x7bjobs.b.artifact\x7d")]

end Sample

/-- The two references are taken for one, to a job that does not exist. -/
theorem pair_unresolved :
    Accepted .plain Sample.bothDone Sample.pair ["a", "b"] ∧
    ¬Substituted .plain (resolveDepRef Sample.bothDone) Sample.pair
      (substituteDepRefs .plain (resolveDepRef Sample.bothDone) Sample.pair) := by
  have hreport : (substituteDepRefs .plain (resolveDepRef Sample.bothDone) Sample.pair).2.length =
      1 := by decide
  have hrefs : (depRefs (Sample.pair.chars .plain)).map (fun ref => (ref.job_id, ref.field)) =
      [("a", "artifact"), ("b", "artifact")] := by decide
  have hresolved : ∀ p ∈ [("a", "artifact"), ("b", "artifact")],
      okAnd (resolveDepRef Sample.bothDone p.1 p.2)
        (fun v => v.texts.all fun t => !strIncludes t "$\x7bjobs.") = true := by decide
  refine ⟨⟨by decide, fun ref href => ?_⟩, fun h => ?_⟩
  · have hmem := List.mem_map_of_mem (f := fun ref : DepRef => (ref.job_id, ref.field)) href
    rw [hrefs] at hmem
    obtain ⟨v, hv, hplain⟩ := exists_of_okAnd (hresolved _ hmem)
    exact ⟨v, hv, fun t ht => by simpa using List.all_eq_true.mp hplain t ht⟩
  · rw [h.unresolved] at hreport
    cases hreport

end FleetRunner
