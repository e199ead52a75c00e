import Mathlib.Data.List.Nodup

/-!
# Tables with a primary key

A table is a list of rows in insertion order whose keys are distinct. The
statements below are the ones a relational store offers: read by key, update
the rows a condition selects, insert or ignore, insert or replace, delete.
Every operation is described by what it does to a read by key, so proofs about
a store built from tables never look at the row list.
-/

namespace FleetRunner.Library

/-- Rows in insertion order, no two with the same key. -/
structure Table {ρ κ : Type*} (key : ρ → κ) where
  rows : List ρ
  nodup : (rows.map key).Nodup

namespace Table

variable {ρ κ : Type*} {key : ρ → κ}

/-- The table of a freshly created schema. -/
def empty : Table key := ⟨[], by simp⟩

/-- Rows are unchanged in position and key by an update. -/
def updateWhere (t : Table key) (p : ρ → Bool) (f : ρ → ρ)
    (hf : ∀ r, key (f r) = key r := by intro; rfl) : Table key where
  rows := t.rows.map fun r => if p r then f r else r
  nodup := by
    have hkeys : (t.rows.map fun r => if p r then f r else r).map key = t.rows.map key := by
      rw [List.map_map]
      apply List.map_congr_left
      intro r _
      by_cases hp : p r <;> simp [hp, hf]
    rw [hkeys]
    exact t.nodup

def deleteWhere (t : Table key) (p : ρ → Bool) : Table key where
  rows := t.rows.filter fun r => !p r
  nodup := t.nodup.sublist (List.filter_sublist.map key)

/-- A column the update leaves alone reads the same row by row. -/
theorem map_rows_updateWhere {β : Type*} (t : Table key) (p : ρ → Bool) (f : ρ → ρ)
    (hf : ∀ r, key (f r) = key r) (g : ρ → β) (hg : ∀ r, g (f r) = g r) :
    (t.updateWhere p f hf).rows.map g = t.rows.map g := by
  simp only [updateWhere, List.map_map]
  apply List.map_congr_left
  intro r _
  by_cases hp : p r <;> simp [hp, hg]

/-- A read that neither sees the updated rows before nor after is not moved by an update. -/
theorem filter_rows_updateWhere (t : Table key) (p : ρ → Bool) (f : ρ → ρ)
    (hf : ∀ r, key (f r) = key r) {q : ρ → Bool}
    (hq : ∀ r, p r = true → q r = false ∧ q (f r) = false) :
    (t.updateWhere p f hf).rows.filter q = t.rows.filter q := by
  simp only [updateWhere]
  induction t.rows with
  | nil => rfl
  | cons r rest ih =>
      by_cases hp : p r = true
      · simp [hp, hq r hp, ih]
      · by_cases hr : q r = true <;> simp [hp, hr, ih]

variable [DecidableEq κ]

/-- The row a key names, if there is one. -/
def find? (t : Table key) (k : κ) : Option ρ :=
  t.rows.find? fun r => decide (key r = k)

def contains (t : Table key) (k : κ) : Bool := (t.find? k).isSome

/-- Update the one row a key names. -/
def update (t : Table key) (k : κ) (f : ρ → ρ)
    (hf : ∀ r, key (f r) = key r := by intro; rfl) : Table key :=
  t.updateWhere (fun r => decide (key r = k)) f hf

theorem find?_eq_some_iff {t : Table key} {k : κ} {r : ρ} :
    t.find? k = some r ↔ r ∈ t.rows ∧ key r = k := by
  constructor
  · intro h
    exact ⟨List.mem_of_find?_eq_some h, by simpa using List.find?_some h⟩
  · rintro ⟨hr, rfl⟩
    obtain ⟨rows, nodup⟩ := t
    change r ∈ rows at hr
    change rows.find? _ = some r
    induction rows with
    | nil => simp at hr
    | cons a rest ih =>
        rw [List.map_cons, List.nodup_cons] at nodup
        rcases List.mem_cons.mp hr with rfl | hrest
        · simp
        · have hne : key a ≠ key r := by
            intro heq
            exact nodup.1 (heq ▸ List.mem_map_of_mem hrest)
          simpa [List.find?_cons, hne] using ih nodup.2 hrest

theorem find?_eq_none_iff {t : Table key} {k : κ} :
    t.find? k = none ↔ ∀ r ∈ t.rows, key r ≠ k := by
  simp [find?, List.find?_eq_none]

theorem key_of_find? {t : Table key} {k : κ} {r : ρ} (h : t.find? k = some r) : key r = k :=
  (find?_eq_some_iff.mp h).2

theorem mem_rows_iff {t : Table key} {r : ρ} : r ∈ t.rows ↔ t.find? (key r) = some r := by
  simp [find?_eq_some_iff]

theorem contains_iff {t : Table key} {k : κ} : t.contains k = true ↔ ∃ r ∈ t.rows, key r = k := by
  unfold contains
  rw [Option.isSome_iff_exists]
  simp only [find?_eq_some_iff]

/-- Insert a row, or leave the table as it is when its key is taken. -/
def insertNew (t : Table key) (r : ρ) : Table key :=
  if h : t.contains (key r) = true then t
  else
    { rows := t.rows ++ [r]
      nodup := by
        rw [List.map_append, List.nodup_append]
        refine ⟨t.nodup, by simp, ?_⟩
        rintro a ha b hb rfl
        obtain ⟨q, hq, hqa⟩ := List.mem_map.mp ha
        simp only [List.map_cons, List.map_nil, List.mem_singleton] at hb
        exact h (contains_iff.mpr ⟨q, hq, hqa.trans hb⟩) }

/-- Insert a row after deleting the one that has its key. -/
def replace (t : Table key) (r : ρ) : Table key where
  rows := (t.deleteWhere fun q => decide (key q = key r)).rows ++ [r]
  nodup := by
    rw [List.map_append, List.nodup_append]
    refine ⟨(t.deleteWhere _).nodup, by simp, ?_⟩
    rintro a ha b hb rfl
    simp only [List.map_cons, List.map_nil, List.mem_singleton] at hb
    obtain ⟨q, hq, hqa⟩ := List.mem_map.mp ha
    have hkey := (List.mem_filter.mp hq).2
    simp [hqa, hb] at hkey

@[simp] theorem find?_empty (k : κ) : (empty : Table key).find? k = none := rfl

/-- Reading after an update applies it to the row that was there. -/
@[simp] theorem find?_updateWhere (t : Table key) (p : ρ → Bool) (f : ρ → ρ)
    (hf : ∀ r, key (f r) = key r) (k : κ) :
    (t.updateWhere p f hf).find? k = (t.find? k).map fun r => if p r then f r else r := by
  simp only [find?, updateWhere, List.find?_map]
  congr 1
  have hpred : ((fun r => decide (key r = k)) ∘ fun r => if p r then f r else r) =
      fun r => decide (key r = k) := by
    funext r
    by_cases hp : p r <;> simp [hp, hf]
  rw [hpred]

@[simp] theorem find?_update_self (t : Table key) (k : κ) (f : ρ → ρ)
    (hf : ∀ r, key (f r) = key r) : (t.update k f hf).find? k = (t.find? k).map f := by
  rw [update, find?_updateWhere]
  cases h : t.find? k with
  | none => rfl
  | some r => simp [key_of_find? h]

theorem find?_update_of_ne (t : Table key) {k j : κ} (hne : j ≠ k) (f : ρ → ρ)
    (hf : ∀ r, key (f r) = key r) : (t.update k f hf).find? j = t.find? j := by
  rw [update, find?_updateWhere]
  cases h : t.find? j with
  | none => rfl
  | some r => simp [key_of_find? h, hne]

theorem find?_update (t : Table key) (k j : κ) (f : ρ → ρ)
    (hf : ∀ r, key (f r) = key r) :
    (t.update k f hf).find? j = if j = k then (t.find? j).map f else t.find? j := by
  by_cases h : j = k
  · subst h
    simp
  · simp [find?_update_of_ne t h, h]

theorem find?_insertNew (t : Table key) (r : ρ) (k : κ) :
    (t.insertNew r).find? k = (t.find? k).or (if key r = k then some r else none) := by
  unfold insertNew
  split
  · rename_i h
    obtain ⟨q, hq⟩ := Option.isSome_iff_exists.mp h
    by_cases hk : key r = k
    · subst hk
      simp [hq]
    · simp [hk]
  · change List.find? _ (t.rows ++ [r]) = _
    rw [List.find?_append]
    by_cases hk : key r = k <;> simp [find?, hk]

/-- An inserted row never hides one that was there. -/
theorem find?_insertNew_of_some {t : Table key} {r q : ρ} {k : κ} (h : t.find? k = some q) :
    (t.insertNew r).find? k = some q := by
  simp [find?_insertNew, h]

@[simp] theorem find?_deleteWhere (t : Table key) (p : ρ → Bool) (k : κ) :
    (t.deleteWhere p).find? k = (t.find? k).filter fun r => !p r := by
  apply Option.ext
  intro r
  constructor
  · intro h
    obtain ⟨hr, hk⟩ := find?_eq_some_iff.mp h
    obtain ⟨hmem, hp⟩ := List.mem_filter.mp hr
    rw [find?_eq_some_iff.mpr ⟨hmem, hk⟩]
    simp [Option.filter, hp]
  · intro h
    obtain ⟨hf, hp⟩ := Option.filter_eq_some_iff.mp h
    obtain ⟨hmem, hk⟩ := find?_eq_some_iff.mp hf
    exact find?_eq_some_iff.mpr ⟨List.mem_filter.mpr ⟨hmem, hp⟩, hk⟩

theorem find?_replace (t : Table key) (r : ρ) (k : κ) :
    (t.replace r).find? k = if key r = k then some r else t.find? k := by
  change List.find? _ ((t.deleteWhere _).rows ++ [r]) = _
  rw [List.find?_append]
  change ((t.deleteWhere _).find? k).or _ = _
  rw [find?_deleteWhere]
  by_cases hk : key r = k
  · subst hk
    cases h : t.find? (key r) with
    | none => simp
    | some q =>
        have hq : key q = key r := key_of_find? h
        simp [Option.filter, hq]
  · cases h : t.find? k with
    | none => simp [hk]
    | some q =>
        have hq : key q ≠ key r := by
          rw [key_of_find? h]
          exact fun heq => hk heq.symm
        simp [hk, hq]

theorem map_rows_update {β : Type*} (t : Table key) (k : κ) (f : ρ → ρ)
    (hf : ∀ r, key (f r) = key r) (g : ρ → β) (hg : ∀ r, g (f r) = g r) :
    (t.update k f hf).rows.map g = t.rows.map g :=
  map_rows_updateWhere t _ f hf g hg

theorem rows_insertNew (t : Table key) (r : ρ) :
    (t.insertNew r).rows = t.rows ∨
      t.find? (key r) = none ∧ (t.insertNew r).rows = t.rows ++ [r] := by
  unfold insertNew
  split
  · exact Or.inl rfl
  · rename_i h
    exact Or.inr ⟨by simpa [contains] using h, rfl⟩

theorem rows_insertNew_of_free {t : Table key} {r : ρ} (h : t.find? (key r) = none) :
    (t.insertNew r).rows = t.rows ++ [r] := by
  have hfree : ¬t.contains (key r) = true := by simp [contains, h]
  rw [insertNew, dif_neg hfree]

/-- Put a row in the place of the one that has its key, or at the end. -/
def upsert (t : Table key) (r : ρ) : Table key :=
  (t.update (key r) (fun q => if key q = key r then r else q) (by
    intro q
    by_cases h : key q = key r <;> simp [h])).insertNew r

theorem find?_upsert (t : Table key) (r : ρ) (k : κ) :
    (t.upsert r).find? k = if key r = k then some r else t.find? k := by
  rw [upsert, find?_insertNew]
  by_cases hk : key r = k
  · subst hk
    rw [find?_update_self]
    cases h : t.find? (key r) with
    | none => simp
    | some q => simp [key_of_find? h]
  · rw [find?_update_of_ne _ fun h => hk h.symm]
    simp [hk]

theorem rows_upsert_of_free {t : Table key} {r : ρ} (h : t.find? (key r) = none) :
    (t.upsert r).rows = t.rows ++ [r] := by
  have hrows : ∀ q ∈ t.rows, key q ≠ key r := find?_eq_none_iff.mp h
  rw [upsert, rows_insertNew_of_free (by rw [find?_update_self, h]; rfl)]
  congr 1
  simp only [update, updateWhere]
  nth_rewrite 2 [← List.map_id t.rows]
  apply List.map_congr_left
  intro q hq
  simp [hrows q hq]

/-- What is put in under one key is found under it, whichever of several it is. -/
theorem isSome_find?_foldl_upsert (rs : List ρ) (t : Table key) (k : κ) :
    ((rs.foldl upsert t).find? k).isSome = true ↔
      (t.find? k).isSome = true ∨ ∃ r ∈ rs, key r = k := by
  induction rs generalizing t with
  | nil => simp
  | cons r rest ih =>
      rw [List.foldl_cons, ih, find?_upsert]
      by_cases hk : key r = k <;> simp [hk]

end Table

namespace Table

/-! ## A unique column -/

variable {ρ κ β : Type*} {key : ρ → κ} [DecidableEq β]

/-- The first row whose column has this value. -/
def lookup (t : Table key) (col : ρ → β) (b : β) : Option ρ :=
  t.rows.find? fun r => decide (col r = b)

@[simp] theorem lookup_empty (col : ρ → β) (b : β) : (empty : Table key).lookup col b = none := rfl

theorem mem_of_lookup {t : Table key} {col : ρ → β} {b : β} {r : ρ} (h : t.lookup col b = some r) :
    r ∈ t.rows :=
  List.mem_of_find?_eq_some h

theorem col_of_lookup {t : Table key} {col : ρ → β} {b : β} {r : ρ} (h : t.lookup col b = some r) :
    col r = b := by
  simpa using List.find?_some h

/-- An update that leaves the column alone is seen by every lookup of it. -/
theorem lookup_updateWhere (t : Table key) (p : ρ → Bool) (f : ρ → ρ)
    (hf : ∀ r, key (f r) = key r) {col : ρ → β} (hcol : ∀ r, col (f r) = col r) (b : β) :
    (t.updateWhere p f hf).lookup col b = (t.lookup col b).map fun r => if p r then f r else r := by
  simp only [lookup, updateWhere, List.find?_map]
  congr 2
  funext r
  by_cases hp : p r <;> simp [hp, hcol]

variable [DecidableEq κ]

theorem find?_of_lookup {t : Table key} {col : ρ → β} {b : β} {r : ρ}
    (h : t.lookup col b = some r) : t.find? (key r) = some r :=
  mem_rows_iff.mp (mem_of_lookup h)

theorem lookup_update (t : Table key) (k : κ) (f : ρ → ρ) (hf : ∀ r, key (f r) = key r)
    {col : ρ → β} (hcol : ∀ r, col (f r) = col r) (b : β) :
    (t.update k f hf).lookup col b =
      (t.lookup col b).map fun r => if key r = k then f r else r := by
  simpa [update] using lookup_updateWhere t (fun r => decide (key r = k)) f hf hcol b

theorem lookup_insertNew {t : Table key} {r : ρ} (hnew : t.find? (key r) = none) (col : ρ → β)
    (b : β) :
    (t.insertNew r).lookup col b =
      (t.lookup col b).or (if col r = b then some r else none) := by
  have hfree : ¬t.contains (key r) = true := by simp [contains, hnew]
  simp only [insertNew, dif_neg hfree, lookup, List.find?_append]
  by_cases hr : col r = b <;> simp [hr]

end Table

end FleetRunner.Library
