import FleetRunner.Library.Sorting
import FleetRunner.Library.Table

/-!
# Tables filled from a list

Each entry of a list names a key and rewrites what the table has under it, as in
`m.set(k, f(m.get(k)))`. What is then found under a key is the fold of the
entries that name it, and the keys stand in the order they were first named.
-/

namespace FleetRunner.Library

variable {α ρ κ : Type*} {key : ρ → κ} [DecidableEq κ]

/-- What a list of entries makes of one row. -/
def foldRow (step : Option ρ → α → ρ) (o : Option ρ) (xs : List α) : Option ρ :=
  xs.foldl (fun o x => some (step o x)) o

@[simp] theorem foldRow_nil (step : Option ρ → α → ρ) (o : Option ρ) : foldRow step o [] = o := rfl

@[simp] theorem foldRow_cons (step : Option ρ → α → ρ) (o : Option ρ) (x : α) (xs : List α) :
    foldRow step o (x :: xs) = foldRow step (some (step o x)) xs := rfl

theorem foldRow_concat (step : Option ρ → α → ρ) (o : Option ρ) (xs : List α) (x : α) :
    foldRow step o (xs ++ [x]) = some (step (foldRow step o xs) x) := by
  simp [foldRow]

theorem isSome_foldRow (step : Option ρ → α → ρ) (o : Option ρ) (xs : List α) :
    (foldRow step o xs).isSome = true ↔ o.isSome = true ∨ xs ≠ [] := by
  induction xs generalizing o with
  | nil => simp
  | cons x rest ih => simp [ih]

namespace Table

/-- Rewrite the row each entry names. -/
def collectFrom (name : α → κ) (step : Option ρ → α → ρ) (t : Table key) (xs : List α) :
    Table key :=
  xs.foldl (fun t x => t.upsert (step (t.find? (name x)) x)) t

def collect (key : ρ → κ) (name : α → κ) (step : Option ρ → α → ρ) (xs : List α) : Table key :=
  collectFrom name step empty xs

/-- A rewritten row keeps the key it was found under. -/
def Keyed (key : ρ → κ) (name : α → κ) (step : Option ρ → α → ρ) : Prop :=
  ∀ o x, (∀ r, o = some r → key r = name x) → key (step o x) = name x

variable {name : α → κ} {step : Option ρ → α → ρ}

theorem Keyed.key_find? (h : Keyed key name step) (t : Table key) (x : α) :
    key (step (t.find? (name x)) x) = name x :=
  h _ _ fun _ hr => key_of_find? hr

theorem find?_collectFrom (h : Keyed key name step) (t : Table key) (xs : List α) (k : κ) :
    (collectFrom name step t xs).find? k =
      foldRow step (t.find? k) (xs.filter fun x => decide (name x = k)) := by
  induction xs generalizing t with
  | nil => rfl
  | cons x rest ih =>
      change (collectFrom name step (t.upsert _) rest).find? k = _
      rw [ih, find?_upsert, h.key_find? t x]
      by_cases hk : name x = k
      · subst hk
        simp
      · simp [hk]

/-- What is found under a key is the fold of the entries that name it. -/
theorem find?_collect (h : Keyed key name step) (xs : List α) (k : κ) :
    (collect key name step xs).find? k =
      foldRow step none (xs.filter fun x => decide (name x = k)) :=
  find?_collectFrom h empty xs k

theorem mem_collect_iff (h : Keyed key name step) {xs : List α} {r : ρ} :
    r ∈ (collect key name step xs).rows ↔
      foldRow step none (xs.filter fun x => decide (name x = key r)) = some r := by
  rw [mem_rows_iff, find?_collect h]

/-- The rows of two tables that are read the same are the same rows. -/
theorem perm_of_find? {t u : Table key} (h : ∀ k, t.find? k = u.find? k) : t.rows.Perm u.rows := by
  apply (List.perm_ext_iff_of_nodup t.nodup.of_map u.nodup.of_map).mpr
  intro r
  rw [mem_rows_iff, mem_rows_iff, h]

theorem keys_prefix_upsert (t : Table key) (r : ρ) :
    t.rows.map key <+: (t.upsert r).rows.map key := by
  have hkeep : ∀ q, key (if key q = key r then r else q) = key q := by
    intro q
    by_cases h : key q = key r <;> simp [h]
  rw [upsert]
  rcases rows_insertNew (t.update (key r) _ hkeep) r with hrows | ⟨-, hrows⟩
  · have hkeys : t.rows.map key = (t.update (key r) _ hkeep).rows.map key :=
      (map_rows_update t _ _ hkeep key hkeep).symm
    rw [hrows]
    exact ⟨[], by rw [List.append_nil, hkeys]⟩
  · rw [hrows, List.map_append, map_rows_update t _ _ hkeep key hkeep]
    exact List.prefix_append _ _

theorem keys_prefix_collectFrom (t : Table key) (xs : List α) :
    t.rows.map key <+: (collectFrom name step t xs).rows.map key := by
  induction xs generalizing t with
  | nil => exact List.prefix_rfl
  | cons x rest ih => exact (keys_prefix_upsert t _).trans (ih _)

/-- Two keys stand in the order of the entries that first name them. -/
theorem keys_prefix_collect (h : Keyed key name step) {x y : α} (hne : name x ≠ name y)
    (rest : List α) :
    [name x, name y] <+: (collect key name step (x :: y :: rest)).rows.map key := by
  let one : Table key := empty.upsert (step none x)
  have hx : key (step none x) = name x := h none x (by simp)
  have hy : key (step none y) = name y := h none y (by simp)
  have hone : one.rows = [step none x] := rows_upsert_of_free rfl
  have hfree : one.find? (name y) = none := by
    rw [find?_eq_none_iff, hone]
    intro r hr
    rw [List.mem_singleton.mp hr, hx]
    exact hne
  have htwo : (one.upsert (step (one.find? (name y)) y)).rows.map key = [name x, name y] := by
    rw [hfree, rows_upsert_of_free (by rw [hy, hfree]), hone]
    simp [hx, hy]
  rw [← htwo]
  exact keys_prefix_collectFrom _ rest

omit [DecidableEq κ] in
theorem exists_pair_of_keys {rows : List ρ} {j k : κ} (h : [j, k] <+: rows.map key) :
    ∃ a b, List.Sublist [a, b] rows ∧ key a = j ∧ key b = k := by
  cases rows with
  | nil => simp at h
  | cons a rest =>
      cases rest with
      | nil => simp [List.prefix_iff_eq_take] at h
      | cons b rest =>
          obtain ⟨hj, hk⟩ : j = key a ∧ k = key b := by simpa using h
          exact ⟨a, b, (List.prefix_append [a, b] rest).sublist, hj.symm, hk.symm⟩

/-- Two entries whose rows tie are seen in the sorted table by which of them came first. -/
theorem name_eq_of_tie {step' : Option ρ → α → ρ} (h : Keyed key name step)
    (h' : Keyed key name step') {cmp : ρ → ρ → Ordering} {x y : α} {rest : List α}
    (htie : ∀ a ∈ (collect key name step (x :: y :: rest)).rows, key a = name x →
      ∀ b ∈ (collect key name step (x :: y :: rest)).rows, key b = name y → cmp a b = .eq)
    (htie' : ∀ b ∈ (collect key name step' (y :: x :: rest)).rows, key b = name y →
      ∀ a ∈ (collect key name step' (y :: x :: rest)).rows, key a = name x → cmp b a = .eq)
    (hsame : (sortBy cmp (collect key name step (x :: y :: rest)).rows).map key =
      (sortBy cmp (collect key name step' (y :: x :: rest)).rows).map key) :
    name x = name y := by
  by_contra hne
  obtain ⟨a, b, hab, ha, hb⟩ := exists_pair_of_keys (keys_prefix_collect h hne rest)
  obtain ⟨b', a', hba, hb', ha'⟩ := exists_pair_of_keys (keys_prefix_collect h' (Ne.symm hne) rest)
  have hnodup : ((sortBy cmp (collect key name step (x :: y :: rest)).rows).map key).Nodup :=
    ((perm_sortBy cmp _).map key).nodup_iff.mpr (collect key name step (x :: y :: rest)).nodup
  apply hne
  rw [← ha, ← hb]
  exact key_eq_of_tie (ha'.trans ha.symm) (hb'.trans hb.symm) hab hba
    (htie a (hab.subset (by simp)) ha b (hab.subset (by simp)) hb)
    (htie' b' (hba.subset (by simp)) hb' a' (hba.subset (by simp)) ha') hnodup hsame

end Table

end FleetRunner.Library
