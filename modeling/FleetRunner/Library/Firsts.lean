import Mathlib.Data.List.Infix
import Mathlib.Data.List.Nodup

/-!
# The first of each kind

Entries are looked at in order, each has a key or none, and an entry stays if no
entry of its key has stayed before. What stays is a sublist in which every key
of the list occurs once.
-/

namespace FleetRunner.Library

variable {α κ : Type*} [DecidableEq κ] (key : α → Option κ)

/-- One more entry stays if it has a key, and a new one. -/
def keepNew (kept : List α) (x : α) : List α :=
  if (key x).isSome ∧ key x ∉ kept.map key then kept ++ [x] else kept

/-- The first entry of each key. -/
def firsts (xs : List α) : List α := xs.foldl (keepNew key) []

@[simp] theorem firsts_nil : firsts key [] = [] := rfl

theorem firsts_concat (xs : List α) (x : α) :
    firsts key (xs ++ [x]) = keepNew key (firsts key xs) x := by
  simp [firsts, List.foldl_append]

variable {key}

theorem keepNew_new {kept : List α} {x : α} {k : κ} (hk : key x = some k)
    (hnew : some k ∉ kept.map key) : keepNew key kept x = kept ++ [x] :=
  if_pos ⟨by simp [hk], hk ▸ hnew⟩

theorem keepNew_old {kept : List α} {x : α} (hold : key x ∈ kept.map key) :
    keepNew key kept x = kept :=
  if_neg fun h => h.2 hold

theorem keepNew_none {kept : List α} {x : α} (hk : key x = none) : keepNew key kept x = kept :=
  if_neg fun h => by simp [hk] at h

theorem prefix_keepNew (kept : List α) (x : α) : kept <+: keepNew key kept x := by
  unfold keepNew
  split
  · exact List.prefix_append kept [x]
  · exact List.prefix_rfl

/-- What stays of a beginning stays of the whole. -/
theorem firsts_prefix {front xs : List α} (h : front <+: xs) :
    firsts key front <+: firsts key xs := by
  obtain ⟨rest, rfl⟩ := h
  induction rest using List.reverseRecOn with
  | nil => simp
  | append_singleton rest x ih =>
      rw [← List.append_assoc, firsts_concat]
      exact ih.trans (prefix_keepNew _ x)

theorem firsts_sublist (xs : List α) : (firsts key xs).Sublist xs := by
  induction xs using List.reverseRecOn with
  | nil => exact List.Sublist.slnil
  | append_singleton front x ih =>
      rw [firsts_concat, keepNew]
      split
      · exact ih.append (List.Sublist.refl [x])
      · exact ih.trans (List.sublist_append_left front [x])

/-- Every key of the list stays, once. -/
theorem mem_keys_firsts {xs : List α} {k : κ} :
    some k ∈ (firsts key xs).map key ↔ some k ∈ xs.map key := by
  induction xs using List.reverseRecOn with
  | nil => simp
  | append_singleton front x ih =>
      rw [firsts_concat, List.map_append, List.mem_append, ← ih]
      unfold keepNew
      split
      · simp
      · rename_i hold
        constructor
        · exact Or.inl
        · rintro (hmem | hx)
          · exact hmem
          · rw [List.map_singleton, List.mem_singleton] at hx
            by_contra hnew
            exact hold ⟨by simp [← hx], hx ▸ hnew⟩

theorem nodup_keys_firsts (xs : List α) : ((firsts key xs).map key).Nodup := by
  induction xs using List.reverseRecOn with
  | nil => simp
  | append_singleton front x ih =>
      rw [firsts_concat, keepNew]
      split
      · rename_i hnew
        rw [List.map_append, List.map_singleton]
        apply List.Nodup.append ih (List.nodup_singleton _)
        rw [List.disjoint_singleton]
        exact hnew.2
      · exact ih

theorem isSome_of_mem_firsts {xs : List α} {x : α} (h : x ∈ firsts key xs) :
    (key x).isSome = true := by
  induction xs using List.reverseRecOn with
  | nil => cases h
  | append_singleton front y ih =>
      rw [firsts_concat, keepNew] at h
      split at h
      · rename_i hnew
        rcases List.mem_append.mp h with h | h
        · exact ih h
        · exact List.mem_singleton.mp h ▸ hnew.1
      · exact ih h

/-- An entry that does not stay comes behind one of its key that does. -/
theorem exists_first {front rest : List α} {x : α} {k : κ} (hk : key x = some k) :
    ∃ y ∈ firsts key (front ++ x :: rest), y ∈ front ++ [x] ∧ key y = some k := by
  have hmem : some k ∈ (firsts key (front ++ [x])).map key := by
    rw [mem_keys_firsts]
    simp [hk]
  obtain ⟨y, hy, hyk⟩ := List.mem_map.mp hmem
  have hprefix : firsts key (front ++ [x]) <+: firsts key (front ++ x :: rest) :=
    firsts_prefix (by simp)
  exact ⟨y, hprefix.subset hy, (firsts_sublist _).subset hy, hyk⟩

end FleetRunner.Library
