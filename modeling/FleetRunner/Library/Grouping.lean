import FleetRunner.Library.Table

/-!
# Groups of members under a name

A group has a label and its members. Groups are kept in a table by the name of
their label, in the order their first member came. The rules below say what
filing a member, grouping a list and moving a group into another do to all
members together (nothing is lost or doubled) and to what holds between a
label and its members.
-/

namespace FleetRunner.Library

/-- A label and the members filed under it. -/
structure Group (ℓ α : Type*) where
  label : ℓ
  members : List α
  deriving DecidableEq

abbrev Groups {ℓ κ : Type*} (name : ℓ → κ) (α : Type*) :=
  Table fun g : Group ℓ α => name g.label

namespace Groups

variable {ℓ κ α : Type*} {name : ℓ → κ}

/-- All members, group by group. -/
def members (t : Groups name α) : List α := t.rows.flatMap Group.members

/-- Every member is related to the label it is filed under. -/
def Fits (p : ℓ → α → Prop) (t : Groups name α) : Prop :=
  ∀ g ∈ t.rows, ∀ x ∈ g.members, p g.label x

theorem fits_empty (p : ℓ → α → Prop) : Fits p (Table.empty : Groups name α) := by
  intro g hg
  simp [Table.empty] at hg

theorem Fits.deleteWhere {p : ℓ → α → Prop} {t : Groups name α} (h : Fits p t)
    (q : Group ℓ α → Bool) : Fits p (t.deleteWhere q) := by
  intro g hg
  exact h g (List.mem_filter.mp hg).1

variable [DecidableEq κ]

/-- File members under a label, whose group is made when there is none. -/
def file (t : Groups name α) (l : ℓ) (xs : List α) : Groups name α :=
  (t.insertNew ⟨l, []⟩).update (name l) fun g => { g with members := g.members ++ xs }

theorem members_insertNew (t : Groups name α) (l : ℓ) :
    members (t.insertNew ⟨l, []⟩) = members t := by
  rcases Table.rows_insertNew t ⟨l, []⟩ with hrows | ⟨-, hrows⟩
  · simp [members, hrows]
  · simp [members, hrows]

theorem members_update {t : Groups name α} {k : κ} {g : Group ℓ α} (h : t.find? k = some g)
    (xs : List α) :
    (members (t.update k fun g => { g with members := g.members ++ xs })).Perm
      (members t ++ xs) := by
  obtain ⟨hg, hk⟩ := Table.find?_eq_some_iff.mp h
  obtain ⟨before, after, hrows⟩ := List.append_of_mem hg
  have hnodup := t.nodup
  simp only [hrows, List.map_append, List.map_cons, List.nodup_append, List.nodup_cons] at hnodup
  obtain ⟨-, ⟨hafter, -⟩, hbefore⟩ := hnodup
  -- only the group found has the key, so only it is rewritten
  have hkeep : ∀ rest : List (Group ℓ α), (∀ r ∈ rest, name r.label ≠ k) →
      rest.map (fun r => if decide (name r.label = k) then
        { r with members := r.members ++ xs } else r) = rest := by
    intro rest hrest
    nth_rewrite 2 [← List.map_id rest]
    apply List.map_congr_left
    intro r hr
    simp [hrest r hr]
  have hb : ∀ r ∈ before, name r.label ≠ k := by
    intro r hr heq
    exact hbefore _ (List.mem_map_of_mem hr) _ (by simp) (heq.trans hk.symm)
  have ha : ∀ r ∈ after, name r.label ≠ k := by
    intro r hr heq
    apply hafter
    rw [hk, ← heq]
    exact List.mem_map_of_mem (f := fun r : Group ℓ α => name r.label) hr
  simp only [members, Table.update, Table.updateWhere, hrows, List.map_append, List.map_cons,
    hkeep before hb, hkeep after ha, hk, decide_true, if_true, List.flatMap_append,
    List.flatMap_cons, List.append_assoc]
  apply List.Perm.append_left
  apply List.Perm.append_left
  exact List.perm_append_comm

theorem find?_insertNew_self (t : Groups name α) (l : ℓ) :
    ∃ g, (t.insertNew ⟨l, []⟩).find? (name l) = some g := by
  rw [Table.find?_insertNew]
  cases t.find? (name l) with
  | none => exact ⟨⟨l, []⟩, by simp⟩
  | some g => exact ⟨g, by simp⟩

/-- Filing adds the members filed and no others. -/
theorem members_file (t : Groups name α) (l : ℓ) (xs : List α) :
    (members (t.file l xs)).Perm (members t ++ xs) := by
  obtain ⟨g, hg⟩ := find?_insertNew_self t l
  rw [← members_insertNew t l]
  exact members_update hg xs

/-- A group under another name is not seen by a filing. -/
theorem mem_rows_file {t : Groups name α} {g : Group ℓ α} {l : ℓ} (hg : g ∈ t.rows)
    (hne : name g.label ≠ name l) (xs : List α) : g ∈ (t.file l xs).rows := by
  rw [Table.mem_rows_iff] at hg ⊢
  rw [file, Table.find?_update_of_ne _ hne, Table.find?_insertNew, hg]
  rfl

theorem Fits.file {p : ℓ → α → Prop} {t : Groups name α} (h : Fits p t)
    (hname : Function.Injective name) {l : ℓ} {xs : List α} (hxs : ∀ x ∈ xs, p l x) :
    Fits p (t.file l xs) := by
  have hnew : Fits p (t.insertNew ⟨l, []⟩) := by
    rcases Table.rows_insertNew t ⟨l, []⟩ with hrows | ⟨-, hrows⟩
    · simpa [Fits, hrows] using h
    · intro g hg
      rw [hrows, List.mem_append, List.mem_singleton] at hg
      rcases hg with hg | rfl
      · exact h g hg
      · simp
  intro g hg x hx
  obtain ⟨g', hg', rfl⟩ := List.mem_map.mp hg
  by_cases hk : name g'.label = name l
  · simp only [hk, decide_true, if_true, List.mem_append] at hx ⊢
    rcases hx with hx | hx
    · exact hnew g' hg' x hx
    · rw [hname hk]
      exact hxs x hx
  · simp only [hk, decide_false, Bool.false_eq_true, if_false] at hx ⊢
    exact hnew g' hg' x hx

/-- Every element of a list filed under its label. -/
def group (name : ℓ → κ) (label : α → ℓ) (xs : List α) : Groups name α :=
  xs.foldl (fun t x => file t (label x) [x]) Table.empty

theorem members_foldl_file (label : α → ℓ) (xs : List α) (t : Groups name α) :
    (members (xs.foldl (fun t x => file t (label x) [x]) t)).Perm (members t ++ xs) := by
  induction xs generalizing t with
  | nil => simp
  | cons x rest ih =>
      refine (ih _).trans ?_
      have hone := (members_file t (label x) [x]).append_right rest
      simpa using hone

/-- Grouping keeps every element, each as often as it came. -/
theorem members_group (label : α → ℓ) (xs : List α) :
    (members (group name label xs)).Perm xs := by
  simpa [members, Table.empty, group] using
    members_foldl_file label xs (Table.empty : Groups name α)

theorem fits_group (hname : Function.Injective name) {p : ℓ → α → Prop} {label : α → ℓ}
    {xs : List α} (hp : ∀ x ∈ xs, p (label x) x) : Fits p (group name label xs) := by
  suffices h : ∀ t : Groups name α, Fits p t →
      Fits p (xs.foldl (fun t x => file t (label x) [x]) t) from h _ (fits_empty p)
  induction xs with
  | nil => exact fun t ht => ht
  | cons x rest ih =>
      intro t ht
      apply ih fun y hy => hp y (List.mem_cons_of_mem x hy)
      apply ht.file hname
      simpa using hp x List.mem_cons_self

/-- Drop a group and file its members under another label. -/
def move (t : Groups name α) (g : Group ℓ α) (l : ℓ) : Groups name α :=
  file (t.deleteWhere fun r => decide (name r.label = name g.label)) l g.members

theorem members_deleteWhere {t : Groups name α} {g : Group ℓ α} (hg : g ∈ t.rows) :
    (members t).Perm
      (members (t.deleteWhere fun r => decide (name r.label = name g.label)) ++ g.members) := by
  obtain ⟨before, after, hrows⟩ := List.append_of_mem hg
  have hnodup := t.nodup
  simp only [hrows, List.map_append, List.map_cons, List.nodup_append, List.nodup_cons] at hnodup
  obtain ⟨-, ⟨hafter, -⟩, hbefore⟩ := hnodup
  have hb : before.filter (fun r => !decide (name r.label = name g.label)) = before := by
    apply List.filter_eq_self.mpr
    intro r hr
    simpa using hbefore _ (List.mem_map_of_mem hr) _ List.mem_cons_self
  have ha : after.filter (fun r => !decide (name r.label = name g.label)) = after := by
    apply List.filter_eq_self.mpr
    intro r hr
    have hne : name r.label ≠ name g.label := by
      intro heq
      apply hafter
      rw [← heq]
      exact List.mem_map_of_mem (f := fun r : Group ℓ α => name r.label) hr
    simpa using hne
  simp only [members, Table.deleteWhere, hrows, List.filter_append, List.filter_cons, hb, ha,
    decide_true, Bool.not_true, Bool.false_eq_true, if_false, List.flatMap_append,
    List.flatMap_cons, List.append_assoc]
  apply List.Perm.append_left
  exact List.perm_append_comm

theorem members_move {t : Groups name α} {g : Group ℓ α} (hg : g ∈ t.rows) (l : ℓ) :
    (members (t.move g l)).Perm (members t) :=
  (members_file _ l g.members).trans (members_deleteWhere hg).symm

/-- Move every group a condition selects, in the order they stood in. -/
def moveWhere (small : Group ℓ α → Bool) (into : ℓ → ℓ) (t : Groups name α) : Groups name α :=
  t.rows.foldl (fun t g => if small g then move t g (into g.label) else t) t

variable {small : Group ℓ α → Bool} {into : ℓ → ℓ}

theorem members_foldl_move
    (hinto : ∀ g g' : Group ℓ α, small g = true → small g' = true →
      name g'.label ≠ name (into g.label))
    (todo : List (Group ℓ α)) (hnodup : (todo.map fun g => name g.label).Nodup)
    (t : Groups name α) (htodo : ∀ g ∈ todo, small g = true → g ∈ t.rows) :
    (members (todo.foldl (fun t g => if small g then move t g (into g.label) else t) t)).Perm
      (members t) := by
  induction todo generalizing t with
  | nil => simp
  | cons g rest ih =>
      rw [List.map_cons, List.nodup_cons] at hnodup
      have hrest : ∀ g' ∈ rest, small g' = true → g' ∈ t.rows :=
        fun g' hg' => htodo g' (List.mem_cons_of_mem g hg')
      rw [List.foldl_cons]
      by_cases hsmall : small g = true
      · rw [if_pos hsmall]
        refine (ih hnodup.2 _ ?_).trans (members_move (htodo g List.mem_cons_self hsmall) _)
        -- the groups still to be moved are neither dropped nor added to
        intro g' hg' hsmall'
        apply mem_rows_file _ (hinto g g' hsmall hsmall')
        refine List.mem_filter.mpr ⟨hrest g' hg' hsmall', ?_⟩
        have hne : name g'.label ≠ name g.label := by
          intro heq
          apply hnodup.1
          rw [← heq]
          exact List.mem_map_of_mem (f := fun r : Group ℓ α => name r.label) hg'
        simpa using hne
      · rw [if_neg hsmall]
        exact ih hnodup.2 t hrest

/-- Moving groups into groups that stay keeps all members. -/
theorem members_moveWhere
    (hinto : ∀ g g' : Group ℓ α, small g = true → small g' = true →
      name g'.label ≠ name (into g.label))
    (t : Groups name α) : (members (moveWhere small into t)).Perm (members t) :=
  members_foldl_move hinto t.rows t.nodup t fun _ hg _ => hg

theorem Fits.moveWhere {p : ℓ → α → Prop} {t : Groups name α} (h : Fits p t)
    (hname : Function.Injective name) (hinto : ∀ l x, p l x → p (into l) x) :
    Fits p (moveWhere small into t) := by
  suffices hfold : ∀ (todo : List (Group ℓ α)) (s : Groups name α),
      (∀ g ∈ todo, ∀ x ∈ g.members, p g.label x) → Fits p s →
      Fits p (todo.foldl (fun t g => if small g then move t g (into g.label) else t) s) from
    hfold t.rows t h h
  intro todo
  induction todo with
  | nil => exact fun s _ hs => hs
  | cons g rest ih =>
      intro s htodo hs
      rw [List.foldl_cons]
      apply ih _ fun g' hg' => htodo g' (List.mem_cons_of_mem g hg')
      by_cases hsmall : small g = true
      · rw [if_pos hsmall]
        apply (hs.deleteWhere _).file hname
        intro x hx
        exact hinto _ x (htodo g List.mem_cons_self x hx)
      · rwa [if_neg hsmall]

end Groups

end FleetRunner.Library
