import FleetRunner.Evals.Cells

/-!
# What the eval table shows (`pivotEvals`)

The names of the metrics of a set are those of the family of its first row, a
model is labelled by the first row that has its key, and texts that compare
equal keep the order they came in. `Tidy` says when none of this is seen: the
table is then complete, and the rows may be given in any order.
-/

namespace FleetRunner.Evals

open Library

/-! ## Rows in another order -/

theorem mem_foldl_addWorkload {w : String} (xs : List EvalRow) (seen : List String) :
    w ∈ xs.foldl addWorkload seen ↔ w ∈ seen ∨ ∃ r ∈ xs, r.workload = w := by
  induction xs generalizing seen with
  | nil => simp
  | cons r rest ih =>
      rw [List.foldl_cons, ih]
      by_cases hr : r.workload ∈ seen
      · simp only [addWorkload, if_pos hr, List.exists_mem_cons_iff]
        constructor
        · rintro (h | h)
          · exact Or.inl h
          · exact Or.inr (Or.inr h)
        · rintro (h | rfl | h)
          · exact Or.inl h
          · exact Or.inl hr
          · exact Or.inr h
      · simp only [addWorkload, if_neg hr, List.exists_mem_cons_iff, List.mem_append,
          List.mem_singleton, or_assoc, eq_comm]

theorem nodup_foldl_addWorkload (xs : List EvalRow) (seen : List String) (h : seen.Nodup) :
    (xs.foldl addWorkload seen).Nodup := by
  induction xs generalizing seen with
  | nil => exact h
  | cons r rest ih =>
      apply ih
      unfold addWorkload
      split
      · exact h
      · rename_i hr
        rw [List.nodup_append]
        refine ⟨h, by simp, ?_⟩
        rintro a ha b hb rfl
        exact hr (List.mem_singleton.mp hb ▸ ha)

theorem workloadsOf_perm {xs ys : List EvalRow} (h : xs.Perm ys) :
    workloadsOf xs = workloadsOf ys := by
  have hperm : (xs.foldl addWorkload []).Perm (ys.foldl addWorkload []) := by
    apply (List.perm_ext_iff_of_nodup (nodup_foldl_addWorkload _ _ List.nodup_nil)
      (nodup_foldl_addWorkload _ _ List.nodup_nil)).mpr
    intro w
    simp only [mem_foldl_addWorkload, h.mem_iff]
  apply insertionSort_eq_of_perm hperm
  exact fun a _ b _ => antisymm_of jsTextLe

theorem keyed_deviceStep :
    Table.Keyed DeviceColumn.device_id EvalRow.device_id deviceStep := fun _ _ _ => rfl

theorem foldRow_deviceStep {xs : List EvalRow} {c : DeviceColumn}
    (h : foldRow deviceStep none xs = some c) : ∃ r ∈ xs, c = deviceStep none r := by
  cases xs using List.reverseRecOn with
  | nil => cases h
  | append_singleton past r =>
      rw [foldRow_concat] at h
      exact ⟨r, by simp, (Option.some.inj h).symm⟩

/-- What a device is called is the same in all of its rows. -/
def SameDevices (rows : List EvalRow) : Prop :=
  ∀ r ∈ rows, ∀ r' ∈ rows, r.device_id = r'.device_id →
    r.device_model = r'.device_model ∧ r.simulator = r'.simulator

/-- Two lists of entries fill a table the same when each row is made the same. -/
theorem find?_devicesOf_perm {xs ys : List EvalRow} (h : xs.Perm ys) (hdev : SameDevices xs)
    (id : String) : (devicesOf xs).find? id = (devicesOf ys).find? id := by
  rw [devicesOf, devicesOf, Table.find?_collect keyed_deviceStep,
    Table.find?_collect keyed_deviceStep]
  have hperm := h.filter fun r => decide (r.device_id = id)
  cases hx : foldRow deviceStep none (xs.filter fun r => decide (r.device_id = id)) with
  | none =>
      have hnil := (isSome_foldRow deviceStep none
        (xs.filter fun r => decide (r.device_id = id))).not.mp (by simp [hx])
      simp only [Option.isSome_none, Bool.false_eq_true, false_or, not_not] at hnil
      rw [hnil] at hperm
      rw [List.nil_perm.mp hperm]
      rfl
  | some c =>
      have hsome := (isSome_foldRow deviceStep none
        (ys.filter fun r => decide (r.device_id = id))).mpr (Or.inr fun hnil => by
          rw [hnil] at hperm
          rw [List.perm_nil.mp hperm] at hx
          cases hx)
      obtain ⟨d, hd⟩ := Option.isSome_iff_exists.mp hsome
      obtain ⟨r, hr, rfl⟩ := foldRow_deviceStep hx
      obtain ⟨r', hr', rfl⟩ := foldRow_deviceStep hd
      obtain ⟨hr, hid⟩ := List.mem_filter.mp hr
      obtain ⟨hr', hid'⟩ := List.mem_filter.mp (hperm.mem_iff.mpr hr')
      have hsame : r.device_id = r'.device_id := by simp_all
      obtain ⟨hmodel, hsim⟩ := hdev r hr r' hr' hsame
      rw [hd]
      simp [deviceStep, hsame, hmodel, hsim]

/-- The latest time of some rows. -/
def latestOf (xs : List EvalRow) : Int := ((xs.map fun r => r.at_ms.getD 0).max?).getD 0

theorem latest_eq (b : Bucket) : b.latest = latestOf b.list := by
  rw [latestOf, Bucket.list, List.map_cons, List.max?_cons', Option.getD_some, List.foldl_map]
  rfl

theorem latestOf_perm {xs ys : List EvalRow} (h : xs.Perm ys) : latestOf xs = latestOf ys := by
  have hperm := h.map fun r => r.at_ms.getD 0
  cases hx : (xs.map fun r => r.at_ms.getD 0).max? with
  | none =>
      have hnil := List.max?_eq_none_iff.mp hx
      rw [hnil] at hperm
      rw [latestOf, latestOf, hnil, List.nil_perm.mp hperm]
  | some t =>
      obtain ⟨hmem, hle⟩ := List.max?_eq_some_iff.mp hx
      have hy : (ys.map fun r => r.at_ms.getD 0).max? = some t :=
        List.max?_eq_some_iff.mpr
          ⟨hperm.mem_iff.mp hmem, fun b hb => hle b (hperm.mem_iff.mpr hb)⟩
      rw [latestOf, latestOf, hx, hy]

/-! ## When the order is not seen -/

/-- What a model row is labelled with. -/
def label (r : EvalRow) : Option String × Option String × Option String × Option String :=
  (r.model, r.quant, r.backend, r.accel)

section Tidy

variable (e : Engine)

/-- The rows of one set: of one family, under names that are own properties, are
labelled alike under one key, and compare equal nowhere else. -/
structure TidySet (rows : List EvalRow) : Prop where
  device : ∀ r ∈ rows, r.device_id ≠ "__proto__"
  family : ∀ r ∈ rows, ∀ r' ∈ rows, r.family = r'.family
  labels : ∀ r ∈ rows, ∀ r' ∈ rows, modelKey r = modelKey r' → label r = label r'
  devices : ∀ r ∈ rows, ∀ r' ∈ rows,
    e.localeCompare r.device_id r'.device_id = .eq → r.device_id = r'.device_id
  models : ∀ r ∈ rows, ∀ r' ∈ rows,
    (e.localeCompare (r.model.getD "") (r'.model.getD "")).then
      (e.localeCompare (modelKey r) (modelKey r')) = .eq → modelKey r = modelKey r'

structure Tidy (rows : List EvalRow) : Prop where
  set : ∀ sha, TidySet e (setRows rows sha)
  sets : ∀ sha sha', setRows rows sha ≠ [] → setRows rows sha' ≠ [] →
    e.localeCompare (e.toISOString (latestOf (setRows rows sha)))
      (e.toISOString (latestOf (setRows rows sha'))) = .eq → sha = sha'

theorem transCmp_compareDevices : Std.TransCmp (compareDevices e) :=
  have := e.consistent
  transCmp_comap e.localeCompare DeviceColumn.device_id

theorem transCmp_compareModels : Std.TransCmp (compareModels e) :=
  have := e.consistent
  have := transCmp_comap e.localeCompare fun m : ModelRow => m.model.getD ""
  have := transCmp_comap e.localeCompare ModelRow.key
  inferInstanceAs (Std.TransCmp (compareLex
    (fun a b : ModelRow => e.localeCompare (a.model.getD "") (b.model.getD ""))
    fun a b : ModelRow => e.localeCompare a.key b.key))

theorem transCmp_compareSets : Std.TransCmp (compareSets e) :=
  have := e.consistent
  have := transCmp_comap e.localeCompare EvalSet.latest_at
  inferInstanceAs (Std.TransCmp fun a b : EvalSet => e.localeCompare b.latest_at a.latest_at)

theorem start_eq {r r' : EvalRow} (hkey : modelKey r = modelKey r') (hlabel : label r = label r') :
    ModelRow.start r = ModelRow.start r' := by
  simp only [label, Prod.mk.injEq] at hlabel
  obtain ⟨hmodel, hquant, hbackend, haccel⟩ := hlabel
  simp [ModelRow.start, hkey, hmodel, hquant, hbackend, haccel]

theorem cells_ext {family : Family} {xs ys : List EvalRow} {c d : Cells}
    (hc : CellsOf family xs c) (hd : CellsOf family ys d)
    (h : ∀ id, newest (ofDevice id xs) = newest (ofDevice id ys)) : c = d := by
  obtain ⟨cown, cproto⟩ := c
  obtain ⟨down, dproto⟩ := d
  obtain ⟨rfl, hcown⟩ := hc
  obtain ⟨rfl, hdown⟩ := hd
  congr
  funext id
  have hsame : (newest (ofDevice id xs)).map (cellOf family) =
      (newest (ofDevice id ys)).map (cellOf family) := by rw [h id]
  exact (hcown id).trans (hsame.trans (hdown id).symm)

variable {e}

/-- The row of a model is made from its rows in any order. -/
theorem find?_modelsOf_perm {family : Family} {xs ys : List EvalRow} (h : xs.Perm ys)
    (hat : ∀ r ∈ xs, ∀ r' ∈ xs, r.at_ms = r'.at_ms → r = r') (ht : TidySet e xs) (key : String) :
    (modelsOf family xs).find? key = (modelsOf family ys).find? key := by
  rw [modelsOf, modelsOf, Table.find?_collect (keyed_modelStep family),
    Table.find?_collect (keyed_modelStep family)]
  change foldRow _ none (ofModel key xs) = foldRow _ none (ofModel key ys)
  have hperm : (ofModel key xs).Perm (ofModel key ys) := h.filter _
  have hmem : ∀ r ∈ ofModel key xs, r ∈ xs ∧ modelKey r = key := by
    intro r hr
    simpa [ofModel] using hr
  cases hx : ofModel key xs with
  | nil =>
      rw [hx] at hperm
      rw [List.nil_perm.mp hperm]
  | cons r more =>
      cases hy : ofModel key ys with
      | nil =>
          rw [hy] at hperm
          rw [List.perm_nil.mp hperm] at hx
          cases hx
      | cons r' more' =>
          have hr : r ∈ ofModel key xs := hx ▸ List.mem_cons_self
          have hr' : r' ∈ ofModel key xs := hperm.mem_iff.mpr (hy ▸ List.mem_cons_self)
          obtain ⟨m, hm⟩ := Option.isSome_iff_exists.mp
            ((isSome_foldRow (modelStep family) none (r :: more)).mpr (Or.inr (by simp)))
          obtain ⟨n, hn⟩ := Option.isSome_iff_exists.mp
            ((isSome_foldRow (modelStep family) none (r' :: more')).mpr (Or.inr (by simp)))
          have hkey : modelKey r = modelKey r' := (hmem r hr).2.trans (hmem r' hr').2.symm
          have hcells : m.cells = n.cells := by
            refine cells_ext (cellsOf_foldRow family (fun x hx' => ?_) hm)
              (cellsOf_foldRow family (fun x hx' => ?_) hn) fun id => ?_
            · exact ht.device x (hmem x (hx ▸ hx')).1
            · exact ht.device x (hmem x (hperm.mem_iff.mpr (hy ▸ hx'))).1
            · rw [← hx, ← hy]
              apply newest_perm (hperm.filter _)
              intro a ha b hb
              exact hat a (hmem a (List.mem_filter.mp ha).1).1 b
                (hmem b (List.mem_filter.mp hb).1).1
          rw [hm, hn, foldRow_modelStep_label family r more hm,
            foldRow_modelStep_label family r' more' hn, hcells,
            start_eq hkey (ht.labels r (hmem r hr).1 r' (hmem r' hr').1 hkey)]

theorem mem_devicesOf {xs : List EvalRow} {c : DeviceColumn} (h : c ∈ (devicesOf xs).rows) :
    ∃ r ∈ xs, c = deviceStep none r := by
  rw [devicesOf, Table.mem_collect_iff keyed_deviceStep] at h
  obtain ⟨r, hr, hc⟩ := foldRow_deviceStep h
  exact ⟨r, (List.mem_filter.mp hr).1, hc⟩

/-- A model row carries the label of a row that has its key. -/
theorem mem_modelsOf {family : Family} {xs : List EvalRow} {m : ModelRow}
    (h : m ∈ (modelsOf family xs).rows) :
    ∃ r more, ofModel m.key xs = r :: more ∧ r ∈ xs ∧ modelKey r = m.key ∧
      m = { ModelRow.start r with cells := m.cells } ∧
      foldRow (modelStep family) none (r :: more) = some m := by
  rw [modelsOf, Table.mem_collect_iff (keyed_modelStep family)] at h
  change foldRow _ none (ofModel m.key xs) = some m at h
  cases hx : ofModel m.key xs with
  | nil =>
      rw [hx] at h
      cases h
  | cons r more =>
      rw [hx] at h
      have hr : r ∈ ofModel m.key xs := hx ▸ List.mem_cons_self
      obtain ⟨hr, hkey⟩ := List.mem_filter.mp hr
      exact ⟨r, more, rfl, hr, by simpa using hkey, foldRow_modelStep_label family r more h, h⟩

/-- The set made of some rows is the set made of them in any order. -/
theorem evalSet_perm {excluded excluded' : List Excluded} {b b' : Bucket}
    (hsha : b.input_sha256 = b'.input_sha256) (h : b.list.Perm b'.list)
    (hexcluded : excluded.Perm excluded')
    (hat : ∀ r ∈ b.list, ∀ r' ∈ b.list, r.at_ms = r'.at_ms → r = r')
    (hdev : SameDevices b.list) (ht : TidySet e b.list) :
    evalSet e excluded b = evalSet e excluded' b' := by
  have hfamily : b.first.family = b'.first.family :=
    ht.family b.first (by simp [Bucket.list]) b'.first
      (h.mem_iff.mpr (by simp [Bucket.list]))
  have hdevices : sortBy (compareDevices e) (devicesOf b.list).rows =
      sortBy (compareDevices e) (devicesOf b'.list).rows := by
    have := transCmp_compareDevices e
    apply sortBy_eq_of_perm (Table.perm_of_find? (find?_devicesOf_perm h hdev))
    intro x hx y hy htie
    obtain ⟨r, hr, rfl⟩ := mem_devicesOf hx
    obtain ⟨r', hr', rfl⟩ := mem_devicesOf hy
    have hid := ht.devices r hr r' hr' htie
    obtain ⟨hmodel, hsim⟩ := hdev r hr r' hr' hid
    simp [deviceStep, hid, hmodel, hsim]
  have hmodels : sortBy (compareModels e) (modelsOf b.first.family b.list).rows =
      sortBy (compareModels e) (modelsOf b.first.family b'.list).rows := by
    have := transCmp_compareModels e
    apply sortBy_eq_of_perm (Table.perm_of_find? (find?_modelsOf_perm h hat ht))
    intro m hm n hn htie
    obtain ⟨r, -, -, hr, hkey, hlabel, -⟩ := mem_modelsOf hm
    obtain ⟨r', -, -, hr', hkey', hlabel', -⟩ := mem_modelsOf hn
    have hmodel : m.model = r.model := by rw [hlabel]; rfl
    have hmodel' : n.model = r'.model := by rw [hlabel']; rfl
    rw [compareModels, hmodel, hmodel', ← hkey, ← hkey'] at htie
    have hsame : m.key = n.key := by
      rw [← hkey, ← hkey']
      exact ht.models r hr r' hr' htie
    rw [Table.mem_rows_iff] at hm hn
    rw [hsame, hn] at hm
    exact (Option.some.inj hm).symm
  have hexcludedCount : (excluded.filter fun x =>
      decide (x.input_sha256 = some b.input_sha256)).length =
      (excluded'.filter fun x => decide (x.input_sha256 = some b.input_sha256)).length :=
    (hexcluded.filter _).length_eq
  have henergy : (b.list.any fun r => r.energy.isSome) = b'.list.any fun r => r.energy.isSome := by
    rw [Bool.eq_iff_iff, List.any_eq_true, List.any_eq_true]
    simp only [h.mem_iff]
  simp only [evalSet, latest_eq, ← hsha, ← hfamily, workloadsOf_perm h, hdevices, hmodels,
    h.length_eq, latestOf_perm h, hexcludedCount, henergy]

end Tidy

/-! ## What the table has to show -/

/-- The rows a cell is chosen from. -/
def cellRows (rows : List EvalRow) (sha key id : String) : List EvalRow :=
  ofDevice id (ofModel key (setRows rows sha))

/-- A cell is the row's, with all of its numbers and no other. -/
structure Shows (c : Cell) (r : EvalRow) : Prop where
  job : c.job_id = r.job_id
  time : c.at_ms = r.at_ms
  numbers : ∀ k ∈ namedMetrics r.family, ∀ q, number? r.metrics k = some q →
    (k, some q) ∈ c.metrics
  labels : ∀ k q, (k, some q) ∈ c.metrics → number? r.metrics k = some q

/-- Each row is counted once or listed once, and each cell shows its newest row. -/
structure Complete (rows : List EvalRow) (p : Pivot) : Prop where
  sets : (p.sets.map EvalSet.input_sha256).Nodup
  counted : ∀ r ∈ rows, ∀ sha, setOf r = some sha → ∃ s ∈ p.sets, s.input_sha256 = sha
  runs : ∀ s ∈ p.sets, s.runs = (setRows rows s.input_sha256).length
  excluded : p.excluded = rows.filterMap refused
  models : ∀ s ∈ p.sets, (s.models.map ModelRow.key).Nodup
  cells : ∀ s ∈ p.sets, ∀ r ∈ setRows rows s.input_sha256,
    ∃ m ∈ s.models, m.key = modelKey r ∧ ∃ c, m.cells.own r.device_id = some c ∧
      ∃ n, Newest (cellRows rows s.input_sha256 (modelKey r) r.device_id) n ∧ Shows c n

/-- The order the rows are given in is not seen in the sets. -/
def OrderFree (e : Engine) (rows : List EvalRow) : Prop :=
  ∀ rows' : List EvalRow, rows'.Perm rows → (pivotEvals e rows').sets = (pivotEvals e rows).sets

section Main

variable {e : Engine} {rows : List EvalRow}

theorem exists_setAt {sha : String} (h : setRows rows sha ≠ []) :
    ∃ s, setAt e rows sha = some s := by
  cases hrows : setRows rows sha with
  | nil => exact absurd hrows h
  | cons r more => exact ⟨_, by rw [setAt, hrows]; rfl⟩

theorem bucket_of_setAt {sha : String} {s : EvalSet} (h : setAt e rows sha = some s) :
    ∃ b : Bucket, b.input_sha256 = sha ∧ b.list = setRows rows sha ∧
      s = evalSet e (rows.filterMap refused) b := by
  obtain ⟨b, hb, rfl⟩ := Option.map_eq_some_iff.mp h
  obtain ⟨hsha, hlist⟩ := sha_of_bucket? hb
  exact ⟨b, hsha, hlist, rfl⟩

theorem setRows_ne_nil {sha : String} {s : EvalSet} (h : setAt e rows sha = some s) :
    setRows rows sha ≠ [] := by
  obtain ⟨b, -, hlist, -⟩ := bucket_of_setAt h
  rw [← hlist]
  exact List.cons_ne_nil _ _

theorem latest_of_setAt {sha : String} {s : EvalSet} (h : setAt e rows sha = some s) :
    s.latest_at = e.toISOString (latestOf (setRows rows sha)) := by
  obtain ⟨b, -, hlist, rfl⟩ := bucket_of_setAt h
  rw [← hlist, ← latest_eq]
  rfl

theorem nodup_models (excluded : List Excluded) (b : Bucket) :
    ((evalSet e excluded b).models.map ModelRow.key).Nodup :=
  ((perm_sortBy _ _).map _).nodup_iff.mpr (modelsOf b.first.family b.list).nodup

theorem shows_cellOf {family : Family} {r : EvalRow} (h : r.family = family) :
    Shows (cellOf family r) r := by
  subst h
  refine ⟨rfl, rfl, fun k hk q hq => ?_, fun k q hmem => ?_⟩
  · exact List.mem_map.mpr ⟨k, hk, by rw [hq]⟩
  · obtain ⟨j, -, hj⟩ := List.mem_map.mp hmem
    simp only [Prod.mk.injEq] at hj
    rw [← hj.1]
    exact hj.2

/-- The table keeps account of every row, whatever the rows are. -/
theorem complete_of_cells
    (hcells : ∀ s ∈ (pivotEvals e rows).sets, ∀ r ∈ setRows rows s.input_sha256,
      ∃ m ∈ s.models, m.key = modelKey r ∧ ∃ c, m.cells.own r.device_id = some c ∧
        ∃ n, Newest (cellRows rows s.input_sha256 (modelKey r) r.device_id) n ∧ Shows c n) :
    Complete rows (pivotEvals e rows) := by
  refine ⟨nodup_sets e rows, fun r hr sha hsha => ?_, fun s hs => ?_, by rw [pivotEvals_eq],
    fun s hs => ?_, hcells⟩
  · have hne : setRows rows sha ≠ [] := List.ne_nil_of_mem (mem_setRows.mpr ⟨hr, hsha⟩)
    obtain ⟨s, hs⟩ := exists_setAt (e := e) hne
    have hid := sha_of_setAt e hs
    exact ⟨s, (mem_sets e).mpr (hid ▸ hs), hid⟩
  · obtain ⟨b, -, hlist, hb⟩ := bucket_of_setAt ((mem_sets e).mp hs)
    rw [← hlist, hb]
    rfl
  · obtain ⟨b, -, -, rfl⟩ := bucket_of_setAt ((mem_sets e).mp hs)
    exact nodup_models _ b

/-- A row's model is in its set, with the cells made of the rows that have its key. -/
theorem exists_model (excluded : List Excluded) (b : Bucket) {r : EvalRow} (hr : r ∈ b.list) :
    ∃ m ∈ (evalSet e excluded b).models, m.key = modelKey r ∧
      foldRow (modelStep b.first.family) none (ofModel (modelKey r) b.list) = some m := by
  have hne : ofModel (modelKey r) b.list ≠ [] :=
    List.ne_nil_of_mem (List.mem_filter.mpr ⟨hr, by simp⟩)
  obtain ⟨m, hm⟩ := Option.isSome_iff_exists.mp
    ((isSome_foldRow (modelStep b.first.family) none _).mpr (Or.inr hne))
  have hfind : (modelsOf b.first.family b.list).find? (modelKey r) = some m := by
    rw [modelsOf, Table.find?_collect (keyed_modelStep b.first.family)]
    exact hm
  exact ⟨m, (mem_sortBy _).mpr (Table.find?_eq_some_iff.mp hfind).1, Table.key_of_find? hfind, hm⟩

theorem complete_of_tidy (h : Tidy e rows) : Complete rows (pivotEvals e rows) := by
  apply complete_of_cells
  intro s hs r hr
  obtain ⟨b, -, hlist, rfl⟩ := bucket_of_setAt ((mem_sets e).mp hs)
  have ht := h.set (evalSet e (rows.filterMap refused) b).input_sha256
  rw [← hlist] at hr ht
  obtain ⟨m, hm, hkey, hfold⟩ := exists_model (e := e) (rows.filterMap refused) b hr
  have hmem : ∀ x ∈ ofModel (modelKey r) b.list, x ∈ b.list :=
    fun x hx => (List.mem_filter.mp hx).1
  have hcells := cellsOf_foldRow _ (fun x hx => ht.device x (hmem x hx)) hfold
  have hself : r ∈ ofDevice r.device_id (ofModel (modelKey r) b.list) :=
    List.mem_filter.mpr ⟨List.mem_filter.mpr ⟨hr, by simp⟩, by simp⟩
  cases hnew : newest (ofDevice r.device_id (ofModel (modelKey r) b.list)) with
  | none => exact absurd (firstBest_eq_none_iff.mp hnew) (List.ne_nil_of_mem hself)
  | some n =>
      have hn := newest_of_some hnew
      have hfamily : n.family = b.first.family :=
        ht.family n (hmem n (List.mem_filter.mp hn.1).1) b.first (by simp [Bucket.list])
      refine ⟨m, hm, hkey, cellOf b.first.family n, by rw [hcells.own, hnew]; rfl, n, ?_,
        shows_cellOf hfamily⟩
      rw [cellRows, ← hlist]
      exact hn

theorem orderFree_of_tidy (hat : (rows.map EvalRow.at_ms).Nodup) (hdev : SameDevices rows)
    (h : Tidy e rows) : OrderFree e rows := by
  intro rows' hperm
  have hinj : ∀ r ∈ rows, ∀ r' ∈ rows, r.at_ms = r'.at_ms → r = r' := by
    intro r hr r' hr'
    exact List.inj_on_of_nodup_map hat hr hr'
  have hset : ∀ sha, setAt e rows sha = setAt e rows' sha := by
    intro sha
    have hgroup := setRows_perm hperm.symm sha
    cases hx : setRows rows sha with
    | nil =>
        rw [hx] at hgroup
        rw [setAt, setAt, hx, List.nil_perm.mp hgroup]
        rfl
    | cons r more =>
        cases hy : setRows rows' sha with
        | nil =>
            rw [hy] at hgroup
            rw [List.perm_nil.mp hgroup] at hx
            cases hx
        | cons r' more' =>
            have hmem : ∀ x ∈ r :: more, x ∈ rows := fun x hx' =>
              (mem_setRows.mp (hx ▸ hx')).1
            have ht := h.set sha
            rw [hx] at ht hgroup
            rw [hy] at hgroup
            rw [setAt, setAt, hx, hy]
            refine congrArg some (evalSet_perm rfl hgroup (hperm.symm.filterMap _)
              (fun a ha b hb => hinj a (hmem a ha) b (hmem b hb))
              (fun a ha b hb => hdev a (hmem a ha) b (hmem b hb)) ht)
  have hsets : (pivotEvals e rows').sets.Perm (pivotEvals e rows).sets := by
    apply (List.perm_ext_iff_of_nodup (nodup_sets e rows').of_map (nodup_sets e rows).of_map).mpr
    intro s
    rw [mem_sets, mem_sets, hset]
  have hunsorted : ((bySet rows').rows.map (evalSet e (rows'.filterMap refused))).Perm
      ((bySet rows).rows.map (evalSet e (rows.filterMap refused))) := by
    rw [pivotEvals_eq, pivotEvals_eq] at hsets
    exact (perm_sortBy _ _).symm.trans (hsets.trans (perm_sortBy _ _))
  have := transCmp_compareSets e
  rw [pivotEvals_eq, pivotEvals_eq]
  refine sortBy_eq_of_perm hunsorted fun s hs s' hs' htie => ?_
  have hmem : ∀ t ∈ (bySet rows').rows.map (evalSet e (rows'.filterMap refused)),
      setAt e rows t.input_sha256 = some t := by
    intro t ht
    rw [← mem_sets, pivotEvals_eq, mem_sortBy]
    exact hunsorted.mem_iff.mp ht
  have hs := hmem s hs
  have hs' := hmem s' hs'
  have hsha := h.sets _ _ (setRows_ne_nil hs') (setRows_ne_nil hs)
    (by rw [← latest_of_setAt hs, ← latest_of_setAt hs']; exact htie)
  rw [← hsha, hs'] at hs
  exact (Option.some.inj hs).symm

/-! ## When it is -/

theorem exists_perm_cons {r : EvalRow} (hr : r ∈ rows) : ∃ rest, (r :: rest).Perm rows := by
  obtain ⟨before, after, rfl⟩ := List.append_of_mem hr
  exact ⟨before ++ after, List.perm_middle.symm⟩

theorem exists_perm_pair {r r' : EvalRow} (hr : r ∈ rows) (hr' : r' ∈ rows) (hne : r ≠ r') :
    ∃ rest, (r :: r' :: rest).Perm rows := by
  obtain ⟨rest, hrest⟩ := exists_perm_cons hr
  have hmem : r' ∈ rest := (List.mem_cons.mp (hrest.mem_iff.mpr hr')).resolve_left hne.symm
  obtain ⟨rest', hrest'⟩ := exists_perm_cons hmem
  exact ⟨rest', (hrest'.cons r).trans hrest⟩

/-- The set of the row that comes first. -/
theorem setAt_cons {r : EvalRow} {sha : String} (hr : setOf r = some sha) (rest : List EvalRow) :
    setAt e (r :: rest) sha =
      some (evalSet e ((r :: rest).filterMap refused) ⟨sha, r, setRows rest sha⟩) := by
  rw [setAt, setRows_cons_self hr]
  rfl

/-- The row that comes first is the one that gives its set the family. -/
theorem family_of_orderFree (h : OrderFree e rows) {sha : String} {s : EvalSet}
    (hs : setAt e rows sha = some s) {r : EvalRow} (hr : r ∈ setRows rows sha) :
    s.family = r.family := by
  obtain ⟨hmem, hsha⟩ := mem_setRows.mp hr
  obtain ⟨rest, hperm⟩ := exists_perm_cons hmem
  have hfirst := setAt_congr e (h _ hperm) sha
  rw [setAt_cons hsha, hs] at hfirst
  exact congrArg EvalSet.family (Option.some.inj hfirst).symm

theorem label_of_orderFree (h : OrderFree e rows) {sha : String} {s : EvalSet}
    (hs : setAt e rows sha = some s) {r : EvalRow} (hr : r ∈ setRows rows sha) {m : ModelRow}
    (hm : m ∈ s.models) (hnodup : (s.models.map ModelRow.key).Nodup)
    (hkey : m.key = modelKey r) : (m.model, m.quant, m.backend, m.accel) = label r := by
  obtain ⟨hmem, hsha⟩ := mem_setRows.mp hr
  obtain ⟨rest, hperm⟩ := exists_perm_cons hmem
  have hfirst := setAt_congr e (h _ hperm) sha
  rw [setAt_cons hsha, hs] at hfirst
  obtain ⟨n, hn, hnkey, hfold⟩ := exists_model (e := e)
    ((r :: rest).filterMap refused) ⟨sha, r, setRows rest sha⟩ (r := r) (by simp [Bucket.list])
  rw [Option.some.inj hfirst] at hn
  have hsame : m = n := List.inj_on_of_nodup_map hnodup hm hn (hkey.trans hnkey.symm)
  have hrows : ofModel (modelKey r) (r :: setRows rest sha) =
      r :: ofModel (modelKey r) (setRows rest sha) := by simp [ofModel]
  rw [Bucket.list, hrows] at hfold
  rw [hsame, foldRow_modelStep_label _ _ _ hfold]
  rfl

/-- The set of two of its rows, whichever of them comes first. -/
theorem evalSet_swap (h : OrderFree e rows) {sha : String} {r r' : EvalRow}
    (hr : r ∈ setRows rows sha) (hr' : r' ∈ setRows rows sha) (hne : r ≠ r') :
    ∃ rest excluded excluded', evalSet e excluded ⟨sha, r, r' :: rest⟩ =
      evalSet e excluded' ⟨sha, r', r :: rest⟩ := by
  obtain ⟨hmem, hsha⟩ := mem_setRows.mp hr
  obtain ⟨hmem', hsha'⟩ := mem_setRows.mp hr'
  obtain ⟨rest, hperm⟩ := exists_perm_pair hmem hmem' hne
  have hswap : (r' :: r :: rest).Perm rows := (List.Perm.swap r r' rest).trans hperm
  have hsame := (setAt_congr e (h _ hperm) sha).trans (setAt_congr e (h _ hswap) sha).symm
  rw [setAt_cons hsha, setAt_cons hsha', setRows_cons_self hsha, setRows_cons_self hsha'] at hsame
  exact ⟨setRows rest sha, _, _, Option.some.inj hsame⟩

theorem devices_of_orderFree (h : OrderFree e rows) {sha : String} {r r' : EvalRow}
    (hr : r ∈ setRows rows sha) (hr' : r' ∈ setRows rows sha)
    (htie : e.localeCompare r.device_id r'.device_id = .eq) : r.device_id = r'.device_id := by
  by_contra hne
  have := e.consistent
  obtain ⟨rest, excluded, excluded', hsame⟩ := evalSet_swap h hr hr' fun heq => hne (by rw [heq])
  have htie' : e.localeCompare r'.device_id r.device_id = .eq := Std.OrientedCmp.eq_symm htie
  refine hne (Table.name_eq_of_tie keyed_deviceStep keyed_deviceStep ?_ ?_
    (congrArg (List.map DeviceColumn.device_id) (congrArg EvalSet.devices hsame)))
  · intro a _ ha b _ hb
    rw [compareDevices, ha, hb]
    exact htie
  · intro b _ hb a _ ha
    rw [compareDevices, ha, hb]
    exact htie'

/-- The row of the model that came first carries the name it came with. -/
theorem model_of_first {family : Family} {r r' : EvalRow} {rest : List EvalRow} {m : ModelRow}
    (hm : m ∈ (modelsOf family (r :: r' :: rest)).rows) :
    (m.key = modelKey r → m.model = r.model) ∧
      (modelKey r ≠ modelKey r' → m.key = modelKey r' → m.model = r'.model) := by
  obtain ⟨x, more, hx, -, -, hlabel, -⟩ := mem_modelsOf hm
  have hmodel : m.model = x.model := by rw [hlabel]; rfl
  constructor
  · intro hkey
    rw [hkey, ofModel, List.filter_cons_of_pos (by simp), List.cons.injEq] at hx
    rw [hmodel, hx.1]
  · intro hne hkey
    rw [hkey, ofModel, List.filter_cons_of_neg (by simpa using hne),
      List.filter_cons_of_pos (by simp), List.cons.injEq] at hx
    rw [hmodel, hx.1]

theorem models_of_orderFree (h : OrderFree e rows) {sha : String} {r r' : EvalRow}
    (hr : r ∈ setRows rows sha) (hr' : r' ∈ setRows rows sha)
    (htie : (e.localeCompare (r.model.getD "") (r'.model.getD "")).then
      (e.localeCompare (modelKey r) (modelKey r')) = .eq) : modelKey r = modelKey r' := by
  by_contra hne
  have := e.consistent
  obtain ⟨rest, excluded, excluded', hsame⟩ := evalSet_swap h hr hr' fun heq => hne (by rw [heq])
  obtain ⟨hname, hkey⟩ := Ordering.then_eq_eq.mp htie
  refine hne (Table.name_eq_of_tie (keyed_modelStep r.family) (keyed_modelStep r'.family) ?_ ?_
    (congrArg (List.map ModelRow.key) (congrArg EvalSet.models hsame)))
  · intro a ha hakey b hb hbkey
    rw [compareModels, hakey, hbkey, (model_of_first ha).1 hakey, (model_of_first hb).2 hne hbkey]
    exact htie
  · intro b hb hbkey a ha hakey
    rw [compareModels, hakey, hbkey, (model_of_first hb).1 hbkey,
      (model_of_first ha).2 (Ne.symm hne) hakey]
    exact Ordering.then_eq_eq.mpr
      ⟨Std.OrientedCmp.eq_symm hname, Std.OrientedCmp.eq_symm hkey⟩

/-- The sets before they are sorted. -/
def unsortedSets (e : Engine) (rows : List EvalRow) : List EvalSet :=
  (bySet rows).rows.map (evalSet e (rows.filterMap refused))

theorem setAt_of_mem {s : EvalSet} (h : s ∈ unsortedSets e rows) :
    setAt e rows s.input_sha256 = some s := by
  rw [← mem_sets, pivotEvals_eq, mem_sortBy]
  exact h

/-- The sets of the first two rows, in the order of the rows. -/
theorem pair_unsortedSets {r r' : EvalRow} {sha sha' : String} (hsha : setOf r = some sha)
    (hsha' : setOf r' = some sha') (hne : sha ≠ sha') (rest : List EvalRow) :
    ∃ a b, List.Sublist [a, b] (unsortedSets e (r :: r' :: rest)) ∧ a.input_sha256 = sha ∧
      b.input_sha256 = sha' := by
  have hname : setName r = sha := by simp [setName, hsha]
  have hname' : setName r' = sha' := by simp [setName, hsha']
  have hcounted : counted (r :: r' :: rest) = r :: r' :: counted rest := by
    simp [counted, hsha, hsha']
  have hkeys := Table.keys_prefix_collect keyed_setStep (x := r) (y := r')
    (by rw [hname, hname']; exact hne) (counted rest)
  rw [← hcounted, hname, hname'] at hkeys
  apply Table.exists_pair_of_keys
  rw [unsortedSets, List.map_map]
  exact hkeys

theorem latest_of_unsorted {rows' : List EvalRow} (hperm : rows'.Perm rows) {s : EvalSet}
    (h : s ∈ unsortedSets e rows') :
    s.latest_at = e.toISOString (latestOf (setRows rows s.input_sha256)) := by
  rw [latest_of_setAt (setAt_of_mem h), latestOf_perm (setRows_perm hperm _)]

/-- The rows of two sets, whichever of them comes first. -/
theorem sets_of_orderFree (h : OrderFree e rows) {sha sha' : String}
    (hx : setRows rows sha ≠ []) (hy : setRows rows sha' ≠ [])
    (htie : e.localeCompare (e.toISOString (latestOf (setRows rows sha)))
      (e.toISOString (latestOf (setRows rows sha'))) = .eq) : sha = sha' := by
  by_contra hne
  have := e.consistent
  obtain ⟨r, hr⟩ := List.exists_mem_of_ne_nil _ hx
  obtain ⟨r', hr'⟩ := List.exists_mem_of_ne_nil _ hy
  obtain ⟨hmem, hsha⟩ := mem_setRows.mp hr
  obtain ⟨hmem', hsha'⟩ := mem_setRows.mp hr'
  have hdiffer : r ≠ r' := by
    rintro rfl
    exact hne (Option.some.inj (hsha.symm.trans hsha'))
  obtain ⟨rest, hperm⟩ := exists_perm_pair hmem hmem' hdiffer
  have hswap : (r' :: r :: rest).Perm rows := (List.Perm.swap r r' rest).trans hperm
  have hsame := (h _ hperm).trans (h _ hswap).symm
  have hnodup := nodup_sets e (r :: r' :: rest)
  rw [pivotEvals_eq] at hnodup
  rw [pivotEvals_eq, pivotEvals_eq] at hsame
  obtain ⟨a, b, hab, ha, hb⟩ := pair_unsortedSets (e := e) hsha hsha' hne rest
  obtain ⟨b', a', hba, hb', ha'⟩ := pair_unsortedSets (e := e) hsha' hsha (Ne.symm hne) rest
  have hlate := latest_of_unsorted hperm (hab.subset (by simp : a ∈ [a, b]))
  have hlate' := latest_of_unsorted hperm (hab.subset (by simp : b ∈ [a, b]))
  have hswapped := latest_of_unsorted hswap (hba.subset (by simp : a' ∈ [b', a']))
  have hswapped' := latest_of_unsorted hswap (hba.subset (by simp : b' ∈ [b', a']))
  apply hne
  rw [← ha, ← hb]
  apply key_eq_of_tie (ha'.trans ha.symm) (hb'.trans hb.symm) hab hba ?_ ?_ hnodup
    (congrArg (List.map EvalSet.input_sha256) hsame)
  · rw [compareSets, hlate, hlate', ha, hb]
    exact Std.OrientedCmp.eq_symm htie
  · rw [compareSets, hswapped, hswapped', ha', hb']
    exact htie

/-- A row under `__proto__` has no cell of its own. -/
theorem device_of_complete (h : Complete rows (pivotEvals e rows)) {sha : String} {r : EvalRow}
    (hr : r ∈ setRows rows sha) : r.device_id ≠ "__proto__" := by
  intro hproto
  obtain ⟨s, hs⟩ := exists_setAt (e := e) (List.ne_nil_of_mem hr)
  obtain rfl := sha_of_setAt e hs
  have hsets := (mem_sets e).mpr hs
  obtain ⟨m, hm, -, c, hc, -⟩ := h.cells s hsets r hr
  obtain ⟨b, -, -, rfl⟩ := bucket_of_setAt hs
  obtain ⟨x, more, -, -, -, -, hfold⟩ := mem_modelsOf ((mem_sortBy _).mp hm)
  rw [hproto, foldRow_modelStep_proto _ _ hfold] at hc
  cases hc

theorem tidy_of_orderFree (hc : Complete rows (pivotEvals e rows)) (h : OrderFree e rows) :
    Tidy e rows := by
  have hset : ∀ {sha : String} {r : EvalRow}, r ∈ setRows rows sha →
      ∃ s, setAt e rows sha = some s := fun hr => exists_setAt (List.ne_nil_of_mem hr)
  refine ⟨fun sha => ⟨fun r hr => device_of_complete hc hr, fun r hr r' hr' => ?_,
    fun r hr r' hr' hkey => ?_, fun r hr r' hr' => devices_of_orderFree h hr hr',
    fun r hr r' hr' => models_of_orderFree h hr hr'⟩, fun sha sha' => sets_of_orderFree h⟩
  · obtain ⟨s, hs⟩ := hset hr
    rw [← family_of_orderFree h hs hr, ← family_of_orderFree h hs hr']
  · obtain ⟨s, hs⟩ := hset hr
    obtain ⟨b, -, hlist, rfl⟩ := bucket_of_setAt hs
    obtain ⟨m, hm, hmkey, -⟩ :=
      exists_model (e := e) (rows.filterMap refused) b (hlist.symm ▸ hr)
    have hnodup := nodup_models (e := e) (rows.filterMap refused) b
    rw [← label_of_orderFree h hs hr hm hnodup hmkey,
      ← label_of_orderFree h hs hr' hm hnodup (hmkey.trans hkey)]

/-- The table is complete and the order of its rows is not seen exactly when the rows of each set
are of one family, under device names that are own properties, are labelled alike under one key,
and nothing that differs compares equal. -/
theorem complete_iff_tidy (e : Engine) {rows : List EvalRow}
    (hat : (rows.map EvalRow.at_ms).Nodup) (hdev : SameDevices rows) :
    Complete rows (pivotEvals e rows) ∧ OrderFree e rows ↔ Tidy e rows :=
  ⟨fun h => tidy_of_orderFree h.1 h.2, fun h => ⟨complete_of_tidy h, orderFree_of_tidy hat hdev h⟩⟩

end Main

/-! ## Two families over one input -/

/-- Texts by their code points, and the first ten milliseconds of the epoch. -/
def Engine.plain : Engine where
  localeCompare := compare
  consistent := inferInstance
  toISOString ms := "1970-01-01T00:00:00.00" ++ toString ms ++ "Z"

namespace Sample

/-- A batch on one phone, with one number. -/
def batch (job_id backend metric : String) (at_ms : Int) : EvalRow where
  job_id := job_id
  device_id := "pixel"
  device_model := some "Pixel 8"
  simulator := false
  at_ms := some at_ms
  input_sha256 := some "inputs"
  workload := "batch"
  backend := some backend
  model := some "gemma"
  quant := none
  accel := none
  metrics := [(metric, .num 30)]
  params := []
  energy := none

/-- A vision model and a language model that scored the same input. -/
def mixed : List EvalRow := [batch "a" "litert" "top1_pct" 1, batch "b" "llama" "decode_tok_s" 2]

def alike : List EvalRow := [batch "a" "litert" "top1_pct" 1, batch "b" "coreml" "top1_pct" 2]

end Sample

theorem complete_alike :
    (Complete Sample.alike (pivotEvals .plain Sample.alike) ∧ OrderFree .plain Sample.alike ↔
      Tidy .plain Sample.alike) :=
  complete_iff_tidy .plain (by decide) (by simp [SameDevices, Sample.alike, Sample.batch])

/-- The rate of the language model is in no cell, and the order decides which family it is. -/
theorem rate_not_shown :
    (Sample.mixed.map EvalRow.at_ms).Nodup ∧ SameDevices Sample.mixed ∧
    ((pivotEvals .plain Sample.mixed).sets.map fun s => (s.runs, s.named_metrics)) =
      [(2, namedMetrics .vision)] ∧
    ((pivotEvals .plain Sample.mixed.reverse).sets.map EvalSet.named_metrics) =
      [namedMetrics .llm] ∧
    ¬(Complete Sample.mixed (pivotEvals .plain Sample.mixed) ∧ OrderFree .plain Sample.mixed) := by
  refine ⟨by decide, by simp [SameDevices, Sample.mixed, Sample.batch], by decide, by decide, ?_⟩
  rintro ⟨hcomplete, hfree⟩
  have hcounted : ∀ r ∈ Sample.mixed, r ∈ setRows Sample.mixed "inputs" := by
    intro r hr
    have hset : ∀ x ∈ Sample.mixed, setOf x = some "inputs" := by
      simp only [Sample.mixed, List.forall_mem_cons, List.not_mem_nil, false_implies,
        implies_true, and_true]
      decide
    exact mem_setRows.mpr ⟨hr, hset r hr⟩
  have hfamily := ((tidy_of_orderFree hcomplete hfree).set "inputs").family
    (Sample.batch "a" "litert" "top1_pct" 1) (hcounted _ (by simp [Sample.mixed]))
    (Sample.batch "b" "llama" "decode_tok_s" 2) (hcounted _ (by simp [Sample.mixed]))
  exact absurd hfamily (by decide)

end FleetRunner.Evals
