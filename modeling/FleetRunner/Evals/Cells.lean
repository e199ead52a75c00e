import FleetRunner.Evals.Table
import FleetRunner.Library.Maximum

/-!
# Rows, sets and cells (`pivotEvals`)

Every row is counted in one set or listed as excluded, whatever the rows are:
the sets are the groups of the rows that name an input and carry a number of
their own family. The cell of a model on a device is made of the newest row,
as long as no device is called `__proto__`.
-/

namespace FleetRunner.Evals

open Library

/-! ## Where a row goes -/

/-- The set a row is counted in. -/
def setOf (r : EvalRow) : Option String := (inputSha? r).filter fun _ => decide (named r ≠ [])

/-- What is listed for a row that is not counted. -/
def refused (r : EvalRow) : Option Excluded :=
  match inputSha? r with
  | none => some (excludedOf r none noInputReason)
  | some sha =>
    if named r = [] then some (excludedOf r (some sha) (noMetricReason r.family)) else none

/-- A row is listed exactly when no set counts it. -/
theorem isSome_refused_iff (r : EvalRow) : (refused r).isSome = true ↔ setOf r = none := by
  unfold refused setOf
  split
  · rename_i h
    simp [h]
  · rename_i sha h
    by_cases hnamed : named r = [] <;> simp [h, hnamed, Option.filter]

/-- The rows a set counts. -/
def setRows (rows : List EvalRow) (sha : String) : List EvalRow :=
  rows.filter fun r => decide (setOf r = some sha)

theorem mem_setRows {rows : List EvalRow} {sha : String} {r : EvalRow} :
    r ∈ setRows rows sha ↔ r ∈ rows ∧ setOf r = some sha := by
  simp [setRows]

theorem setRows_perm {rows rows' : List EvalRow} (h : rows.Perm rows') (sha : String) :
    (setRows rows sha).Perm (setRows rows' sha) := h.filter _

theorem setRows_cons_self {r : EvalRow} {sha : String} (h : setOf r = some sha)
    (rest : List EvalRow) : setRows (r :: rest) sha = r :: setRows rest sha := by
  simp [setRows, h]

def setName (r : EvalRow) : String := (setOf r).getD ""

def setStep (o : Option Bucket) (r : EvalRow) : Bucket := bucketStep (setName r) o r

def counted (rows : List EvalRow) : List EvalRow := rows.filter fun r => (setOf r).isSome

theorem fileRow_eq (s : Filed) (r : EvalRow) :
    fileRow s r =
      match setOf r with
      | none => { s with excluded := s.excluded ++ (refused r).toList }
      | some sha => { s with bySet := s.bySet.upsert (bucketStep sha (s.bySet.find? sha) r) } := by
  unfold fileRow setOf refused
  cases h : inputSha? r with
  | none => simp
  | some sha => by_cases hnamed : named r = [] <;> simp [hnamed, Option.filter]

/-- The rows in order: those refused are listed, the others filed under their set. -/
theorem foldl_fileRow (rows : List EvalRow) (s : Filed) :
    rows.foldl fileRow s =
      ⟨s.excluded ++ rows.filterMap refused,
        Table.collectFrom setName setStep s.bySet (counted rows)⟩ := by
  induction rows generalizing s with
  | nil => simp [counted, Table.collectFrom]
  | cons r rest ih =>
      rw [List.foldl_cons, ih, fileRow_eq]
      have hrefused := isSome_refused_iff r
      cases hset : setOf r with
      | none =>
          obtain ⟨x, hx⟩ := Option.isSome_iff_exists.mp (hrefused.mpr hset)
          simp [counted, hset, hx]
      | some sha =>
          have hx : refused r = none := by
            simpa [hset] using hrefused
          simp [counted, hset, hx, Table.collectFrom, setStep, setName]

theorem keyed_setStep : Table.Keyed Bucket.input_sha256 setName setStep := by
  intro o r h
  cases o with
  | none => rfl
  | some b => exact h b rfl

/-- The rows of a set as a bucket. -/
def bucket? (sha : String) : List EvalRow → Option Bucket
  | [] => none
  | r :: more => some ⟨sha, r, more⟩

theorem foldRow_setStep (sha : String) (r : EvalRow) (more rest : List EvalRow) :
    foldRow setStep (some ⟨sha, r, more⟩) rest = some ⟨sha, r, more ++ rest⟩ := by
  induction rest generalizing more with
  | nil => simp
  | cons x rest ih =>
      rw [foldRow_cons]
      simpa [setStep, bucketStep] using ih (more ++ [x])

theorem counted_filter (rows : List EvalRow) (sha : String) :
    (counted rows).filter (fun r => decide (setName r = sha)) = setRows rows sha := by
  rw [counted, setRows, List.filter_filter]
  apply List.filter_congr
  intro r _
  cases h : setOf r with
  | none => simp [setName, h]
  | some t => simp [setName, h]

/-- The sets of a list of rows, before they are sorted. -/
def bySet (rows : List EvalRow) : Table Bucket.input_sha256 :=
  .collect Bucket.input_sha256 setName setStep (counted rows)

theorem find?_bySet (rows : List EvalRow) (sha : String) :
    (bySet rows).find? sha = bucket? sha (setRows rows sha) := by
  rw [bySet, Table.find?_collect keyed_setStep, counted_filter]
  cases h : setRows rows sha with
  | nil => rfl
  | cons r more =>
      have hr : setOf r = some sha := (mem_setRows.mp (h ▸ List.mem_cons_self)).2
      rw [foldRow_cons]
      simpa [setStep, bucketStep, setName, hr, bucket?] using foldRow_setStep sha r [] more

variable (e : Engine)

theorem pivotEvals_eq (rows : List EvalRow) :
    pivotEvals e rows =
      { sets := sortBy (compareSets e)
          ((bySet rows).rows.map (evalSet e (rows.filterMap refused)))
        excluded := rows.filterMap refused } := by
  simp [pivotEvals, foldl_fileRow, bySet, Table.collect]

/-- The set of an input, if a row is counted in it. -/
def setAt (rows : List EvalRow) (sha : String) : Option EvalSet :=
  (bucket? sha (setRows rows sha)).map (evalSet e (rows.filterMap refused))

theorem sha_of_bucket? {sha : String} {list : List EvalRow} {b : Bucket}
    (h : bucket? sha list = some b) : b.input_sha256 = sha ∧ b.list = list := by
  cases list with
  | nil => cases h
  | cons r more =>
      obtain rfl := Option.some.inj h
      exact ⟨rfl, rfl⟩

theorem mem_sets {rows : List EvalRow} {s : EvalSet} :
    s ∈ (pivotEvals e rows).sets ↔ setAt e rows s.input_sha256 = some s := by
  rw [pivotEvals_eq, mem_sortBy, List.mem_map, setAt, Option.map_eq_some_iff]
  constructor
  · rintro ⟨b, hb, rfl⟩
    rw [Table.mem_rows_iff, find?_bySet] at hb
    exact ⟨b, hb, rfl⟩
  · rintro ⟨b, hb, hs⟩
    refine ⟨b, ?_, hs⟩
    rw [Table.mem_rows_iff, find?_bySet, (sha_of_bucket? hb).1]
    exact hb

theorem sha_of_setAt {rows : List EvalRow} {sha : String} {s : EvalSet}
    (h : setAt e rows sha = some s) : s.input_sha256 = sha := by
  obtain ⟨b, hb, rfl⟩ := Option.map_eq_some_iff.mp h
  exact (sha_of_bucket? hb).1

/-- No input has two sets. -/
theorem nodup_sets (rows : List EvalRow) :
    ((pivotEvals e rows).sets.map EvalSet.input_sha256).Nodup := by
  rw [pivotEvals_eq]
  refine ((perm_sortBy _ _).map _).nodup_iff.mpr ?_
  rw [List.map_map]
  exact (bySet rows).nodup

/-- Where two arrangements give the same sets, they give the same set for an input. -/
theorem setAt_congr {rows rows' : List EvalRow}
    (h : (pivotEvals e rows').sets = (pivotEvals e rows).sets) (sha : String) :
    setAt e rows' sha = setAt e rows sha := by
  apply Option.ext
  intro s
  constructor
  · intro hs
    obtain rfl := sha_of_setAt e hs
    rw [← mem_sets, ← h, mem_sets]
    exact hs
  · intro hs
    obtain rfl := sha_of_setAt e hs
    rw [← mem_sets, h, mem_sets]
    exact hs

/-! ## The cells of a model -/

omit e

@[simp] theorem notBefore_self (t : Option Int) : notBefore t t = true := by
  cases t <;> simp [notBefore]

theorem notBefore_total (s t : Option Int) : notBefore s t = true ∨ notBefore t s = true := by
  cases s <;> cases t <;> simp [notBefore, Int.le_total]

theorem notBefore_trans {s t u : Option Int} (hst : notBefore s t = true)
    (htu : notBefore t u = true) : notBefore s u = true := by
  cases s <;> cases t <;> cases u <;> simp_all [notBefore]
  omega

theorem notBefore_antisymm {s t : Option Int} (hst : notBefore s t = true)
    (hts : notBefore t s = true) : s = t := by
  cases s <;> cases t <;> simp_all [notBefore]
  omega

/-- A row none of the others is newer than. -/
def Newest (xs : List EvalRow) (n : EvalRow) : Prop :=
  n ∈ xs ∧ ∀ x ∈ xs, notBefore n.at_ms x.at_ms = true

/-- The scan of the cells of one device: a row no older than the one held takes over. -/
def newest (xs : List EvalRow) : Option EvalRow :=
  firstBest (fun best r => notBefore r.at_ms best.at_ms) xs

theorem newest_of_some {xs : List EvalRow} {n : EvalRow} (h : newest xs = some n) :
    Newest xs n := by
  refine ⟨mem_of_firstBest h, ?_⟩
  induction xs using List.reverseRecOn generalizing n with
  | nil => cases h
  | append_singleton past r ih =>
      rw [newest, firstBest_concat] at h
      intro x hx
      rw [List.mem_append, List.mem_singleton] at hx
      cases hpast : firstBest (fun best r : EvalRow => notBefore r.at_ms best.at_ms) past with
      | none =>
          rw [firstBest_eq_none_iff] at hpast
          subst hpast
          obtain rfl : r = n := by simpa [pick] using h
          rcases hx with hx | rfl
          · cases hx
          · simp
      | some b =>
          rw [hpast] at h
          by_cases hb : notBefore r.at_ms b.at_ms = true
          · obtain rfl : r = n := by simpa [pick, hb] using h
            rcases hx with hx | rfl
            · exact notBefore_trans hb (ih hpast x hx)
            · simp
          · obtain rfl : b = n := by simpa [pick, hb] using h
            rcases hx with hx | rfl
            · exact ih hpast x hx
            · exact (notBefore_total _ _).resolve_right hb

/-- Rows with distinct times have one newest row. -/
theorem Newest.eq {xs : List EvalRow} (hat : ∀ r ∈ xs, ∀ r' ∈ xs, r.at_ms = r'.at_ms → r = r')
    {m n : EvalRow} (hm : Newest xs m) (hn : Newest xs n) : m = n :=
  hat m hm.1 n hn.1 (notBefore_antisymm (hm.2 n hn.1) (hn.2 m hm.1))

theorem Newest.perm {xs ys : List EvalRow} (h : xs.Perm ys) {n : EvalRow} (hn : Newest xs n) :
    Newest ys n :=
  ⟨h.mem_iff.mp hn.1, fun x hx => hn.2 x (h.mem_iff.mpr hx)⟩

theorem newest_perm {xs ys : List EvalRow} (h : xs.Perm ys)
    (hat : ∀ r ∈ xs, ∀ r' ∈ xs, r.at_ms = r'.at_ms → r = r') : newest xs = newest ys := by
  cases hx : newest xs with
  | none =>
      obtain rfl := firstBest_eq_none_iff.mp hx
      rw [List.nil_perm.mp h]
      rfl
  | some m =>
      cases hy : newest ys with
      | none =>
          obtain rfl := firstBest_eq_none_iff.mp hy
          rw [List.perm_nil.mp h] at hx
          cases hx
      | some n =>
          have hn := (newest_of_some hy).perm h.symm
          rw [(newest_of_some hx).eq hat hn]

def ofDevice (id : String) (xs : List EvalRow) : List EvalRow :=
  xs.filter fun r => decide (r.device_id = id)

def ofModel (key : String) (xs : List EvalRow) : List EvalRow :=
  xs.filter fun r => decide (modelKey r = key)

theorem keyed_modelStep (family : Family) :
    Table.Keyed ModelRow.key modelKey (modelStep family) := by
  intro o r h
  have hrow : (o.getD (.start r)).key = modelKey r := by
    cases o with
    | none => rfl
    | some m => exact h m rfl
  simp only [modelStep]
  split <;> exact hrow

/-- A step writes the cells and leaves what the row is labelled with. -/
theorem modelStep_eq (family : Family) (o : Option ModelRow) (r : EvalRow) :
    modelStep family o r =
      { o.getD (.start r) with cells := (modelStep family o r).cells } := by
  simp only [modelStep]
  split <;> rfl

/-- The first row labels the model. -/
theorem foldRow_modelStep_label (family : Family) (r : EvalRow) (more : List EvalRow)
    {m : ModelRow} (h : foldRow (modelStep family) none (r :: more) = some m) :
    m = { ModelRow.start r with cells := m.cells } := by
  induction more using List.reverseRecOn generalizing m with
  | nil =>
      obtain rfl := Option.some.inj h
      exact modelStep_eq family none r
  | append_singleton past x ih =>
      rw [← List.cons_append, foldRow_concat] at h
      obtain rfl := Option.some.inj h
      cases hpast : foldRow (modelStep family) none (r :: past) with
      | none =>
          have hsome := (isSome_foldRow (modelStep family) none (r :: past)).mpr (Or.inr (by simp))
          rw [hpast] at hsome
          cases hsome
      | some m =>
          rw [modelStep_eq, Option.getD_some, ih hpast]

/-- `__proto__` never names an own property. -/
theorem own_put_proto (cells : Cells) (id : String) (c : Cell)
    (h : cells.own "__proto__" = none) : (cells.put id c).own "__proto__" = none := by
  unfold Cells.put
  split
  · exact h
  · rename_i hne
    simp [Ne.symm hne, h]

theorem own_modelStep_proto (family : Family) (o : Option ModelRow) (r : EvalRow)
    (h : ∀ m, o = some m → m.cells.own "__proto__" = none) :
    (modelStep family o r).cells.own "__proto__" = none := by
  have hrow : (o.getD (.start r)).cells.own "__proto__" = none := by
    cases o with
    | none => rfl
    | some m => exact h m rfl
  simp only [modelStep]
  split
  · exact own_put_proto _ _ _ hrow
  · exact hrow

theorem foldRow_modelStep_proto (family : Family) (xs : List EvalRow) {m : ModelRow}
    (h : foldRow (modelStep family) none xs = some m) : m.cells.own "__proto__" = none := by
  induction xs using List.reverseRecOn generalizing m with
  | nil => cases h
  | append_singleton past x ih =>
      rw [foldRow_concat] at h
      obtain rfl := Option.some.inj h
      exact own_modelStep_proto family _ x fun m hm => ih hm

/-- Every device has the cell of its newest row. -/
structure CellsOf (family : Family) (xs : List EvalRow) (cells : Cells) : Prop where
  proto : cells.proto = none
  own : ∀ id, cells.own id = (newest (ofDevice id xs)).map (cellOf family)

theorem cellsOf_modelStep (family : Family) {past : List EvalRow} {o : Option ModelRow}
    (r : EvalRow) (hr : r.device_id ≠ "__proto__")
    (h : CellsOf family past (o.getD (.start r)).cells) :
    CellsOf family (past ++ [r]) (modelStep family o r).cells := by
  obtain ⟨hproto, hown⟩ := h
  have hother : ∀ id, id ≠ r.device_id → ofDevice id (past ++ [r]) = ofDevice id past := by
    intro id hid
    simp [ofDevice, Ne.symm hid]
  have hself : newest (ofDevice r.device_id (past ++ [r])) =
      pick (fun best r => notBefore r.at_ms best.at_ms) (newest (ofDevice r.device_id past)) r := by
    have happend : ofDevice r.device_id (past ++ [r]) = ofDevice r.device_id past ++ [r] := by
      simp [ofDevice]
    rw [happend, newest, firstBest_concat]
    rfl
  have hprior : ((o.getD (.start r)).cells.prior r.device_id).yields r.at_ms =
      (newest (ofDevice r.device_id past)).all fun best => notBefore r.at_ms best.at_ms := by
    rw [Cells.prior, hown, hproto]
    cases newest (ofDevice r.device_id past) <;> rfl
  simp only [modelStep, hprior]
  split
  · rename_i hyields
    refine ⟨by simp [Cells.put, hr, hproto], fun id => ?_⟩
    by_cases hid : id = r.device_id
    · subst hid
      rw [hself]
      cases hbest : newest (ofDevice r.device_id past) with
      | none => simp [Cells.put, hr, pick]
      | some best =>
          rw [hbest] at hyields
          have hlater : notBefore r.at_ms best.at_ms = true := hyields
          simp [Cells.put, hr, pick, hlater]
    · rw [hother id hid, ← hown id]
      simp [Cells.put, hr, hid]
  · rename_i hyields
    refine ⟨hproto, fun id => ?_⟩
    by_cases hid : id = r.device_id
    · subst hid
      rw [hself, hown]
      cases hbest : newest (ofDevice r.device_id past) with
      | none => simp [hbest] at hyields
      | some best =>
          have hearlier : notBefore r.at_ms best.at_ms = false := by simpa [hbest] using hyields
          simp [pick, hearlier]
    · rw [hother id hid, hown id]

theorem cellsOf_foldRow (family : Family) {xs : List EvalRow}
    (hxs : ∀ r ∈ xs, r.device_id ≠ "__proto__") {m : ModelRow}
    (h : foldRow (modelStep family) none xs = some m) : CellsOf family xs m.cells := by
  induction xs using List.reverseRecOn generalizing m with
  | nil => cases h
  | append_singleton past r ih =>
      rw [foldRow_concat] at h
      obtain rfl := Option.some.inj h
      apply cellsOf_modelStep family r (hxs r (by simp))
      cases hpast : foldRow (modelStep family) none past with
      | none =>
          have hnil : past = [] := by
            by_contra hne
            have hsome := (isSome_foldRow (modelStep family) none past).mpr (Or.inr hne)
            rw [hpast] at hsome
            cases hsome
          subst hnil
          exact ⟨rfl, fun id => rfl⟩
      | some m => exact ih (fun r hr => hxs r (List.mem_append_left _ hr)) hpast

end FleetRunner.Evals
