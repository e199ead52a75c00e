import FleetRunner.Mutations

/-!
# What settling does

Settling re-reads the dependencies of every waiter it visits, and a job may be
visited more than once in one transaction. `Settling` says what the rows look
like at any point of it: a row is what it was, or it was waiting and has been
closed or promoted for a reason that still holds. `settle_due` is the purpose
of the whole: once a job has closed, no waiting job is left whose dependencies
already decide it.

## Implementation notes

A job names only jobs inserted before it (`Ordered`), so a cascade climbs the
insertion order and the number of rows bounds its depth.
-/

namespace FleetRunner

open Library

/-- A dependency that can no longer be done. -/
def spoiled : Option Status → Bool
  | none => true
  | some s => s.broken

def SpoiledDep (db : Db) (w : Job) : Prop := ∃ d ∈ w.depends_on, spoiled (db.status? d) = true

def AllDone (db : Db) (w : Job) : Prop := ∀ d ∈ w.depends_on, db.status? d = some .done

/-- The dependencies decide the job one way or the other. -/
def Due (db : Db) (w : Job) : Prop := SpoiledDep db w ∨ AllDone db w

theorem not_allDone_of_spoiledDep {db : Db} {w : Job} (h : SpoiledDep db w) : ¬AllDone db w := by
  rintro hall
  obtain ⟨d, hd, hs⟩ := h
  simp [hall d hd, spoiled, Status.broken] at hs

/-- A job that is not due still has a dependency under way. -/
theorem exists_live_of_not_due {db : Db} {w : Job} (h : ¬Due db w) :
    ∃ d ∈ w.depends_on, ∃ s, db.status? d = some s ∧ s.live = true := by
  simp only [Due, not_or, AllDone, not_forall] at h
  obtain ⟨hgood, d, hd, hne⟩ := h
  refine ⟨d, hd, ?_⟩
  cases hs : db.status? d with
  | none => exact absurd ⟨d, hd, by simp [spoiled, hs]⟩ hgood
  | some s =>
      have hb : s.broken = false := by
        by_contra hb
        exact hgood ⟨d, hd, by simpa [spoiled, hs] using hb⟩
      refine ⟨s, rfl, Status.live_of_not_broken hb ?_⟩
      rintro rfl
      exact hne hs

variable (js : Js)

/-- The spec of a waiter with its references filled from the results posted. -/
def filledSpec (db : Db) (w : Job) : Json × List String :=
  substituteDepRefs js (resolveDepRef db) w.spec

/-- What a verdict says about the dependencies it was read from. -/
inductive Decides (db : Db) (w : Job) : WaiterVerdict → Prop
  | broken (reason : String) : SpoiledDep db w → Decides db w (.fail reason)
  | skipped (reason : String) : SpoiledDep db w → Decides db w (.skip reason)
  | undecided : ¬Due db w → Decides db w .wait
  | unresolved (reason : String) : AllDone db w → (filledSpec js db w).2 ≠ [] →
      Decides db w (.fail reason)
  | ready : AllDone db w → (filledSpec js db w).2 = [] →
      Decides db w (.promote (filledSpec js db w).1)

theorem spoiled_of_brokenDep {s : Option Status} (h : brokenDep s = true) : spoiled s = true := by
  rcases s with _ | s
  · rfl
  · cases s <;> simp_all [brokenDep, spoiled, Status.broken]

theorem spoiled_iff {s : Option Status} :
    spoiled s = true ↔ brokenDep s = true ∨ s = some .skipped := by
  rcases s with _ | s
  · simp [spoiled, brokenDep]
  · cases s <;> simp [brokenDep, spoiled, Status.broken]

theorem waiterVerdict_decides (db : Db) (w : Job) : Decides js db w (waiterVerdict js db w) := by
  unfold waiterVerdict
  split
  · rename_i d hd
    exact .broken _ ⟨d, List.mem_of_find?_eq_some hd, spoiled_of_brokenDep (by simpa using List.find?_some hd)⟩
  · rename_i hbroken
    split
    · rename_i d hd
      refine .skipped _ ⟨d, List.mem_of_find?_eq_some hd, ?_⟩
      exact spoiled_iff.mpr (Or.inr (by simpa using List.find?_some hd))
    · rename_i hskipped
      have hgood : ¬SpoiledDep db w := by
        rintro ⟨d, hd, hs⟩
        rcases spoiled_iff.mp hs with hs | hs
        · exact List.find?_eq_none.mp hbroken d hd hs
        · exact List.find?_eq_none.mp hskipped d hd (by simpa using hs)
      split
      · rename_i hall
        have hdone : AllDone db w := by simpa [AllDone] using hall
        change Decides js db w (if (filledSpec js db w).2.isEmpty = true then _ else _)
        split
        · rename_i hfilled
          exact .ready hdone (List.isEmpty_iff.mp hfilled)
        · rename_i hfilled
          exact .unresolved _ hdone (by simpa using hfilled)
      · rename_i hall
        refine .undecided ?_
        rintro (h | h)
        · exact hgood h
        · exact hall (by simpa [AllDone] using h)

theorem waiterVerdict_wait_iff {db : Db} {w : Job} :
    waiterVerdict js db w = .wait ↔ ¬Due db w := by
  have h := waiterVerdict_decides js db w
  constructor
  · intro hw
    rw [hw] at h
    cases h with
    | undecided hnot => exact hnot
  · intro hnot
    generalize waiterVerdict js db w = v at h
    cases h with
    | undecided _ => rfl
    | broken _ hs => exact absurd (Or.inl hs) hnot
    | skipped _ hs => exact absurd (Or.inl hs) hnot
    | unresolved _ hall _ => exact absurd (Or.inr hall) hnot
    | ready hall _ => exact absurd (Or.inr hall) hnot

/-! ## Rows while settling is under way -/

/-- What has become of a row: as it was, or settled for a reason that holds now. -/
inductive Settled (db : Db) (w : Job) : Job → Prop
  | untouched : Settled db w w
  | failed (reason : String) : w.status = .waiting →
      (SpoiledDep db w ∨ AllDone db w ∧ (filledSpec js db w).2 ≠ []) →
      Settled db w (closedRow .failed db.sqlNow reason w)
  | skipped (reason : String) : w.status = .waiting → SpoiledDep db w →
      Settled db w (closedRow .skipped db.sqlNow reason w)
  | promoted : w.status = .waiting → AllDone db w → (filledSpec js db w).2 = [] →
      Settled db w (promotedRow (filledSpec js db w).1 w)

variable {js}

theorem Settled.eq_of_waiting {db : Db} {w r : Job} (h : Settled js db w r)
    (hr : r.status = .waiting) : r = w := by
  cases h with
  | untouched => rfl
  | failed => simp [closedRow] at hr
  | skipped => simp [closedRow] at hr
  | promoted => simp [promotedRow] at hr

/-- A row that was not waiting is not touched. -/
theorem Settled.eq_of_not_waiting {db : Db} {w r : Job} (h : Settled js db w r)
    (hw : w.status ≠ .waiting) : r = w := by
  cases h with
  | untouched => rfl
  | failed _ hs => exact absurd hs hw
  | skipped _ hs => exact absurd hs hw
  | promoted hs => exact absurd hs hw

/-- Settled dependencies stay settled. -/
def Keeps (db db' : Db) : Prop :=
  (∀ d, spoiled (db.status? d) = true → spoiled (db'.status? d) = true) ∧
    ∀ d, db.status? d = some .done → db'.status? d = some .done

theorem Keeps.spoiledDep {db db' : Db} (h : Keeps db db') {w : Job} (hs : SpoiledDep db w) :
    SpoiledDep db' w := by
  obtain ⟨d, hd, hs⟩ := hs
  exact ⟨d, hd, h.1 d hs⟩

theorem Keeps.allDone {db db' : Db} (h : Keeps db db') {w : Job} (ha : AllDone db w) :
    AllDone db' w := fun d hd => h.2 d (ha d hd)

theorem Keeps.due {db db' : Db} (h : Keeps db db') {w : Job} (hd : Due db w) : Due db' w :=
  hd.imp h.spoiledDep h.allDone

/-- The jobs table is the only one settling writes. -/
def SameButJobs (db db' : Db) : Prop := ∃ jobs, db' = { db with jobs }

theorem Settled.mono {db db' : Db} (hsame : SameButJobs db db') (hkeeps : Keeps db db') {w r : Job}
    (h : Settled js db w r) : Settled js db' w r := by
  obtain ⟨jobs, rfl⟩ := hsame
  cases h with
  | untouched => exact .untouched
  | failed reason hw hs =>
      exact .failed reason hw (hs.imp hkeeps.spoiledDep fun h => ⟨hkeeps.allDone h.1, h.2⟩)
  | skipped reason hw hs => exact .skipped reason hw (hkeeps.spoiledDep hs)
  | promoted hw ha hf => exact .promoted hw (hkeeps.allDone ha) hf

/-- The ids of all jobs, in insertion order. -/
def order (db : Db) : List String := db.jobs.rows.map (·.job_id)

variable (js) in
/-- The state somewhere inside a settlement that began at `start`. -/
structure Settling (start db : Db) : Prop where
  same : SameButJobs start db
  order_eq : order db = order start
  missing : ∀ id, start.job? id = none → db.job? id = none
  rows : ∀ id w, start.job? id = some w → ∃ r, db.job? id = some r ∧ Settled js db w r

theorem Settling.refl (db : Db) : Settling js db db :=
  ⟨⟨db.jobs, rfl⟩, rfl, fun _ h => h, fun _ w h => ⟨w, h, .untouched⟩⟩

/-- A row still waiting is the row it was. -/
theorem Settling.waiting {start db : Db} (h : Settling js start db) {id : String} {w : Job}
    (hw : db.job? id = some w) (hs : w.status = .waiting) : start.job? id = some w := by
  cases hstart : start.job? id with
  | none => simp [h.missing id hstart] at hw
  | some w₀ =>
      obtain ⟨r, hr, hsettled⟩ := h.rows id w₀ hstart
      obtain rfl : r = w := Option.some.inj (hr.symm.trans hw)
      rw [hsettled.eq_of_waiting hs]

theorem Settling.of_not_waiting {start db : Db} (h : Settling js start db) {id : String} {r : Job}
    (hr : start.job? id = some r) (hs : r.status ≠ .waiting) : db.job? id = some r := by
  obtain ⟨r', hr', hsettled⟩ := h.rows id r hr
  rw [hr', hsettled.eq_of_not_waiting hs]

theorem order_updateJob (db : Db) (id : String) (f : Job → Job)
    (hf : ∀ r, (f r).job_id = r.job_id) : order (db.updateJob id f hf) = order db :=
  Table.map_rows_update db.jobs id f hf (·.job_id) hf

theorem status?_updateJob_of_ne (db : Db) {id d : String} (h : d ≠ id) (f : Job → Job)
    (hf : ∀ r, (f r).job_id = r.job_id) : (db.updateJob id f hf).status? d = db.status? d := by
  simp [Db.status?, Db.job?_updateJob_of_ne db h f hf]

/-- One row is settled again, in a way its dependencies still ask for. -/
theorem Settling.update {start db : Db} (h : Settling js start db) {w : Job}
    (hw : start.job? w.job_id = some w) {f : Job → Job} (hf : ∀ r, (f r).job_id = r.job_id)
    (hkeeps : Keeps db (db.updateJob w.job_id f hf))
    (hrow : ∀ r, Settled js db w r → Settled js db w (f r)) :
    Settling js start (db.updateJob w.job_id f hf) := by
  have hsame : SameButJobs db (db.updateJob w.job_id f hf) := ⟨_, rfl⟩
  refine ⟨?_, ?_, ?_, ?_⟩
  · obtain ⟨jobs, rfl⟩ := h.same
    exact ⟨_, rfl⟩
  · rw [order_updateJob, h.order_eq]
  · intro id hid
    have hmissing := h.missing id hid
    rw [Db.job?_updateJob, hmissing]
    split <;> rfl
  · intro id v hv
    obtain ⟨r, hr, hsettled⟩ := h.rows id v hv
    by_cases hid : id = w.job_id
    · subst hid
      obtain rfl : w = v := Option.some.inj (hw.symm.trans hv)
      exact ⟨f r, by simp [hr], (hrow r hsettled).mono hsame hkeeps⟩
    · exact ⟨r, by simp [Db.job?_updateJob, hid, hr], hsettled.mono hsame hkeeps⟩

/-- An update that does not undo a settled status keeps every dependency. -/
theorem keeps_updateJob (db : Db) (id : String) (f : Job → Job)
    (hf : ∀ r, (f r).job_id = r.job_id)
    (hrow : ∀ r, db.job? id = some r →
      (r.status.broken = true → (f r).status.broken = true) ∧
        (r.status = .done → (f r).status = .done)) :
    Keeps db (db.updateJob id f hf) := by
  constructor <;> intro d hd
  · by_cases hid : d = id
    · subst hid
      cases hr : db.job? d with
      | none => simp [Db.status?, hr, spoiled]
      | some r =>
          have hbroken : r.status.broken = true := by simpa [Db.status?, hr, spoiled] using hd
          simpa [Db.status?, hr, spoiled] using (hrow r hr).1 hbroken
    · rwa [status?_updateJob_of_ne db hid]
  · by_cases hid : d = id
    · subst hid
      obtain ⟨r, hr, hdone⟩ := Db.status?_eq_some.mp hd
      exact Db.status?_eq_some.mpr ⟨f r, by simp [hr], (hrow r hr).2 hdone⟩
    · rwa [status?_updateJob_of_ne db hid]

/-- A waiter the loop holds, as it was when the settlement began. -/
def Snapshot (start : Db) (w : Job) : Prop :=
  start.job? w.job_id = some w ∧ w.status = .waiting

theorem Settling.closeWaiter {start db : Db} (h : Settling js start db) {w : Job}
    (hw : Snapshot start w) {status : Status} {reason : String}
    (hbroken : status.broken = true)
    (hrow : Settled js db w (closedRow status db.sqlNow reason w)) :
    Settling js start (closeWaiter status db w.job_id reason) := by
  refine h.update (f := closedRow status db.sqlNow reason) hw.1 (closedRow_job_id _ _ _)
    (keeps_updateJob _ _ _ _ ?_) ?_
  · intro r hr
    refine ⟨fun _ => hbroken, fun hdone => ?_⟩
    obtain ⟨r', hr', hsettled⟩ := h.rows _ w hw.1
    obtain rfl : r' = r := Option.some.inj (hr'.symm.trans hr)
    cases hsettled with
    | untouched => simp [hw.2] at hdone
    | failed => simp [closedRow] at hdone
    | skipped => simp [closedRow] at hdone
    | promoted => simp [promotedRow] at hdone
  · intro r hsettled
    cases hsettled with
    | untouched => exact hrow
    | failed => exact hrow
    | skipped => exact hrow
    | promoted _ hall hres =>
        -- a promoted waiter is not closed: its dependencies are done and resolve
        generalize hr : closedRow status db.sqlNow reason w = r at hrow
        cases hrow with
        | untouched =>
            rw [← hr] at hw
            simp [Snapshot, closedRow] at hw
            simp [hw.2, Status.broken] at hbroken
        | failed _ _ hs =>
            rcases hs with hs | hs
            · exact absurd hall (not_allDone_of_spoiledDep hs)
            · exact absurd hres hs.2
        | skipped _ _ hs => exact absurd hall (not_allDone_of_spoiledDep hs)
        | promoted =>
            simp only [closedRow, promotedRow, Job.mk.injEq] at hr
            obtain ⟨-, -, -, rfl, -⟩ := hr
            simp [Status.broken] at hbroken

theorem Settling.promoteWaiter {start db : Db} (h : Settling js start db) {w : Job}
    (hw : Snapshot start w) (hall : AllDone db w) (hres : (filledSpec js db w).2 = []) :
    Settling js start (promoteWaiter db w.job_id (filledSpec js db w).1) := by
  have hrow : Settled js db w (promotedRow (filledSpec js db w).1 w) := .promoted hw.2 hall hres
  refine h.update (f := promotedRow (filledSpec js db w).1) hw.1 (promotedRow_job_id _)
    (keeps_updateJob _ _ _ _ ?_) ?_
  · intro r hr
    obtain ⟨r', hr', hsettled⟩ := h.rows _ w hw.1
    obtain rfl : r' = r := Option.some.inj (hr'.symm.trans hr)
    cases hsettled with
    | untouched => simp [hw.2, Status.broken]
    | failed _ _ hs =>
        rcases hs with hs | hs
        · exact absurd hall (not_allDone_of_spoiledDep hs)
        · exact absurd hres hs.2
    | skipped _ _ hs => exact absurd hall (not_allDone_of_spoiledDep hs)
    | promoted => simp [promotedRow, Status.broken]
  · intro r hsettled
    cases hsettled with
    | untouched => exact hrow
    | failed _ _ hs =>
        rcases hs with hs | hs
        · exact absurd hall (not_allDone_of_spoiledDep hs)
        · exact absurd hres hs.2
    | skipped _ _ hs => exact absurd hall (not_allDone_of_spoiledDep hs)
    | promoted => exact hrow

/-! ## The loop and the recursion -/

theorem snapshot_of_mem_waitersOn {db : Db} {closed : String} {w : Job}
    (h : w ∈ waitersOn db closed) : Snapshot db w ∧ closed ∈ w.depends_on := by
  obtain ⟨hmem, hw⟩ := List.mem_filter.mp h
  simp only [Bool.and_eq_true, decide_eq_true_eq, List.contains_iff_mem] at hw
  exact ⟨⟨Table.mem_rows_iff.mp hmem, hw.1⟩, hw.2⟩

theorem mem_waitersOn {db : Db} {closed id : String} {w : Job} (h : db.job? id = some w)
    (hw : w.status = .waiting) (hd : closed ∈ w.depends_on) : w ∈ waitersOn db closed :=
  List.mem_filter.mpr ⟨(Table.find?_eq_some_iff.mp h).1, by simp [hw, hd]⟩

/-- A waiter of a later snapshot is one of the start. -/
theorem Settling.snapshot {start db : Db} (h : Settling js start db) {w : Job}
    (hw : Snapshot db w) : Snapshot start w :=
  ⟨h.waiting hw.1 hw.2, hw.2⟩

variable (js) in
theorem Settling.settleOne {start : Db} {rest : Db → String → DepSettlement → Db × DepSettlement}
    (hrest : ∀ db closed out, Settling js start db → Settling js start (rest db closed out).1)
    {s : Db × DepSettlement} (h : Settling js start s.1) {w : Job} (hw : Snapshot start w) :
    Settling js start (settleOne js rest s w).1 := by
  have hv := waiterVerdict_decides js s.1 w
  unfold FleetRunner.settleOne
  generalize waiterVerdict js s.1 w = v at hv
  cases hv with
  | broken reason hs =>
      exact hrest _ _ _ (h.closeWaiter hw rfl (.failed reason hw.2 (Or.inl hs)))
  | skipped reason hs => exact hrest _ _ _ (h.closeWaiter hw rfl (.skipped reason hw.2 hs))
  | undecided _ => exact h
  | unresolved reason hall hres =>
      exact hrest _ _ _ (h.closeWaiter hw rfl (.failed reason hw.2 (Or.inr ⟨hall, hres⟩)))
  | ready hall hres => exact h.promoteWaiter hw hall hres

variable (js) in
theorem Settling.foldl {start : Db} {rest : Db → String → DepSettlement → Db × DepSettlement}
    (hrest : ∀ db closed out, Settling js start db → Settling js start (rest db closed out).1)
    {ws : List Job} (hws : ∀ w ∈ ws, Snapshot start w) {s : Db × DepSettlement}
    (h : Settling js start s.1) :
    Settling js start (ws.foldl (FleetRunner.settleOne js rest) s).1 := by
  induction ws generalizing s with
  | nil => exact h
  | cons w ws ih =>
      exact ih (fun v hv => hws v (List.mem_cons_of_mem w hv))
        (h.settleOne js hrest (hws w List.mem_cons_self))

theorem Settling.settleWaiters {start : Db} (depth : Nat) (db : Db) (closed : String)
    (out : DepSettlement) (h : Settling js start db) :
    Settling js start (settleWaiters js depth db closed out).1 := by
  induction depth generalizing db closed out with
  | zero => exact h
  | succ depth ih =>
      exact Settling.foldl js ih
        (fun w hw => h.snapshot (snapshot_of_mem_waitersOn hw).1) h

/-- Whatever a settlement does to a row, its dependencies ask for. -/
theorem settling_settle (js : Js) (db : Db) (closed : String) : Settling js db (settle js db closed).1 :=
  Settling.settleWaiters _ db closed .none (.refl db)

/-! ## Nothing decided is left waiting -/

/-- Every dependency was inserted before the job that names it. -/
def Ordered (db : Db) : Prop :=
  ∀ id w, db.job? id = some w → ∀ d ∈ w.depends_on, (order db).idxOf d < (order db).idxOf id

theorem mem_order {db : Db} {id : String} {w : Job} (h : db.job? id = some w) : id ∈ order db := by
  obtain ⟨hmem, rfl⟩ := Table.find?_eq_some_iff.mp h
  exact List.mem_map_of_mem hmem

theorem idxOf_lt_length {db : Db} {id : String} {w : Job} (h : db.job? id = some w) :
    (order db).idxOf id < db.jobs.rows.length := by
  have hlt := List.idxOf_lt_length_iff.mpr (mem_order h)
  rwa [order, List.length_map] at hlt

/-- The dependencies of a job exist. -/
theorem Ordered.exists_dep {db : Db} (h : Ordered db) {id : String} {w : Job}
    (hw : db.job? id = some w) {d : String} (hd : d ∈ w.depends_on) :
    ∃ r, db.job? d = some r := by
  have hlt := Nat.lt_trans (h id w hw d hd) (List.idxOf_lt_length_iff.mpr (mem_order hw))
  obtain ⟨r, hr, hid⟩ := List.mem_map.mp (List.idxOf_lt_length_iff.mp hlt)
  exact ⟨r, Table.find?_eq_some_iff.mpr ⟨hr, hid⟩⟩

/-- A waiting job that is due is one of those the predicate allows. -/
def DueOnly (db : Db) (allowed : Job → Prop) : Prop :=
  ∀ id w, db.job? id = some w → w.status = .waiting → Due db w → allowed w

/-- A changed row matters only to the jobs that name it. -/
theorem due_updateJob {db : Db} {id : String} {f : Job → Job}
    {hf : ∀ r, (f r).job_id = r.job_id} {w : Job} (h : Due (db.updateJob id f hf) w) :
    Due db w ∨ id ∈ w.depends_on := by
  by_cases hid : id ∈ w.depends_on
  · exact Or.inr hid
  · have hsame : ∀ d ∈ w.depends_on, (db.updateJob id f hf).status? d = db.status? d := by
      intro d hd
      apply status?_updateJob_of_ne
      rintro rfl
      exact hid hd
    left
    rcases h with ⟨d, hd, hs⟩ | hall
    · exact Or.inl ⟨d, hd, hsame d hd ▸ hs⟩
    · exact Or.inr fun d hd => hsame d hd ▸ hall d hd

/-- A row that stops waiting leaves the jobs that name it to be looked at. -/
theorem DueOnly.updateJob {db : Db} {allowed : Job → Prop} {id : String} {f : Job → Job}
    {hf : ∀ r, (f r).job_id = r.job_id} (h : DueOnly db fun w => w.job_id = id ∨ allowed w)
    (hstatus : ∀ r, (f r).status ≠ .waiting) :
    DueOnly (db.updateJob id f hf) fun w => id ∈ w.depends_on ∨ allowed w := by
  intro j w hw hwait hdue
  rw [Db.job?_updateJob] at hw
  split at hw
  · obtain ⟨r, -, rfl⟩ := Option.map_eq_some_iff.mp hw
    exact absurd hwait (hstatus r)
  · rename_i hne
    rcases due_updateJob hdue with hdue | hdep
    · rcases h j w hw hwait hdue with hid | hallowed
      · exact absurd ((Db.job_id_of_job? hw).symm.trans hid) hne
      · exact Or.inr hallowed
    · exact Or.inl hdep

/-- Promoting a job settles nothing that names it. -/
theorem DueOnly.promote {db : Db} {allowed : Job → Prop} {id : String} {spec : Json}
    (h : DueOnly db fun w => w.job_id = id ∨ allowed w) :
    DueOnly (promoteWaiter db id spec) allowed := by
  intro j w hw hwait hdue
  have hne : j ≠ id := by
    rintro rfl
    simp only [promoteWaiter, Db.job?_updateJob_self] at hw
    obtain ⟨r, -, rfl⟩ := Option.map_eq_some_iff.mp hw
    simp [promotedRow] at hwait
  have hw' : db.job? j = some w := by
    rwa [promoteWaiter, Db.job?_updateJob_of_ne db hne] at hw
  have hcases : ∀ d, (promoteWaiter db id spec).status? d = db.status? d ∨
      (promoteWaiter db id spec).status? d = some .queued := by
    intro d
    by_cases hd : d = id
    · subst hd
      cases hr : db.job? d with
      | none => exact Or.inl (by simp [promoteWaiter, Db.status?, hr])
      | some r => exact Or.inr (by simp [promoteWaiter, Db.status?, hr, promotedRow])
    · exact Or.inl (status?_updateJob_of_ne db hd _ _)
  have hdue' : Due db w := by
    rcases hdue with ⟨d, hd, hs⟩ | hall
    · rcases hcases d with hsame | hqueued
      · exact Or.inl ⟨d, hd, hsame ▸ hs⟩
      · simp [hqueued, spoiled, Status.broken] at hs
    · refine Or.inr fun d hd => ?_
      rcases hcases d with hsame | hqueued
      · rw [← hsame]
        exact hall d hd
      · simp [hall d hd] at hqueued
  rcases h j w hw' hwait hdue' with hid | hallowed
  · exact absurd ((Db.job_id_of_job? hw').symm.trans hid) hne
  · exact hallowed

theorem Settling.ordered {start db : Db} (h : Settling js start db) (ho : Ordered start) :
    Ordered db := by
  intro id r hr d hd
  rw [h.order_eq]
  cases hstart : start.job? id with
  | none => simp [h.missing id hstart] at hr
  | some w =>
      obtain ⟨r', hr', hsettled⟩ := h.rows id w hstart
      obtain rfl : r' = r := Option.some.inj (hr'.symm.trans hr)
      have hdeps : r'.depends_on = w.depends_on := by cases hsettled <;> rfl
      exact ho id w hstart d (hdeps ▸ hd)

theorem Settling.length_eq {start db : Db} (h : Settling js start db) :
    db.jobs.rows.length = start.jobs.rows.length := by
  have hlen := congrArg List.length h.order_eq
  simpa [order] using hlen

/-- What a call of the recursion achieves when it has the depth for it. -/
def Clears (js : Js) (depth : Nat) : Prop :=
  ∀ (db : Db) (closed : String) (out : DepSettlement) (allowed : Job → Prop), Ordered db →
    db.jobs.rows.length ≤ depth + (order db).idxOf closed →
    DueOnly db (fun w => closed ∈ w.depends_on ∨ allowed w) →
    DueOnly (FleetRunner.settleWaiters js depth db closed out).1 allowed

/-- One pass of the loop: the waiter it looks at is decided, and so is every
job its closing decides. -/
theorem DueOnly.settleOne {start : Db} {depth : Nat} (hclears : Clears js depth)
    (ho : Ordered start) {s : Db × DepSettlement} (hs : Settling js start s.1) {w : Job}
    (hw : Snapshot start w) (hdepth : start.jobs.rows.length ≤ depth + (order start).idxOf w.job_id)
    {allowed : Job → Prop} (h : DueOnly s.1 fun v => v.job_id = w.job_id ∨ allowed v) :
    DueOnly (FleetRunner.settleOne js (FleetRunner.settleWaiters js depth) s w).1 allowed := by
  have hclose : ∀ (status : Status) (reason : String) (out : DepSettlement), status ≠ .waiting →
      Settling js start (FleetRunner.closeWaiter status s.1 w.job_id reason) →
      DueOnly (FleetRunner.settleWaiters js depth
        (FleetRunner.closeWaiter status s.1 w.job_id reason) w.job_id out).1 allowed := by
    intro status reason out hstatus hsettling
    refine hclears _ _ _ _ (hsettling.ordered ho) ?_ (h.updateJob fun _ => hstatus)
    rw [hsettling.length_eq, hsettling.order_eq]
    exact hdepth
  have hv := waiterVerdict_decides js s.1 w
  unfold FleetRunner.settleOne
  generalize waiterVerdict js s.1 w = v at hv
  cases hv with
  | broken reason hb =>
      exact hclose .failed reason _ (by simp)
        (hs.closeWaiter hw rfl (.failed reason hw.2 (Or.inl hb)))
  | skipped reason hb =>
      exact hclose .skipped reason _ (by simp)
        (hs.closeWaiter hw rfl (.skipped reason hw.2 hb))
  | unresolved reason hall hres =>
      exact hclose .failed reason _ (by simp)
        (hs.closeWaiter hw rfl (.failed reason hw.2 (Or.inr ⟨hall, hres⟩)))
  | ready hall hres => exact h.promote
  | undecided hnot =>
      intro id v hv hwait hdue
      rcases h id v hv hwait hdue with hid | hallowed
      · -- still waiting, so it is the waiter just found undecided
        obtain rfl : id = w.job_id := (Db.job_id_of_job? hv).symm.trans hid
        obtain rfl : v = w := Option.some.inj ((hs.waiting hv hwait).symm.trans hw.1)
        exact absurd hdue hnot
      · exact hallowed

theorem DueOnly.foldl {start : Db} {depth : Nat} (hclears : Clears js depth) (ho : Ordered start)
    {ws : List Job} (hws : ∀ w ∈ ws, Snapshot start w ∧
      start.jobs.rows.length ≤ depth + (order start).idxOf w.job_id)
    {s : Db × DepSettlement} (hs : Settling js start s.1) {allowed : Job → Prop}
    (h : DueOnly s.1 fun v => (∃ w ∈ ws, v.job_id = w.job_id) ∨ allowed v) :
    DueOnly (ws.foldl (FleetRunner.settleOne js (FleetRunner.settleWaiters js depth)) s).1
      allowed := by
  induction ws generalizing s with
  | nil =>
      intro id v hv hwait hdue
      rcases h id v hv hwait hdue with ⟨w, hw, -⟩ | hallowed
      · cases hw
      · exact hallowed
  | cons w ws ih =>
      obtain ⟨hw, hdepth⟩ := hws w List.mem_cons_self
      refine ih (fun v hv => hws v (List.mem_cons_of_mem w hv))
        (hs.settleOne js (fun db closed out => Settling.settleWaiters depth db closed out) hw) ?_
      refine DueOnly.settleOne hclears ho hs hw hdepth ?_
      intro id v hv hwait hdue
      rcases h id v hv hwait hdue with ⟨x, hx, hid⟩ | hallowed
      · rcases List.mem_cons.mp hx with rfl | hx
        · exact Or.inl hid
        · exact Or.inr (Or.inl ⟨x, hx, hid⟩)
      · exact Or.inr (Or.inr hallowed)

theorem clears (js : Js) (depth : Nat) : Clears js depth := by
  induction depth with
  | zero =>
      intro db closed out allowed ho hdepth h
      change DueOnly db allowed
      -- without depth left the closed job is not in the table, and nothing names it
      intro id w hw hwait hdue
      rcases h id w hw hwait hdue with hdep | hallowed
      · have hlt := ho id w hw closed hdep
        have hid := idxOf_lt_length hw
        omega
      · exact hallowed
  | succ depth ih =>
      intro db closed out allowed ho hdepth h
      refine DueOnly.foldl ih ho ?_ (.refl db) ?_
      · intro w hw
        obtain ⟨hsnap, hdep⟩ := snapshot_of_mem_waitersOn hw
        have hlt := ho _ w hsnap.1 closed hdep
        exact ⟨hsnap, by omega⟩
      · intro id w hw hwait hdue
        rcases h id w hw hwait hdue with hdep | hallowed
        · exact Or.inl ⟨w, mem_waitersOn hw hwait hdep, rfl⟩
        · exact Or.inr hallowed

variable (js) in
/-- Settling a job leaves due only what was due for another reason. -/
theorem settle_due {db : Db} (ho : Ordered db) {closed : String} {allowed : Job → Prop}
    (h : DueOnly db fun w => closed ∈ w.depends_on ∨ allowed w) :
    DueOnly (settle js db closed).1 allowed :=
  clears js _ db closed .none allowed ho (Nat.le_add_right _ _) h

/-- A settlement never takes back a status a dependency already had. -/
theorem Settling.keeps {start db : Db} (h : Settling js start db) : Keeps start db := by
  have hrow : ∀ d s, start.status? d = some s → s ≠ .waiting → db.status? d = some s := by
    intro d s hs hne
    obtain ⟨r, hr, rfl⟩ := Db.status?_eq_some.mp hs
    exact Db.status?_eq_some.mpr ⟨r, h.of_not_waiting hr hne, rfl⟩
  constructor <;> intro d hd
  · cases hs : start.status? d with
    | none =>
        have hmissing := h.missing d (by simpa [Db.status?] using hs)
        simp [Db.status?, hmissing, spoiled]
    | some s =>
        rw [hs] at hd
        rw [hrow d s hs (by rintro rfl; cases hd)]
        exact hd
  · exact hrow d .done hd (by simp)

/-- A due job that waits on the closed one does not wait any longer. -/
theorem not_waiting_after_settle {db : Db} (ho : Ordered db) {closed : String} {w r : Job}
    (hw : w ∈ waitersOn db closed) (hdue : Due db w)
    (hr : (settle js db closed).1.job? w.job_id = some r) : r.status ≠ .waiting := by
  intro hwait
  have hsettling : Settling js db (settle js db closed).1 := settling_settle js db closed
  obtain ⟨hsnap, hdep⟩ := snapshot_of_mem_waitersOn hw
  have honly : DueOnly (settle js db closed).1 fun v => v.job_id ≠ w.job_id := by
    refine settle_due js ho ?_
    intro id v hv _ _
    by_cases hid : v.job_id = w.job_id
    · obtain rfl : id = w.job_id := (Db.job_id_of_job? hv).symm.trans hid
      obtain rfl : v = w := Option.some.inj (hv.symm.trans hsnap.1)
      exact Or.inl hdep
    · exact Or.inr hid
  have hsame : r = w :=
    Option.some.inj ((hsettling.waiting hr hwait).symm.trans hsnap.1)
  subst hsame
  exact honly _ r hr hwait (hsettling.keeps.due hdue) rfl

/-- Settling a job nothing due waits on changes nothing. -/
theorem settle_eq_self {db : Db} {closed : String}
    (h : ∀ w ∈ waitersOn db closed, ¬Due db w) : (settle js db closed).1 = db := by
  unfold settle
  cases db.jobs.rows.length with
  | zero => rfl
  | succ depth =>
      rw [FleetRunner.settleWaiters]
      generalize hs : (db, DepSettlement.none) = s
      have hdb : s.1 = db := by rw [← hs]
      generalize waitersOn db closed = ws at h
      induction ws with
      | nil => exact hdb
      | cons w ws ih =>
          have hwait : waiterVerdict js s.1 w = .wait := by
            rw [hdb]
            exact (waiterVerdict_wait_iff js).mpr (h w List.mem_cons_self)
          rw [List.foldl_cons]
          have hone : FleetRunner.settleOne js (FleetRunner.settleWaiters js depth) s w = s := by
            simp [FleetRunner.settleOne, hwait]
          rw [hone]
          exact ih fun v hv => h v (List.mem_cons_of_mem w hv)

end FleetRunner
