import FleetRunner.Chains
import FleetRunner.Library.DepthFirst

/-!
# How often a settlement closes a waiter (`settleWaiters`)

A settlement lists the waiters of a closed job and decides them one after the
other; a waiter it closes has its own waiters decided before the next one is.
Seen from the graph of waiting jobs that is a depth-first pass which lists the
successors of a job in advance. `Tracks` says so, and `settles_once_iff` reads
off the graph which settlements decide a waiter twice.

## Implementation notes

The statuses of the table are arbitrary: only its ids and dependencies are those
of a table the collector reaches (`Enqueued`).
-/

namespace FleetRunner

open Library Relation

variable {js : Js}

/-! ## The graph of waiting jobs -/

/-- A job names another as a dependency. -/
def DependsOn (db : Db) (c v : String) : Prop := ∃ w, db.job? v = some w ∧ c ∈ w.depends_on

/-- A waiting job does. -/
def WaitsOn (db : Db) (c v : String) : Prop :=
  ∃ w, db.job? v = some w ∧ w.status = .waiting ∧ c ∈ w.depends_on

def waiterIds (db : Db) (c : String) : List String := (waitersOn db c).map (·.job_id)

theorem mem_waiterIds {db : Db} {c v : String} : v ∈ waiterIds db c ↔ WaitsOn db c v := by
  constructor
  · intro h
    obtain ⟨w, hw, rfl⟩ := List.mem_map.mp h
    obtain ⟨hsnap, hdep⟩ := snapshot_of_mem_waitersOn hw
    exact ⟨w, hsnap.1, hsnap.2, hdep⟩
  · rintro ⟨w, hw, hwait, hdep⟩
    exact List.mem_map.mpr ⟨w, mem_waitersOn hw hwait hdep, Db.job_id_of_job? hw⟩

theorem pairwise_idxOf {l : List String} (h : l.Nodup) :
    l.Pairwise fun x y => l.idxOf x < l.idxOf y := by
  rw [List.pairwise_iff_getElem]
  intro i j hi hj hlt
  rwa [h.idxOf_getElem, h.idxOf_getElem]

/-- Jobs are ranked in the order they were enqueued. -/
def waitGraph (db : Db) (ho : Ordered db) : Dag String where
  succ := waiterIds db
  rank := fun id => (order db).idxOf id
  bound := db.jobs.rows.length
  rank_lt := by
    intro c v h
    obtain ⟨w, hw, -, hdep⟩ := mem_waiterIds.mp h
    exact ho v w hw c hdep
  rank_lt_bound := by
    intro c v h
    obtain ⟨w, hw, -, -⟩ := mem_waiterIds.mp h
    exact idxOf_lt_length hw
  sorted := by
    intro c
    have hsub : (waiterIds db c).Sublist (order db) :=
      List.filter_sublist.map fun w : Job => w.job_id
    exact (pairwise_idxOf db.jobs.nodup).sublist hsub

/-- No job waits for itself, over any number of dependencies. -/
theorem acyclic_dependsOn {db : Db} (ho : Ordered db) (id : String) :
    ¬TransGen (DependsOn db) id id := by
  have hlt : ∀ {c v}, TransGen (DependsOn db) c v →
      (order db).idxOf c < (order db).idxOf v := by
    intro c v h
    induction h with
    | single h =>
        obtain ⟨w, hw, hdep⟩ := h
        exact ho _ w hw c hdep
    | tail _ h ih =>
        obtain ⟨w, hw, hdep⟩ := h
        exact Nat.lt_trans ih (ho _ w hw _ hdep)
  exact fun h => Nat.lt_irrefl _ (hlt h)

/-- The waiters of a job, read off the order of all jobs. -/
theorem waiterIds_eq (db : Db) (c : String) :
    waiterIds db c = (order db).filter fun id =>
      (db.job? id).any fun w => decide (w.status = .waiting) && w.depends_on.contains c := by
  rw [waiterIds, waitersOn, order, List.filter_map]
  congr 1
  apply List.filter_congr
  intro w hw
  rw [Function.comp_apply, Db.job?, Table.mem_rows_iff.mp hw]
  rfl

/-! ## Deciding a waiter -/

variable (js) in
/-- The dependencies rule the job out, or its references cannot be filled. -/
def Unfit (db : Db) (w : Job) : Prop :=
  SpoiledDep db w ∨ AllDone db w ∧ (filledSpec js db w).2 ≠ []

variable (js) in
/-- What a verdict does: close the waiter, leave it or promote it. -/
inductive Outcome (db : Db) (w : Job) : WaiterVerdict → Prop
  | fail (reason : String) : Unfit js db w → Outcome db w (.fail reason)
  | skip (reason : String) : SpoiledDep db w →
      (∀ d ∈ w.depends_on, brokenDep (db.status? d) = false) → Outcome db w (.skip reason)
  | wait : ¬Unfit js db w → Outcome db w .wait
  | promote : ¬Unfit js db w → AllDone db w → (filledSpec js db w).2 = [] →
      Outcome db w (.promote (filledSpec js db w).1)

/-- A failed dependency outranks a skipped one. -/
theorem unbroken_of_skip {db : Db} {w : Job} {reason : String}
    (h : waiterVerdict js db w = .skip reason) :
    ∀ d ∈ w.depends_on, brokenDep (db.status? d) = false := by
  unfold waiterVerdict at h
  split at h
  · cases h
  · rename_i hbroken
    intro d hd
    simpa using List.find?_eq_none.mp hbroken d hd

theorem waiterVerdict_outcome (js : Js) (db : Db) (w : Job) :
    Outcome js db w (waiterVerdict js db w) := by
  have hv := waiterVerdict_decides js db w
  have hskip : ∀ reason, waiterVerdict js db w = .skip reason → _ :=
    fun _ h => unbroken_of_skip h
  generalize waiterVerdict js db w = v at hv hskip
  cases hv with
  | broken reason hs => exact .fail reason (Or.inl hs)
  | skipped reason hs => exact .skip reason hs (hskip reason rfl)
  | undecided hnot =>
      exact .wait fun hunfit => hnot (hunfit.imp_right fun h => h.1)
  | unresolved reason hall hres => exact .fail reason (Or.inr ⟨hall, hres⟩)
  | ready hall hres =>
      refine .promote ?_ hall hres
      rintro (hs | hs)
      · exact not_allDone_of_spoiledDep hs hall
      · exact hs.2 hres

theorem Unfit.mono {start db : Db} (h : Settling js start db) {w : Job} (hunfit : Unfit js start w) :
    Unfit js db w := by
  have hkeeps := h.keeps
  obtain ⟨jobs, rfl⟩ := h.same
  exact hunfit.imp hkeeps.spoiledDep fun h => ⟨hkeeps.allDone h.1, h.2⟩

/-- A waiter that was promoted is not to be closed. -/
theorem Settling.fit_of_queued {start db : Db} (h : Settling js start db) {w : Job}
    (hw : Snapshot start w) (hs : db.status? w.job_id = some .queued) :
    AllDone db w ∧ ¬Unfit js db w := by
  obtain ⟨r, hr, hsettled⟩ := h.rows _ w hw.1
  have hstatus : r.status = .queued := by simpa [Db.status?, hr] using hs
  cases hsettled with
  | untouched => simp [hw.2] at hstatus
  | failed => simp [closedRow] at hstatus
  | skipped => simp [closedRow] at hstatus
  | promoted _ hall hres =>
      refine ⟨hall, ?_⟩
      rintro (hs | hs)
      · exact not_allDone_of_spoiledDep hs hall
      · exact hs.2 hres

/-- A waiter that was closed is to be closed again. -/
theorem Settling.unfit_of_closed {start db : Db} (h : Settling js start db) {w : Job}
    (hw : Snapshot start w)
    (hs : db.status? w.job_id = some .failed ∨ db.status? w.job_id = some .skipped) :
    Unfit js db w := by
  obtain ⟨r, hr, hsettled⟩ := h.rows _ w hw.1
  have hstatus : r.status = .failed ∨ r.status = .skipped := by simpa [Db.status?, hr] using hs
  cases hsettled with
  | untouched => simp [hw.2] at hstatus
  | failed _ _ hs => exact hs
  | skipped _ _ hs => exact Or.inl hs
  | promoted => simp [promotedRow] at hstatus

/-! ## A settlement is a pass over the graph -/

/-- The jobs a settlement lists as closed. -/
def closedIds (out : DepSettlement) : List String :=
  out.failed.map Prod.fst ++ out.skipped.map Prod.fst

variable (js) in
/-- The settlement so far, and the visits of the pass it is. -/
structure Tracks (start : Db) (prom : List String) (s : Db × DepSettlement) (log : List String) :
    Prop where
  settling : Settling js start s.1
  promoted_eq : s.2.promoted = prom
  waited : ∀ id ∈ log, start.status? id = some .waiting
  closed : ∀ id ∈ log,
    s.1.status? id = some .failed ∧ id ∈ s.2.failed.map Prod.fst ∨
      s.1.status? id = some .skipped ∧ id ∈ s.2.skipped.map Prod.fst
  promoted : ∀ id ∈ prom,
    s.1.status? id = some .queued ∧ start.status? id = some .waiting
  others : ∀ id, id ∉ log → id ∉ prom → s.1.job? id = start.job? id
  perm : (closedIds s.2).Perm log
  nodup : prom.Nodup
  skip : ∀ id ∈ s.2.skipped.map Prod.fst, ∀ w, start.job? id = some w →
    ∀ d ∈ w.depends_on, brokenDep (start.status? d) = false

theorem tracks_start (start : Db) : Tracks js start [] (start, .none) [] where
  settling := .refl start
  promoted_eq := rfl
  waited := by simp
  closed := by simp
  promoted := by simp
  others := fun _ _ _ => rfl
  perm := List.Perm.refl _
  nodup := List.nodup_nil
  skip := by simp [DepSettlement.none]

variable {prom : List String}

/-- A job in the log is closed. -/
theorem Tracks.status_of_mem {start : Db} {s : Db × DepSettlement} {log : List String}
    (h : Tracks js start prom s log) {id : String} (hid : id ∈ log) :
    s.1.status? id = some .failed ∨ s.1.status? id = some .skipped :=
  (h.closed id hid).imp And.left And.left

theorem Tracks.spoiled_of_mem {start : Db} {s : Db × DepSettlement} {log : List String}
    (h : Tracks js start prom s log) {c : String} (hc : c ∈ log) {w : Job} (hdep : c ∈ w.depends_on) :
    SpoiledDep s.1 w := by
  refine ⟨c, hdep, ?_⟩
  rcases h.status_of_mem hc with hs | hs <;> rw [hs] <;> rfl

theorem Tracks.notMem_promoted {start : Db} {s : Db × DepSettlement} {log : List String}
    (h : Tracks js start prom s log) {w : Job} (hw : Snapshot start w) (hunfit : Unfit js s.1 w) :
    w.job_id ∉ prom := by
  intro hmem
  exact (h.settling.fit_of_queued hw (h.promoted _ hmem).1).2 hunfit

/-- Broken before the settlement, broken in it. -/
theorem Settling.brokenDep_false {start db : Db} (h : Settling js start db) {d : String}
    (hd : brokenDep (db.status? d) = false) : brokenDep (start.status? d) = false := by
  by_contra hbroken
  rw [Bool.not_eq_false] at hbroken
  cases hs : start.job? d with
  | none =>
      have hmissing : db.status? d = none := by simp [Db.status?, h.missing d hs]
      rw [hmissing] at hd
      cases hd
  | some r =>
      have hne : r.status ≠ .waiting := by
        intro hwait
        simp [Db.status?, hs, hwait, brokenDep] at hbroken
      have hsame : db.status? d = start.status? d := by
        simp [Db.status?, hs, h.of_not_waiting hs hne]
      rw [hsame, hbroken] at hd
      cases hd

theorem status?_closeWaiter_self {start db : Db} (h : Settling js start db) {w : Job}
    (hw : Snapshot start w) (status : Status) (reason : String) :
    (closeWaiter status db w.job_id reason).status? w.job_id = some status := by
  obtain ⟨r, hr, -⟩ := h.rows _ w hw.1
  simp [closeWaiter, Db.status?, hr, closedRow]

/-- A visit: the waiter is closed and goes on the list of its status. -/
theorem Tracks.visit {start : Db} {s : Db × DepSettlement} {log : List String}
    (h : Tracks js start prom s log) {w : Job} (hw : Snapshot start w) (hunfit : Unfit js s.1 w)
    {status : Status} {reason : String} {out : DepSettlement}
    (hrow : Settled js s.1 w (closedRow status s.1.sqlNow reason w))
    (hpromoted : out.promoted = s.2.promoted)
    (hout : status = .failed ∧ out.failed = s.2.failed ++ [(w.job_id, reason)] ∧
        out.skipped = s.2.skipped ∨
      status = .skipped ∧ out.failed = s.2.failed ∧
        out.skipped = s.2.skipped ++ [(w.job_id, reason)] ∧
        ∀ d ∈ w.depends_on, brokenDep (s.1.status? d) = false) :
    Tracks js start prom (closeWaiter status s.1 w.job_id reason, out) (log ++ [w.job_id]) := by
  have hbroken : status.broken = true := by
    rcases hout with ⟨rfl, -, -⟩ | ⟨rfl, -, -, -⟩ <;> rfl
  have hself := status?_closeWaiter_self h.settling hw status reason
  have hother : ∀ id, id ≠ w.job_id →
      (closeWaiter status s.1 w.job_id reason).job? id = s.1.job? id :=
    fun id hne => Db.job?_updateJob_of_ne _ hne _ _
  have hstatus : ∀ id, id ≠ w.job_id →
      (closeWaiter status s.1 w.job_id reason).status? id = s.1.status? id :=
    fun id hne => by rw [Db.status?, hother id hne, Db.status?]
  have hmem : ∀ id, id ∈ log ++ [w.job_id] → id ≠ w.job_id → id ∈ log := by
    intro id hid hne
    simpa [hne] using hid
  refine ⟨h.settling.closeWaiter hw hbroken hrow, hpromoted.trans h.promoted_eq, ?_, ?_, ?_, ?_, ?_,
    h.nodup, ?_⟩
  · intro id hid
    by_cases hne : id = w.job_id
    · rw [hne, Db.status?, hw.1, Option.map_some, hw.2]
    · exact h.waited id (hmem id hid hne)
  · intro id hid
    by_cases hne : id = w.job_id
    · subst hne
      rcases hout with ⟨rfl, hfailed, -⟩ | ⟨rfl, -, hskipped, -⟩
      · exact Or.inl ⟨hself, by simp [hfailed]⟩
      · exact Or.inr ⟨hself, by simp [hskipped]⟩
    · rw [hstatus id hne]
      refine (h.closed id (hmem id hid hne)).imp (fun hf => ⟨hf.1, ?_⟩) fun hs => ⟨hs.1, ?_⟩
      · rcases hout with ⟨-, hfailed, -⟩ | ⟨-, hfailed, -, -⟩
        · rw [hfailed, List.map_append]
          exact List.mem_append_left _ hf.2
        · rw [hfailed]
          exact hf.2
      · rcases hout with ⟨-, -, hskipped⟩ | ⟨-, -, hskipped, -⟩
        · rw [hskipped]
          exact hs.2
        · rw [hskipped, List.map_append]
          exact List.mem_append_left _ hs.2
  · intro id hid
    have hne : id ≠ w.job_id := fun heq => h.notMem_promoted hw hunfit (heq ▸ hid)
    rw [hstatus id hne]
    exact h.promoted id hid
  · intro id hid hidp
    simp only [List.mem_append, List.mem_singleton, not_or] at hid
    rw [hother id hid.2]
    exact h.others id hid.1 hidp
  · rcases hout with ⟨-, hfailed, hskipped⟩ | ⟨-, hfailed, hskipped, -⟩
    · rw [closedIds, hfailed, hskipped, List.map_append, List.append_assoc]
      refine List.Perm.trans ?_ (h.perm.append_right [w.job_id])
      rw [closedIds, List.append_assoc]
      exact List.Perm.append_left _ List.perm_append_comm
    · rw [closedIds, hfailed, hskipped, List.map_append, ← List.append_assoc]
      exact h.perm.append_right [w.job_id]
  · intro id hid v hv d hd
    rcases hout with ⟨-, -, hskipped⟩ | ⟨-, -, hskipped, hgood⟩
    · rw [hskipped] at hid
      exact h.skip id hid v hv d hd
    · rw [hskipped, List.map_append, List.mem_append] at hid
      rcases hid with hid | hid
      · exact h.skip id hid v hv d hd
      · obtain rfl : id = w.job_id := by simpa using hid
        obtain rfl : w = v := Option.some.inj (hw.1.symm.trans hv)
        exact h.settling.brokenDep_false (hgood d hd)

/-- A visit and what is below it. -/
theorem Tracks.settleOne {start : Db} {rest : Db → String → DepSettlement → Db × DepSettlement}
    {go : List String → String → List String}
    (hrest : ∀ s log c, Tracks js start prom s log → c ∈ log →
      Tracks js start prom (rest s.1 c s.2) (go log c))
    {s : Db × DepSettlement} {log : List String} (h : Tracks js start prom s log) {w : Job}
    (hw : Snapshot start w) (hunfit : Unfit js s.1 w) :
    Tracks js start prom (settleOne js rest s w) (go (log ++ [w.job_id]) w.job_id) := by
  have hv := waiterVerdict_outcome js s.1 w
  unfold FleetRunner.settleOne
  generalize waiterVerdict js s.1 w = v at hv
  cases hv with
  | fail reason _ =>
      exact hrest (_, _) _ _ (h.visit hw hunfit (.failed reason hw.2 hunfit) rfl
        (Or.inl ⟨rfl, rfl, rfl⟩)) (by simp)
  | skip reason hs hgood =>
      exact hrest (_, _) _ _ (h.visit hw hunfit (.skipped reason hw.2 hs) rfl
        (Or.inr ⟨rfl, rfl, rfl, hgood⟩)) (by simp)
  | wait hfit => exact absurd hunfit hfit
  | promote hfit _ _ => exact absurd hunfit hfit

/-- The waiters of a closed job are its successors that were not visited. -/
theorem Tracks.waiterIds_eq {start : Db} {s : Db × DepSettlement} {log : List String}
    (h : Tracks js start prom s log) {c : String} (hc : c ∈ log) :
    waiterIds s.1 c = (waiterIds start c).filter fun id => decide (id ∉ log) := by
  rw [FleetRunner.waiterIds_eq, FleetRunner.waiterIds_eq, h.settling.order_eq, List.filter_filter]
  apply List.filter_congr
  intro id _
  by_cases hid : id ∈ log
  · have hnot : (s.1.job? id).any (fun w => decide (w.status = .waiting) &&
        w.depends_on.contains c) = false := by
      cases hr : s.1.job? id with
      | none => rfl
      | some r =>
          have hs := h.status_of_mem hid
          rw [Db.status?, hr] at hs
          rcases hs with hs | hs <;> simp [Option.some.inj hs]
    rw [hnot]
    simp [hid]
  · by_cases hprom : id ∈ prom
    · -- all that a promoted job names is done, and `c` is not
      obtain ⟨hqueued, hwait⟩ := h.promoted id hprom
      obtain ⟨w, hw, hws⟩ := Db.status?_eq_some.mp hwait
      have hsnap : Snapshot start w := by
        rw [Snapshot, Db.job_id_of_job? hw]
        exact ⟨hw, hws⟩
      have hdone := (h.settling.fit_of_queued hsnap (by rwa [Db.job_id_of_job? hw])).1
      have hfree : c ∉ w.depends_on := by
        intro hdep
        have hs := h.status_of_mem hc
        rw [hdone c hdep] at hs
        simp at hs
      obtain ⟨r, hr, hrs⟩ := Db.status?_eq_some.mp hqueued
      simp [hr, hrs, hw, hfree]
    · simp [h.others id hid hprom, hid]

/-- The waiters of a closed job, and all below them. -/
theorem Tracks.foldl {start : Db} {rest : Db → String → DepSettlement → Db × DepSettlement}
    {go : List String → String → List String}
    (hrest : ∀ s log c, Tracks js start prom s log → c ∈ log →
      Tracks js start prom (rest s.1 c s.2) (go log c))
    (hgo : ∀ log c, ∀ id ∈ log, id ∈ go log c) {c : String} {ws : List Job}
    (hws : ∀ w ∈ ws, Snapshot start w ∧ c ∈ w.depends_on) {s : Db × DepSettlement}
    {log : List String} (h : Tracks js start prom s log) (hc : c ∈ log) :
    Tracks js start prom (ws.foldl (FleetRunner.settleOne js rest) s)
      (Dag.each go (fun _ => True) (ws.map (·.job_id)) log) := by
  induction ws generalizing s log with
  | nil => exact h
  | cons w ws ih =>
      obtain ⟨hw, hdep⟩ := hws w List.mem_cons_self
      have hstep := h.settleOne hrest hw (Or.inl (h.spoiled_of_mem hc hdep))
      rw [List.foldl_cons, List.map_cons, Dag.each, List.foldl_cons, if_pos (Or.inl trivial),
        ← Dag.each]
      exact ih (fun v hv => hws v (List.mem_cons_of_mem w hv)) hstep
        (hgo _ _ c (List.mem_append_left _ hc))

theorem mem_visit (g : Dag String) (depth : Nat) (log : List String) (c : String) :
    ∀ id ∈ log, id ∈ g.visit depth log c := by
  have heach : ∀ (go : List String → String → List String),
      (∀ log c, ∀ id ∈ log, id ∈ go log c) → ∀ (ws log : List String),
      ∀ id ∈ log, id ∈ Dag.each go (fun _ => True) ws log := by
    intro go hgo ws
    induction ws with
    | nil => exact fun _ _ hid => hid
    | cons w ws ih =>
        intro log id hid
        rw [Dag.each, List.foldl_cons, if_pos (Or.inl trivial), ← Dag.each]
        exact ih _ id (hgo _ w id (List.mem_append_left _ hid))
  induction depth generalizing log c with
  | zero => exact fun _ hid => hid
  | succ depth ih => exact heach _ ih _ _

/-- What settling a closed waiter does is a visit of all below it. -/
theorem Tracks.cascade {start : Db} (ho : Ordered start) (depth : Nat) {s : Db × DepSettlement}
    {log : List String} {c : String} (h : Tracks js start prom s log) (hc : c ∈ log) :
    Tracks js start prom (settleWaiters js depth s.1 c s.2)
      ((waitGraph start ho).visit depth log c) := by
  induction depth generalizing s log c with
  | zero => exact h
  | succ depth ih =>
      have hws : ∀ w ∈ waitersOn s.1 c, Snapshot start w ∧ c ∈ w.depends_on := by
        intro w hw
        obtain ⟨hsnap, hdep⟩ := snapshot_of_mem_waitersOn hw
        exact ⟨h.settling.snapshot hsnap, hdep⟩
      have hfold := h.foldl (fun _ _ _ ht hd => ih ht hd) (mem_visit _ depth) hws hc
      have hids : (waitersOn s.1 c).map (·.job_id) = _ := h.waiterIds_eq hc
      rw [hids] at hfold
      exact hfold

variable (js) in
/-- The ids of the jobs a settlement closes on its own account. -/
def Opens (db : Db) (id : String) : Prop := ∃ w, db.job? id = some w ∧ Unfit js db w

/-- A waiter is to be closed when it was to be at the start, or has been closed since. -/
theorem Tracks.unfit_iff {start : Db} {s : Db × DepSettlement} {log : List String}
    (h : Tracks js start prom s log)
    (hbelow : ∀ d ∈ log, ∀ v, WaitsOn start d v → v ∈ log) {w : Job} (hw : Snapshot start w) :
    Unfit js s.1 w ↔ Opens js start w.job_id ∨ w.job_id ∈ log := by
  constructor
  · intro hunfit
    by_cases hmem : w.job_id ∈ log
    · exact Or.inr hmem
    · left
      refine ⟨w, hw.1, ?_⟩
      rcases hunfit with ⟨d, hd, hs⟩ | ⟨hall, hres⟩
      · have hdlog : d ∉ log := fun hdl => hmem (hbelow d hdl w.job_id ⟨w, hw.1, hw.2, hd⟩)
        have hdprom : d ∉ prom := by
          intro hdp
          rw [(h.promoted d hdp).1] at hs
          cases hs
        refine Or.inl ⟨d, hd, ?_⟩
        rwa [Db.status?, ← h.others d hdlog hdprom]
      · refine Or.inr ⟨fun d hd => ?_, ?_⟩
        · have hdlog : d ∉ log := fun hdl => hmem (hbelow d hdl w.job_id ⟨w, hw.1, hw.2, hd⟩)
          have hdprom : d ∉ prom := by
            intro hdp
            have hs := (h.promoted d hdp).1
            rw [hall d hd] at hs
            cases hs
          rw [Db.status?, ← h.others d hdlog hdprom]
          exact hall d hd
        · obtain ⟨jobs, hjobs⟩ := h.settling.same
          rw [hjobs] at hres
          exact hres
  · rintro (⟨v, hv, hunfit⟩ | hmem)
    · obtain rfl : w = v := Option.some.inj (hw.1.symm.trans hv)
      exact hunfit.mono h.settling
    · exact h.settling.unfit_of_closed hw (h.status_of_mem hmem)

/-- A waiter that is promoted. -/
theorem Tracks.promote {start : Db} {s : Db × DepSettlement} {log : List String}
    (h : Tracks js start prom s log) {w : Job} (hw : Snapshot start w) (hfit : ¬Unfit js s.1 w)
    (hall : AllDone s.1 w) (hres : (filledSpec js s.1 w).2 = []) (hnew : w.job_id ∉ prom) :
    Tracks js start (prom ++ [w.job_id]) (promoteWaiter s.1 w.job_id (filledSpec js s.1 w).1,
      { s.2 with promoted := s.2.promoted ++ [w.job_id] }) log := by
  have hfree : w.job_id ∉ log :=
    fun hmem => hfit (h.settling.unfit_of_closed hw (h.status_of_mem hmem))
  have hother : ∀ id, id ≠ w.job_id →
      (promoteWaiter s.1 w.job_id (filledSpec js s.1 w).1).job? id = s.1.job? id :=
    fun id hne => Db.job?_updateJob_of_ne _ hne _ _
  have hstatus : ∀ id, id ≠ w.job_id →
      (promoteWaiter s.1 w.job_id (filledSpec js s.1 w).1).status? id = s.1.status? id :=
    fun id hne => by rw [Db.status?, hother id hne, Db.status?]
  refine ⟨h.settling.promoteWaiter hw hall hres, by rw [h.promoted_eq], h.waited, ?_, ?_, ?_, h.perm,
    ?_, h.skip⟩
  · intro id hid
    have hne : id ≠ w.job_id := fun heq => hfree (heq ▸ hid)
    rw [hstatus id hne]
    exact h.closed id hid
  · intro id hid
    by_cases hne : id = w.job_id
    · subst hne
      obtain ⟨r, hr, -⟩ := h.settling.rows _ w hw.1
      refine ⟨by simp [promoteWaiter, Db.status?, hr, promotedRow], ?_⟩
      rw [Db.status?, hw.1, Option.map_some, hw.2]
    · rw [hstatus id hne]
      exact h.promoted id (by simpa [hne] using hid)
  · intro id hid hidp
    have hne : id ≠ w.job_id := by
      rintro rfl
      exact hidp (by simp)
    rw [hother id hne]
    exact h.others id hid fun hmem => hidp (List.mem_append_left _ hmem)
  · rw [List.nodup_append]
    refine ⟨h.nodup, by simp, ?_⟩
    rintro a ha b hb rfl
    rw [List.mem_singleton] at hb
    exact hnew (hb ▸ ha)

/-- A waiter of the job that closed: visited, left or promoted. -/
theorem Tracks.settleOne_root {start : Db}
    {rest : Db → String → DepSettlement → Db × DepSettlement}
    {go : List String → String → List String}
    (hrest : ∀ s log c, Tracks js start prom s log → c ∈ log →
      Tracks js start prom (rest s.1 c s.2) (go log c))
    {s : Db × DepSettlement} {log : List String} (h : Tracks js start prom s log) {w : Job}
    (hw : Snapshot start w) (hnew : w.job_id ∉ prom) {p : Prop} [Decidable p]
    (hp : Unfit js s.1 w ↔ p) :
    ∃ prom', (∀ id ∈ prom', id ∈ prom ∨ id = w.job_id) ∧
      Tracks js start prom' (FleetRunner.settleOne js rest s w)
        (if p then go (log ++ [w.job_id]) w.job_id else log) := by
  by_cases hunfit : Unfit js s.1 w
  · rw [if_pos (hp.mp hunfit)]
    exact ⟨prom, fun _ => Or.inl, h.settleOne hrest hw hunfit⟩
  · rw [if_neg fun h => hunfit (hp.mpr h)]
    have hv := waiterVerdict_outcome js s.1 w
    unfold FleetRunner.settleOne
    generalize waiterVerdict js s.1 w = v at hv
    cases hv with
    | fail reason h' => exact absurd h' hunfit
    | skip reason hs _ => exact absurd (Or.inl hs) hunfit
    | wait _ => exact ⟨prom, fun _ => Or.inl, h⟩
    | promote _ hall hres =>
        exact ⟨prom ++ [w.job_id], by simp, h.promote hw hunfit hall hres hnew⟩

section Loop

open scoped Classical

variable {db : Db} (ho : Ordered db) {closed : String} {depth : Nat}
  (hdepth : db.jobs.rows.length = depth + 1)

include hdepth

variable (js) in
/-- The pass over the first waiters of a job. -/
theorem visitsEach_waiters {pre post : List String} (hsplit : waiterIds db closed = pre ++ post) :
    ∃ log, Dag.each ((waitGraph db ho).visit depth) (Opens js db) pre [] = log ∧
      (waitGraph db ho).VisitsEach [] (Opens js db) pre log := by
  have hsub : ∀ v ∈ pre, v ∈ (waitGraph db ho).succ closed := by
    intro v hv
    change v ∈ waiterIds db closed
    rw [hsplit]
    exact List.mem_append_left _ hv
  have hsorted : pre.Pairwise fun x y => (waitGraph db ho).rank x < (waitGraph db ho).rank y := by
    refine ((waitGraph db ho).sorted closed).sublist ?_
    change pre.Sublist (waiterIds db closed)
    rw [hsplit]
    exact List.sublist_append_left _ _
  apply Dag.visitsEach_each _ hsorted fun _ _ => List.not_mem_nil
  intro log v hv
  have hlt := (waitGraph db ho).rank_lt (hsub v hv)
  have hbound : (waitGraph db ho).bound = depth + 1 := hdepth
  exact Dag.visits_visit depth log v (by omega)

variable (js) in
/-- The loop over the waiters of the job that closed, as far as it has come. -/
theorem tracks_loop (pre post : List Job) (hsplit : waitersOn db closed = pre ++ post) :
    ∃ prom, (∀ id ∈ prom, id ∈ pre.map (·.job_id)) ∧
      Tracks js db prom (pre.foldl (settleOne js (settleWaiters js depth)) (db, .none))
        (Dag.each ((waitGraph db ho).visit depth) (Opens js db) (pre.map (·.job_id)) []) := by
  induction pre using List.reverseRecOn generalizing post with
  | nil => exact ⟨[], by simp, tracks_start db⟩
  | append_singleton pre w ih =>
      have hids : waiterIds db closed =
          pre.map (·.job_id) ++ (w.job_id :: post.map (·.job_id)) := by
        rw [waiterIds, hsplit]
        simp
      obtain ⟨prom, hprom, htracks⟩ := ih (w :: post) (by simp [hsplit])
      obtain ⟨log, hlog, hvisits⟩ := visitsEach_waiters js ho hdepth hids
      have hw : Snapshot db w := (snapshot_of_mem_waitersOn (by rw [hsplit]; simp)).1
      have hnew : w.job_id ∉ prom := by
        intro hmem
        have hnodup : (waiterIds db closed).Nodup :=
          db.jobs.nodup.sublist (List.filter_sublist.map fun w : Job => w.job_id)
        rw [hids, List.nodup_append] at hnodup
        exact hnodup.2.2 _ (hprom _ hmem) _ List.mem_cons_self rfl
      have hbelow : ∀ d ∈ log, ∀ v, WaitsOn db d v → v ∈ log := by
        intro d hd v hv
        obtain ⟨u, hu, hou, hud⟩ := (hvisits.mem_iff d).mp hd
        have hedge : (waitGraph db ho).Edge [] d v := ⟨mem_waiterIds.mpr hv, List.not_mem_nil⟩
        exact (hvisits.mem_iff v).mpr ⟨u, hu, hou, hud.tail hedge⟩
      rw [hlog] at htracks
      obtain ⟨prom', hprom', hstep⟩ := htracks.settleOne_root
        (fun _ _ _ ht hd => ht.cascade ho depth hd) hw hnew (htracks.unfit_iff hbelow hw)
      refine ⟨prom', fun id hid => ?_, ?_⟩
      · rw [List.map_append, List.mem_append]
        exact (hprom' id hid).imp (hprom id) fun heq => by simp [heq]
      · rw [List.foldl_append, List.map_append, List.map_singleton, Dag.each_concat, hlog]
        exact hstep

end Loop

open scoped Classical in
/-- A whole settlement is a pass over the waiters of the closed job. -/
theorem tracks_settle (js : Js) {db : Db} (ho : Ordered db) (closed : String) :
    ∃ prom log, (∀ id ∈ prom, id ∈ waiterIds db closed) ∧
      Tracks js db prom (settle js db closed) log ∧
      (waitGraph db ho).VisitsEach [] (Opens js db) (waiterIds db closed) log := by
  cases hdepth : db.jobs.rows.length with
  | zero =>
      have hrows : db.jobs.rows = [] := List.length_eq_zero_iff.mp hdepth
      have hnone : waiterIds db closed = [] := by simp [waiterIds, waitersOn, hrows]
      refine ⟨[], [], by simp, ?_, by simp [hnone], by simp [hnone, Dag.Doubled]⟩
      rw [settle, hdepth]
      exact tracks_start db
  | succ depth =>
      obtain ⟨prom, hprom, htracks⟩ := tracks_loop js ho hdepth (waitersOn db closed) []
        (List.append_nil _).symm
      obtain ⟨log, hlog, hvisits⟩ := visitsEach_waiters js ho hdepth
        (List.append_nil (waiterIds db closed)).symm
      refine ⟨prom, log, hprom, ?_, hvisits⟩
      rw [settle, hdepth, ← hlog]
      exact htracks

/-! ## Enough depth -/

theorem foldl_congr_invariant {σ ρ : Type*} {f g : σ → ρ → σ} {I : σ → Prop} {rs : List ρ}
    (h : ∀ s, I s → ∀ r ∈ rs, f s r = g s r ∧ I (f s r)) {s : σ} (hs : I s) :
    rs.foldl f s = rs.foldl g s := by
  induction rs generalizing s with
  | nil => rfl
  | cons r rest ih =>
      obtain ⟨heq, hI⟩ := h s hs r List.mem_cons_self
      rw [List.foldl_cons, List.foldl_cons, ← heq]
      exact ih (fun t ht q hq => h t ht q (List.mem_cons_of_mem r hq)) hI

/-- Beyond the number of rows more depth changes nothing: the recursion has ended. -/
theorem settleWaiters_succ (js : Js) (depth : Nat) (db : Db) (ho : Ordered db) (c : String)
    (out : DepSettlement) (hdepth : db.jobs.rows.length ≤ depth + (order db).idxOf c) :
    settleWaiters js (depth + 1) db c out = settleWaiters js depth db c out := by
  induction depth generalizing db c out with
  | zero =>
      have hnone : waitersOn db c = [] := by
        apply List.eq_nil_iff_forall_not_mem.mpr
        intro w hw
        obtain ⟨hsnap, hdep⟩ := snapshot_of_mem_waitersOn hw
        have hlow := ho _ w hsnap.1 c hdep
        have hhigh := idxOf_lt_length hsnap.1
        omega
      simp only [settleWaiters, hnone, List.foldl_nil]
  | succ depth ih =>
      rw [settleWaiters, settleWaiters]
      refine foldl_congr_invariant (I := fun s : Db × DepSettlement => Settling js db s.1) ?_ (.refl db)
      intro s hs w hw
      obtain ⟨hsnap, hdep⟩ := snapshot_of_mem_waitersOn hw
      have hlt := ho _ w hsnap.1 c hdep
      refine ⟨?_, hs.settleOne js (fun db c out => Settling.settleWaiters (depth + 1) db c out) hsnap⟩
      have hclose : ∀ status reason out, status.broken = true →
          Settled js s.1 w (closedRow status s.1.sqlNow reason w) →
          settleWaiters js (depth + 1) (closeWaiter status s.1 w.job_id reason) w.job_id out =
            settleWaiters js depth (closeWaiter status s.1 w.job_id reason) w.job_id out := by
        intro status reason out hbroken hrow
        have hsettling := hs.closeWaiter hsnap hbroken hrow
        refine ih _ (hsettling.ordered ho) _ _ ?_
        rw [hsettling.length_eq, hsettling.order_eq]
        omega
      have hv := waiterVerdict_outcome js s.1 w
      unfold settleOne
      generalize waiterVerdict js s.1 w = v at hv
      cases hv with
      | fail reason hunfit => exact hclose .failed reason _ rfl (.failed reason hsnap.2 hunfit)
      | skip reason hspoiled _ =>
          exact hclose .skipped reason _ rfl (.skipped reason hsnap.2 hspoiled)
      | wait _ => rfl
      | promote _ _ _ => rfl

/-- The number of rows is depth enough for every settlement. -/
theorem settleWaiters_eq_settle (js : Js) {db : Db} (ho : Ordered db) (closed : String)
    (more : Nat) :
    settleWaiters js (db.jobs.rows.length + more) db closed .none = settle js db closed := by
  induction more with
  | zero => rfl
  | succ more ih =>
      rw [← ih]
      exact settleWaiters_succ js _ db ho closed .none
        (Nat.le_trans (Nat.le_add_right _ more) (Nat.le_add_right _ _))

/-! ## Every settlement -/

/-- The ids and dependencies are those of a table the collector reaches; the statuses are
arbitrary. -/
def Enqueued (db : Db) : Prop :=
  ∃ cfg reqs, order db = order (after cfg reqs) ∧
    ∀ id r, db.job? id = some r →
      ∃ q, (after cfg reqs).job? id = some q ∧ r.depends_on = q.depends_on

theorem Enqueued.ordered {db : Db} (h : Enqueued db) : Ordered db := by
  obtain ⟨cfg, reqs, horder, hrows⟩ := h
  intro id r hr d hd
  obtain ⟨q, hq, hdeps⟩ := hrows id r hr
  rw [horder]
  exact FleetRunner.ordered cfg reqs id q hq d (hdeps ▸ hd)

/-- Closing a row of a reached table leaves the ids and the dependencies. -/
theorem enqueued_closed (cfg : Config) (reqs : List Request) (status : Status)
    (id reason : String) : Enqueued (closeWaiter status (after cfg reqs) id reason) := by
  refine ⟨cfg, reqs, order_updateJob _ _ _ _, fun j r hr => ?_⟩
  rw [closeWaiter, Db.job?_updateJob] at hr
  split at hr
  · obtain ⟨q, hq, rfl⟩ := Option.map_eq_some_iff.mp hr
    exact ⟨q, hq, rfl⟩
  · exact ⟨r, hr, rfl⟩

/-- All the jobs a settlement lists. -/
def DepSettlement.ids (out : DepSettlement) : List String := out.promoted ++ closedIds out

/-- What a settlement of a job that just closed has to be. -/
structure SettlesOnce (db : Db) (closed : String) (s : Db × DepSettlement) : Prop where
  once : s.2.ids.Nodup
  waited : ∀ id ∈ s.2.ids, db.status? id = some .waiting
  promoted : ∀ id ∈ s.2.promoted, s.1.status? id = some .queued
  failed : ∀ p ∈ s.2.failed, s.1.status? p.1 = some .failed
  skipped : ∀ p ∈ s.2.skipped, s.1.status? p.1 = some .skipped
  /-- no failed, cancelled or missing dependency before -/
  precedence : ∀ p ∈ s.2.skipped, ∀ w, db.job? p.1 = some w →
    ∀ d ∈ w.depends_on, brokenDep (db.status? d) = false
  untouched : ∀ id, ¬TransGen (WaitsOn db) closed id → s.1.job? id = db.job? id

/-- A job is promoted or closed, never both. -/
theorem Tracks.ids_nodup_iff {start : Db} {s : Db × DepSettlement} {log : List String}
    (h : Tracks js start prom s log) : s.2.ids.Nodup ↔ log.Nodup := by
  rw [DepSettlement.ids, List.nodup_append, h.promoted_eq, h.perm.nodup_iff]
  refine ⟨fun hall => hall.2.1, fun hlog => ⟨h.nodup, hlog, ?_⟩⟩
  rintro id hid _ hclosed rfl
  rcases h.status_of_mem (h.perm.mem_iff.mp hclosed) with hs | hs
  · simp [(h.promoted id hid).1] at hs
  · simp [(h.promoted id hid).1] at hs

theorem Tracks.settlesOnce {start : Db} {s : Db × DepSettlement} {log : List String}
    (h : Tracks js start prom s log) (hlog : log.Nodup) {closed : String}
    (hreach : ∀ id, id ∈ log ∨ id ∈ prom → TransGen (WaitsOn start) closed id) :
    SettlesOnce start closed s := by
  have hfailed : ∀ p ∈ s.2.failed, p.1 ∈ s.2.failed.map Prod.fst :=
    fun _ hp => List.mem_map_of_mem hp
  have hskipped : ∀ p ∈ s.2.skipped, p.1 ∈ s.2.skipped.map Prod.fst :=
    fun _ hp => List.mem_map_of_mem hp
  have hclosedNodup : (closedIds s.2).Nodup := h.perm.nodup_iff.mpr hlog
  rw [closedIds, List.nodup_append] at hclosedNodup
  refine ⟨h.ids_nodup_iff.mpr hlog, ?_, ?_, ?_, ?_, ?_, ?_⟩
  · intro id hid
    rw [DepSettlement.ids, List.mem_append, h.promoted_eq] at hid
    rcases hid with hid | hid
    · exact (h.promoted id hid).2
    · exact h.waited id (h.perm.mem_iff.mp hid)
  · intro id hid
    rw [h.promoted_eq] at hid
    exact (h.promoted id hid).1
  · intro p hp
    have hmem : p.1 ∈ log := h.perm.mem_iff.mp (List.mem_append_left _ (hfailed p hp))
    rcases h.closed p.1 hmem with hs | hs
    · exact hs.1
    · exact absurd rfl (hclosedNodup.2.2 _ (hfailed p hp) _ hs.2)
  · intro p hp
    have hmem : p.1 ∈ log := h.perm.mem_iff.mp (List.mem_append_right _ (hskipped p hp))
    rcases h.closed p.1 hmem with hs | hs
    · exact absurd rfl (hclosedNodup.2.2 _ hs.2 _ (hskipped p hp))
    · exact hs.1
  · exact fun p hp => h.skip p.1 (hskipped p hp)
  · intro id hid
    exact h.others id (fun hmem => hid (hreach id (Or.inl hmem)))
      fun hmem => hid (hreach id (Or.inr hmem))

/-- What the pass reaches waits on the closed job. -/
theorem waitsOn_of_reflTransGen {db : Db} {ho : Ordered db} {closed u v : String}
    (hu : u ∈ waiterIds db closed) (h : ReflTransGen ((waitGraph db ho).Edge []) u v) :
    TransGen (WaitsOn db) closed v :=
  TransGen.head' (mem_waiterIds.mp hu)
    (ReflTransGen.mono (fun _ _ he => mem_waiterIds.mp he.1) _ _ h)

/-- Some job is decided again: below one waiter of a job that closes before its own turn. -/
def Redecided (js : Js) (db : Db) (ho : Ordered db) (closed v : String) : Prop :=
  (waitGraph db ho).Doubled [] (Opens js db) (waiterIds db closed) v

theorem settlesOnce_settle_iff (js : Js) {db : Db} (ho : Ordered db) (closed : String) :
    SettlesOnce db closed (settle js db closed) ↔ ∀ v, ¬Redecided js db ho closed v := by
  obtain ⟨prom, log, hprom, htracks, hvisits⟩ := tracks_settle js ho closed
  have hlog : log.Nodup ↔ ∀ v, ¬Redecided js db ho closed v := by
    rw [List.nodup_iff_count_le_one]
    refine forall_congr' fun v => ?_
    rw [Redecided, ← hvisits.twice_iff]
    omega
  rw [← hlog]
  constructor
  · exact fun h => htracks.ids_nodup_iff.mp h.once
  · intro hnodup
    refine htracks.settlesOnce hnodup ?_
    rintro id (hid | hid)
    · obtain ⟨u, hu, -, huv⟩ := (hvisits.mem_iff id).mp hid
      exact waitsOn_of_reflTransGen hu huv
    · exact TransGen.single (mem_waiterIds.mp (hprom id hid))

/-- The dependencies of a reached table have no cycle and every settlement ends; it lists each
job at most once, with the status it has afterwards, exactly when no job is decided again below
a waiter that closes before it. A failed dependency outranks a skipped one in every decision. -/
theorem settles_once_iff (js : Js) {db : Db} (h : Enqueued db) (closed : String) :
    (∀ id, ¬TransGen (DependsOn db) id id) ∧
    (∀ more, settleWaiters js (db.jobs.rows.length + more) db closed .none =
      settle js db closed) ∧
    (∀ db' w reason, waiterVerdict js db' w = .skip reason →
      ∀ d ∈ w.depends_on, brokenDep (db'.status? d) = false) ∧
    (SettlesOnce db closed (settle js db closed) ↔ ∀ v, ¬Redecided js db h.ordered closed v) :=
  ⟨acyclic_dependsOn h.ordered, settleWaiters_eq_settle js h.ordered closed,
    fun _ _ _ hskip => unbroken_of_skip hskip, settlesOnce_settle_iff js h.ordered closed⟩

/-- A build, a test that waits for it, and a report that waits for both. -/
def triangle : Db :=
  closeWaiter .failed (after .plain
    [.enqueue (Sample.job "build" [] []), .enqueue (Sample.job "test" ["build"] []),
      .enqueue (Sample.job "report" ["build", "test"] [])]) "build" "exit 1"

theorem settles_once_triangle :
    (∀ id, ¬TransGen (DependsOn triangle) id id) ∧
    (∀ more, settleWaiters .plain (triangle.jobs.rows.length + more) triangle "build" .none =
      settle .plain triangle "build") ∧
    (∀ db' w reason, waiterVerdict .plain db' w = .skip reason →
      ∀ d ∈ w.depends_on, brokenDep (db'.status? d) = false) ∧
    (SettlesOnce triangle "build" (settle .plain triangle "build") ↔
      ∀ v, ¬Redecided .plain triangle
        (enqueued_closed .plain _ .failed "build" "exit 1").ordered "build" v) :=
  settles_once_iff .plain (enqueued_closed .plain _ .failed "build" "exit 1") "build"

/-- The report fails below the test, and again on its own. -/
theorem report_twice :
    Enqueued triangle ∧
    (settle .plain triangle "build").2.failed.map Prod.fst = ["test", "report", "report"] ∧
    ¬SettlesOnce triangle "build" (settle .plain triangle "build") := by
  have hfailed : (settle .plain triangle "build").2.failed.map Prod.fst =
      ["test", "report", "report"] := by
    decide +kernel
  refine ⟨enqueued_closed .plain _ .failed "build" "exit 1", hfailed, fun h => ?_⟩
  have hnodup := h.once
  rw [DepSettlement.ids, closedIds, hfailed] at hnodup
  simp [List.nodup_append] at hnodup

end FleetRunner
