import FleetRunner.Preview

/-!
# What a registration stores and what scheduling makes of it

A registration is checked for an id, a time to live and capabilities. Its
descriptor and its pools are stored as they came, and every claim, dry run and
workload check reads them back. An agent that sends no list as its pools stops
every job that names a pool, and one descriptor the database's JSON functions
refuse stops every host executor's claim.

## Implementation notes

`executorsHolding` selects its rows with `json_extract`, and that statement
throws at a document SQLite does not read, such as one nested too deeply. Which
documents it reads is the parameter `readsJson`; the functions that reach the
statement are stated again here with its errors.
-/

namespace FleetRunner

open Library

variable (js : Js) (readsJson : Json → Bool)

/-! ## The statements that reach `json_extract` -/

namespace Sql

/-- `SELECT … WHERE json_extract(descriptor, '$.attached_to') IS NOT NULL` -/
def attachedRows (db : Db) : Except JsError (List Device) :=
  filterE (fun d =>
    if readsJson d.descriptor then .ok (isAttached d) else .error (.error "malformed JSON"))
    db.devices.rows

/-- Which executors hold an online device this host job could run on. -/
def executorsHolding (db : Db) (spec : Json) : Except JsError (List String) := do
  let rows ← attachedRows readsJson db
  .ok ((rows.filter (drawsJob js db spec)).filterMap attachedTo?)

/-- Would this claimant be handed this spec if it asked right now? -/
def specEligibleFor (db : Db) (ctx : ClaimantContext) (spec : Json) : Except JsError Bool :=
  let held := do
    let holders ← executorsHolding js readsJson db spec
    .ok (holders.isEmpty || holders.contains ctx.claimant)
  match ctx.executor with
  | .host =>
    match target? spec "executor" with
    | some e => if e.truthy then .ok (e.isStr ctx.claimant) else held
    | none => held
  | .device => FleetRunner.specEligibleFor js db ctx spec

/-- Claim the first queued job this claimant is eligible for. -/
def claimTx (myCollectorId : String) (db : Db) (executor : Executor) (claimant : String) :
    Except JsError (Db × Option Json) :=
  let ctx := claimantContext db executor claimant
  if executor = .device ∧ ((db.lockOf claimant).isSome ∨
      (busyElsewhere ctx.beacon ctx.beaconAgeS myCollectorId).isSome) then .ok (db, none)
  else
    match findE (fun r => specEligibleFor js readsJson db ctx r.spec) (queuedFor db executor) with
    | .error e => .error e
    | .ok none => .ok (db, none)
    | .ok (some r) => .ok (grantClaim db executor claimant r.job_id, some r.spec)

section Readable

variable {js readsJson} {db : Db}

/-- The statement throws exactly at a descriptor SQLite does not read. -/
theorem returns_attachedRows :
    Returns (attachedRows readsJson db) ↔ ∀ d ∈ db.devices.rows, readsJson d.descriptor = true := by
  constructor
  · rintro ⟨rows, hrows⟩ d hd
    by_contra hread
    unfold attachedRows at hrows
    generalize db.devices.rows = ds at hrows hd
    induction ds generalizing rows with
    | nil => cases hd
    | cons c rest ih =>
        obtain ⟨keep, kept, hc, hrest, -⟩ := filterE_cons_ok hrows
        rcases List.mem_cons.mp hd with rfl | hmem
        · rw [if_neg hread] at hc
          cases hc
        · exact ih kept hrest hmem
  · intro h
    apply returns_filterE
    intro d hd
    rw [if_pos (h d hd)]
    exact returns_ok _

theorem attachedRows_eq (h : ∀ d ∈ db.devices.rows, readsJson d.descriptor = true) :
    attachedRows readsJson db = .ok (db.devices.rows.filter isAttached) := by
  unfold attachedRows
  generalize db.devices.rows = ds at h
  induction ds with
  | nil => rfl
  | cons d rest ih =>
      have hrest := ih fun c hc => h c (List.mem_cons_of_mem d hc)
      rw [filterE, if_pos (h d List.mem_cons_self), hrest]
      cases hd : isAttached d <;> simp [hd]

theorem drawsJob_and_isAttached (spec : Json) (d : Device) :
    (drawsJob js db spec d && isAttached d) = drawsJob js db spec d := by
  unfold drawsJob
  cases isAttached d <;> simp

theorem executorsHolding_eq (h : ∀ d ∈ db.devices.rows, readsJson d.descriptor = true)
    (spec : Json) :
    executorsHolding js readsJson db spec = .ok (FleetRunner.executorsHolding js db spec) := by
  unfold executorsHolding FleetRunner.executorsHolding
  rw [attachedRows_eq h]
  simp only [bind, Except.bind, List.filter_filter, drawsJob_and_isAttached]

/-- Where every descriptor is read, the statement's errors are no longer seen. -/
theorem specEligibleFor_eq (h : ∀ d ∈ db.devices.rows, readsJson d.descriptor = true)
    (ctx : ClaimantContext) (spec : Json) :
    specEligibleFor js readsJson db ctx spec = FleetRunner.specEligibleFor js db ctx spec := by
  unfold specEligibleFor
  rw [executorsHolding_eq h]
  cases hexec : ctx.executor with
  | device => rfl
  | host =>
      unfold FleetRunner.specEligibleFor
      rw [hexec]
      rfl

theorem claimTx_eq (h : ∀ d ∈ db.devices.rows, readsJson d.descriptor = true) (my : String)
    (executor : Executor) (claimant : String) :
    claimTx js readsJson my db executor claimant =
      FleetRunner.claimTx js my db executor claimant := by
  unfold claimTx
  simp only [specEligibleFor_eq h]
  rfl

end Readable

end Sql

/-! ## What the readers need of a row -/

def isList : Json → Bool
  | .arr _ => true
  | _ => false

/-- Does the operator's list stand before what the agent reports? -/
def hasOverride (d : Device) : Bool := d.pools_override.any isList

/-- A value that has a string. -/
def Prints (v : Json) : Prop := Returns (v.text js)

/-- What every reader of this row can work with. -/
structure WellDeclared (d : Device) : Prop where
  pools : isList (effectivePools d) = true
  descriptor : readsJson d.descriptor = true
  fields : ∀ k v, Fields.get? d.descriptor.spread k = some v → Prints js v

/-- The words of a spec a capability is compared with each have a string. -/
def Sayable (workload backend : Json) : Prop := Prints js workload ∧ Prints js backend

/-- Nothing in the spec, or in the claimant's last beacon, throws of itself. -/
structure Judgeable (db : Db) (executor : Executor) (claimant : String) (spec : Json) : Prop where
  words : Sayable js ((spec.prop "workload").getD .null) (backendOf spec)
  constraints : Returns (constraintsSatisfied js (spec.prop "constraints")
    (claimantContext db executor claimant).beacon
    (claimantContext db executor claimant).beaconAgeS db.now)

/-- Claims, dry runs and workload checks throw for no spec, claimant or device
unless the spec's own words or the claimant's beacon do. -/
structure SchedulingWorks (db : Db) : Prop where
  selection : ∀ (pool expr workload backend : Option Json) (job : Json) (ignore : Bool),
    Sayable js (workload.getD .null) (backend.getD .null) →
      Returns (matchingDevices js db pool expr workload backend job ignore)
  workloads : ∀ (workload : String) (backend : Json), Prints js backend →
    Returns (workloadServiceableBy js db workload backend)
  keys : ∀ d ∈ db.devices.rows, ∀ field, Returns (distinctKey js field d)
  dryRun : ∀ (input : Json) (p : Plan db), prepare js db input = .ok p →
    Sayable js ((p.spec.prop "workload").getD .null) (backendOf p.spec) →
      ∀ e, enqueueJob js db input true ≠ .error (.thrown e)
  holding : ∀ spec, Returns (Sql.executorsHolding js readsJson db spec)
  eligible : ∀ executor claimant spec, Judgeable js db executor claimant spec →
    Returns (Sql.specEligibleFor js readsJson db (claimantContext db executor claimant) spec)
  claims : ∀ my executor claimant,
    (∀ r ∈ queuedFor db executor, Judgeable js db executor claimant r.spec) →
      Returns (Sql.claimTx js readsJson my db executor claimant)

section Readers

variable {js readsJson} {db : Db}

@[simp] theorem prints_str (s : String) : Prints js (.str s) := ⟨s, by simp only [Json.text]⟩

@[simp] theorem prints_null : Prints js .null := ⟨"null", by simp only [Json.text]⟩

theorem isList_effectivePools (d : Device) :
    isList (effectivePools d) = (hasOverride d || isList d.pools) := by
  unfold effectivePools hasOverride
  cases d.pools_override with
  | none => rfl
  | some v => cases v <;> rfl

/-! ### One row -/

theorem returns_inPool {pools : Json} (h : isList pools = true) (pool : Option Json) :
    Returns (inPool js pools pool) := by
  cases pools with
  | arr xs =>
      cases pool with
      | none => exact returns_ok true
      | some p =>
          simp only [inPool]
          split
          · exact returns_ok _
          · exact returns_ok true
  | _ => cases h

theorem returns_capabilityMatches {workload backend : Json} (h : Sayable js workload backend)
    (declared : Option (List String)) :
    Returns (capabilityMatches js declared workload backend) := by
  obtain ⟨⟨w, hw⟩, b, hb⟩ := h
  cases declared with
  | none => exact returns_ok true
  | some names =>
      simp only [capabilityMatches, hw, hb]
      split
      · exact returns_ok true
      · split
        · exact returns_ok false
        · exact returns_ok _

theorem returns_canRun {workload backend : Option Json}
    (h : Sayable js (workload.getD .null) (backend.getD .null)) (declared : Option (List String)) :
    Returns (canRun js declared workload backend) := by
  cases workload with
  | none => exact returns_ok true
  | some w =>
      simp only [canRun]
      split
      · exact returns_capabilityMatches h declared
      · exact returns_ok true

theorem returns_deviceMatches {d : Device} (hd : isList (effectivePools d) = true)
    {workload backend : Option Json} (h : Sayable js (workload.getD .null) (backend.getD .null))
    (pool expr : Option Json) (job : Json) (label : Option String) :
    Returns (deviceMatches js db pool expr workload backend job label d) := by
  apply returns_ifSo (returns_ok _)
  apply returns_ifSo (returns_inPool hd pool)
  apply returns_ifSo (returns_canRun h _)
  exact returns_ifSo (returns_ok _) (returns_ok _)

/-- A field of the descriptor is a key when it has a string; one that is absent always is. -/
theorem returns_distinctKey_iff {d : Device} :
    (∀ field, Returns (distinctKey js field d)) ↔
      ∀ k v, Fields.get? d.descriptor.spread k = some v → Prints js v := by
  have hkey : ∀ field, Returns (distinctKey js field d) ↔
      ∀ v, Fields.get? d.descriptor.spread field = some v → Prints js v := by
    intro field
    unfold distinctKey Match.member
    cases hv : Fields.get? d.descriptor.spread field with
    | none =>
        simp only [reduceCtorEq, false_implies, implies_true, iff_true]
        cases js.inherited field <;> exact returns_ok _
    | some v =>
        simp only [Option.some.injEq, forall_eq']
        unfold Prints
        cases v with
        | arr xs =>
            simp only [Json.toVal, Match.textOrEmpty, Val.text, joinElems, Json.text]
        | obj fs => exact Iff.rfl
        | _ => exact iff_of_true (returns_ok _) (returns_ok _)
  exact forall_congr' hkey

/-! ### Every row -/

theorem returns_matchingDevices (hpools : ∀ d ∈ db.devices.rows, isList (effectivePools d) = true)
    {workload backend : Option Json} (h : Sayable js (workload.getD .null) (backend.getD .null))
    (pool expr : Option Json) (job : Json) (ignore : Bool) :
    Returns (matchingDevices js db pool expr workload backend job ignore) := by
  apply returns_filterE
  intro d hd
  exact returns_deviceMatches (hpools d hd) h pool expr job _

/-- What a selection lists is in the registry. -/
theorem mem_rows_of_matchingDevices {pool expr workload backend : Option Json} {job : Json}
    {ignore : Bool} {ds : List Device}
    (h : matchingDevices js db pool expr workload backend job ignore = .ok ds) {d : Device}
    (hd : d ∈ ds) : d ∈ db.devices.rows :=
  ((mem_filterE h d).mp hd).1

theorem mem_rows_of_selected {p : Plan db} {ds : List Device} (h : selected js p = .ok ds)
    {d : Device} (hd : d ∈ ds) : d ∈ db.devices.rows := by
  unfold selected at h
  cases hexec : p.executor with
  | device =>
      rw [hexec] at h
      exact mem_rows_of_matchingDevices h hd
  | host =>
      rw [hexec] at h
      exact mem_rows_of_matchingDevices h hd

theorem returns_workloadServiceableBy {backend : Json} (h : Prints js backend) (workload : String) :
    Returns (workloadServiceableBy js db workload backend) := by
  unfold workloadServiceableBy
  split
  · exact returns_ok true
  · apply returns_anyE
    intro d _
    cases hcaps : deviceCapabilities d with
    | none => exact returns_ok false
    | some names => exact returns_capabilityMatches ⟨prints_str workload, h⟩ (some names)

/-- The claim's filter, for a claimant whose pools are a list. -/
theorem returns_specEligibleFor
    (hpools : ∀ d ∈ db.devices.rows, isList (effectivePools d) = true) {executor : Executor}
    {claimant : String} {spec : Json} (h : Judgeable js db executor claimant spec) :
    Returns (specEligibleFor js db (claimantContext db executor claimant) spec) := by
  have hlist : isList (claimantContext db executor claimant).pools = true := by
    cases executor with
    | host => rfl
    | device =>
        unfold claimantContext
        cases hd : db.device? claimant with
        | none => rfl
        | some d => exact hpools d (Table.find?_eq_some_iff.mp hd).1
  unfold specEligibleFor
  split
  · split
    · split <;> exact returns_ok _
    · exact returns_ok _
  · apply returns_ifSo (returns_ok _)
    apply returns_ifSo (returns_ok _)
    apply returns_ifSo (returns_inPool hlist _)
    apply returns_ifSo (returns_capabilityMatches h.words _)
    exact returns_ifSo h.constraints (returns_ok _)

/-- A job pinned to the device, under its reservation, for a pool that has no string. -/
def oddPoolJob (d : Device) (label : Option String) : Json :=
  .obj [("targets", .obj [("device_id", .str d.device_id), ("pool", .obj [("toString", .null)])]),
    ("reservation", .str (label.getD ""))]

theorem pinAllows_oddPoolJob (d : Device) (label : Option String) :
    pinAllows (oddPoolJob d label) d.device_id = true := by
  have htarget : target? (oddPoolJob d label) "device_id" = some (.str d.device_id) := by rfl
  simp [pinAllows, htarget]

theorem reservationAllows_oddPoolJob {d : Device} (hne : d.device_id ≠ "") (label : Option String)
    (descriptor : Fields) :
    reservationAllows js (oddPoolJob d label) d.device_id label descriptor = true := by
  cases label with
  | none => rfl
  | some l =>
      have hlabel : (oddPoolJob d (some l)).prop "reservation" = some (.str l) := by rfl
      have hpin : optProp ((oddPoolJob d (some l)).prop "targets") "device_id" =
          some (.str d.device_id) := by rfl
      simp [reservationAllows, hlabel, pinsDevice_of_device_id js hpin hne]

/-- Only a list answers for every pool a job may name. -/
theorem isList_of_returns_inPool {pools : Json}
    (h : Returns (inPool js pools (some (.obj [("toString", .null)])))) : isList pools = true := by
  change Returns (pools.includesValue js (.obj [("toString", .null)])) at h
  cases pools with
  | arr xs => rfl
  | str s =>
      have htext : (Json.obj [("toString", .null)]).text js = .error .typeError := by
        simp only [Json.text]
        rfl
      simp only [Json.includesValue, htext] at h
      exact absurd h (not_returns_error _)
  | _ => exact absurd h (not_returns_error _)

theorem isList_of_eligible {d : Device} (hne : d.device_id ≠ "") (hd : d ∈ db.devices.rows)
    (h : ∀ executor claimant spec, Judgeable js db executor claimant spec →
      Returns (Sql.specEligibleFor js readsJson db (claimantContext db executor claimant) spec)) :
    isList (effectivePools d) = true := by
  have hctx : claimantContext db .device d.device_id = deviceContext db d := by
    simp [claimantContext, device?_of_mem hd]
  have hjudge : Judgeable js db .device d.device_id (oddPoolJob d (db.reservedFor d.device_id)) :=
    ⟨⟨prints_null, prints_null⟩, returns_ok true⟩
  have hreturns := h .device d.device_id _ hjudge
  rw [hctx] at hreturns
  -- the job passes every guard in front of the pool's
  simp only [Sql.specEligibleFor, specEligibleFor, deviceContext, pinAllows_oddPoolJob,
    reservationAllows_oddPoolJob hne, ifSo_ok, if_true] at hreturns
  exact isList_of_returns_inPool (returns_of_ifSo hreturns)

theorem returns_claimTx (hpools : ∀ d ∈ db.devices.rows, isList (effectivePools d) = true)
    {executor : Executor} {claimant : String}
    (h : ∀ r ∈ queuedFor db executor, Judgeable js db executor claimant r.spec) (my : String) :
    Returns (claimTx js my db executor claimant) := by
  obtain ⟨found, hfound⟩ := returns_findE
    (p := fun r => specEligibleFor js db (claimantContext db executor claimant) r.spec)
    fun r hr => returns_specEligibleFor hpools (h r hr)
  unfold claimTx
  simp only [hfound]
  split
  · exact returns_ok _
  · cases found with
    | none => exact returns_ok _
    | some r => exact returns_ok _

/-! ### A dry run -/

/-- The enqueue answers, with an acceptance or a refusal. -/
def Answers {α : Type} (x : Except EnqueueError α) : Prop := ∀ e, x ≠ .error (.thrown e)

theorem answers_ok {α : Type} (a : α) : Answers (.ok a) := nofun

theorem answers_refuse {α : Type} (http : Nat) (code : ErrorCode) (message hint : String) :
    Answers (refuse http code message hint : Except EnqueueError α) := nofun

theorem Answers.bind {α β : Type} {x : Except EnqueueError α} {f : α → Except EnqueueError β}
    (hx : Answers x) (hf : ∀ a, x = .ok a → Answers (f a)) : Answers (x >>= f) := by
  cases x with
  | ok a => exact hf a rfl
  | error r =>
      intro e he
      exact hx e (congrArg Except.error (Except.error.inj he))

theorem answers_orThrow {α : Type} {x : Except JsError α} (h : Returns x) : Answers (orThrow x) := by
  obtain ⟨a, rfl⟩ := h
  exact answers_ok a

theorem returns_firstOfEach {key : Device → Except JsError String} {ds : List Device}
    (h : ∀ d ∈ ds, Returns (key d)) (seen : List String) : Returns (firstOfEach key seen ds) := by
  induction ds generalizing seen with
  | nil => exact returns_ok []
  | cons d rest ih =>
      have hrest := ih fun c hc => h c (List.mem_cons_of_mem d hc)
      unfold firstOfEach
      obtain ⟨k, hk⟩ := h d List.mem_cons_self
      refine returns_bind.mpr ⟨k, hk, ?_⟩
      split
      · exact hrest seen
      · obtain ⟨others, hothers⟩ := hrest (k :: seen)
        exact returns_bind.mpr ⟨others, hothers, returns_ok _⟩

section DryRun

variable {p : Plan db} (hpools : ∀ d ∈ db.devices.rows, isList (effectivePools d) = true)
  (hwords : Sayable js ((p.spec.prop "workload").getD .null) (backendOf p.spec))

include hpools hwords

theorem returns_selected : Returns (selected js p) := by
  unfold selected
  cases p.executor with
  | device => exact returns_matchingDevices hpools hwords _ _ _ _
  | host => exact returns_matchingDevices hpools ⟨prints_null, prints_null⟩ _ _ _ _

theorem returns_reservedLeftOut (kept : List Device) : Returns (reservedLeftOut js p kept) := by
  have hall : Returns (matchingDevices js db (target? p.spec "pool") (target? p.spec "match")
      (if p.executor = .device then p.spec.prop "workload" else none) (some (backendOf p.spec))
      p.spec true) := by
    apply returns_matchingDevices hpools
    split
    · exact hwords
    · exact ⟨prints_null, hwords.2⟩
  obtain ⟨all, hall⟩ := hall
  exact returns_bind.mpr ⟨all, hall, returns_ok _⟩

theorem returns_warningsFor (devices : List Device) : Returns (warningsFor js p devices) := by
  obtain ⟨held, hheld⟩ := returns_reservedLeftOut hpools hwords devices
  exact returns_bind.mpr ⟨held, hheld, returns_ok _⟩

theorem answers_placeOne : Answers (placeOne js p true) := by
  unfold placeOne
  split
  · exact answers_refuse _ _ _ _
  · apply Answers.bind (answers_orThrow (returns_selected hpools hwords))
    intro devices _
    apply Answers.bind (answers_orThrow (returns_warningsFor hpools hwords _))
    intro warnings _
    exact answers_ok _

variable (hkeys : ∀ d ∈ db.devices.rows, ∀ field, Returns (distinctKey js field d))

include hkeys

theorem answers_fanoutDevices (fanout : Json) : Answers (fanoutDevices js p fanout) := by
  unfold fanoutDevices
  simp only
  split
  · exact answers_refuse _ _ _ _
  · apply Answers.bind (answers_orThrow (returns_selected hpools hwords))
    intro devices hdevices
    split
    · apply Answers.bind (answers_orThrow (returns_reservedLeftOut hpools hwords devices))
      intro held _
      exact answers_refuse _ _ _ _
    · split
      · exact answers_ok _
      · split
        · exact answers_ok _
        · apply answers_orThrow
          apply returns_firstOfEach
          intro d hd
          exact hkeys d (mem_rows_of_selected (orThrow_eq_ok hdevices) hd) _

theorem answers_placeFanout (fanout : Json) : Answers (placeFanout js p fanout true) := by
  unfold placeFanout
  apply Answers.bind (answers_fanoutDevices hpools hwords hkeys fanout)
  intro devices _
  apply Answers.bind (answers_orThrow (returns_warningsFor hpools hwords devices))
  intro warnings _
  exact answers_ok _

theorem answers_dryRun {input : Json} (h : prepare js db input = .ok p) :
    Answers (enqueueJob js db input true) := by
  unfold enqueueJob
  rw [h]
  change Answers (match p.spec.prop "fanout" with
    | some fanout => if fanout.truthy then placeFanout js p fanout true else placeOne js p true
    | none => placeOne js p true)
  split
  · split
    · exact answers_placeFanout hpools hwords hkeys _
    · exact answers_placeOne hpools hwords
  · exact answers_placeOne hpools hwords

end DryRun

/-- Every reader works on rows that are well declared, and on no others. -/
theorem schedulingWorks_iff (hnamed : NamedDevices db) :
    SchedulingWorks js readsJson db ↔ ∀ d ∈ db.devices.rows, WellDeclared js readsJson d := by
  constructor
  · intro h d hd
    refine ⟨?_, ?_, returns_distinctKey_iff.mp (h.keys d hd)⟩
    · exact isList_of_eligible (hnamed d hd) hd h.eligible
    · obtain ⟨names, hnames⟩ := h.holding .null
      obtain ⟨rows, hrows, -⟩ := bind_eq_ok hnames
      exact Sql.returns_attachedRows.mp ⟨rows, hrows⟩ d hd
  · intro h
    have hpools := fun d hd => (h d hd).pools
    have hread := fun d hd => (h d hd).descriptor
    have hkeys := fun d hd => returns_distinctKey_iff.mpr (h d hd).fields
    refine { selection := ?_, workloads := ?_, keys := hkeys, dryRun := ?_, holding := ?_,
             eligible := ?_, claims := ?_ }
    · exact fun pool expr workload backend job ignore hwords =>
        returns_matchingDevices hpools hwords pool expr job ignore
    · exact fun workload backend hb => returns_workloadServiceableBy hb workload
    · exact fun input p hplan hwords => answers_dryRun hpools hwords hkeys hplan
    · intro spec
      rw [Sql.executorsHolding_eq hread]
      exact returns_ok _
    · intro executor claimant spec hjudge
      rw [Sql.specEligibleFor_eq hread]
      exact returns_specEligibleFor hpools hjudge
    · intro my executor claimant hjudge
      rw [Sql.claimTx_eq hread]
      exact returns_claimTx hpools hjudge my

end Readers

/-! ## Steps that leave every row well declared -/

/-- A registration every reader can work with. -/
structure SoundRegistration (db : Db) (g : Registration) : Prop where
  pools : isList g.pools = true ∨ (db.device? g.device_id).any hasOverride = true
  descriptor : readsJson g.descriptor = true
  fields : ∀ k v, Fields.get? g.descriptor.spread k = some v → Prints js v

/-- Nothing unreadable is declared, and no override is lifted from unreadable pools. -/
def SoundRequest (db : Db) : Request → Prop
  | .register body none => ∀ g, readRegistration body = .ok g → SoundRegistration js readsJson db g
  | .editPools id none => (db.device? id).all (fun d => isList d.pools) = true
  | _ => True

/-- What a row declares to the readers. -/
def declarations (d : Device) : Json × Json × Option Json := (d.descriptor, d.pools, d.pools_override)

/-- Every row that is there declares what it declarations before. -/
def SameDeclared (db db' : Db) : Prop :=
  ∀ id d', db'.device? id = some d' → ∃ d, db.device? id = some d ∧ declarations d' = declarations d

namespace SameDeclared

variable {db db' db'' : Db}

theorem of_same (h : SameRegistry db db') : SameDeclared db db' := by
  intro id d' hd'
  rw [h.device?] at hd'
  exact ⟨d', hd', rfl⟩

theorem trans (h : SameDeclared db db') (h' : SameDeclared db' db'') : SameDeclared db db'' := by
  intro id d'' hd''
  obtain ⟨d', hd', heq'⟩ := h' id d'' hd''
  obtain ⟨d, hd, heq⟩ := h id d' hd'
  exact ⟨d, hd, heq'.trans heq⟩

theorem of_update (db : Db) (id : String) (f : Device → Device)
    (hf : ∀ d, (f d).device_id = d.device_id) (hkeep : ∀ d, declarations (f d) = declarations d) :
    SameDeclared db { db with devices := db.devices.update id f hf } := by
  intro other d' hd'
  change (db.devices.update id f hf).find? other = some d' at hd'
  rw [Table.find?_update] at hd'
  split at hd'
  · obtain ⟨d, hd, rfl⟩ := Option.map_eq_some_iff.mp hd'
    exact ⟨d, hd, hkeep d⟩
  · exact ⟨d', hd', rfl⟩

theorem of_deleted (db : Db) (p : Device → Bool) :
    SameDeclared db { db with devices := db.devices.deleteWhere p } := by
  intro id d' hd'
  change (db.devices.deleteWhere p).find? id = some d' at hd'
  rw [Table.find?_deleteWhere] at hd'
  exact ⟨d', (Option.filter_eq_some_iff.mp hd').1, rfl⟩

end SameDeclared

/-- Every row can be worked with. -/
def AllDeclared (db : Db) : Prop := ∀ id d, db.device? id = some d → WellDeclared js readsJson d

section Steps

variable {cfg : Config} {readsJson} {db : Db}

/-- Only a registration and an edit of the pools change what a row declares. -/
theorem sameDeclared_step (req : Request) (hregister : ∀ body refused, req ≠ .register body refused)
    (hedit : ∀ id pools, req ≠ .editPools id pools) : SameDeclared db (step cfg db req) := by
  have htouch : ∀ (db : Db) (id : String), SameDeclared db (touchDevice db id) := fun db id =>
    .of_update db id _ _ fun _ => rfl
  cases req with
  | register body refused => exact absurd rfl (hregister body refused)
  | editPools who pools => exact absurd rfl (hedit who pools)
  | results body =>
      simp only [step, postResults]
      cases hpost : readPost body with
      | error e => exact .of_same (.refl db)
      | ok post =>
          cases post with
          | beacon who b =>
              have hheard : SameDeclared db (recordBeacon db who b) := .of_update db who _ _ fun _ => rfl
              exact hheard.trans (.of_same (sameRegistry_postBeacon who b))
          | result p =>
              have hstored : SameDeclared db { db with
                  results := db.results.replace ⟨p.job_id, p.device_id, p.iter, p.body⟩ } :=
                .of_same ⟨rfl, rfl⟩
              have hrecorded : SameDeclared db (recordResult db p.job_id p.device_id p.iter p.body) :=
                hstored.trans (htouch _ p.device_id)
              simp only [postResult]
              split
              · exact hrecorded.trans (.of_same (sameRegistry_postFinal _ _))
              · exact hrecorded
  | nextJob who =>
      simp only [step, nextJob]
      split
      · exact .of_same (.refl db)
      · split
        · rename_i claimed out hclaim
          exact (htouch db who).trans (.of_same (sameRegistry_claimTx hclaim))
        · exact htouch db who
  | sweep =>
      rcases step_sweep cfg db with ⟨-, hdb⟩ | ⟨swept, out, hsweep, hdb⟩
      · rw [hdb]
        exact .of_same (.refl db)
      · have hswept := SameDeclared.of_same (sameRegistry_sweepLeasesTx hsweep)
        rw [hdb]
        exact hswept.trans (.of_deleted _ _)
  | forgetDevice who =>
      simp only [step, forgetDevice]
      split
      · exact .of_same (.refl db)
      · exact (SameDeclared.of_deleted db _).trans (.of_same ⟨rfl, rfl⟩)
  | tick ms => exact fun id d' hd' => ⟨d', hd', rfl⟩
  | _ => exact .of_same (sameRegistry_step cfg db _ rfl)

theorem allDeclared_iff {js : Js} :
    AllDeclared js readsJson db ↔ ∀ d ∈ db.devices.rows, WellDeclared js readsJson d := by
  constructor
  · exact fun h d hd => h d.device_id d (device?_of_mem hd)
  · exact fun h id d hd => h d (Table.find?_eq_some_iff.mp hd).1

/-- Being well declared is a matter of what the row declares. -/
theorem wellDeclared_congr {js : Js} {d d' : Device} (h : declarations d' = declarations d) :
    WellDeclared js readsJson d' ↔ WellDeclared js readsJson d := by
  obtain ⟨hdescriptor, hrest⟩ := Prod.mk.inj h
  obtain ⟨hpools, hoverride⟩ := Prod.mk.inj hrest
  have heffective : effectivePools d' = effectivePools d := by
    unfold effectivePools
    rw [hpools, hoverride]
  constructor
  · rintro ⟨h₁, h₂, h₃⟩
    exact ⟨heffective ▸ h₁, hdescriptor ▸ h₂, hdescriptor ▸ h₃⟩
  · rintro ⟨h₁, h₂, h₃⟩
    exact ⟨heffective ▸ h₁, hdescriptor ▸ h₂, hdescriptor ▸ h₃⟩

theorem SameDeclared.allDeclared {js : Js} {db db' : Db} (h : SameDeclared db db')
    (hall : AllDeclared js readsJson db) : AllDeclared js readsJson db' := by
  intro id d' hd'
  obtain ⟨d, hd, heq⟩ := h id d' hd'
  exact (wellDeclared_congr heq).mpr (hall id d hd)

/-! ### Registrations -/

/-- The row a registration leaves under its id. -/
def registeredRow (db : Db) (g : Registration) : Device :=
  (db.device? g.device_id).elim (newDevice db.sqlNow g) (refreshDevice db.sqlNow g)

theorem device?_upsertDevice (db : Db) (g : Registration) (id : String) :
    (upsertDevice db g).device? id =
      if id = g.device_id then some (registeredRow db g) else db.device? id := by
  unfold upsertDevice registeredRow
  split
  · rename_i hrow
    obtain ⟨d, hd⟩ := Option.isSome_iff_exists.mp hrow
    have hdev : db.device? g.device_id = some d := hd
    refine (Table.find?_update db.devices g.device_id id (refreshDevice db.sqlNow g)
      fun _ => rfl).trans ?_
    split
    · rename_i hid
      rw [hid, hd, hdev]
      rfl
    · rfl
  · rename_i hrow
    have hdev : db.device? g.device_id = none := by simpa [Table.contains, Db.device?] using hrow
    refine (Table.find?_insertNew db.devices (newDevice db.sqlNow g) id).trans ?_
    change (db.device? id).or (if g.device_id = id then _ else _) = _
    by_cases hid : g.device_id = id
    · rw [if_pos hid, if_pos hid.symm, ← hid, hdev]
      rfl
    · rw [if_neg hid, if_neg (Ne.symm hid), Option.or_none]

/-- Only a row named by an address is retired, and never the one registering. -/
theorem device?_retireRokuIpDuplicate (db : Db) (deviceId : String) (descriptor : Json) :
    (retireRokuIpDuplicate db deviceId descriptor).1.device? deviceId = db.device? deviceId := by
  unfold retireRokuIpDuplicate
  split
  · simp only
    split
    · rename_i ip _ hroku
      split
      · rfl
      · have hne : deviceId ≠ rokuIpId ip := by
          rintro rfl
          simp [rokuIpId, String.toList_append] at hroku
        change (db.devices.deleteWhere _).find? deviceId = db.devices.find? deviceId
        rw [Table.find?_deleteWhere]
        cases hd : db.devices.find? deviceId with
        | none => rfl
        | some d =>
            have hid : d.device_id = deviceId := Table.key_of_find? hd
            simp [Option.filter, hid, hne]
    · rfl
  · rfl

theorem sameDeclared_retireRokuIpDuplicate (db : Db) (deviceId : String) (descriptor : Json) :
    SameDeclared db (retireRokuIpDuplicate db deviceId descriptor).1 := by
  unfold retireRokuIpDuplicate
  split
  · simp only
    split
    · split
      · exact .of_same (.refl db)
      · exact .of_deleted db _
    · exact .of_same (.refl db)
  · exact .of_same (.refl db)

theorem wellDeclared_registeredRow_iff {js : Js} (g : Registration) :
    WellDeclared js readsJson (registeredRow db g) ↔ SoundRegistration js readsJson db g := by
  have hdescriptor : (registeredRow db g).descriptor = g.descriptor := by
    unfold registeredRow
    cases db.device? g.device_id <;> rfl
  have hpools : isList (effectivePools (registeredRow db g)) =
      ((db.device? g.device_id).any hasOverride || isList g.pools) := by
    rw [isList_effectivePools]
    unfold registeredRow
    cases db.device? g.device_id <;> rfl
  constructor
  · rintro ⟨h₁, h₂, h₃⟩
    rw [hpools, Bool.or_eq_true] at h₁
    rw [hdescriptor] at h₂ h₃
    exact ⟨h₁.symm, h₂, h₃⟩
  · rintro ⟨h₁, h₂, h₃⟩
    refine ⟨?_, ?_, ?_⟩
    · rw [hpools, Bool.or_eq_true]
      exact h₁.symm
    · rw [hdescriptor]
      exact h₂
    · rw [hdescriptor]
      exact h₃

/-- A registration that goes through leaves every row well declared exactly when it is sound. -/
theorem allDeclared_registered_iff {js : Js} (hall : AllDeclared js readsJson db)
    (g : Registration) :
    AllDeclared js readsJson (retireRokuIpDuplicate (upsertDevice db g) g.device_id g.descriptor).1 ↔
      SoundRegistration js readsJson db g := by
  rw [← wellDeclared_registeredRow_iff]
  constructor
  · intro h
    apply h g.device_id
    rw [device?_retireRokuIpDuplicate, device?_upsertDevice, if_pos rfl]
  · intro h
    apply (sameDeclared_retireRokuIpDuplicate _ _ _).allDeclared
    intro id d hd
    rw [device?_upsertDevice] at hd
    split at hd
    · cases hd
      exact h
    · exact hall id d hd

theorem allDeclared_editPools_iff {js : Js} (hall : AllDeclared js readsJson db) (who : String)
    (pools : Option (List String)) :
    AllDeclared js readsJson (editPools db who pools) ↔
      SoundRequest js readsJson db (.editPools who pools) := by
  have hrow : ∀ id, (editPools db who pools).device? id =
      if id = who then (db.device? id).map fun d =>
        { d with pools_override := pools.map fun names => .arr (names.map Json.str) }
      else db.device? id := by
    intro id
    exact Table.find?_update db.devices who id (fun d =>
      { d with pools_override := pools.map fun names => .arr (names.map Json.str) }) fun _ => rfl
  cases pools with
  | some names =>
      refine iff_of_true (fun id d' hd' => ?_) trivial
      rw [hrow] at hd'
      split at hd'
      · obtain ⟨d, hd, rfl⟩ := Option.map_eq_some_iff.mp hd'
        exact ⟨rfl, (hall id d hd).descriptor, (hall id d hd).fields⟩
      · exact hall id d' hd'
  | none =>
      simp only [SoundRequest]
      cases hwho : db.device? who with
      | none =>
          refine iff_of_true (fun id d' hd' => ?_) rfl
          rw [hrow] at hd'
          split at hd'
          · rename_i hid
            rw [hid, hwho] at hd'
            cases hd'
          · exact hall id d' hd'
      | some d =>
          have hcleared : (editPools db who none).device? who =
              some { d with pools_override := none } := by
            rw [hrow, if_pos rfl, hwho]
            rfl
          constructor
          · exact fun h => (h who _ hcleared).pools
          · intro hlist id d' hd'
            rw [hrow] at hd'
            split at hd'
            · rename_i hid
              rw [hid, hwho] at hd'
              cases hd'
              exact ⟨hlist, (hall who d hwho).descriptor, (hall who d hwho).fields⟩
            · exact hall id d' hd'

/-- The next state is well declared exactly when the request was sound. -/
theorem allDeclared_step_iff (hall : AllDeclared cfg.js readsJson db) (req : Request) :
    AllDeclared cfg.js readsJson (step cfg db req) ↔ SoundRequest cfg.js readsJson db req := by
  cases req with
  | register body refused =>
      cases refused with
      | some why =>
          have hrefused : step cfg db (.register body (some why)) = db := by
            simp only [step, register]
            cases readRegistration body <;> rfl
          rw [hrefused]
          exact iff_of_true hall trivial
      | none =>
          simp only [step, register, SoundRequest]
          cases hg : readRegistration body with
          | error e => exact iff_of_true hall (by rintro _ ⟨⟩)
          | ok g =>
              simp only [Except.ok.injEq, forall_eq']
              exact allDeclared_registered_iff hall g
  | editPools who pools => exact allDeclared_editPools_iff hall who pools
  | _ =>
      refine iff_of_true (SameDeclared.allDeclared (sameDeclared_step _ ?_ ?_) hall) trivial
      · rintro _ _ ⟨⟩
      · rintro _ _ ⟨⟩

end Steps

/-- One agent registers a number as its pools, and a job for a pool is queued. -/
def numberedPools : List Request :=
  [.register (Sample.registration "pad" [("pools", .num 5)]) none,
    .enqueue (Sample.job "j" [] [("targets", .obj [("pool", .str "gpu")])])]

end FleetRunner
