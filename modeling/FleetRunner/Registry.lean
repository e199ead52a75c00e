import FleetRunner.Lifecycle

/-!
# What a request does to a device's row

Registrations, polls, beacons and result rows write the registry; the timer
and the operator forget rows. Everything else leaves it alone, so what holds
of one row in every reachable state follows from `device_step`.
-/

namespace FleetRunner

open Library

/-- The registry and the clock are as they were. -/
structure SameRegistry (db db' : Db) : Prop where
  devices : db'.devices = db.devices
  now : db'.now = db.now

namespace SameRegistry

theorem refl (db : Db) : SameRegistry db db := ⟨rfl, rfl⟩

theorem trans {db db' db'' : Db} (h : SameRegistry db db') (h' : SameRegistry db' db'') :
    SameRegistry db db'' :=
  ⟨h'.devices.trans h.devices, h'.now.trans h.now⟩

theorem device? {db db' : Db} (h : SameRegistry db db') (id : String) :
    db'.device? id = db.device? id := by
  simp only [Db.device?, h.devices]

theorem sqlNow {db db' : Db} (h : SameRegistry db db') : db'.sqlNow = db.sqlNow := by
  simp only [Db.sqlNow, h.now]

end SameRegistry

/-! ## Transactions that leave the registry alone -/

section Transactions

variable {js : Js} {db : Db}

theorem sameRegistry_claimTx {my : String} {db' : Db} {executor : Executor} {claimant : String}
    {out : Option Json} (h : claimTx js my db executor claimant = .ok (db', out)) :
    SameRegistry db db' := by
  rcases claimTx_ok h with rfl | ⟨r, -, -, -, -, rfl⟩
  · exact .refl db'
  · cases executor <;> exact ⟨rfl, rfl⟩

theorem sameRegistry_settle (closed : String) : SameRegistry db (settle js db closed).1 := by
  obtain ⟨jobs, hjobs⟩ := (settling_settle js db closed).same
  rw [hjobs]
  exact ⟨rfl, rfl⟩

theorem sameRegistry_closeJobTx (jobId : String) (closing : Closing) :
    SameRegistry db (closeJobTx js db jobId closing).1 :=
  have hclose : SameRegistry db ((db.updateJob jobId (closeRow db.sqlNow closing)
      (closeRow_job_id _ _)).dropLocks jobId) := ⟨rfl, rfl⟩
  hclose.trans (sameRegistry_settle jobId)

theorem sameRegistry_postFinal (jobId : String) (b : Json) :
    SameRegistry db (postFinal js db jobId b).1 := by
  rcases postFinal_cases js db jobId b with ⟨r, -, -, -, hdb⟩ | ⟨-, hdb⟩
  · rw [hdb]
    exact ⟨rfl, rfl⟩
  · rw [hdb]
    exact sameRegistry_closeJobTx jobId _

theorem sameRegistry_acquireLocksTx (jobId : String) (ids : List String) :
    SameRegistry db (acquireLocksTx db jobId ids).1 := by
  refine @Library.invariant_all _ _ (acquireOne jobId) (fun s => SameRegistry db s.1)
    (fun s d hdb => ?_) (db, ⟨[], []⟩) (.refl db) ids
  unfold acquireOne
  split
  · exact hdb.trans ⟨rfl, rfl⟩
  · split
    · exact hdb.trans ⟨rfl, rfl⟩
    · exact hdb

theorem sameRegistry_sweepLeasesTx {db swept : Db} {out : Swept}
    (h : sweepLeasesTx db = .ok (swept, out)) : SameRegistry db swept := by
  rw [(sweepLeasesTx_ok h).2]
  refine @Library.invariant_all _ _ sweepOne (fun s => SameRegistry db s.1)
    (fun s job hdb => ?_) (db, ⟨[], []⟩) (.refl db) _
  unfold sweepOne
  split <;> exact hdb.trans ⟨rfl, rfl⟩

theorem sameRegistry_postBeacon (deviceId : String) (b : Json) :
    SameRegistry (recordBeacon db deviceId b) (postBeacon js db deviceId b).1 := by
  rw [postBeacon_eq]
  split <;> exact ⟨rfl, rfl⟩

end Transactions

/-! ## One row -/

/-- The beacon of this device that a request carries. -/
def beaconFrom? (id : String) : Request → Option Json
  | .results body =>
    match readPost body with
    | .ok (.beacon who b) => if who = id then some b else none
    | _ => none
  | _ => none

/-- What a request may make of a device's row; only a beacon writes the last beacon. -/
inductive DeviceChange (now : Nat) (id : String) :
    Option Json → Option Device → Option Device → Prop where
  | same (o : Option Device) : DeviceChange now id none o o
  | forgotten (o : Option Device) : DeviceChange now id none o none
  | touched (d : Device) : DeviceChange now id none (some d) (some { d with last_seen := now })
  | edited (d : Device) (pools : Option Json) :
      DeviceChange now id none (some d) (some { d with pools_override := pools })
  | registered (g : Registration) (o : Option Device) (hne : id ≠ "") :
      DeviceChange now id none o (some (o.elim (newDevice now g) (refreshDevice now g)))
  | heard (b : Json) (o : Option Device) : DeviceChange now id (some b) o
      (o.map fun d => { d with last_beacon := some b, last_seen := now })

/-- The same of every row, beside a clock that never runs back. -/
structure RegistryChange (heard : String → Option Json) (db db' : Db) : Prop where
  now : db.now ≤ db'.now
  row : ∀ id, DeviceChange db.sqlNow id (heard id) (db.device? id) (db'.device? id)

/-- A change in which no device is heard. -/
abbrev QuietChange : Db → Db → Prop := RegistryChange fun _ => none

namespace RegistryChange

variable {heard : String → Option Json} {db db' db'' : Db}

theorem of_same (h : SameRegistry db db') : QuietChange db db' := by
  refine ⟨h.now.ge, fun id => ?_⟩
  rw [h.device?]
  exact .same _

theorem then_same (h : RegistryChange heard db db') (hsame : SameRegistry db' db'') :
    RegistryChange heard db db'' := by
  refine ⟨h.now.trans hsame.now.ge, fun id => ?_⟩
  rw [hsame.device?]
  exact h.row id

theorem after_same (h : RegistryChange heard db' db'') (hsame : SameRegistry db db') :
    RegistryChange heard db db'' := by
  refine ⟨hsame.now.ge.trans h.now, fun id => ?_⟩
  rw [← hsame.device?, ← hsame.sqlNow]
  exact h.row id

/-- Rows may be forgotten after a quiet change. -/
theorem then_deleted (h : QuietChange db db') (p : Device → Bool) :
    QuietChange db { db' with devices := db'.devices.deleteWhere p } := by
  refine ⟨h.now, fun id => ?_⟩
  change DeviceChange db.sqlNow id none (db.device? id) ((db'.devices.deleteWhere p).find? id)
  rw [Table.find?_deleteWhere]
  change DeviceChange db.sqlNow id none (db.device? id) ((db'.device? id).filter fun r => !p r)
  have hrow := h.row id
  cases hd : db'.device? id with
  | none => exact .forgotten _
  | some d =>
      rw [hd] at hrow
      by_cases hp : p d = true
      · simp only [Option.filter, hp, Bool.not_true, Bool.false_eq_true, if_false]
        exact .forgotten _
      · simp only [Option.filter, hp, Bool.not_false, if_true]
        exact hrow

/-- One row is updated, the others are not. -/
theorem of_update (id : String) (f : Device → Device) (hf : ∀ d, (f d).device_id = d.device_id)
    (h : DeviceChange db.sqlNow id (heard id) (db.device? id) ((db.device? id).map f))
    (hothers : ∀ other, other ≠ id → heard other = none) :
    RegistryChange heard db { db with devices := db.devices.update id f hf } := by
  refine ⟨Nat.le_refl _, fun other => ?_⟩
  change DeviceChange db.sqlNow other (heard other) (db.device? other)
    ((db.devices.update id f hf).find? other)
  rw [Table.find?_update]
  by_cases hid : other = id
  · rw [if_pos hid, hid]
    exact h
  · rw [if_neg hid, hothers other hid]
    exact .same _

end RegistryChange

theorem registryChange_touchDevice (db : Db) (id : String) : QuietChange db (touchDevice db id) := by
  apply RegistryChange.of_update
  · cases db.device? id with
    | none => exact .same none
    | some d => exact .touched d
  · exact fun _ _ => rfl

theorem registryChange_recordBeacon (db : Db) (who : String) (b : Json) :
    RegistryChange (fun id => if who = id then some b else none) db (recordBeacon db who b) := by
  apply RegistryChange.of_update
  · simp only [if_true]
    exact .heard b _
  · exact fun other hne => if_neg (Ne.symm hne)

theorem registryChange_editPools (db : Db) (id : String) (pools : Option (List String)) :
    QuietChange db (editPools db id pools) := by
  apply RegistryChange.of_update
  · cases db.device? id with
    | none => exact .same none
    | some d => exact .edited d _
  · exact fun _ _ => rfl

theorem readRegistration_ok {b : Json} {g : Registration} (h : readRegistration b = .ok g) :
    g.device_id ≠ "" := by
  unfold readRegistration at h
  split at h
  · cases h
  · rename_i id hid
    obtain ⟨ttl, -, h⟩ := bind_eq_ok h
    obtain ⟨caps, -, h⟩ := bind_eq_ok h
    cases h
    unfold textField? at hid
    split at hid
    · split at hid
      · cases hid
      · rename_i hne
        cases hid
        exact hne
    · cases hid

theorem registryChange_upsertDevice (db : Db) (g : Registration) (hne : g.device_id ≠ "") :
    QuietChange db (upsertDevice db g) := by
  unfold upsertDevice
  split
  · rename_i hrow
    obtain ⟨d, hd⟩ := Option.isSome_iff_exists.mp hrow
    have hdev : db.device? g.device_id = some d := hd
    apply RegistryChange.of_update
    · rw [hdev]
      exact .registered g (some d) hne
    · exact fun _ _ => rfl
  · rename_i hrow
    have hdev : db.device? g.device_id = none := by simpa [Table.contains, Db.device?] using hrow
    refine ⟨Nat.le_refl _, fun id => ?_⟩
    change DeviceChange db.sqlNow id none (db.device? id)
      ((db.devices.insertNew (newDevice db.sqlNow g)).find? id)
    rw [Table.find?_insertNew]
    change DeviceChange db.sqlNow id none (db.device? id) ((db.device? id).or _)
    by_cases hid : g.device_id = id
    · subst hid
      rw [hdev, if_pos (by rfl), Option.none_or]
      exact .registered g none hne
    · rw [if_neg (by simpa [newDevice] using hid), Option.or_none]
      exact .same _

theorem registryChange_register {db db' : Db} {b : Json} {refused out : Option String}
    (h : register db b refused = .ok (db', out)) : QuietChange db db' := by
  unfold register at h
  obtain ⟨g, hg, h⟩ := bind_eq_ok h
  split at h
  · cases h
  · obtain rfl := congrArg Prod.fst (Except.ok.inj h)
    have hupsert := registryChange_upsertDevice db g (readRegistration_ok hg)
    unfold retireRokuIpDuplicate
    split
    · simp only
      split
      · split
        · exact hupsert
        · exact hupsert.then_deleted _
      · exact hupsert
    · exact hupsert

/-- Posts: a beacon is heard by its own device's row, a result row is a sign of life. -/
theorem registryChange_results (cfg : Config) (db : Db) (body : Json) :
    RegistryChange (fun id => beaconFrom? id (.results body)) db (step cfg db (.results body)) := by
  cases hpost : readPost body with
  | error e =>
      simp only [beaconFrom?, step, postResults, hpost]
      exact .of_same (.refl db)
  | ok post =>
      cases post with
      | beacon who b =>
          simp only [beaconFrom?, step, postResults, hpost]
          exact (registryChange_recordBeacon db who b).then_same (sameRegistry_postBeacon who b)
      | result p =>
          simp only [beaconFrom?, step, postResults, hpost, postResult]
          have hstored : SameRegistry db { db with
              results := db.results.replace ⟨p.job_id, p.device_id, p.iter, p.body⟩ } := ⟨rfl, rfl⟩
          have htouch : QuietChange db (recordResult db p.job_id p.device_id p.iter p.body) :=
            (registryChange_touchDevice _ p.device_id).after_same hstored
          split
          · exact htouch.then_same (sameRegistry_postFinal _ _)
          · exact htouch

/-- The requests that touch the device table, and the clock. -/
def touchesRegistry : Request → Bool
  | .tick _ | .register _ _ | .nextJob _ | .results _ | .sweep | .editPools _ _ => true
  | .forgetDevice _ => true
  | _ => false

theorem sameRegistry_step (cfg : Config) (db : Db) (req : Request)
    (h : touchesRegistry req = false) : SameRegistry db (step cfg db req) := by
  cases req with
  | executorNextJob name =>
      simp only [step, executorNextJob]
      split
      · rename_i claimed out hclaim
        have hsame := sameRegistry_claimTx hclaim
        exact ⟨hsame.devices, hsame.now⟩
      · exact ⟨rfl, rfl⟩
  | pollAgain executor claimant =>
      simp only [step, pollAgain]
      split
      · rename_i claimed out hclaim
        exact sameRegistry_claimTx hclaim
      · exact .refl db
  | enqueue spec =>
      simp only [step]
      split
      · rename_i queued out hout
        obtain ⟨p, rows, -, -, rfl⟩ := enqueueJob_ok hout
        exact ⟨rfl, rfl⟩
      · exact .refl db
  | release jobId who =>
      simp only [step]
      split
      · rename_i released was hout
        obtain ⟨r, -, -, -, rfl⟩ := releaseTx_ok hout
        exact ⟨rfl, rfl⟩
      · exact .refl db
  | cancel jobId reason =>
      simp only [step]
      split
      · rename_i cancelled out hout
        obtain ⟨r, -, -, rfl⟩ := cancelTx_ok hout
        have hclosed : SameRegistry db
            ((closeWaiter .cancelled db jobId (clipReason reason)).dropLocks jobId) := ⟨rfl, rfl⟩
        exact hclosed.trans (sameRegistry_settle jobId)
      · exact .refl db
  | acquireLocks jobId ids =>
      simp only [step]
      split
      · exact .refl db
      · exact sameRegistry_acquireLocksTx jobId ids
  | releaseLocks jobId =>
      simp only [step]
      split <;> exact ⟨rfl, rfl⟩
  | reserve who label =>
      simp only [step, reserveDevice]
      split <;> exact ⟨rfl, rfl⟩
  | artifacts uploaded => exact ⟨rfl, rfl⟩
  | setPriority jobId priority => exact ⟨rfl, rfl⟩
  | forceRelease who => exact ⟨rfl, rfl⟩
  | unreserve who => exact ⟨rfl, rfl⟩
  | _ => cases h

/-- Every step, for every device: `DeviceChange` lists what can become of its row. -/
theorem registryChange_step (cfg : Config) (db : Db) (req : Request) :
    RegistryChange (fun id => beaconFrom? id req) db (step cfg db req) := by
  cases req with
  | results body => exact registryChange_results cfg db body
  | nextJob who =>
      simp only [step, nextJob]
      split
      · exact .of_same (.refl db)
      · have htouch := registryChange_touchDevice db who
        split
        · rename_i claimed out hclaim
          exact htouch.then_same (sameRegistry_claimTx hclaim)
        · exact htouch
  | register body refused =>
      simp only [step]
      split
      · rename_i registered out hout
        exact registryChange_register hout
      · exact .of_same (.refl db)
  | sweep =>
      rcases step_sweep cfg db with ⟨-, hdb⟩ | ⟨swept, out, hsweep, hdb⟩
      · rw [hdb]
        exact .of_same (.refl db)
      · rw [hdb]
        exact (RegistryChange.of_same (sameRegistry_sweepLeasesTx hsweep)).then_deleted _
  | editPools who pools => exact registryChange_editPools db who pools
  | forgetDevice who =>
      simp only [step, forgetDevice]
      split
      · exact .of_same (.refl db)
      · exact ((RegistryChange.of_same (.refl db)).then_deleted _).then_same ⟨rfl, rfl⟩
  | tick ms => exact ⟨Nat.le_add_right _ _, fun id => .same _⟩
  | _ => exact .of_same (sameRegistry_step cfg db _ rfl)

/-- Registration refuses an empty id, and nothing else adds a row. -/
theorem device?_empty_id (cfg : Config) (reqs : List Request) :
    (after cfg reqs).device? "" = none := by
  have hstep : ∀ db req, db.device? "" = none → (step cfg db req).device? "" = none := by
    intro db req h
    have hchange := (registryChange_step cfg db req).row ""
    rw [h] at hchange
    generalize (step cfg db req).device? "" = o at hchange
    generalize beaconFrom? "" req = heard at hchange
    cases hchange with
    | same => rfl
    | forgotten => rfl
    | heard => rfl
    | registered g _ hne => exact absurd rfl hne
  exact @invariant_all _ _ _ (fun db : Db => db.device? "" = none) hstep _ rfl reqs

end FleetRunner
