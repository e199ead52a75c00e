import FleetRunner.ExecutorTargets
import FleetRunner.MatchAccepted
import FleetRunner.Routing

/-!
# The executor's devices and the preview's

The targets clause of a host job is read twice: by the dry run, on effective
pools and declared capabilities, and by the executor, on the descriptors it
reads itself. The executor asks neither for the pool nor whether the device's
window is open, and a match over `pools` or `capabilities` finds nothing there.
-/

namespace FleetRunner

open Library

section

variable {js : Js} {db : Db} {spec : Json}

/-! ## What the claim hands out -/

/-- The claim's answer reads as the spec, but for the two fields it writes. -/
theorem prop_handedOut {k : String} (hindex : Json.isIndex k = false) (hlease : k ≠ "lease")
    (hreserved : k ≠ "reserved_devices") : (handedOut db spec).prop k = spec.prop k := by
  rw [handedOut, Json.prop_obj, Fields.get?_set_of_ne _ hreserved, Fields.get?_set_of_ne _ hlease,
    Json.get?_spread _ hindex]

theorem target?_handedOut (k : String) : target? (handedOut db spec) k = target? spec k := by
  rw [target?, targetsOf, prop_handedOut (by decide) (by decide) (by decide)]
  rfl

theorem pinAllows_handedOut (id : String) :
    pinAllows (handedOut db spec) id = pinAllows spec id := by
  simp only [pinAllows, target?_handedOut]

theorem reservationAllows_handedOut (id : String) (label : Option String) (descriptor : Fields) :
    reservationAllows js (handedOut db spec) id label descriptor =
      reservationAllows js spec id label descriptor := by
  unfold reservationAllows
  rw [prop_handedOut (by decide) (by decide) (by decide),
    prop_handedOut (by decide) (by decide) (by decide)]

theorem get?_labels (db : Db) (id : String) :
    Fields.get? (db.device_reservations.rows.map fun r => (r.device_id, Json.str r.label)) id =
      (db.reservedFor id).map Json.str := by
  unfold Fields.get? Db.reservedFor Table.find?
  rw [List.find?_map, Option.map_map, Option.map_map]
  rfl

/-- The reservation test as the executor makes it, on a descriptor it reads. -/
def reservedHere (js : Js) (db : Db) (spec : Json) (id : String) (descriptor : Fields) : Bool :=
  match db.reservedFor id with
  | some label => reservationAllows js spec id (some label) descriptor
  | none => (js.inherited id).isNone

theorem labelAllows_handedOut (id : String) (descriptor : Fields) :
    labelAllows js (handedOut db spec) id (reservedLabel js (handedOut db spec) id) descriptor =
      reservedHere js db spec id descriptor := by
  have hreserved : (handedOut db spec).prop "reserved_devices" =
      some (.obj (db.device_reservations.rows.map fun r => (r.device_id, Json.str r.label))) := by
    rw [handedOut, Json.prop_obj, Fields.get?_set_self]
  have hlabel : reservedLabel js (handedOut db spec) id =
      match db.reservedFor id with
      | some label => .str label
      | none => (js.inherited id).elim .undef .native := by
    rw [reservedLabel, hreserved]
    change Match.member js (db.device_reservations.rows.map _) id = _
    rw [Match.member, get?_labels]
    cases db.reservedFor id with
    | some label => rfl
    | none => cases js.inherited id <;> rfl
  rw [hlabel, reservedHere]
  cases db.reservedFor id with
  | some label => exact reservationAllows_handedOut id (some label) descriptor
  | none => cases js.inherited id <;> rfl

/-! ## Which descriptors are read -/

/-- A pin by id, or no expression, answers without the descriptor. -/
theorem pinsDevice_congr {targets : Option Json} (id : String) (d d' : Fields)
    (h : optTruthy (optProp targets "device_id") = true ∨
      optTruthy (optProp targets "match") = false) :
    pinsDevice js targets id d = pinsDevice js targets id d' := by
  unfold pinsDevice
  by_cases ht : optTruthy targets = true
  · by_cases hid : optTruthy (optProp targets "device_id") = true
    · simp [ht, hid]
    · have hmatch := h.resolve_left hid
      cases hm : optProp targets "match" with
      | none => simp [ht, hid]
      | some expr =>
          rw [hm] at hmatch
          simp [ht, hid, show expr.truthy = false from hmatch]
  · simp [ht]

theorem labelAllows_of_not_truthy {job : Json} {id : String} {label : Val}
    (h : Match.truthy label = false) (d : Fields) : labelAllows js job id label d = true := by
  cases label with
  | str l =>
      have hl : l = "" := by simpa [Match.truthy] using h
      simp [labelAllows, reservationAllows, hl]
  | _ => simp [labelAllows, h]

/-- Where the test does not read the descriptor, any one will do. -/
theorem labelAllows_congr {job : Json} {t : Target} (h : readsDescriptor js job t = false)
    (d d' : Fields) : labelAllows js job t.id (reservedLabel js job t.id) d =
      labelAllows js job t.id (reservedLabel js job t.id) d' := by
  by_cases hlabel : Match.truthy (reservedLabel js job t.id) = true
  · have hpin : optTruthy (optProp (job.prop "targets") "device_id") = true ∨
        optTruthy (optProp (job.prop "targets") "match") = false := by
      simp only [readsDescriptor, hlabel, Bool.true_and, Bool.and_eq_false_iff,
        Bool.not_eq_false'] at h
      exact h
    unfold labelAllows
    split
    · unfold reservationAllows
      rw [pinsDevice_congr t.id d d' hpin]
    · rfl
  · rw [labelAllows_of_not_truthy (by simpa using hlabel),
      labelAllows_of_not_truthy (by simpa using hlabel)]

section

variable {host : Host} {job : Json} {all : List Target}

/-- The shortcut around the reservations changes nothing, and the descriptors
they were tested on are the ones the expression is tested on. -/
theorem mem_unreservedTargets (t : Target) :
    t ∈ unreservedTargets js host job all ↔ t ∈ ownedTargets js host job all ∧
      labelAllows js job t.id (reservedLabel js job t.id)
        (withId (describedAs js host job all t) t) = true := by
  unfold unreservedTargets
  simp only
  split
  · rw [List.mem_filter]
    refine and_congr_right fun ht => ?_
    by_cases hreads : readsDescriptor js job t = true
    · have hany : (ownedTargets js host job all).any (readsDescriptor js job) = true :=
        List.any_eq_true.mpr ⟨t, ht, hreads⟩
      simp only [describedAs, hreads, hany, if_true]
    · rw [if_neg hreads, labelAllows_congr (by simpa using hreads)]
  · rename_i hnone
    refine ⟨fun ht => ⟨ht, ?_⟩, fun ht => ht.1⟩
    refine labelAllows_of_not_truthy (Bool.eq_false_iff.mpr fun htruthy => hnone ?_) _
    exact List.any_eq_true.mpr ⟨t, ht, htruthy⟩

/-- Only Apple targets are looked up among the simulators, which are loaded for them. -/
theorem mem_ownedTargets
    (howned : ∀ t ∈ all, fleetOwnedTarget js host t host.simctlDevices = true) (t : Target) :
    t ∈ ownedTargets js host job all ↔
      t ∈ all ∧ pinAllows job t.id = true ∧ kindAllows job t = true := by
  have hnarrowed : t ∈ narrowed job all ↔
      t ∈ all ∧ pinAllows job t.id = true ∧ kindAllows job t = true := by
    simp only [narrowed, List.mem_filter, and_assoc]
  rw [← hnarrowed, ownedTargets, List.mem_filter]
  refine and_iff_left_of_imp fun ht => ?_
  have hall := howned t (hnarrowed.mp ht).1
  by_cases hios : t.platform = "ios"
  · have hany : hasIos (narrowed job all) = true :=
      List.any_eq_true.mpr ⟨t, ht, decide_eq_true hios⟩
    rw [hany]
    exact hall
  · unfold fleetOwnedTarget virtualNameOf at hall ⊢
    rw [if_neg hios] at hall ⊢
    exact hall

end

/-! ## Descriptors an expression answers on -/

/-- Texts and numbers, none of them under the name of a list. -/
def PlainFields (fs : Fields) : Prop :=
  ∀ p ∈ fs, Match.plainVal p.2.toVal = true ∧ p.1 ≠ "pools" ∧ p.1 ≠ "capabilities"

theorem mem_of_get? {fs : Fields} {k : String} {v : Json} (h : Fields.get? fs k = some v) :
    (k, v) ∈ fs := by
  obtain ⟨⟨j, w⟩, hfind, rfl⟩ := Option.map_eq_some_iff.mp h
  obtain rfl : j = k := by simpa using List.find?_some hfind
  exact List.mem_of_find?_eq_some hfind

theorem PlainFields.append {fs gs : Fields} (hfs : PlainFields fs) (hgs : PlainFields gs) :
    PlainFields (fs ++ gs) := by
  intro p hp
  rcases List.mem_append.mp hp with hp | hp
  · exact hfs p hp
  · exact hgs p hp

theorem PlainFields.readable {fs : Fields} (h : PlainFields fs) (t : Target) :
    Match.Readable js (withId fs t) := by
  have hnone : ∀ k, k ≠ "device_id" → (∀ p ∈ fs, p.1 ≠ k) →
      Fields.get? (withId fs t) k = none := by
    intro k hk hfs
    rw [withId, Fields.get?_set_of_ne _ hk]
    exact Fields.get?_eq_none hfs
  refine readable_of_plain (hnone _ (by decide) fun p hp => (h p hp).2.1)
    (hnone _ (by decide) fun p hp => (h p hp).2.2) fun k v hv => ?_
  by_cases hk : k = "device_id"
  · rw [hk, withId, Fields.get?_set_self] at hv
    cases hv
    rfl
  · rw [withId, Fields.get?_set_of_ne _ hk] at hv
    exact (h _ (mem_of_get? hv)).1

theorem plainFields_field? {k : String} (v : Option String) (hpools : k ≠ "pools")
    (hcapabilities : k ≠ "capabilities") : PlainFields (field? k v) := by
  intro p hp
  cases v with
  | none => simp [field?] at hp
  | some s =>
      obtain rfl : p = (k, .str s) := by simpa [field?] using hp
      exact ⟨rfl, hpools, hcapabilities⟩

/-- Whatever the tools answer, an executor describes a target in plain fields. -/
theorem plainFields_describeTarget (host : Host) (t : Target) (sims : Simctl)
    (ios : Option (List IosDeviceInfo)) : PlainFields (describeTarget host t sims ios) := by
  have hattached : PlainFields (attachedFields host) := by
    simp [PlainFields, attachedFields, Match.plainVal, Json.toVal]
  have hserial : PlainFields (serialFields host t) := by
    simp [PlainFields, serialFields, attachedFields, Match.plainVal, Json.toVal]
  have hkind := plainFields_field? t.kind (k := "kind") (by decide) (by decide)
  unfold describeTarget
  split
  · refine PlainFields.append ?_ hattached
    simp [PlainFields, Match.plainVal, Json.toVal]
  · split
    · refine PlainFields.append (.append (.append ?_ ?_) hserial) hkind
      · simp [PlainFields, Match.plainVal, Json.toVal]
      · split <;> simp [PlainFields, Match.plainVal, Json.toVal]
    · split
      · refine PlainFields.append (.append ?_ hserial) ?_ <;>
          simp [PlainFields, Match.plainVal, Json.toVal]
      · split
        · refine PlainFields.append (.append (.append ?_ ?_) hserial) ?_
          · simp [PlainFields, Match.plainVal, Json.toVal]
          · split
            · simp [PlainFields, Match.plainVal, Json.toVal]
            · exact plainFields_field? _ (by decide) (by decide)
          · simp [PlainFields, Match.plainVal, Json.toVal]
        · refine PlainFields.append (.append ?_ hserial) hkind
          simp [PlainFields, Match.plainVal, Json.toVal]

/-! ## The selection -/

/-- An expression a spec was accepted with is one enqueue evaluated. -/
theorem checkMatch_of_prepare {input : Json} {p : Plan db} (h : prepare js db input = .ok p) :
    checkMatch js p.spec = .ok () := by
  unfold prepare at h
  split at h
  · exact absurd h refuse_ne_ok
  · obtain ⟨jobId, -, h⟩ := bind_eq_ok h
    obtain ⟨workload, -, h⟩ := bind_eq_ok h
    obtain ⟨_, -, h⟩ := bind_eq_ok h
    obtain ⟨_, -, h⟩ := bind_eq_ok h
    split at h
    · exact absurd h refuse_ne_ok
    · obtain ⟨executor, -, h⟩ := bind_eq_ok h
      obtain ⟨lease, -, h⟩ := bind_eq_ok h
      simp only at h
      obtain ⟨priority, -, h⟩ := bind_eq_ok h
      obtain ⟨_, -, h⟩ := bind_eq_ok h
      obtain ⟨_, -, h⟩ := bind_eq_ok h
      obtain ⟨deps, -, h⟩ := bind_eq_ok h
      split at h
      · exact absurd h refuse_ne_ok
      · obtain ⟨spec, -, h⟩ := bind_eq_ok h
        obtain ⟨_, hmatch, h⟩ := bind_eq_ok h
        obtain ⟨_, -, h⟩ := bind_eq_ok h
        split at h
        · cases h
          exact hmatch
        · cases h

theorem isValidMatch_of_checkMatch {expr : Json} (h : checkMatch js spec = .ok ())
    (hexpr : target? spec "match" = some expr) (htruthy : expr.truthy = true) :
    isValidMatch js expr = true := by
  simp only [checkMatch, hexpr, htruthy, Bool.true_and, Bool.not_eq_true'] at h
  split at h
  · exact absurd h refuse_ne_ok
  · rename_i hvalid
    simpa using hvalid

/-- The selection of an accepted spec returns, and takes the targets the
reservation and the expression leave on the executor's own descriptors. -/
theorem selectTargets_ok {host : Host} {all : List Target} (hvalid : checkMatch js spec = .ok ())
    (hkind : optTruthy (target? spec "device_kind") = false)
    (howned : ∀ t ∈ all, fleetOwnedTarget js host t host.simctlDevices = true) :
    ∃ kept, selectTargets js host (handedOut db spec) all = .ok kept ∧ ∀ t, t ∈ kept ↔
      t ∈ all ∧ pinAllows spec t.id = true ∧
        reservedHere js db spec t.id
          (withId (describedAs js host (handedOut db spec) all t) t) = true ∧
        matchAllows js (target? spec "match")
          (withId (describedAs js host (handedOut db spec) all t) t) = true := by
  have hkinds : ∀ t, kindAllows (handedOut db spec) t = true := by
    intro t
    unfold kindAllows
    rw [target?_handedOut]
    cases hk : target? spec "device_kind" with
    | none => rfl
    | some v =>
        have hfalse : v.truthy = false := by simpa [hk] using hkind
        simp [hfalse]
  have hunreserved : ∀ t, t ∈ unreservedTargets js host (handedOut db spec) all ↔
      t ∈ all ∧ pinAllows spec t.id = true ∧ reservedHere js db spec t.id
        (withId (describedAs js host (handedOut db spec) all t) t) = true := by
    intro t
    rw [mem_unreservedTargets, mem_ownedTargets howned, labelAllows_handedOut, pinAllows_handedOut]
    simp only [hkinds, and_true, and_assoc]
  unfold selectTargets
  rw [target?_handedOut]
  cases hm : target? spec "match" with
  | none => exact ⟨_, rfl, fun t => by simp only [hunreserved, matchAllows, and_true]⟩
  | some expr =>
      by_cases htruthy : expr.truthy = true
      · have hvalid' := isValidMatch_of_checkMatch hvalid hm htruthy
        have hanswers : ∀ t, ∃ b, evalMatchJson js expr
            (withId (describedAs js host (handedOut db spec) all t) t) = .ok b := fun t =>
          evalMatchJson_of_valid hvalid' ((plainFields_describeTarget _ _ _ _).readable t)
        obtain ⟨kept, hkept⟩ : ∃ kept, filterE (fun t => matchOrThrow js expr
            (withId (describedAs js host (handedOut db spec) all t) t))
            (unreservedTargets js host (handedOut db spec) all) = .ok kept := by
          refine exists_filterE fun t _ => ?_
          obtain ⟨b, hb⟩ := hanswers t
          exact ⟨b, by rw [matchOrThrow, hb]⟩
        refine ⟨kept, by simpa only [htruthy, if_true] using hkept, fun t => ?_⟩
        obtain ⟨b, hb⟩ := hanswers t
        rw [mem_filterE hkept, hunreserved, matchOrThrow, matchAllows]
        simp only [matches?, hb, htruthy, if_true, Except.ok.injEq, and_assoc]
      · refine ⟨_, by simp only [htruthy, Bool.false_eq_true, if_false]; rfl, fun t => ?_⟩
        simp only [hunreserved, matchAllows, htruthy, Bool.false_eq_true, if_false, and_true]

theorem mem_selected_host_iff {p : Plan db} (hhost : p.executor = .host) {devices : List Device}
    (h : selected js p = .ok devices) (d : Device) :
    d ∈ devices ↔ d ∈ db.devices.rows ∧ unexpired db d = true ∧ Targeted js db p.spec d := by
  simp only [selected, hhost] at h
  exact mem_matchingDevices_host h d

end

/-- What an executor tests beside the pin, on the descriptor a device was registered with. -/
structure RunsHere (js : Js) (db : Db) (spec : Json) (d : Device) : Prop where
  reservation : reservedHere js db spec d.device_id
    (Fields.set d.descriptor.spread "device_id" (.str d.device_id)) = true
  expr : matchAllows js (target? spec "match")
    (Fields.set d.descriptor.spread "device_id" (.str d.device_id)) = true

/-- What the preview reads of a row and the executor does not lets the device in, and its id
is none that every object has. -/
structure PlainRow (js : Js) (db : Db) (spec : Json) (d : Device) : Prop where
  pool : inPool js (effectivePools d) (target? spec "pool") = .ok true
  live : unexpired db d = true
  named : db.reservedFor d.device_id = none → js.inherited d.device_id = none

/-- The executor takes such a device exactly when the preview shows it. -/
theorem PlainRow.runsHere_iff {js : Js} {db : Db} {spec : Json} {d : Device}
    (h : PlainRow js db spec d) (hlists : ListsUnread js spec) :
    RunsHere js db spec d ↔ unexpired db d = true ∧ Targeted js db spec d := by
  have hself := alikeButLists_fullDescriptor d
  have hexpr := hself.matchAllows hlists.1 hlists.2
  have hreservation : reservedHere js db spec d.device_id
      (Fields.set d.descriptor.spread "device_id" (.str d.device_id)) =
        reservationAllows js spec d.device_id (db.reservedFor d.device_id) (fullDescriptor d) := by
    unfold reservedHere
    cases hlabel : db.reservedFor d.device_id with
    | none => simp [h.named hlabel, reservationAllows]
    | some label => exact AlikeButLists.reservationAllows hlists (hself.set _ _) (some label)
  constructor
  · intro hruns
    exact ⟨h.live, h.pool, hreservation ▸ hruns.reservation, hexpr ▸ hruns.expr⟩
  · rintro ⟨-, htargeted⟩
    exact ⟨hreservation ▸ htargeted.reservation, hexpr ▸ htargeted.expr⟩

/-- An executor runs a host job on exactly the attached devices its preview shows, where the
expression reads neither list and the rows of the attached devices are plain. -/
theorem executor_selection_agree (js : Js) (db : Db) (input : Json) (p : Plan db)
    (hplan : prepare js db input = .ok p) (hhost : p.executor = .host)
    (hkind : optTruthy (target? p.spec "device_kind") = false) (db' : Db) (out : EnqueueAccepted)
    (v : Preview) (hdry : enqueueJob js db input true = .ok (db', out)) (hsingle : out.fanout = none)
    (hv : out.preview = some v) (host : Host) (attached : List Target)
    (howned : ∀ t ∈ attached, fleetOwnedTarget js host t host.simctlDevices = true)
    (hregistered : ∀ t ∈ attached, ∃ d, db.device? t.id = some d ∧
      d.descriptor = .obj (describedAs js host (handedOut db p.spec) attached t))
    (hlists : ListsUnread js p.spec)
    (hplain : ∀ t ∈ attached, ∀ d, db.device? t.id = some d →
      pinAllows p.spec d.device_id = true → PlainRow js db p.spec d) :
    ∃ kept, selectTargets js host (handedOut db p.spec) attached = .ok kept ∧
      ∀ t, t ∈ kept ↔ t ∈ attached ∧ ∃ c ∈ v.candidates, c.device_id = t.id := by
  obtain ⟨kept, hkept, hmem⟩ :=
    @selectTargets_ok js db p.spec host attached (checkMatch_of_prepare hplan) hkind howned
  have hplace : placeOne js p true = .ok (db', out) := by
    rcases enqueueJob_placed hplan hdry with ⟨-, hplace⟩ | ⟨hfan, -⟩
    · exact hplace
    · rw [hsingle] at hfan
      cases hfan
  obtain ⟨devices, warnings, hdevices, hout⟩ := placeOne_dryRun hplace
  obtain rfl := Option.some.inj (hout.symm.trans hv)
  -- what is kept and what is shown, for one attached target and its row
  have hkeeps : ∀ t ∈ attached, ∀ d, db.device? t.id = some d →
      (t ∈ kept ↔ pinAllows p.spec d.device_id = true ∧ RunsHere js db p.spec d) := by
    intro t ht d hd
    obtain ⟨q, hq, hdescriptor⟩ := hregistered t ht
    obtain rfl : d = q := Option.some.inj (hd.symm.trans hq)
    have hid : d.device_id = t.id := Table.key_of_find? hd
    have hfields : withId (describedAs js host (handedOut db p.spec) attached t) t =
        Fields.set d.descriptor.spread "device_id" (.str d.device_id) := by
      rw [hdescriptor, hid]
      rfl
    rw [hmem, hfields, ← hid]
    exact ⟨fun h => ⟨h.2.1, h.2.2.1, h.2.2.2⟩, fun h => ⟨ht, h.1, h.2.reservation, h.2.expr⟩⟩
  have hshows : ∀ t ∈ attached, ∀ d, db.device? t.id = some d →
      ((∃ c ∈ (devices.filter fun d => pinAllows p.spec d.device_id).map candidate,
          c.device_id = t.id) ↔ pinAllows p.spec d.device_id = true ∧ unexpired db d = true ∧
        Targeted js db p.spec d) := by
    intro t _ d hd
    obtain ⟨hrow, hid⟩ := Table.find?_eq_some_iff.mp hd
    rw [← hid]
    exact listed_iff (mem_selected_host_iff hhost hdevices) hrow
  refine ⟨kept, hkept, fun t => ?_⟩
  constructor
  · intro hin
    have ht : t ∈ attached := ((hmem t).mp hin).1
    obtain ⟨d, hd, -⟩ := hregistered t ht
    obtain ⟨hpin, hruns⟩ := (hkeeps t ht d hd).mp hin
    exact ⟨ht, (hshows t ht d hd).mpr
      ⟨hpin, ((hplain t ht d hd hpin).runsHere_iff hlists).mp hruns⟩⟩
  · rintro ⟨ht, hshown⟩
    obtain ⟨d, hd, -⟩ := hregistered t ht
    obtain ⟨hpin, hrest⟩ := (hshows t ht d hd).mp hshown
    exact (hkeeps t ht d hd).mpr ⟨hpin, ((hplain t ht d hd hpin).runsHere_iff hlists).mpr hrest⟩

/-! ## Two phones on one machine -/

/-- A machine that only adb answers on. -/
def bench : Host where
  NAME := "mac1"
  HOST := "mac1.local"
  SIM_PREFIX := "fleet-"
  getprop _ k := if k = "ro.product.model" then "Pixel 8" else "15"
  memTotalKb _ := 0
  avdName _ := none
  simctlDevices := none
  devicectlDevices := []

def phone (id : String) : Target := ⟨id, "android", some "device"⟩

def phones : List Target := [phone "p1", phone "p2"]

/-- Both phones are registered as the machine describes them; the operator
moved one to the `ui` pool. -/
def shelf : List Request :=
  phones.map (fun t => .register (Sample.registration t.id
    [("descriptor", .obj (describeAndroid bench t))]) none) ++ [.editPools "p1" (some ["ui"])]

/-- An Android target with an id of its own is described by what adb answers. -/
theorem describedAs_android {js : Js} {host : Host} {job : Json} {all : List Target} {t : Target}
    (handroid : t.platform = "android") (hunique : ∀ x ∈ all, x.id = t.id → x = t) :
    describedAs js host job all t = describeAndroid host t := by
  have hfirst : ((ownedTargets js host job all).find? fun x => decide (x.id = t.id)).getD t = t := by
    cases hfind : (ownedTargets js host job all).find? fun x => decide (x.id = t.id) with
    | none => rfl
    | some x =>
        have hx : x ∈ all := by
          have hmem := List.mem_of_find?_eq_some hfind
          simp only [ownedTargets, narrowed, List.mem_filter] at hmem
          exact hmem.1.1.1
        exact hunique x hx (by simpa using List.find?_some hfind)
  simp [describedAs, descriptorIn, hfirst, describeTarget, handroid]

theorem shelf_registered (job : Json) : ∀ t ∈ phones, ∃ d,
    (after .plain shelf).device? t.id = some d ∧
      d.descriptor = .obj (describedAs .plain bench job phones t) := by
  intro t ht
  have hunique : ∀ x ∈ phones, x.id = t.id → x = t := by
    revert t
    decide
  have handroid : t.platform = "android" := by
    revert t
    decide
  rw [describedAs_android handroid hunique]
  simp only [phones, List.mem_cons, List.not_mem_nil, or_false] at ht
  rcases ht with rfl | rfl
  · exact ⟨_, rfl, rfl⟩
  · exact ⟨_, rfl, rfl⟩

theorem phones_owned :
    ∀ t ∈ phones, fleetOwnedTarget .plain bench t bench.simctlDevices = true := by
  decide

/-- A job whose expression selects one phone runs on the phone its preview shows. -/
theorem executor_selection_matched :
    let db := after .plain shelf
    let input := Sample.hostJob "h" [("targets", .obj [("match", .str "device_id == 'p1'")])]
    ∃ p db' out v kept, prepare .plain db input = .ok p ∧
      enqueueJob .plain db input true = .ok (db', out) ∧ out.preview = some v ∧
      selectTargets .plain bench (handedOut db p.spec) phones = .ok kept ∧
      ∀ t, t ∈ kept ↔ t ∈ phones ∧ ∃ c ∈ v.candidates, c.device_id = t.id := by
  intro db input
  obtain ⟨hprepare, hdry⟩ :
      okAnd (prepare .plain db input) (fun p => decide (p.executor = .host) &&
        !optTruthy (target? p.spec "device_kind") && (target? p.spec "pool").isNone &&
          decide (fieldsRead .plain (target? p.spec "match") = ["device_id"])) = true ∧
      okAnd (enqueueJob .plain db input true)
        (fun r => decide (r.2.fanout = none) && r.2.preview.isSome) = true := by
    decide +kernel
  have hlive : ∀ d ∈ db.devices.rows, unexpired db d = true := by
    decide +kernel
  obtain ⟨p, hplan, hp⟩ := exists_of_okAnd hprepare
  obtain ⟨⟨db', out⟩, hrun, hout⟩ := exists_of_okAnd hdry
  simp only [Bool.and_eq_true, decide_eq_true_eq, Bool.not_eq_true', Option.isNone_iff_eq_none]
    at hp
  obtain ⟨⟨⟨hhost, hkind⟩, hpool⟩, hread⟩ := hp
  obtain ⟨hsingle, hsome⟩ := (Bool.and_eq_true _ _).mp hout
  obtain ⟨v, hv⟩ := Option.isSome_iff_exists.mp hsome
  have hlists : ListsUnread .plain p.spec := by
    rw [ListsUnread, hread]
    decide
  obtain ⟨kept, hkept, hagree⟩ := executor_selection_agree .plain db input p hplan hhost hkind db'
    out v hrun (of_decide_eq_true hsingle) hv bench phones phones_owned
    (shelf_registered (handedOut db p.spec)) hlists (by
      intro t _ d hd _
      refine ⟨?_, hlive d (Table.find?_eq_some_iff.mp hd).1, fun _ => rfl⟩
      rw [hpool]
      rfl)
  exact ⟨p, db', out, v, kept, hplan, hrun, hv, hkept, hagree⟩

/-- A job for the pool also runs on the attached phone that is not in it. -/
theorem executor_selection_disagree :
    ¬∀ (js : Js) (db : Db) (input : Json) (p : Plan db), prepare js db input = .ok p →
      p.executor = .host → optTruthy (target? p.spec "device_kind") = false →
      ∀ db' out v, enqueueJob js db input true = .ok (db', out) → out.fanout = none →
      out.preview = some v → ∀ (host : Host) (attached : List Target),
      (∀ t ∈ attached, fleetOwnedTarget js host t host.simctlDevices = true) →
      (∀ t ∈ attached, ∃ d, db.device? t.id = some d ∧
        d.descriptor = .obj (describedAs js host (handedOut db p.spec) attached t)) →
      ∃ kept, selectTargets js host (handedOut db p.spec) attached = .ok kept ∧
        ∀ t, t ∈ kept ↔ t ∈ attached ∧ ∃ c ∈ v.candidates, c.device_id = t.id := by
  intro h
  obtain ⟨hprepare, hdry⟩ :
      okAnd (prepare .plain (after .plain shelf) poolJob) (fun p =>
        decide (p.executor = .host) && !optTruthy (target? p.spec "device_kind") &&
          okAnd (selectTargets .plain bench (handedOut (after .plain shelf) p.spec) phones)
            fun kept => decide (phone "p2" ∈ kept)) = true ∧
      okAnd (enqueueJob .plain (after .plain shelf) poolJob true)
        (fun r => decide (r.2.fanout = none) &&
          (r.2.preview.any fun v => v.candidates.all fun c => decide (c.device_id ≠ "p2"))) =
        true := by
    decide +kernel
  obtain ⟨p, hplan, hp⟩ := exists_of_okAnd hprepare
  obtain ⟨⟨db', out⟩, hrun, hout⟩ := exists_of_okAnd hdry
  simp only [Bool.and_eq_true, decide_eq_true_eq, Bool.not_eq_true'] at hp
  obtain ⟨⟨hhost, hkind⟩, hselected⟩ := hp
  obtain ⟨hsingle, hshown⟩ := (Bool.and_eq_true _ _).mp hout
  obtain ⟨v, hv, hcandidates⟩ := (Option.any_eq_true _ _).mp hshown
  obtain ⟨kept, hkept, hmem⟩ := exists_of_okAnd hselected
  obtain ⟨kept', hkept', hagree⟩ := h .plain (after .plain shelf) poolJob p hplan hhost hkind db' out
    v hrun (of_decide_eq_true hsingle) hv bench phones phones_owned
    (shelf_registered (handedOut (after .plain shelf) p.spec))
  obtain rfl : kept = kept' := Except.ok.inj (hkept.symm.trans hkept')
  obtain ⟨-, c, hc, hid⟩ := (hagree (phone "p2")).mp (of_decide_eq_true hmem)
  exact of_decide_eq_true (List.all_eq_true.mp hcandidates c hc) hid

end FleetRunner
