import FleetRunner.Pins
import FleetRunner.Preview

/-!
# Which executor a host job goes to

An unpinned host job is granted to the executors that hold a device it could
run on. `executorsHolding` decides that on descriptors as they were registered
and does not read `targets.pool`; the dry run shows the devices
`matchingDevices` selects. The two differ by the pool, by the two lists the
collector puts over a descriptor, and by devices whose time is over; where none
of these has a say they select the same devices.
-/

namespace FleetRunner

open Library

/-- A device the dry run of a host job shows, online where an executor holds it. -/
structure ShownAt (js : Js) (db : Db) (spec : Json) (executor : String) (d : Device) : Prop where
  row : d ∈ db.devices.rows
  live : unexpired db d = true
  online : ageS db d.last_seen ≤ ONLINE_S
  pin : pinAllows spec d.device_id = true
  targeted : Targeted js db spec d
  attached : attachedTo? d = some executor

/-- A device that draws a host job to the executor it is attached to: online, and
within the pin, the reservation and the expression as its descriptor was registered. -/
structure DrawsTo (js : Js) (db : Db) (spec : Json) (executor : String) (d : Device) : Prop where
  row : d ∈ db.devices.rows
  online : ageS db d.last_seen ≤ ONLINE_S
  pin : pinAllows spec d.device_id = true
  reservation : reservationAllows js spec d.device_id (db.reservedFor d.device_id)
    d.descriptor.spread = true
  expr : matchAllows js (target? spec "match")
    (Fields.set d.descriptor.spread "device_id" (.str d.device_id)) = true
  attached : attachedTo? d = some executor

section

variable {js : Js} {db : Db} {spec : Json}

theorem isAttached_of_attachedTo? {d : Device} {executor : String}
    (h : attachedTo? d = some executor) : isAttached d = true := by
  unfold attachedTo? at h
  unfold isAttached
  obtain ⟨v, hv, hs⟩ := Option.bind_eq_some_iff.mp h
  rw [hv]
  cases v with
  | null => cases hs
  | _ => rfl

theorem mem_executorsHolding {executor : String} :
    executor ∈ executorsHolding js db spec ↔ ∃ d, DrawsTo js db spec executor d := by
  simp only [executorsHolding, List.mem_filterMap, List.mem_filter, drawsJob, Bool.and_eq_true,
    decide_eq_true_eq]
  constructor
  · rintro ⟨d, ⟨hrow, ⟨⟨⟨⟨-, honline⟩, hpin⟩, hres⟩, hexpr⟩⟩, hat⟩
    exact ⟨d, hrow, honline, hpin, hres, hexpr, hat⟩
  · rintro ⟨d, h⟩
    exact ⟨d, ⟨h.row, ⟨⟨⟨⟨isAttached_of_attachedTo? h.attached, h.online⟩, h.pin⟩,
      h.reservation⟩, h.expr⟩⟩, h.attached⟩

/-- The devices `matchingDevices` selects for a host job, by what it asks of each. -/
theorem mem_matchingDevices_host {ms : List Device}
    (h : matchingDevices js db (target? spec "pool") (target? spec "match") none none spec =
      .ok ms) (d : Device) :
    d ∈ ms ↔ d ∈ db.devices.rows ∧ unexpired db d = true ∧ Targeted js db spec d := by
  rw [matchingDevices] at h
  simp only [mem_filterE h, deviceMatches, canRun, Bool.false_eq_true, if_false, ifSo_eq_true,
    Except.ok.injEq, true_and]
  constructor
  · rintro ⟨hrow, hlive, hpool, hres, hexpr⟩
    exact ⟨hrow, hlive, hpool, hres, hexpr⟩
  · rintro ⟨hrow, hlive, hpool, hres, hexpr⟩
    exact ⟨hrow, hlive, hpool, hres, hexpr⟩

theorem shownAt_iff {ms : List Device}
    (h : matchingDevices js db (target? spec "pool") (target? spec "match") none none spec =
      .ok ms) (name : String) :
    (∃ d ∈ ms, pinAllows spec d.device_id = true ∧ ageS db d.last_seen ≤ ONLINE_S ∧
      attachedTo? d = some name) ↔ ∃ c, ShownAt js db spec name c := by
  constructor
  · rintro ⟨d, hd, hpin, honline, hat⟩
    obtain ⟨hrow, hlive, htargeted⟩ := (mem_matchingDevices_host h d).mp hd
    exact ⟨d, hrow, hlive, honline, hpin, htargeted, hat⟩
  · rintro ⟨c, hc⟩
    exact ⟨c, (mem_matchingDevices_host h c).mpr ⟨hc.row, hc.live, hc.targeted⟩, hc.pin,
      hc.online, hc.attached⟩

/-- Without a name to go by, the holders decide, and anyone does when there are none. -/
theorem eligible_host_iff (hunpinned : optTruthy (target? spec "executor") = false)
    (name : String) :
    specEligibleFor js db (claimantContext db .host name) spec = .ok true ↔
      executorsHolding js db spec = [] ∨ name ∈ executorsHolding js db spec := by
  have hholders : specEligibleFor js db (claimantContext db .host name) spec =
      .ok ((executorsHolding js db spec).isEmpty || (executorsHolding js db spec).contains name) := by
    simp only [specEligibleFor, claimantContext, emptyContext]
    cases he : target? spec "executor" with
    | none => rfl
    | some e =>
        have hfalse : e.truthy = false := by simpa [he] using hunpinned
        simp [hfalse]
  rw [hholders]
  simp

end

/-! ## Expressions that read neither list -/

/-- The fields a match expression reads. -/
def fieldsRead (js : Js) (expr : Option Json) : List String :=
  match expr with
  | some (.str e) => ((parseMatch js e).map Match.Expr.ids).getD []
  | _ => []

/-- `pools` and `capabilities` are the fields a registered descriptor does not have as the
collector has them. -/
def ListsUnread (js : Js) (spec : Json) : Prop :=
  "pools" ∉ fieldsRead js (target? spec "match") ∧
    "capabilities" ∉ fieldsRead js (target? spec "match")

/-- Two descriptors that differ in the two lists at most. -/
def AlikeButLists (d d' : Fields) : Prop :=
  ∀ a, a ≠ "pools" → a ≠ "capabilities" → Fields.get? d a = Fields.get? d' a

namespace AlikeButLists

variable {js : Js} {d d' : Fields}

theorem value (h : AlikeButLists d d') {a : String} (hp : a ≠ "pools") (hc : a ≠ "capabilities") :
    Match.value js d a = Match.value js d' a := by
  simp only [Match.value, hp, hc, if_false, Match.member, h a hp hc]

theorem set (h : AlikeButLists d d') (k : String) (v : Json) :
    AlikeButLists (Fields.set d k v) (Fields.set d' k v) := by
  intro a hp hc
  by_cases hk : a = k
  · rw [hk, Fields.get?_set_self, Fields.get?_set_self]
  · rw [Fields.get?_set_of_ne _ hk, Fields.get?_set_of_ne _ hk, h a hp hc]

theorem withAnotherId (h : AlikeButLists d d') (id : String) :
    AlikeButLists (withAnotherId d id) (withAnotherId d' id) := by
  intro a hp hc
  change Fields.get? (renamed d id anotherDevice) a = Fields.get? (renamed d' id anotherDevice) a
  rw [get?_renamed, get?_renamed, h a hp hc]

/-- An expression that reads neither list answers alike on both. -/
theorem evalMatch_ok (h : AlikeButLists d d') {e : String}
    (hp : "pools" ∉ fieldsRead js (some (.str e)))
    (hc : "capabilities" ∉ fieldsRead js (some (.str e))) {v : Bool} :
    evalMatch js e d = .ok v ↔ evalMatch js e d' = .ok v := by
  rw [evalMatch_ok_iff, evalMatch_ok_iff]
  refine exists_congr fun parsed => and_congr_right fun hparse => ?_
  have hread : fieldsRead js (some (.str e)) = parsed.ids := by
    simp only [fieldsRead, hparse, Option.map_some, Option.getD_some]
  rw [hread] at hp hc
  have heval : parsed.eval js d = parsed.eval js d' := by
    apply Match.Expr.eval_of_ids
    intro a ha
    refine h.value ?_ ?_
    · rintro rfl
      exact hp ha
    · rintro rfl
      exact hc ha
  rw [heval]

theorem evalMatchJson_ok (h : AlikeButLists d d') {e : Json}
    (hp : "pools" ∉ fieldsRead js (some e)) (hc : "capabilities" ∉ fieldsRead js (some e))
    {v : Bool} : evalMatchJson js e d = .ok v ↔ evalMatchJson js e d' = .ok v := by
  cases e with
  | str s => exact h.evalMatch_ok hp hc
  | _ => simp [evalMatchJson]

/-- They answer the same truth value, or both throw. -/
theorem eq_or_throw (h : AlikeButLists d d') {e : Json} (hp : "pools" ∉ fieldsRead js (some e))
    (hc : "capabilities" ∉ fieldsRead js (some e)) :
    evalMatchJson js e d = evalMatchJson js e d' ∨
      ∃ err err', evalMatchJson js e d = .error err ∧ evalMatchJson js e d' = .error err' := by
  have hok := fun v => h.evalMatchJson_ok hp hc (v := v)
  cases hd : evalMatchJson js e d with
  | ok v => exact Or.inl ((hok v).mp hd).symm
  | error err =>
      cases hd' : evalMatchJson js e d' with
      | ok v =>
          rw [(hok v).mpr hd'] at hd
          cases hd
      | error err' => exact Or.inr ⟨err, err', rfl, rfl⟩

theorem matchAllows (h : AlikeButLists d d') {expr : Option Json}
    (hp : "pools" ∉ fieldsRead js expr) (hc : "capabilities" ∉ fieldsRead js expr) :
    matchAllows js expr d = matchAllows js expr d' := by
  cases expr with
  | none => rfl
  | some e =>
      simp only [FleetRunner.matchAllows, matches?]
      rcases h.eq_or_throw hp hc with heq | ⟨err, err', hd, hd'⟩
      · rw [heq]
      · rw [hd, hd']

/-- Whether a job pins a device is decided with the device's id in place. -/
theorem pinsDevice {targets : Option Json} {id : String}
    (h : AlikeButLists (Fields.set d "device_id" (.str id)) (Fields.set d' "device_id" (.str id)))
    (hp : "pools" ∉ fieldsRead js (optProp targets "match"))
    (hc : "capabilities" ∉ fieldsRead js (optProp targets "match")) :
    pinsDevice js targets id d = pinsDevice js targets id d' := by
  unfold FleetRunner.pinsDevice
  cases hm : optProp targets "match" with
  | none => rfl
  | some e =>
      rw [hm] at hp hc
      simp only
      rcases h.eq_or_throw hp hc with heq | ⟨err, err', hd, hd'⟩
      · rw [heq]
        rcases (h.withAnotherId id).eq_or_throw hp hc with heq' | ⟨err, err', hd, hd'⟩
        · rw [heq']
        · rw [hd, hd']
      · rw [hd, hd']

theorem reservationAllows {spec : Json} {id : String} (hread : ListsUnread js spec)
    (h : AlikeButLists (Fields.set d "device_id" (.str id)) (Fields.set d' "device_id" (.str id)))
    (label : Option String) :
    reservationAllows js spec id label d = reservationAllows js spec id label d' := by
  have hpins : FleetRunner.pinsDevice js (spec.prop "targets") id d =
      FleetRunner.pinsDevice js (spec.prop "targets") id d' := h.pinsDevice hread.1 hread.2
  simp only [FleetRunner.reservationAllows, hpins]

end AlikeButLists

/-- What the collector puts over a registered descriptor is the id and the two lists. -/
theorem alikeButLists_fullDescriptor (d : Device) :
    AlikeButLists (Fields.set d.descriptor.spread "device_id" (.str d.device_id))
      (fullDescriptor d) := by
  intro a hp hc
  change _ = Fields.get? (Fields.set (Fields.set (Fields.set d.descriptor.spread "device_id" _)
    "pools" _) "capabilities" _) a
  rw [Fields.get?_set_of_ne _ hc, Fields.get?_set_of_ne _ hp]

theorem alikeButLists_spread (d : Device) :
    AlikeButLists (Fields.set d.descriptor.spread "device_id" (.str d.device_id))
      (Fields.set (fullDescriptor d) "device_id" (.str d.device_id)) := by
  intro a hp hc
  rw [alikeButLists_fullDescriptor d a hp hc]
  by_cases hk : a = "device_id"
  · subst hk
    rw [Fields.get?_set_self, ← alikeButLists_fullDescriptor d _ hp hc, Fields.get?_set_self]
  · rw [Fields.get?_set_of_ne _ hk]

/-! ## Where the two agree -/

/-- A device an executor may hold for this job: attached, online, and within the pin. -/
structure AtHand (db : Db) (spec : Json) (d : Device) : Prop where
  row : d ∈ db.devices.rows
  attached : (attachedTo? d).isSome = true
  online : ageS db d.last_seen ≤ ONLINE_S
  pin : pinAllows spec d.device_id = true

/-- Nothing that only the dry run reads leaves a device at hand out: the pool, the two
lists, and the time of a device that is to be forgotten. -/
structure PlainTargets (js : Js) (db : Db) (spec : Json) : Prop where
  lists : ListsUnread js spec
  pool : ∀ d, AtHand db spec d → inPool js (effectivePools d) (target? spec "pool") = .ok true
  live : ∀ d, AtHand db spec d → unexpired db d = true

/-- Then a device draws the job exactly when the dry run shows it. -/
theorem PlainTargets.drawsTo_iff {js : Js} {db : Db} {spec : Json} (h : PlainTargets js db spec)
    {executor : String} {d : Device} :
    DrawsTo js db spec executor d ↔ ShownAt js db spec executor d := by
  have hreservation := AlikeButLists.reservationAllows h.lists
    (d := d.descriptor.spread) (alikeButLists_spread d) (db.reservedFor d.device_id)
  have hexpr := (alikeButLists_fullDescriptor d).matchAllows h.lists.1 h.lists.2
  constructor
  · intro hd
    have hhand : AtHand db spec d := ⟨hd.row, by rw [hd.attached]; rfl, hd.online, hd.pin⟩
    exact ⟨hd.row, h.live d hhand, hd.online, hd.pin,
      ⟨h.pool d hhand, hreservation ▸ hd.reservation, hexpr ▸ hd.expr⟩, hd.attached⟩
  · intro hd
    exact ⟨hd.row, hd.online, hd.pin, hreservation ▸ hd.targeted.reservation,
      hexpr ▸ hd.targeted.expr, hd.attached⟩

/-- Where the dry run shows an online attached device, a host job with plain targets is
granted only to executors such a device is attached to. -/
theorem host_routing_agree (js : Js) (db : Db) (spec : Json) (ms : List Device)
    (hunpinned : optTruthy (target? spec "executor") = false)
    (hms : matchingDevices js db (target? spec "pool") (target? spec "match") none none spec =
      .ok ms) (hplain : PlainTargets js db spec) :
    (∃ d ∈ ms, pinAllows spec d.device_id = true ∧ ageS db d.last_seen ≤ ONLINE_S ∧
        (attachedTo? d).isSome = true) →
      ∀ name, specEligibleFor js db (claimantContext db .host name) spec = .ok true →
        ∃ d ∈ ms, pinAllows spec d.device_id = true ∧ ageS db d.last_seen ≤ ONLINE_S ∧
          attachedTo? d = some name := by
  rintro ⟨d, hd, hpin, honline, hsome⟩ name hgranted
  obtain ⟨holder, hat⟩ := Option.isSome_iff_exists.mp hsome
  have hdraws : ∀ executor, executor ∈ executorsHolding js db spec ↔
      ∃ d ∈ ms, pinAllows spec d.device_id = true ∧ ageS db d.last_seen ≤ ONLINE_S ∧
        attachedTo? d = some executor := by
    intro executor
    rw [mem_executorsHolding, shownAt_iff hms]
    exact exists_congr fun c => hplain.drawsTo_iff
  have hholder := (hdraws holder).mpr ⟨d, hd, hpin, honline, hat⟩
  rcases (eligible_host_iff hunpinned name).mp hgranted with hnobody | hname
  · rw [hnobody] at hholder
    cases hholder
  · exact (hdraws name).mp hname

/-- Two phones, each cabled to its own executor; the operator moved one to the `ui` pool. -/
def cabled : List Request :=
  [.register (Sample.registration "p1" [("descriptor", .obj [("attached_to", .str "mac1")])]) none,
    .register (Sample.registration "p2" [("descriptor", .obj [("attached_to", .str "mac2")])]) none,
    .editPools "p1" (some ["ui"])]

/-- A job for the pool the operator made. -/
def poolJob : Json := Sample.hostJob "h" [("targets", .obj [("pool", .str "ui")])]

/-- A job for Androids in no pool goes to the executor of the Android. -/
theorem host_routing_matched :
    let reqs : List Request :=
      [.register (Sample.registration "p1" [("descriptor",
          .obj [("attached_to", .str "mac1"), ("os", .str "Android 15")])]) none,
        .register (Sample.registration "p2" [("descriptor",
          .obj [("attached_to", .str "mac2"), ("os", .str "iOS 18")])]) none]
    let spec := Sample.hostJob "h" [("targets", .obj [("match", .str "os == 'Android 15'")])]
    ∃ ms, matchingDevices .plain (after .plain reqs) (target? spec "pool")
        (target? spec "match") none none spec = .ok ms ∧
      ∀ name, specEligibleFor .plain (after .plain reqs)
          (claimantContext (after .plain reqs) .host name) spec = .ok true →
        ∃ d ∈ ms, pinAllows spec d.device_id = true ∧
          ageS (after .plain reqs) d.last_seen ≤ ONLINE_S ∧ attachedTo? d = some name := by
  intro reqs spec
  have hselected : okAnd (matchingDevices .plain (after .plain reqs) (target? spec "pool")
      (target? spec "match") none none spec) (fun ms => ms.any fun d =>
        pinAllows spec d.device_id && decide (ageS (after .plain reqs) d.last_seen ≤ ONLINE_S) &&
          (attachedTo? d).isSome) = true := by decide +kernel
  have hread : fieldsRead .plain (target? spec "match") = ["os"] := by decide +kernel
  have hlive : ∀ d ∈ (after .plain reqs).devices.rows, unexpired (after .plain reqs) d = true := by
    decide +kernel
  have hplain : PlainTargets .plain (after .plain reqs) spec :=
    ⟨by rw [ListsUnread, hread]; decide, fun d _ => rfl, fun d hd => hlive d hd.row⟩
  obtain ⟨ms, hms, hany⟩ := exists_of_okAnd hselected
  obtain ⟨d, hd, hrow⟩ := List.any_eq_true.mp hany
  simp only [Bool.and_eq_true, decide_eq_true_eq] at hrow
  obtain ⟨⟨hpin, honline⟩, hat⟩ := hrow
  exact ⟨ms, hms, host_routing_agree .plain (after .plain reqs) spec ms (by decide) hms hplain
    ⟨d, hd, hpin, honline, hat⟩⟩

/-- A job for the pool is granted to the executor whose phone is not in it. -/
theorem host_routing_disagree :
    ¬∀ (js : Js) (db : Db) (spec : Json) (ms : List Device),
      optTruthy (target? spec "executor") = false →
      matchingDevices js db (target? spec "pool") (target? spec "match") none none spec = .ok ms →
      (∃ d ∈ ms, pinAllows spec d.device_id = true ∧ ageS db d.last_seen ≤ ONLINE_S ∧
        (attachedTo? d).isSome = true) →
      ∀ name, specEligibleFor js db (claimantContext db .host name) spec = .ok true →
        ∃ d ∈ ms, pinAllows spec d.device_id = true ∧ ageS db d.last_seen ≤ ONLINE_S ∧
          attachedTo? d = some name := by
  intro h
  have hselected : okAnd (matchingDevices .plain (after .plain cabled) (target? poolJob "pool")
      (target? poolJob "match") none none poolJob) (fun ms =>
        (ms.any fun d => decide (ageS (after .plain cabled) d.last_seen ≤ ONLINE_S) &&
          (attachedTo? d).isSome) &&
        ms.all fun d => decide (attachedTo? d ≠ some "mac2")) = true := by decide
  have hgranted : "mac2" ∈ executorsHolding .plain (after .plain cabled) poolJob := by
    decide
  obtain ⟨ms, hms, hrows⟩ := exists_of_okAnd hselected
  obtain ⟨hany, hall⟩ := (Bool.and_eq_true _ _).mp hrows
  obtain ⟨d, hd, hrow⟩ := List.any_eq_true.mp hany
  obtain ⟨honline, hat⟩ := (Bool.and_eq_true _ _).mp hrow
  obtain ⟨c, hc, -, -, hmac⟩ := h .plain (after .plain cabled) poolJob ms (by decide) hms
    ⟨d, hd, rfl, of_decide_eq_true honline, hat⟩ "mac2"
    ((eligible_host_iff (by decide) "mac2").mpr (Or.inr hgranted))
  exact of_decide_eq_true (List.all_eq_true.mp hall c hc) hmac

end FleetRunner
