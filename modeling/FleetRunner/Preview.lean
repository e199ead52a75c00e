import FleetRunner.Registry

/-!
# What a preview shows and what a claim hands out

A dry run and a fan-out select devices with `matchingDevices`; a claim asks
`specEligibleFor`. Both read the same pools, capabilities, reservation and
descriptor. They part on one guard: the selection asks for a capability only
when the spec names a workload, and a spec may lose its workload when the
references in it are filled, after it was checked.
-/

namespace FleetRunner

open Library

/-- Would this device be handed the spec if it asked right now? -/
def Eligible (js : Js) (db : Db) (deviceId : String) (spec : Json) : Prop :=
  specEligibleFor js db (claimantContext db .device deviceId) spec = .ok true

/-- A window is judged when both its ends are numbers. -/
def hasHours (window : Option Json) : Bool :=
  ((optProp window "from").bind Json.asNum?).isSome &&
    ((optProp window "to").bind Json.asNum?).isSome

/-- Do the constraints ask for anything the collector judges at a claim? -/
def asksCollector (constraints : Option Json) : Bool :=
  readsBeacon constraints || hasHours (optProp constraints "window")

/-- Every row has an id; registration refuses an empty one. -/
def NamedDevices (db : Db) : Prop := ∀ d ∈ db.devices.rows, d.device_id ≠ ""

theorem namedDevices (cfg : Config) (reqs : List Request) : NamedDevices (after cfg reqs) := by
  intro d hd hid
  have hrow : (after cfg reqs).device? d.device_id = some d := Table.mem_rows_iff.mp hd
  rw [hid, device?_empty_id] at hrow
  cases hrow

section

variable {js : Js} {db : Db}

/-! ## Reading the claim's filter -/

theorem insideWindow_of_no_hours {now : Nat} {window : Option Json} (h : hasHours window = false) :
    insideWindow js now window = true := by
  unfold insideWindow
  split
  · rename_i hstart hstop
    simp [hasHours, hstart, hstop, Json.asNum?] at h
  · rfl

theorem constraintsSatisfied_of_not_asked {constraints beacon : Option Json} {age : Option Nat}
    {now : Nat} (h : asksCollector constraints = false) :
    constraintsSatisfied js constraints beacon age now = .ok true := by
  obtain ⟨hreads, hhours⟩ : readsBeacon constraints = false ∧
      hasHours (optProp constraints "window") = false := by
    simpa [asksCollector] using h
  simp [constraintsSatisfied, insideWindow_of_no_hours hhours, hreads]

/-- What both filters ask of a device beside its capability and its pin. -/
structure Targeted (js : Js) (db : Db) (spec : Json) (d : Device) : Prop where
  pool : inPool js (effectivePools d) (target? spec "pool") = .ok true
  reservation : reservationAllows js spec d.device_id (db.reservedFor d.device_id)
    (fullDescriptor d) = true
  expr : matchAllows js (target? spec "match") (fullDescriptor d) = true

/-- What a claim asks of the device's capabilities. -/
def Capable (js : Js) (spec : Json) (d : Device) : Prop :=
  capabilityMatches js (deviceCapabilities d) ((spec.prop "workload").getD .null) (backendOf spec) =
    .ok true

theorem device?_of_mem {d : Device} (hd : d ∈ db.devices.rows) :
    db.device? d.device_id = some d :=
  Table.mem_rows_iff.mp hd

theorem eligible_iff {d : Device} (hd : d ∈ db.devices.rows) {spec : Json}
    (hfree : asksCollector (spec.prop "constraints") = false) :
    Eligible js db d.device_id spec ↔
      pinAllows spec d.device_id = true ∧ Targeted js db spec d ∧ Capable js spec d := by
  have hctx : claimantContext db .device d.device_id = deviceContext db d := by
    simp [claimantContext, device?_of_mem hd]
  rw [Eligible, hctx]
  simp only [specEligibleFor, deviceContext, ifSo_eq_true, Except.ok.injEq,
    constraintsSatisfied_of_not_asked hfree, true_and]
  constructor
  · rintro ⟨hpin, hres, hpool, hcap, hexpr⟩
    exact ⟨hpin, ⟨hpool, hres, hexpr⟩, hcap⟩
  · rintro ⟨hpin, ⟨hpool, hres, hexpr⟩, hcap⟩
    exact ⟨hpin, hres, hpool, hcap, hexpr⟩

/-! ## Reading the selection -/

/-- Is the device's window still open? -/
def unexpired (db : Db) (d : Device) : Bool := !isExpired d.ttl_s (some (ageS db d.last_seen))

theorem deviceMatches_iff {spec : Json} {d : Device} :
    deviceMatches js db (target? spec "pool") (target? spec "match") (spec.prop "workload")
        (some (backendOf spec)) spec (db.reservedFor d.device_id) d = .ok true ↔
      unexpired db d = true ∧ Targeted js db spec d ∧
        canRun js (deviceCapabilities d) (spec.prop "workload") (some (backendOf spec)) =
          .ok true := by
  simp only [deviceMatches, ifSo_eq_true, Except.ok.injEq]
  constructor
  · rintro ⟨hlive, hpool, hrun, hres, hexpr⟩
    exact ⟨hlive, ⟨hpool, hres, hexpr⟩, hrun⟩
  · rintro ⟨hlive, ⟨hpool, hres, hexpr⟩, hrun⟩
    exact ⟨hlive, hpool, hrun, hres, hexpr⟩

/-- The selection asks what a claim asks exactly when a workload is named. -/
theorem canRun_iff {spec : Json} {d : Device} :
    canRun js (deviceCapabilities d) (spec.prop "workload") (some (backendOf spec)) = .ok true ↔
      (optTruthy (spec.prop "workload") = true → Capable js spec d) := by
  unfold canRun Capable
  cases hw : spec.prop "workload" with
  | none => simp
  | some w => by_cases ht : w.truthy = true <;> simp [ht]

theorem mem_selected_iff {p : Plan db} (hdevice : p.executor = .device) {devices : List Device}
    (h : selected js p = .ok devices) (d : Device) :
    d ∈ devices ↔ d ∈ db.devices.rows ∧ unexpired db d = true ∧ Targeted js db p.spec d ∧
      (optTruthy (p.spec.prop "workload") = true → Capable js p.spec d) := by
  simp only [selected, hdevice, matchingDevices, Bool.false_eq_true, if_false] at h
  rw [mem_filterE h, deviceMatches_iff, canRun_iff]

/-- A device is known by its id. -/
theorem eq_of_device_id {d d' : Device} (hd : d ∈ db.devices.rows) (hd' : d' ∈ db.devices.rows)
    (h : d.device_id = d'.device_id) : d = d' := by
  have hrow := device?_of_mem hd
  rw [h, device?_of_mem hd'] at hrow
  exact (Option.some.inj hrow).symm

/-- What a dry run of a spec for one device shows. -/
theorem placeOne_dryRun {p : Plan db} {db' : Db} {out : EnqueueAccepted}
    (h : placeOne js p true = .ok (db', out)) :
    ∃ devices warnings, selected js p = .ok devices ∧
      out.preview = some ⟨p.spec, (devices.filter fun d => pinAllows p.spec d.device_id).map
        candidate, warnings⟩ := by
  unfold placeOne at h
  split at h
  · exact absurd h refuse_ne_ok
  · obtain ⟨devices, hdevices, h⟩ := bind_eq_ok h
    obtain ⟨warnings, -, h⟩ := bind_eq_ok h
    cases h
    refine ⟨devices, warnings, orThrow_eq_ok hdevices, ?_⟩
    simp only [pinAllows]
    cases target? p.spec "device_id" with
    | none => simp
    | some v => by_cases hv : v.truthy = true <;> simp [hv]

theorem placeFanout_fanout {p : Plan db} {fanout : Json} {dryRun : Bool} {db' : Db}
    {out : EnqueueAccepted} (h : placeFanout js p fanout dryRun = .ok (db', out)) :
    out.fanout.isSome = true := by
  unfold placeFanout at h
  obtain ⟨devices, -, h⟩ := bind_eq_ok h
  split at h
  · obtain ⟨warnings, -, h⟩ := bind_eq_ok h
    cases h
    rfl
  · cases h
    rfl

theorem placeOne_fanout {p : Plan db} {dryRun : Bool} {db' : Db} {out : EnqueueAccepted}
    (h : placeOne js p dryRun = .ok (db', out)) : out.fanout = none := by
  unfold placeOne at h
  split at h
  · exact absurd h refuse_ne_ok
  · split at h
    · obtain ⟨devices, -, h⟩ := bind_eq_ok h
      obtain ⟨warnings, -, h⟩ := bind_eq_ok h
      cases h
      rfl
    · cases h
      rfl

/-- An accepted spec goes to one place or is fanned out, and says which. -/
theorem enqueueJob_placed {input : Json} {p : Plan db} {dryRun : Bool} {db' : Db}
    {out : EnqueueAccepted} (hp : prepare js db input = .ok p)
    (h : enqueueJob js db input dryRun = .ok (db', out)) :
    (out.fanout = none ∧ placeOne js p dryRun = .ok (db', out)) ∨
      (out.fanout.isSome = true ∧ ∃ fanout, placeFanout js p fanout dryRun = .ok (db', out)) := by
  unfold enqueueJob at h
  obtain ⟨q, hq, h⟩ := bind_eq_ok h
  obtain rfl : p = q := Except.ok.inj (hp.symm.trans hq)
  split at h
  · split at h
    · exact Or.inr ⟨placeFanout_fanout h, _, h⟩
    · exact Or.inl ⟨placeOne_fanout h, h⟩
  · exact Or.inl ⟨placeOne_fanout h, h⟩

/-- A device is listed when it was selected and the pin leaves it. -/
theorem listed_iff {spec : Json} {devices : List Device} {P : Device → Prop}
    (hdevices : ∀ d, d ∈ devices ↔ d ∈ db.devices.rows ∧ P d) {d : Device}
    (hd : d ∈ db.devices.rows) :
    (∃ c ∈ (devices.filter fun d => pinAllows spec d.device_id).map candidate,
        c.device_id = d.device_id) ↔ pinAllows spec d.device_id = true ∧ P d := by
  constructor
  · rintro ⟨c, hc, hid⟩
    obtain ⟨d', hmem, rfl⟩ := List.mem_map.mp hc
    obtain ⟨hsel, hpin⟩ := List.mem_filter.mp hmem
    obtain ⟨hrow, hrest⟩ := (hdevices d').mp hsel
    obtain rfl : d' = d := eq_of_device_id hrow hd hid
    exact ⟨hpin, hrest⟩
  · rintro ⟨hpin, hrest⟩
    have hsel := (hdevices d).mpr ⟨hd, hrest⟩
    exact ⟨candidate d, List.mem_map_of_mem (List.mem_filter.mpr ⟨hsel, hpin⟩), rfl⟩

/-! ## The child of a fan-out -/

section Child

variable (p : Plan db) (d : Device)

theorem childSpec_targets : targetsOf (childSpec p d) =
    some (.obj (Fields.set ((targetsOf p.spec).getD .null).spread "device_id"
      (.str d.device_id))) := by
  rw [targetsOf, childSpec, Json.prop_obj,
    Fields.get?_filter _ (fun k => k ≠ "fanout") (by decide), Fields.get?_set_self]

theorem childSpec_device_id : target? (childSpec p d) "device_id" = some (.str d.device_id) := by
  rw [target?, childSpec_targets]
  exact Fields.get?_set_self _ _ _

/-- The rest of the targets clause is the parent's. -/
theorem childSpec_target {k : String} (hk : k ≠ "device_id") (hindex : Json.isIndex k = false) :
    target? (childSpec p d) k = target? p.spec k := by
  rw [target?, childSpec_targets, target?]
  change Fields.get? _ k = _
  rw [Fields.get?_set_of_ne _ hk, Json.get?_spread _ hindex]
  cases targetsOf p.spec <;> rfl

/-- So is every field but the id, the targets and the fan-out itself. -/
theorem childSpec_prop {k : String} (hindex : Json.isIndex k = false) (hid : k ≠ "job_id")
    (htargets : k ≠ "targets") (hfanout : k ≠ "fanout") :
    (childSpec p d).prop k = p.spec.prop k := by
  rw [childSpec, Json.prop_obj,
    Fields.get?_filter _ (fun k => k ≠ "fanout") (by simpa using hfanout),
    Fields.get?_set_of_ne _ htargets, Fields.get?_set_of_ne _ hid, Json.get?_spread _ hindex]

theorem childSpec_capable : Capable js (childSpec p d) d ↔ Capable js p.spec d := by
  simp only [Capable, backendOf]
  rw [childSpec_prop p d (by decide) (by decide) (by decide) (by decide),
    childSpec_prop p d (by decide) (by decide) (by decide) (by decide)]

/-- A child pins its device, so it may use a reservation its parent holds. -/
theorem childSpec_targeted (hne : d.device_id ≠ "") (h : Targeted js db p.spec d) :
    Targeted js db (childSpec p d) d := by
  refine ⟨?_, ?_, ?_⟩
  · rw [childSpec_target p d (by decide) (by decide)]
    exact h.pool
  · have hres := h.reservation
    unfold reservationAllows at hres ⊢
    rw [childSpec_prop p d (by decide) (by decide) (by decide) (by decide)]
    have hpin : pinsDevice js ((childSpec p d).prop "targets") d.device_id (fullDescriptor d) =
        true := by
      change pinsDevice js (targetsOf (childSpec p d)) _ _ = true
      rw [pinsDevice_of_device_id js (childSpec_device_id p d) hne]
      simp
    split
    · rfl
    · split
      · rfl
      · rename_i l hl hlabel
        simp only [hl, if_neg hlabel, Bool.and_eq_true] at hres
        simp [hres.1, hpin]
  · rw [childSpec_target p d (by decide) (by decide)]
    exact h.expr

/-- A child asks nothing else of its device than the capability. -/
theorem childSpec_eligible_iff (hd : d ∈ db.devices.rows) (hne : d.device_id ≠ "")
    (hfree : asksCollector (p.spec.prop "constraints") = false) (h : Targeted js db p.spec d) :
    Eligible js db d.device_id (childSpec p d) ↔ Capable js p.spec d := by
  have hfree' : asksCollector ((childSpec p d).prop "constraints") = false := by
    rw [childSpec_prop p d (by decide) (by decide) (by decide) (by decide)]
    exact hfree
  have hpin : pinAllows (childSpec p d) d.device_id = true := by
    simp [pinAllows, childSpec_device_id, Json.truthy, hne]
  rw [eligible_iff hd hfree', childSpec_capable]
  constructor
  · rintro ⟨-, -, hcap⟩
    exact hcap
  · intro hcap
    exact ⟨hpin, childSpec_targeted p d hne h, hcap⟩

end Child

/-- A claimant is judged on the pin first, registered or not. -/
theorem pinAllows_of_eligible {id : String} {spec : Json} (h : Eligible js db id spec) :
    pinAllows spec id = true := by
  unfold Eligible claimantContext at h
  cases hd : db.device? id with
  | none =>
      simp only [hd, specEligibleFor, emptyContext, ifSo_eq_true, Except.ok.injEq] at h
      exact h.1
  | some d =>
      have hid : d.device_id = id := Table.key_of_find? hd
      simp only [hd, specEligibleFor, deviceContext, ifSo_eq_true, Except.ok.injEq, hid] at h
      exact h.1

theorem eq_of_eligible_child {p : Plan db} {d : Device} (hne : d.device_id ≠ "") {id : String}
    (h : Eligible js db id (childSpec p d)) : id = d.device_id := by
  have hpin := pinAllows_of_eligible h
  simp only [pinAllows, childSpec_device_id, Json.truthy, Json.isStr_str] at hpin
  simpa [hne, eq_comm] using hpin

theorem mem_of_firstOfEach {key : Device → Except JsError String} {seen : List String}
    {devices kept : List Device} (h : firstOfEach key seen devices = .ok kept) :
    ∀ d ∈ kept, d ∈ devices := by
  induction devices generalizing seen kept with
  | nil =>
      cases h
      simp
  | cons d rest ih =>
      rw [firstOfEach] at h
      obtain ⟨k, -, h⟩ := bind_eq_ok h
      split at h
      · exact fun d' hd' => List.mem_cons_of_mem d (ih h d' hd')
      · obtain ⟨others, hothers, h⟩ := bind_eq_ok h
        cases h
        intro d' hd'
        rcases List.mem_cons.mp hd' with rfl | hd'
        · exact List.mem_cons_self
        · exact List.mem_cons_of_mem d (ih hothers d' hd')

/-- A fan-out picks among the devices a preview shows. -/
theorem fanoutDevices_ok {p : Plan db} {fanout : Json} {devices : List Device}
    (h : fanoutDevices js p fanout = .ok devices) :
    ∃ all, selected js p = .ok all ∧ ∀ d ∈ devices, d ∈ all := by
  unfold fanoutDevices at h
  simp only at h
  split at h
  · exact absurd h refuse_ne_ok
  · obtain ⟨all, hall, h⟩ := bind_eq_ok h
    refine ⟨all, orThrow_eq_ok hall, ?_⟩
    split at h
    · obtain ⟨held, -, h⟩ := bind_eq_ok h
      exact absurd h refuse_ne_ok
    · split at h
      · cases h
        exact fun d hd => hd
      · split at h
        · cases h
          exact fun d hd => hd
        · exact mem_of_firstOfEach (orThrow_eq_ok h)

/-- An enqueue writes no table an eligibility check reads. -/
theorem eligible_insertJobs {rows : List Job} {id : String} {spec : Json} :
    Eligible js (insertJobs db rows) id spec ↔ Eligible js db id spec :=
  Iff.rfl

end

/-- The preview, the fan-out and the claim agree about a device exactly when the
spec still names a workload, or the device has what a claim for none asks. -/
theorem preview_claim_agree_iff (js : Js) (db : Db) (hnamed : NamedDevices db) (input : Json)
    (p : Plan db) (hplan : prepare js db input = .ok p) (hdevice : p.executor = .device)
    (hfree : asksCollector (p.spec.prop "constraints") = false) :
    (∀ db' out v, enqueueJob js db input true = .ok (db', out) → out.fanout = none →
      out.preview = some v → ∀ d ∈ db.devices.rows, unexpired db d = true →
        (((∃ c ∈ v.candidates, c.device_id = d.device_id) ↔ Eligible js db d.device_id v.spec) ↔
          (optTruthy (v.spec.prop "workload") = true ∨
            (pinAllows v.spec d.device_id = true → Targeted js db v.spec d →
              Capable js v.spec d)))) ∧
    (∀ db' out, enqueueJob js db input false = .ok (db', out) → out.fanout.isSome = true →
      ∀ id r, db.job? id = none → db'.job? id = some r →
        ∃ d ∈ db.devices.rows, id = childId p d ∧
          ((∀ other, Eligible js db' other r.spec ↔ other = d.device_id) ↔
            (optTruthy (p.spec.prop "workload") = true ∨ Capable js p.spec d))) := by
  constructor
  · intro db' out v hrun hsingle hv d hd hlive
    have hplace : placeOne js p true = .ok (db', out) := by
      rcases enqueueJob_placed hplan hrun with ⟨-, hplace⟩ | ⟨hfan, -⟩
      · exact hplace
      · rw [hsingle] at hfan
        cases hfan
    obtain ⟨devices, warnings, hdevices, hout⟩ := placeOne_dryRun hplace
    obtain rfl := Option.some.inj (hout.symm.trans hv)
    rw [listed_iff (mem_selected_iff hdevice hdevices) hd, eligible_iff hd hfree]
    by_cases hw : optTruthy (p.spec.prop "workload") = true
    · simp only [hw, hlive, true_or, iff_true]
      tauto
    · simp only [hw, hlive, false_or, Bool.false_eq_true, false_implies, and_true]
      tauto
  · intro db' out hrun hfan id r hnone hr
    obtain ⟨fanout, hplace⟩ : ∃ fanout, placeFanout js p fanout false = .ok (db', out) := by
      rcases enqueueJob_placed hplan hrun with ⟨hsingle, -⟩ | ⟨-, hplace⟩
      · rw [hsingle] at hfan
        cases hfan
      · exact hplace
    obtain ⟨devices, hdevices, rfl, -⟩ := placeFanout_ok hplace
    obtain ⟨all, hall, hsub⟩ := fanoutDevices_ok hdevices
    obtain ⟨d, hmem, rfl⟩ := List.mem_map.mp (mem_of_job?_insertJobs hnone hr)
    obtain ⟨hd, -, htargeted, hrun⟩ := (mem_selected_iff hdevice hall d).mp (hsub d hmem)
    have hne : d.device_id ≠ "" := hnamed d hd
    have hchild := childSpec_eligible_iff p d hd hne hfree htargeted
    refine ⟨d, hd, (Db.job_id_of_job? hr).symm, ?_⟩
    have hagree : (∀ other, Eligible js (insertJobs db (devices.map (childJob p))) other
        (childJob p d).spec ↔ other = d.device_id) ↔ Capable js p.spec d := by
      constructor
      · intro h
        exact hchild.mp (eligible_insertJobs.mp ((h d.device_id).mpr rfl))
      · intro hcap other
        constructor
        · intro h
          exact eq_of_eligible_child hne (eligible_insertJobs.mp h)
        · rintro rfl
          exact eligible_insertJobs.mpr (hchild.mpr hcap)
    rw [hagree]
    exact ⟨Or.inr, fun h => h.elim hrun fun hcap => hcap⟩

/-- Three devices, two of which say what they can run. -/
def declared : List Request :=
  [.register (Sample.registration "d1" []) none,
    .register (Sample.registration "d2" [("capabilities", .arr [.str "batch"])]) none,
    .register (Sample.registration "d3" [("capabilities", .arr [.str "soak"])]) none]

/-- A spec that names its workload is previewed as it will be claimed. -/
theorem preview_claim_agree_declared :
    ∃ db' out v, enqueueJob .plain (after .plain declared) (Sample.job "a" [] []) true =
        .ok (db', out) ∧ out.preview = some v ∧
      ∀ d ∈ (after .plain declared).devices.rows, unexpired (after .plain declared) d = true →
        ((∃ c ∈ v.candidates, c.device_id = d.device_id) ↔
          Eligible .plain (after .plain declared) d.device_id v.spec) := by
  obtain ⟨hprepare, hdry⟩ :
      okAnd (prepare .plain (after .plain declared) (Sample.job "a" [] [])) (fun p =>
        decide (p.executor = .device) && !asksCollector (p.spec.prop "constraints")) = true ∧
      okAnd (enqueueJob .plain (after .plain declared) (Sample.job "a" [] []) true) (fun r =>
        decide (r.2.fanout = none) &&
          r.2.preview.any fun v => optTruthy (v.spec.prop "workload")) = true := by
    decide +kernel
  obtain ⟨p, hplan, hp⟩ := exists_of_okAnd hprepare
  obtain ⟨⟨db', out⟩, hrun, hout⟩ := exists_of_okAnd hdry
  simp only [Bool.and_eq_true, decide_eq_true_eq, Bool.not_eq_true'] at hp hout
  obtain ⟨v, hv, hworkload⟩ := (Option.any_eq_true _ _).mp hout.2
  refine ⟨db', out, v, hrun, hv, fun d hd hlive => ?_⟩
  exact ((preview_claim_agree_iff .plain (after .plain declared) (namedDevices _ _) _ p hplan
    hp.1 hp.2).1 db' out v hrun hout.1 hv d hd hlive).mpr (Or.inl hworkload)

/-- The text of a reference to a metric of job `a`. -/
def metricRef : String := "$\x7bjobs.a.metrics.runs\x7d"

/-- Job `a` is done and reported an empty text; a device declares the reference itself. -/
def reported : List Request :=
  [.register (Sample.registration "d0" []) none, .enqueue (Sample.job "a" [] []), .nextJob "d0",
    .results (Sample.post "result" "d0" "a" [("final", .bool true), ("ok", .bool true),
      ("metrics", .obj [("runs", .str "")])]),
    .register (Sample.registration "d1" [("capabilities", .arr [.str metricRef])]) none]

/-- Filling the reference empties the workload: the dry run shows a device that
would never be offered the job. -/
theorem preview_claim_disagree :
    ¬∀ (js : Js) (db : Db), NamedDevices db → ∀ (input : Json) (p : Plan db),
      prepare js db input = .ok p → p.executor = .device →
      asksCollector (p.spec.prop "constraints") = false →
      ∀ db' out v, enqueueJob js db input true = .ok (db', out) → out.fanout = none →
        out.preview = some v → ∀ d ∈ db.devices.rows, unexpired db d = true →
          ((∃ c ∈ v.candidates, c.device_id = d.device_id) ↔
            Eligible js db d.device_id v.spec) := by
  intro h
  obtain ⟨hprepare, hdry, hdevice⟩ :
      okAnd (prepare .plain (after .plain reported) (Sample.spec "device" "b" metricRef ["a"] []))
        (fun p => decide (p.executor = .device) && !asksCollector (p.spec.prop "constraints")) =
        true ∧
      okAnd (enqueueJob .plain (after .plain reported)
        (Sample.spec "device" "b" metricRef ["a"] []) true) (fun r => decide (r.2.fanout = none) &&
          r.2.preview.any fun v => v.candidates.any (fun c => decide (c.device_id = "d1")) &&
            okAnd (specEligibleFor .plain (after .plain reported)
              (claimantContext (after .plain reported) .device "d1") v.spec) fun b => !b) = true ∧
      ((after .plain reported).device? "d1").any (unexpired (after .plain reported)) = true := by
    decide +kernel
  obtain ⟨p, hplan, hp⟩ := exists_of_okAnd hprepare
  obtain ⟨⟨db', out⟩, hrun, hout⟩ := exists_of_okAnd hdry
  obtain ⟨d, hd, hlive⟩ := (Option.any_eq_true _ _).mp hdevice
  simp only [Bool.and_eq_true, decide_eq_true_eq, Bool.not_eq_true'] at hp hout
  obtain ⟨v, hv, hshown⟩ := (Option.any_eq_true _ _).mp hout.2
  obtain ⟨hlisted, hnot⟩ := (Bool.and_eq_true _ _).mp hshown
  obtain ⟨b, heligible, hb⟩ := exists_of_okAnd hnot
  obtain ⟨c, hc, hcid⟩ := List.any_eq_true.mp hlisted
  obtain ⟨hrow, hid⟩ := Table.find?_eq_some_iff.mp hd
  have hagree := h .plain (after .plain reported) (namedDevices _ _) _ p hplan hp.1 hp.2 db' out v
    hrun hout.1 hv d hrow hlive
  have hyes := hagree.mp ⟨c, hc, (of_decide_eq_true hcid).trans hid.symm⟩
  rw [Eligible, hid, heligible] at hyes
  cases hyes
  cases hb

end FleetRunner
