import FleetRunner.Registry

/-!
# How long a beacon is trusted

A beacon is judged by the age of the device's last sign of life, and polls,
registrations and result rows are signs of life too. `lastBeacon` keeps what
the row does not: when the last beacon came. What a claim attempt makes of a
beacon that is too old depends on whether anything else was heard since.

Times are in the seconds the database stamps rows with.
-/

namespace FleetRunner

open Library

/-- The last beacon received from a registered device, with the second it came in. -/
abbrev Heard : Type := Option (Nat × Json)

/-- A new beacon replaces the one before; one is forgotten with the row that kept it. -/
def hearing (now : Nat) (heard : Option Json) (row : Option Device) (g : Heard) : Heard :=
  if row.isNone then none else (heard.map fun b => (now, b)).or g

def hear (id : String) (db : Db) (req : Request) (db' : Db) (g : Heard) : Heard :=
  hearing db.sqlNow (beaconFrom? id req) (db'.device? id) g

def lastBeacon (cfg : Config) (reqs : List Request) (id : String) : Heard :=
  watch (step cfg) (hear id) .empty none reqs

theorem lastBeacon_concat (cfg : Config) (past : List Request) (req : Request) (id : String) :
    lastBeacon cfg (past ++ [req]) id =
      hear id (after cfg past) req (step cfg (after cfg past) req) (lastBeacon cfg past id) :=
  watch_concat (hear id) .empty none past req

/-- A row keeps the last beacon, and no sign of life is older than it. -/
structure Remembers (g : Heard) (now : Nat) (d : Device) : Prop where
  beacon : d.last_beacon = g.map Prod.snd
  received : ∀ t b, g = some (t, b) → t ≤ d.last_seen
  seen : d.last_seen ≤ now

/-- Without a row there is no beacon. -/
def Remembered (g : Heard) (now : Nat) : Option Device → Prop
  | none => g = none
  | some d => Remembers g now d

theorem Remembers.mono {g : Heard} {now now' : Nat} {d : Device} (h : Remembers g now d)
    (hle : now ≤ now') : Remembers g now' d :=
  ⟨h.beacon, h.received, h.seen.trans hle⟩

/-- A request that carries no beacon leaves the beacon as it was. -/
theorem Remembers.touched {g : Heard} {now : Nat} {d d' : Device} (h : Remembers g now d)
    (hbeacon : d'.last_beacon = d.last_beacon)
    (hseen : d'.last_seen = now ∨ d'.last_seen = d.last_seen) : Remembers g now d' := by
  refine ⟨hbeacon.trans h.beacon, fun t b ht => ?_, ?_⟩
  · have hle := h.received t b ht
    have hnow := h.seen
    rcases hseen with hseen | hseen <;> omega
  · have hnow := h.seen
    rcases hseen with hseen | hseen <;> omega

theorem Remembered.change {g : Heard} {now : Nat} {id : String} {heard : Option Json}
    {o o' : Option Device} (h : Remembered g now o) (hchange : DeviceChange now id heard o o') :
    Remembered (hearing now heard o' g) now o' := by
  cases hchange with
  | same => cases o with
    | none => rfl
    | some d => exact h
  | forgotten => rfl
  | touched d =>
      have hrow : Remembers g now d := h
      exact hrow.touched rfl (Or.inl rfl)
  | edited d pools =>
      have hrow : Remembers g now d := h
      exact hrow.touched rfl (Or.inr rfl)
  | registered reg _ hne =>
      cases o with
      | none =>
          have hnone : g = none := h
          rw [hnone]
          exact ⟨rfl, by simp [hearing], Nat.le_refl now⟩
      | some d =>
          have hrow : Remembers g now d := h
          exact hrow.touched rfl (Or.inl rfl)
  | heard b =>
      cases o with
      | none => rfl
      | some d =>
          refine ⟨rfl, fun t b' ht => ?_, Nat.le_refl now⟩
          cases ht
          exact Nat.le_refl now

/-- What the registry keeps, in every reachable state. -/
theorem remembered_after (cfg : Config) (reqs : List Request) (id : String) :
    Remembered (lastBeacon cfg reqs id) (after cfg reqs).sqlNow ((after cfg reqs).device? id) := by
  have hstep : ∀ past req, Remembered (lastBeacon cfg past id) (after cfg past).sqlNow
      ((after cfg past).device? id) → True → Remembered (lastBeacon cfg (past ++ [req]) id)
        (step cfg (after cfg past) req).sqlNow ((step cfg (after cfg past) req).device? id) := by
    intro past req h _
    have hchange := registryChange_step cfg (after cfg past) req
    have hrow := h.change (hchange.row id)
    rw [lastBeacon_concat]
    have hnow : (after cfg past).sqlNow ≤ (step cfg (after cfg past) req).sqlNow :=
      Nat.div_le_div_right hchange.now
    unfold hear
    cases ho : (step cfg (after cfg past) req).device? id with
    | none => rfl
    | some d =>
        rw [ho] at hrow
        exact Remembers.mono hrow hnow
  have hbase : Remembered (lastBeacon cfg [] id) Db.empty.sqlNow (Db.empty.device? id) := rfl
  exact @history_invariant _ _ (step cfg)
    (fun reqs db => Remembered (lastBeacon cfg reqs id) db.sqlNow (db.device? id)) (fun _ _ => True)
    _ hbase hstep reqs (along_of_forall (fun _ _ => trivial) _ _)

/-! ## What a beacon can still do -/

/-- A reading a limit can be compared with. -/
def hasReading (js : Js) (sample : Json) (k : String) : Bool :=
  match (optVal (sample.prop k)).number js with
  | .ok (.fin _) => true
  | _ => false

/-- Could some constraint that reads a beacon be satisfied by this one? -/
def usable (js : Js) (b : Json) : Bool :=
  let sample := nullish (b.prop "beacon") b
  sample.truthy && (onPower sample || hasReading js sample "idle_s" ||
    hasReading js sample "load_1m")

section

variable {js : Js} {c : Option Json} {age now : Nat} {b : Json}

theorem optTruthy_of_readsBeacon (h : readsBeacon c = true) : optTruthy c = true := by
  cases c with
  | none => cases h
  | some v =>
      cases v with
      | obj fs => rfl
      | _ => cases h

theorem beaconStale_iff : beaconStale (some age) = true ↔ BEACON_TRUST_S < age := by
  simp [beaconStale]

theorem not_satisfied_of_stale (hreads : readsBeacon c = true) (hstale : BEACON_TRUST_S < age)
    (beacon : Option Json) : constraintsSatisfied js c beacon (some age) now ≠ .ok true := by
  simp only [constraintsSatisfied, optTruthy_of_readsBeacon hreads, hreads,
    beaconStale_iff.mpr hstale, Bool.not_true, Bool.false_eq_true, if_false, Bool.or_true, if_true]
  split
  · simp
  · split <;> simp

/-- Trusted, a beacon is judged by its sample alone. -/
theorem satisfied_iff (hreads : readsBeacon c = true) (hfresh : ¬BEACON_TRUST_S < age) :
    constraintsSatisfied js c (some b) (some age) now = .ok true ↔
      insideWindow js now (optProp c "window") = true ∧
        (nullish (b.prop "beacon") b).truthy = true ∧
        sampleSatisfies js c (nullish (b.prop "beacon") b) = .ok true := by
  have hstale : beaconStale (some age) = false := by simpa [beaconStale] using hfresh
  simp only [constraintsSatisfied, optTruthy_of_readsBeacon hreads, hreads, beaconSample, hstale,
    Option.map_some, Bool.not_true, Bool.false_eq_true, if_false, Bool.or_false]
  by_cases hin : insideWindow js now (optProp c "window") = true
  · by_cases ht : (nullish (b.prop "beacon") b).truthy = true <;> simp [hin, ht]
  · simp [hin]

theorem hasReading_of_readingOk {sample : Json} {k : String} {ok : Rat → Bool}
    (h : readingOk js sample k ok = .ok true) : hasReading js sample k = true := by
  unfold readingOk at h
  unfold hasReading
  split at h
  · rename_i q hq
    rw [hq]
  · cases h
  · cases h

/-- A sample that satisfies a constraint has what the constraint reads. -/
theorem usable_of_satisfied (hreads : readsBeacon c = true)
    (htruthy : (nullish (b.prop "beacon") b).truthy = true)
    (h : sampleSatisfies js c (nullish (b.prop "beacon") b) = .ok true) : usable js b = true := by
  simp only [usable, htruthy, Bool.true_and, Bool.or_eq_true]
  simp only [sampleSatisfies, ifSo_eq_true, Except.ok.injEq, Bool.or_eq_true,
    Bool.not_eq_true'] at h
  obtain ⟨hac, hidle, hload⟩ := h
  simp only [readsBeacon, Bool.or_eq_true] at hreads
  rcases hreads with (hwant | hwant) | hwant
  · exact Or.inl (Or.inl (hac.resolve_left (by simp [hwant])))
  · obtain ⟨want, hwant⟩ := Option.isSome_iff_exists.mp hwant
    rw [hwant] at hidle
    exact Or.inl (Or.inr (hasReading_of_readingOk hidle))
  · obtain ⟨most, hmost⟩ := Option.isSome_iff_exists.mp hwant
    rw [hmost] at hload
    exact Or.inr (hasReading_of_readingOk hload)

theorem exists_reading {sample : Json} {k : String} (h : hasReading js sample k = true) :
    ∃ q, ∀ ok, readingOk js sample k ok = .ok (ok q) := by
  unfold hasReading at h
  split at h
  · rename_i q hq
    exact ⟨q, fun ok => by rw [readingOk, hq]⟩
  · cases h

/-- A usable sample satisfies the constraint that asks for what it shows. -/
theorem exists_satisfied (h : usable js b = true) (hfresh : ¬BEACON_TRUST_S < age) :
    ∃ c, readsBeacon c = true ∧
      constraintsSatisfied js c (some b) (some age) now = .ok true := by
  simp only [usable, Bool.and_eq_true, Bool.or_eq_true] at h
  obtain ⟨htruthy, (hac | hidle) | hload⟩ := h
  · refine ⟨some (.obj [("require_ac", .bool true)]), rfl, ?_⟩
    rw [satisfied_iff rfl hfresh]
    refine ⟨rfl, htruthy, ?_⟩
    simp only [sampleSatisfies, hac, Bool.or_true, ifSo_eq_true, true_and]
    exact ⟨rfl, rfl⟩
  · obtain ⟨q, hq⟩ := exists_reading hidle
    refine ⟨some (.obj [("require_idle_s", .num q)]), rfl, ?_⟩
    rw [satisfied_iff rfl hfresh]
    refine ⟨rfl, htruthy, ?_⟩
    simp only [sampleSatisfies, ifSo_eq_true]
    refine ⟨rfl, ?_, rfl⟩
    change readingOk js _ "idle_s" (fun idle => decide (q ≤ idle)) = .ok true
    rw [hq]
    simp
  · obtain ⟨q, hq⟩ := exists_reading hload
    refine ⟨some (.obj [("max_load", .num q)]), rfl, ?_⟩
    rw [satisfied_iff rfl hfresh]
    refine ⟨rfl, htruthy, ?_⟩
    simp only [sampleSatisfies, ifSo_eq_true]
    refine ⟨rfl, rfl, ?_⟩
    change readingOk js _ "load_1m" (fun load => decide (load ≤ q)) = .ok true
    rw [hq]
    simp

end

/-! ## Claim attempts -/

/-- The state a claim attempt of a device reads: its poll has just touched the
row, or a poll that is still open tries again. -/
inductive Attempt (db : Db) (id : String) : Db → Prop where
  | poll : Attempt db id (touchDevice db id)
  | again : Attempt db id db

/-- The beacon neither satisfies a constraint nor blocks the device as busy elsewhere. -/
structure FailsClosed (cfg : Config) (db : Db) (id : String) : Prop where
  constraints : ∀ c, readsBeacon c = true →
    constraintsSatisfied cfg.js c (claimantContext db .device id).beacon
      (claimantContext db .device id).beaconAgeS db.now ≠ .ok true
  busy : busyElsewhere (claimantContext db .device id).beacon
    (claimantContext db .device id).beaconAgeS cfg.collectorId = none

/-- At an attempt, the row holds the last beacon, and its clock is not ahead. -/
theorem row_of_attempt {cfg : Config} {reqs : List Request} {id : String} {db : Db} {t : Nat}
    {b : Json} (hattempt : Attempt (after cfg reqs) id db)
    (hbeacon : lastBeacon cfg reqs id = some (t, b)) :
    ∃ d, db.device? id = some d ∧ d.last_beacon = some b ∧ d.last_seen ≤ db.sqlNow := by
  have hrow := remembered_after cfg reqs id
  rw [hbeacon] at hrow
  cases hd : (after cfg reqs).device? id with
  | none =>
      rw [hd] at hrow
      cases hrow
  | some d =>
      rw [hd] at hrow
      have hrow : Remembers (some (t, b)) (after cfg reqs).sqlNow d := hrow
      cases hattempt with
      | poll =>
          refine ⟨{ d with last_seen := (after cfg reqs).sqlNow }, ?_, hrow.beacon, Nat.le_refl _⟩
          have htouched : (touchDevice (after cfg reqs) id).device? id =
              ((after cfg reqs).device? id).map fun d =>
                { d with last_seen := (after cfg reqs).sqlNow } := by
            simp [touchDevice, Db.device?]
          rw [htouched, hd]
          rfl
      | again => exact ⟨d, hd, hrow.beacon, hrow.seen⟩

/-- A beacon received in time is trusted: no sign of life is older than it. -/
theorem trusted_of_recent {cfg : Config} {reqs : List Request} {id : String} {t : Nat} {b : Json}
    (hbeacon : lastBeacon cfg reqs id = some (t, b))
    (hrecent : (after cfg reqs).sqlNow ≤ t + BEACON_TRUST_S) :
    beaconStale (claimantContext (after cfg reqs) .device id).beaconAgeS = false := by
  have hrow := remembered_after cfg reqs id
  rw [hbeacon] at hrow
  cases hd : (after cfg reqs).device? id with
  | none => simp [claimantContext, hd, emptyContext, beaconStale]
  | some d =>
      rw [hd] at hrow
      have hreceived : t ≤ d.last_seen := Remembers.received hrow t b rfl
      simp only [claimantContext, hd, deviceContext, beaconStale, Option.any_some, ageS,
        decide_eq_false_iff_not]
      omega

/-- At every claim attempt, a beacon received too long ago fails closed exactly
when the device's last sign of life is too old as well, or the beacon shows
nothing a constraint could read and nothing for another collector. -/
theorem beacon_freshness_iff (cfg : Config) (reqs : List Request) (id : String) (db : Db)
    (hattempt : Attempt (after cfg reqs) id db) (t : Nat) (b : Json)
    (hbeacon : lastBeacon cfg reqs id = some (t, b)) :
    (t + BEACON_TRUST_S < db.sqlNow → FailsClosed cfg db id) ↔
      (t + BEACON_TRUST_S < db.sqlNow →
        (∃ d, db.device? id = some d ∧ d.last_seen + BEACON_TRUST_S < db.sqlNow) ∨
          (usable cfg.js b = false ∧ foreignBusy (some b) cfg.collectorId = none)) := by
  refine imp_congr_right fun _ => ?_
  obtain ⟨d, hd, hlast, hseen⟩ := row_of_attempt hattempt hbeacon
  have hctx : claimantContext db .device id = deviceContext db d := by
    simp [claimantContext, hd]
  have hbeacon' : (deviceContext db d).beacon = some b := hlast
  have hrow : (∃ d, db.device? id = some d ∧ d.last_seen + BEACON_TRUST_S < db.sqlNow) ↔
      BEACON_TRUST_S < ageS db d.last_seen := by
    simp only [hd, Option.some.injEq, exists_eq_left', ageS]
    omega
  rw [hrow]
  by_cases hstale : BEACON_TRUST_S < ageS db d.last_seen
  · refine iff_of_true ⟨fun c hc => ?_, ?_⟩ (Or.inl hstale)
    · rw [hctx]
      exact not_satisfied_of_stale hc hstale _
    · rw [hctx]
      exact if_pos (beaconStale_iff.mpr hstale)
  · have hbusy : busyElsewhere (deviceContext db d).beacon (deviceContext db d).beaconAgeS
        cfg.collectorId = foreignBusy (some b) cfg.collectorId := by
      rw [hbeacon']
      exact if_neg fun h => hstale (beaconStale_iff.mp h)
    rw [or_iff_right hstale]
    constructor
    · rintro ⟨hconstraints, hfree⟩
      rw [hctx] at hconstraints hfree
      refine ⟨Bool.eq_false_iff.mpr fun husable => ?_, hbusy.symm.trans hfree⟩
      obtain ⟨c, hc, hsatisfied⟩ := @exists_satisfied _ _ db.now _ husable hstale
      refine hconstraints c hc ?_
      rw [hbeacon']
      exact hsatisfied
    · rintro ⟨hspent, hfree⟩
      refine ⟨fun c hc hsatisfied => ?_, ?_⟩
      · rw [hctx, hbeacon'] at hsatisfied
        obtain ⟨-, htruthy, hsample⟩ := (satisfied_iff hc hstale).mp hsatisfied
        rw [usable_of_satisfied hc htruthy hsample] at hspent
        cases hspent
      · rw [hctx, hbusy]
        exact hfree

/-- A device on mains power that says so once, and is then silent for 200 seconds. -/
def silent : List Request :=
  [.register (Sample.registration "d1" []) none,
    .results (Sample.post "beacon" "d1" "" [("on_ac", .bool true)]), .tick 200000]

theorem lastBeacon_silent : lastBeacon .plain silent "d1" =
    some (0, Sample.post "beacon" "d1" "" [("on_ac", .bool true)]) := by
  rfl

/-- An open poll that tries again sees a row as old as its beacon. -/
theorem beacon_freshness_again : FailsClosed .plain (after .plain silent) "d1" := by
  have hold : ((after .plain silent).device? "d1").any (fun d =>
      decide (d.last_seen + BEACON_TRUST_S < (after .plain silent).sqlNow)) = true := by
    decide
  obtain ⟨d, hd, hseen⟩ := (Option.any_eq_true _ _).mp hold
  exact (beacon_freshness_iff .plain silent "d1" _ .again 0 _ lastBeacon_silent).mpr
    (fun _ => Or.inl ⟨d, hd, of_decide_eq_true hseen⟩) (by decide)

/-- A poll is a sign of life, so the claim it asks for trusts the old beacon. -/
theorem beacon_not_fresh :
    ¬∀ (cfg : Config) (reqs : List Request) (id : String) (db : Db),
      Attempt (after cfg reqs) id db → ∀ t b, lastBeacon cfg reqs id = some (t, b) →
        t + BEACON_TRUST_S < db.sqlNow → FailsClosed cfg db id := by
  intro h
  have hclosed := h .plain silent "d1" _ .poll 0 _ lastBeacon_silent (by decide)
  have hsatisfied : okAnd (constraintsSatisfied .plain (some (.obj [("require_ac", .bool true)]))
      (claimantContext (touchDevice (after .plain silent) "d1") .device "d1").beacon
      (claimantContext (touchDevice (after .plain silent) "d1") .device "d1").beaconAgeS
      (touchDevice (after .plain silent) "d1").now) (fun b => b) = true := by decide
  obtain ⟨b, hb, rfl⟩ := exists_of_okAnd hsatisfied
  exact hclosed.constraints _ rfl hb

end FleetRunner
