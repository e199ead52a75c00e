import FleetRunner.Leases
import FleetRunner.Machine.Agent

/-!
# A worker that keeps its lease (`beaconing.ts`)

A workload that runs for hours calls `maybe` at the top of its loop. Most calls
do nothing; now and then one posts a beacon, and the collector answers whether
the lease was renewed. The agent's own beacon loop (`agent.ts`) posts for the same
job, and the two share the cancellation slot. Here the worker, the loop and the
collector are one system, in which the requests of everyone else fall between two
calls in any order.

## Implementation notes

The worker's clock is ahead of the collector's by a fixed amount, and a post
takes no time. A post may be lost on the way there or on the way back; a
collector that answers with an error is one whose answer was lost. The loop posts
whenever it likes, and the slot is empty when the worker starts. What the loop does
with an answer is also what the ticker of `runWithBeacons` does, in the workload that
has it in place of a `Beaconer`. The agent's loops for its other collectors do not
write the slot while they do not run the job.
-/

namespace FleetRunner.Machine

open Library

/-- What a `Beaconer` is built with. -/
structure Beaconer where
  jobId : String
  deviceId : String
  intervalMs : Nat

inductive Delivery where
  | answered
  /-- The collector never saw it. -/
  | lost
  /-- The collector saw it, the worker never heard. -/
  | unanswered
  deriving DecidableEq

/-- A worker and its collector. -/
structure Site where
  db : Db
  /-- When the worker last posted, by its own clock. -/
  last : Nat
  cancelledJobId : Option String
  /-- How many posts of the worker in a row the collector has not seen. -/
  missed : Nat
  /-- When the worker last called `maybe`, by its own clock. -/
  called : Nat
  /-- What those calls returned. -/
  returned : List Bool

inductive SiteEvent where
  | collector (req : Request)
  /-- The agent's beacon loop comes round. -/
  | beaconLoop (sample : Json) (delivery : Delivery)
  | maybe (sample : Json) (delivery : Delivery)

def beaconBody (b : Beaconer) (sample : Json) : Json :=
  .obj [("schema", .num 1), ("kind", .str "beacon"), ("job_id", .str b.jobId),
    ("device_id", .str b.deviceId), ("beacon", sample)]

/-- What the agent's loop posts while the job is its own collector's. -/
def loopBody (b : Beaconer) (sample : Json) : Json :=
  .obj [("schema", .num 1), ("kind", .str "beacon"), ("device_id", .str b.deviceId),
    ("job_id", .str b.jobId), ("beacon", sample)]

/-- Only a `lease_renewed` of `false` counts as a refusal. -/
def leaseRenewedIn : PostReply → Bool
  | .beacon renewed _ => renewed
  | _ => true

variable (cfg : Config) (b : Beaconer) (ahead : Nat)

/-- The worker's clock. -/
def Site.clock (s : Site) : Nat := s.db.now + ahead

def Site.answer (s : Site) (ok : Bool) : Site :=
  { s with called := s.clock ahead, returned := s.returned ++ [ok] }

/-- False means stop: the claim is gone, or the job was cancelled. -/
def maybe (s : Site) (sample : Json) (delivery : Delivery) : Site :=
  if JobCancellation.isCancelled s.cancelledJobId b.jobId then s.answer ahead false
  else if s.clock ahead - s.last < b.intervalMs then s.answer ahead true
  else
    let sent := { s with last := s.clock ahead }
    match delivery, postResults cfg.js s.db (beaconBody b sample) with
    | .lost, _ => { sent with missed := s.missed + 1 }.answer ahead true
    | _, .error _ => sent.answer ahead true
    | .unanswered, .ok (db, _) => { sent with db, missed := 0 }.answer ahead true
    | .answered, .ok (db, reply) =>
      if leaseRenewedIn reply then { sent with db, missed := 0 }.answer ahead true
      else { sent with db, missed := 0, cancelledJobId := JobCancellation.cancel b.jobId }.answer
        ahead false

/-- The loop goes on whatever it hears; a refusal is left in the slot for the worker. -/
def beaconLoop (s : Site) (sample : Json) (delivery : Delivery) : Site :=
  match delivery, postResults cfg.js s.db (loopBody b sample) with
  | .lost, _ => s
  | _, .error _ => s
  | .unanswered, .ok (db, _) => { s with db }
  | .answered, .ok (db, reply) =>
    if leaseRenewedIn reply then { s with db }
    else { s with db, cancelledJobId := JobCancellation.cancel b.jobId }

def Site.step (s : Site) : SiteEvent → Site
  | .collector req => { s with db := FleetRunner.step cfg s.db req }
  | .beaconLoop sample delivery => beaconLoop cfg b s sample delivery
  | .maybe sample delivery => maybe cfg b ahead s sample delivery

/-- The worker starts: its first post is due an interval from now. -/
def Site.start (db : Db) : Site where
  db
  last := db.now + ahead
  cancelledJobId := none
  missed := 0
  called := db.now + ahead
  returned := []

/-! ## One call -/

/-- Does somebody hold the job's claim? -/
def holdsClaim (db : Db) (id : String) : Bool :=
  (db.job? id).any fun r => decide (r.status = .claimed)

/-- Would a call post a beacon now? -/
def Site.due (s : Site) : Prop := b.intervalMs ≤ s.clock ahead - s.last

instance (s : Site) : Decidable (s.due b ahead) := inferInstanceAs (Decidable (_ ≤ _))

/-- A beaconer of a job that was handed over: neither id is empty. -/
structure Beaconer.Named : Prop where
  job : b.jobId ≠ ""
  device : b.deviceId ≠ ""

section Call

variable {cfg b ahead} {s : Site}

/-- A body that is read as a beacon of the job. -/
structure Beaconer.Posts (b : Beaconer) (body : Json) : Prop where
  read : readPost body = .ok (.beacon b.deviceId body)
  job : textField? body "job_id" = some b.jobId

theorem posts_beaconBody (hb : b.Named) (sample : Json) : b.Posts (beaconBody b sample) := by
  constructor
  · simp [readPost, beaconBody, textField?, Fields.get?_cons, Json.isStr, hb.device, Json.asInt?]
  · simp [textField?, beaconBody, Fields.get?_cons, hb.job]

theorem posts_loopBody (hb : b.Named) (sample : Json) : b.Posts (loopBody b sample) := by
  constructor
  · simp [readPost, loopBody, textField?, Fields.get?_cons, Json.isStr, hb.device, Json.asInt?]
  · simp [textField?, loopBody, Fields.get?_cons, hb.job]

variable {body : Json}

/-- The post is answered as the beacon it is. -/
theorem postResults_posts (cfg : Config) (s : Site) (hbody : b.Posts body) :
    postResults cfg.js s.db body = .ok (postBeacon cfg.js s.db b.deviceId body) := by
  rw [postResults, hbody.read]

theorem step_posts (cfg : Config) (s : Site) (hbody : b.Posts body) :
    FleetRunner.step cfg s.db (.results body) = (postBeacon cfg.js s.db b.deviceId body).1 := by
  simp only [FleetRunner.step, postResults_posts cfg s hbody]

theorem job?_renewed (s : Site) (body : Json) :
    (renewLease (recordBeacon s.db b.deviceId body) b.jobId).job? b.jobId =
      (s.db.job? b.jobId).map (renewRow s.db.sqlNow) := by
  rw [renewLease, Db.job?_updateJob_self, (sameQueue_recordBeacon _ _).job?]
  rfl

/-- What a beacon the collector saw makes of the job's row. -/
theorem job?_step_posts (cfg : Config) (s : Site) (hbody : b.Posts body) :
    (FleetRunner.step cfg s.db (.results body)).job? b.jobId =
      (s.db.job? b.jobId).map (renewRow s.db.sqlNow) := by
  rw [step_posts cfg s hbody, postBeacon_eq, hbody.job]
  exact job?_renewed s body

theorem now_step_posts (cfg : Config) (s : Site) (hbody : b.Posts body) :
    (FleetRunner.step cfg s.db (.results body)).now = s.db.now := by
  rw [step_posts cfg s hbody, postBeacon_eq, hbody.job]
  rfl

/-- The collector says whether the job is claimed, by whomever. -/
theorem leaseRenewedIn_postBeacon (s : Site) (hbody : b.Posts body) :
    leaseRenewedIn (postBeacon cfg.js s.db b.deviceId body).2 = holdsClaim s.db b.jobId := by
  have hrow := job?_renewed (b := b) s body
  unfold postBeacon holdsClaim
  rw [hbody.job]
  simp only [hrow]
  cases s.db.job? b.jobId with
  | none => rfl
  | some r =>
      simp only [Option.map_some, renewRow_status, Option.any_some]
      by_cases hc : r.status = .claimed <;> simp [hc, leaseRenewedIn]

/-- What the loop may do when it comes round. -/
inductive Looped (cfg : Config) (b : Beaconer) (s : Site) (body : Json) : Delivery → Site → Prop
  | lost : Looped cfg b s body .lost s
  | unheard : Looped cfg b s body .unanswered
      { s with db := FleetRunner.step cfg s.db (.results body) }
  | renewed : holdsClaim s.db b.jobId = true → Looped cfg b s body .answered
      { s with db := FleetRunner.step cfg s.db (.results body) }
  | refused : holdsClaim s.db b.jobId = false → Looped cfg b s body .answered
      { s with db := FleetRunner.step cfg s.db (.results body), cancelledJobId := some b.jobId }

theorem looped (cfg : Config) (hb : b.Named) (s : Site) (sample : Json) (delivery : Delivery) :
    Looped cfg b s (loopBody b sample) delivery (beaconLoop cfg b s sample delivery) := by
  have hbody := posts_loopBody hb sample
  unfold beaconLoop
  rw [postResults_posts cfg s hbody]
  cases delivery with
  | lost => exact .lost
  | unanswered =>
      simp only [← step_posts cfg s hbody]
      exact .unheard
  | answered =>
      simp only [leaseRenewedIn_postBeacon s hbody, ← step_posts cfg s hbody]
      cases hclaim : holdsClaim s.db b.jobId with
      | true => exact .renewed hclaim
      | false => exact .refused hclaim

/-- The collector saw a post. -/
def Site.seen (cfg : Config) (b : Beaconer) (ahead : Nat) (s : Site) (sample : Json) : Site :=
  { s with last := s.clock ahead, missed := 0,
           db := FleetRunner.step cfg s.db (.results (beaconBody b sample)) }

/-- What one call may do. -/
inductive Called (cfg : Config) (b : Beaconer) (ahead : Nat) (s : Site) (sample : Json) :
    Delivery → Site → Prop
  | stopped {d : Delivery} : JobCancellation.isCancelled s.cancelledJobId b.jobId = true →
      Called cfg b ahead s sample d (s.answer ahead false)
  | early {d : Delivery} : ¬s.due b ahead → Called cfg b ahead s sample d (s.answer ahead true)
  | lost : s.due b ahead → Called cfg b ahead s sample .lost
      ({ s with last := s.clock ahead, missed := s.missed + 1 }.answer ahead true)
  | unheard : s.due b ahead →
      Called cfg b ahead s sample .unanswered ((s.seen cfg b ahead sample).answer ahead true)
  | renewed : s.due b ahead → holdsClaim s.db b.jobId = true →
      Called cfg b ahead s sample .answered ((s.seen cfg b ahead sample).answer ahead true)
  | refused : s.due b ahead → holdsClaim s.db b.jobId = false →
      Called cfg b ahead s sample .answered
        ({ s.seen cfg b ahead sample with cancelledJobId := some b.jobId }.answer ahead false)

theorem called (cfg : Config) (ahead : Nat) (hb : b.Named) (s : Site) (sample : Json)
    (delivery : Delivery) :
    Called cfg b ahead s sample delivery (maybe cfg b ahead s sample delivery) := by
  have hbody := posts_beaconBody hb sample
  unfold maybe
  by_cases hc : JobCancellation.isCancelled s.cancelledJobId b.jobId = true
  · rw [if_pos hc]
    exact .stopped hc
  · rw [if_neg hc]
    by_cases hearly : s.clock ahead - s.last < b.intervalMs
    · rw [if_pos hearly]
      apply Called.early
      unfold Site.due
      omega
    · have hdue : s.due b ahead := Nat.le_of_not_lt hearly
      rw [if_neg hearly, postResults_posts cfg s hbody]
      cases delivery with
      | lost => exact .lost hdue
      | unanswered =>
          simp only [← step_posts cfg s hbody]
          exact .unheard hdue
      | answered =>
          simp only [leaseRenewedIn_postBeacon s hbody, ← step_posts cfg s hbody]
          cases hclaim : holdsClaim s.db b.jobId with
          | true => exact .renewed hdue hclaim
          | false => exact .refused hdue hclaim

end Call

/-! ## When a worker is told to stop -/

section Stopped

variable {b}

/-- Nobody has written another job's id. -/
def OwnSlot (b : Beaconer) (s : Site) : Prop :=
  s.cancelledJobId = none ∨ s.cancelledJobId = some b.jobId

/-- No post, the worker's or the loop's, is answered while nobody holds the claim. -/
def HeardClaimed (b : Beaconer) (ahead : Nat) (s : Site) : SiteEvent → Prop
  | .maybe _ .answered => s.due b ahead → holdsClaim s.db b.jobId = true
  | .beaconLoop _ .answered => holdsClaim s.db b.jobId = true
  | _ => True

theorem ownSlot_step (hb : b.Named) {s : Site} (e : SiteEvent) (h : OwnSlot b s) :
    OwnSlot b (s.step cfg b ahead e) := by
  cases e with
  | collector req => exact h
  | beaconLoop sample delivery =>
      have hloop := looped cfg hb s sample delivery
      simp only [Site.step]
      generalize beaconLoop cfg b s sample delivery = s' at hloop
      cases hloop with
      | lost => exact h
      | unheard => exact h
      | renewed hclaim => exact h
      | refused hclaim => exact Or.inr rfl
  | maybe sample delivery =>
      have hcall := called cfg ahead hb s sample delivery
      simp only [Site.step]
      generalize maybe cfg b ahead s sample delivery = s' at hcall
      cases hcall with
      | stopped hstopped => exact h
      | early hearly => exact h
      | lost hdue => exact h
      | unheard hdue => exact h
      | renewed hdue hclaim => exact h
      | refused hdue hclaim => exact Or.inr rfl

/-- An empty slot is written by one thing only. -/
theorem slot_step_iff (hb : b.Named) {s : Site} (e : SiteEvent) (hnone : s.cancelledJobId = none) :
    (s.step cfg b ahead e).cancelledJobId = none ↔ HeardClaimed b ahead s e := by
  cases e with
  | collector req => exact iff_of_true hnone trivial
  | beaconLoop sample delivery =>
      have hloop := looped cfg hb s sample delivery
      simp only [Site.step]
      generalize beaconLoop cfg b s sample delivery = s' at hloop
      cases hloop with
      | lost => exact iff_of_true hnone trivial
      | unheard => exact iff_of_true hnone trivial
      | renewed hclaim => exact iff_of_true hnone hclaim
      | refused hclaim => simp [HeardClaimed, hclaim]
  | maybe sample delivery =>
      have hcall := called cfg ahead hb s sample delivery
      simp only [Site.step]
      generalize maybe cfg b ahead s sample delivery = s' at hcall
      cases hcall with
      | stopped hstopped =>
          rw [hnone] at hstopped
          cases hstopped
      | early hearly =>
          refine iff_of_true hnone ?_
          cases delivery with
          | answered => exact fun hdue => absurd hdue hearly
          | lost => trivial
          | unanswered => trivial
      | lost hdue => exact iff_of_true hnone trivial
      | unheard hdue => exact iff_of_true hnone trivial
      | renewed hdue hclaim => exact iff_of_true hnone fun _ => hclaim
      | refused hdue hclaim =>
          apply iff_of_false
          · simp [Site.answer]
          · intro hheard
            exact absurd (hclaim.symm.trans (hheard hdue)) (by simp)

/-- While the job runs, the slot is not emptied again. -/
theorem slot_kept (hb : b.Named) (s : Site) (e : SiteEvent) (h : s.cancelledJobId = some b.jobId) :
    (s.step cfg b ahead e).cancelledJobId = some b.jobId := by
  cases e with
  | collector req => exact h
  | beaconLoop sample delivery =>
      have hloop := looped cfg hb s sample delivery
      simp only [Site.step]
      generalize beaconLoop cfg b s sample delivery = s' at hloop
      cases hloop <;> first | exact h | rfl
  | maybe sample delivery =>
      have hcall := called cfg ahead hb s sample delivery
      simp only [Site.step]
      generalize maybe cfg b ahead s sample delivery = s' at hcall
      cases hcall <;> first | exact h | rfl

/-- A call returns whether the slot is empty behind it. -/
theorem returned_maybe (hb : b.Named) {s : Site} (h : OwnSlot b s) (sample : Json)
    (delivery : Delivery) :
    (s.step cfg b ahead (.maybe sample delivery)).returned = s.returned ++
      [(s.step cfg b ahead (.maybe sample delivery)).cancelledJobId.isNone] := by
  simp only [Site.step]
  rcases h with hnone | hset
  · have hcall := called cfg ahead hb s sample delivery
    generalize maybe cfg b ahead s sample delivery = s' at hcall
    cases hcall with
    | stopped hstopped =>
        rw [hnone] at hstopped
        cases hstopped
    | early hearly => simp [Site.answer, hnone]
    | lost hdue => simp [Site.answer, hnone]
    | unheard hdue => simp [Site.answer, Site.seen, hnone]
    | renewed hdue hclaim => simp [Site.answer, Site.seen, hnone]
    | refused hdue hclaim => simp [Site.answer, Site.seen]
  · have hcancelled : JobCancellation.isCancelled s.cancelledJobId b.jobId = true := by
      simp [JobCancellation.isCancelled, hset]
    unfold maybe
    rw [if_pos hcancelled]
    simp [Site.answer, hset]

/-- The slot stays empty while no answered post meets a job without a claim. -/
theorem slot_iff (hb : b.Named) (db : Db) (events : List SiteEvent) :
    (run (Site.step cfg b ahead) (.start ahead db) events).cancelledJobId = none ↔
      Along (Site.step cfg b ahead) (HeardClaimed b ahead) (.start ahead db) events := by
  have hall := steps_iff (fun s e h => ownSlot_step cfg ahead hb e h)
    (P := fun s => s.cancelledJobId = none)
    (fun s e _ hnone => slot_step_iff cfg ahead hb e hnone) (s := .start ahead db) (Or.inl rfl) rfl
    events
  rw [← hall]
  constructor
  · rintro hend past ⟨rest, rfl⟩
    have hslot := invariant_all (fun s e h => ownSlot_step cfg ahead hb e h)
      (s := .start ahead db) (Or.inl rfl) past
    rcases hslot with hnone | hset
    · exact hnone
    · have hkept := invariant_all (fun s e h => slot_kept cfg ahead hb s e h) hset rest
      rw [run_append, hkept] at hend
      cases hend
  · exact fun h => h events List.prefix_rfl

/-- Whatever is lost on the way, a call tells the worker to stop exactly when the collector has
answered a beacon of the job, the worker's or the loop's, while nobody held the claim. -/
theorem keeps_working_iff (cfg : Config) {b : Beaconer} (hb : b.Named) (ahead : Nat) (db : Db)
    (events : List SiteEvent) (sample : Json) (delivery : Delivery) :
    (run (Site.step cfg b ahead) (.start ahead db)
        (events ++ [.maybe sample delivery])).returned.getLast? = some true ↔
      Along (Site.step cfg b ahead) (HeardClaimed b ahead) (.start ahead db)
        (events ++ [.maybe sample delivery]) := by
  have hslot := invariant_all (fun s e h => ownSlot_step cfg ahead hb e h)
    (s := .start ahead db) (Or.inl rfl) events
  rw [← slot_iff cfg ahead hb, run_concat, returned_maybe cfg ahead hb hslot,
    List.getLast?_concat, Option.some.injEq, Option.isNone_iff_eq_none]

/-- A post that gets lost stops nobody, not even once the claim has gone; the loop hears of it, and
the next call stops the worker. -/
theorem keeps_working_lost :
    let reqs : List Request := [.enqueue (Sample.job "a" [] []),
      .register (Sample.registration "m" []) none, .nextJob "m"]
    let b : Beaconer := { jobId := "a", deviceId := "m", intervalMs := 30000 }
    let events : List SiteEvent := [.beaconLoop .null .answered, .collector (.tick 30000),
      .maybe .null .answered, .collector (.cancel "a" "no longer needed"),
      .collector (.tick 30000)]
    let site := run (Site.step .plain b 0) (.start 0 (after .plain reqs))
    holdsClaim (after .plain reqs) "a" = true ∧
      (site (events ++ [.maybe .null .lost])).returned.getLast? = some true ∧
      (site (events ++ [.beaconLoop .null .answered] ++ [.maybe .null .lost])).returned.getLast? ≠
        some true := by
  intro reqs b events site
  have hb : b.Named := ⟨by decide, by decide⟩
  refine ⟨by decide +kernel, ?_, ?_⟩
  · apply (keeps_working_iff .plain hb 0 (after .plain reqs) events .null .lost).mpr
    simp only [events, List.cons_append, List.nil_append, along_cons, along_nil, HeardClaimed,
      and_true, true_and]
    exact ⟨by decide +kernel, fun _ => by decide +kernel⟩
  · rw [ne_eq, keeps_working_iff .plain hb 0 (after .plain reqs)]
    simp only [events, List.cons_append, List.nil_append, along_cons, along_nil, HeardClaimed,
      and_true, true_and]
    rintro ⟨-, -, hclaim⟩
    revert hclaim
    decide +kernel

end Stopped

/-! ## Keeping the claim -/

section Kept

variable {cfg b ahead} {r : Job} {g k : Nat}

/-- The worker calls every `g` milliseconds at least, no more than `k` posts in a row get
lost, and nobody ends the claim. -/
structure Attended (b : Beaconer) (ahead g k : Nat) (s : Site) (e : SiteEvent) : Prop where
  gap : s.clock ahead ≤ s.called + g
  missed : s.missed ≤ k
  quiet : ∀ req, e = .collector req → ¬ClosesClaim b.jobId req

/-- The claim of a worker at work. Each lost post uses up one interval of its lease. -/
structure AtWork (b : Beaconer) (ahead g k : Nat) (r : Job) (s : Site) : Prop where
  claim : ∃ r' deadline, s.db.job? b.jobId = some r' ∧ KeepsClaim r r' ∧
    r'.lease_deadline = some deadline ∧
    s.last + (k + 1 - s.missed) * (b.intervalMs + g) < deadline * 1000 + ahead
  posted : s.last ≤ s.clock ahead
  near : s.called ≤ s.last + b.intervalMs
  running : s.cancelledJobId = none
  heard : false ∉ s.returned

theorem AtWork.holdsClaim {s : Site} (h : AtWork b ahead g k r s) :
    holdsClaim s.db b.jobId = true := by
  obtain ⟨r', _, hrow, hkept, -⟩ := h.claim
  simp [Machine.holdsClaim, hrow, hkept.status]

/-- A lease just renewed outlasts `k + 1` intervals from any post before. -/
theorem fresh_lease (httl : (k + 1) * (b.intervalMs + g) + 1000 ≤ r.lease_ttl_s * 1000)
    (db : Db) {last : Nat} (hposted : last ≤ db.now + ahead) (missed : Nat) :
    last + (k + 1 - missed) * (b.intervalMs + g) <
      (db.sqlNow + r.lease_ttl_s) * 1000 + ahead := by
  have hle : (k + 1 - missed) * (b.intervalMs + g) ≤ (k + 1) * (b.intervalMs + g) :=
    Nat.mul_le_mul_right _ (Nat.sub_le _ _)
  have hsecond : db.now < db.now / 1000 * 1000 + 1000 := by omega
  unfold Db.sqlNow
  rw [Nat.add_mul]
  omega

/-- A sweep comes before the lease ends. -/
theorem AtWork.lease {s : Site} (h : AtWork b ahead g k r s) (hgap : s.clock ahead ≤ s.called + g)
    (hmissed : s.missed ≤ k) : ∃ r', s.db.job? b.jobId = some r' ∧ KeepsClaim r r' ∧
      leaseLapsed s.db.sqlNow r' = false := by
  obtain ⟨r', deadline, hrow, hkept, hdeadline, hroom⟩ := h.claim
  refine ⟨r', hrow, hkept, ?_⟩
  have hone : 1 * (b.intervalMs + g) ≤ (k + 1 - s.missed) * (b.intervalMs + g) :=
    Nat.mul_le_mul_right _ (by omega)
  have hnear := h.near
  have hlate : s.db.now < deadline * 1000 := by
    unfold Site.clock at hgap
    omega
  have hsql : ¬deadline ≤ s.db.sqlNow := by
    unfold Db.sqlNow
    omega
  simp [leaseLapsed, hdeadline, hsql]

/-- What the others do to a worker's claim. -/
theorem AtWork.collector {s : Site} {req : Request} (h : AtWork b ahead g k r s)
    (httl : (k + 1) * (b.intervalMs + g) + 1000 ≤ r.lease_ttl_s * 1000)
    (hgap : s.clock ahead ≤ s.called + g) (hmissed : s.missed ≤ k)
    (hquiet : ¬ClosesClaim b.jobId req) :
    AtWork b ahead g k r (s.step cfg b ahead (.collector req)) := by
  obtain ⟨r₁, hrow₁, hkept₁, hlease⟩ := h.lease hgap hmissed
  obtain ⟨r', deadline, hrow, hkept, hdeadline, hroom⟩ := h.claim
  obtain rfl : r' = r₁ := Option.some.inj (hrow.symm.trans hrow₁)
  obtain ⟨r₂, hrow₂, hkept₂, hnew⟩ :=
    keepsClaim_step cfg hrow hkept.status hquiet (fun _ => hlease)
  refine ⟨?_, ?_, h.near, h.running, h.heard⟩
  · refine ⟨r₂, ?_⟩
    rcases hnew with hsame | hfresh
    · exact ⟨deadline, hrow₂, hkept.trans hkept₂, hsame.trans hdeadline, hroom⟩
    · have hlate := fresh_lease httl s.db h.posted s.missed
      rw [← hkept.lease_ttl_s] at hlate
      exact ⟨_, hrow₂, hkept.trans hkept₂, hfresh, hlate⟩
  · have hnow := now_step_le cfg s.db req
    exact h.posted.trans (Nat.add_le_add_right hnow ahead)

/-- A post the collector saw renews the claim, for `k + 1` intervals from any post before. -/
theorem AtWork.renewed {s : Site} {body : Json} (h : AtWork b ahead g k r s)
    (hbody : b.Posts body) (httl : (k + 1) * (b.intervalMs + g) + 1000 ≤ r.lease_ttl_s * 1000)
    {last : Nat} (hposted : last ≤ s.clock ahead) (missed : Nat) :
    ∃ r' deadline, (FleetRunner.step cfg s.db (.results body)).job? b.jobId = some r' ∧
      KeepsClaim r r' ∧ r'.lease_deadline = some deadline ∧
      last + (k + 1 - missed) * (b.intervalMs + g) < deadline * 1000 + ahead := by
  obtain ⟨r', deadline, hrow, hkept, hdeadline, hroom⟩ := h.claim
  have hrow' := job?_step_posts cfg s hbody
  rw [hrow, Option.map_some] at hrow'
  have hkept' := keepsClaim_renewRow hkept.status s.db.sqlNow
  refine ⟨_, s.db.sqlNow + r'.lease_ttl_s, hrow', hkept.trans hkept', ?_, ?_⟩
  · unfold renewRow
    rw [if_pos hkept.status]
  · rw [hkept.lease_ttl_s]
    exact fresh_lease httl s.db hposted missed

/-- What the agent's loop does to a worker's claim. -/
theorem AtWork.beaconLoop {s : Site} (h : AtWork b ahead g k r s) (hb : b.Named)
    (httl : (k + 1) * (b.intervalMs + g) + 1000 ≤ r.lease_ttl_s * 1000) (sample : Json)
    (delivery : Delivery) :
    AtWork b ahead g k r (s.step cfg b ahead (.beaconLoop sample delivery)) := by
  have hbody := posts_loopBody hb sample
  have hseen : AtWork b ahead g k r
      { s with db := FleetRunner.step cfg s.db (.results (loopBody b sample)) } := by
    refine ⟨h.renewed hbody httl h.posted s.missed, ?_, h.near, h.running, h.heard⟩
    simp only [Site.clock, now_step_posts cfg s hbody]
    exact h.posted
  have hloop := looped cfg hb s sample delivery
  simp only [Site.step]
  generalize Machine.beaconLoop cfg b s sample delivery = s' at hloop
  cases hloop with
  | lost => exact h
  | unheard => exact hseen
  | renewed hclaim => exact hseen
  | refused hclaim => exact absurd (hclaim.symm.trans h.holdsClaim) (by simp)

/-- What a post of the worker's own does to it. -/
theorem AtWork.seen {s : Site} (h : AtWork b ahead g k r s) (hb : b.Named)
    (httl : (k + 1) * (b.intervalMs + g) + 1000 ≤ r.lease_ttl_s * 1000) (sample : Json) :
    AtWork b ahead g k r ((s.seen cfg b ahead sample).answer ahead true) := by
  have hbody := posts_beaconBody hb sample
  have hnow : (FleetRunner.step cfg s.db (.results (beaconBody b sample))).now = s.db.now :=
    now_step_posts cfg s hbody
  refine ⟨h.renewed hbody httl (Nat.le_refl _) 0, ?_, ?_, h.running, ?_⟩
  · simp only [Site.answer, Site.seen, Site.clock, hnow]
    exact Nat.le_refl _
  · simp only [Site.answer, Site.seen, Site.clock, hnow]
    omega
  · simp [Site.answer, Site.seen, h.heard]

/-- What a call does to a worker's claim. -/
theorem AtWork.maybe {s : Site} (h : AtWork b ahead g k r s) (hb : b.Named)
    (httl : (k + 1) * (b.intervalMs + g) + 1000 ≤ r.lease_ttl_s * 1000)
    (hgap : s.clock ahead ≤ s.called + g) (hmissed : s.missed ≤ k) (sample : Json)
    (delivery : Delivery) :
    AtWork b ahead g k r (s.step cfg b ahead (.maybe sample delivery)) := by
  have hcall := called cfg ahead hb s sample delivery
  have hposted := h.posted
  have hnear := h.near
  simp only [Site.step]
  generalize Machine.maybe cfg b ahead s sample delivery = s' at hcall
  cases hcall with
  | stopped hstopped =>
      rw [h.running] at hstopped
      cases hstopped
  | early hearly =>
      refine ⟨h.claim, h.posted, ?_, h.running, ?_⟩
      · unfold Site.due at hearly
        simp only [Site.answer]
        omega
      · simp [Site.answer, h.heard]
  | lost hdue =>
      obtain ⟨r', deadline, hrow, hkept, hdeadline, hroom⟩ := h.claim
      refine ⟨⟨r', deadline, hrow, hkept, hdeadline, ?_⟩, Nat.le_refl _, Nat.le_add_right _ _,
        h.running, ?_⟩
      · have hone : k + 1 - s.missed = (k + 1 - (s.missed + 1)) + 1 := by omega
        rw [hone, Nat.add_mul] at hroom
        simp only [Site.answer]
        omega
      · simp [Site.answer, h.heard]
  | unheard hdue => exact h.seen hb httl sample
  | renewed hdue hclaim => exact h.seen hb httl sample
  | refused hdue hclaim => exact absurd (hclaim.symm.trans h.holdsClaim) (by simp)

theorem AtWork.step {s : Site} {e : SiteEvent} (h : AtWork b ahead g k r s) (hb : b.Named)
    (httl : (k + 1) * (b.intervalMs + g) + 1000 ≤ r.lease_ttl_s * 1000)
    (hok : Attended b ahead g k s e) : AtWork b ahead g k r (s.step cfg b ahead e) := by
  cases e with
  | collector req => exact h.collector httl hok.gap hok.missed (hok.quiet req rfl)
  | beaconLoop sample delivery => exact h.beaconLoop hb httl sample delivery
  | maybe sample delivery => exact h.maybe hb httl hok.gap hok.missed sample delivery

/-- A worker that calls often enough keeps its job, with up to `k` posts lost in a row, whatever
the others send that does not end the claim; and it is never told to stop. -/
theorem lease_kept (cfg : Config) {b : Beaconer} (ahead : Nat) {g k : Nat} {db : Db} {r : Job}
    {deadline : Nat} (hb : b.Named) (hrow : db.job? b.jobId = some r) (hc : r.status = .claimed)
    (hdeadline : r.lease_deadline = some deadline)
    (hroom : db.now + (k + 1) * (b.intervalMs + g) < deadline * 1000)
    (httl : (k + 1) * (b.intervalMs + g) + 1000 ≤ r.lease_ttl_s * 1000)
    {events : List SiteEvent}
    (hok : Along (Site.step cfg b ahead) (Attended b ahead g k) (.start ahead db) events) :
    (∃ r', (run (Site.step cfg b ahead) (.start ahead db) events).db.job? b.jobId = some r' ∧
        KeepsClaim r r') ∧
      false ∉ (run (Site.step cfg b ahead) (.start ahead db) events).returned := by
  have hstart : AtWork b ahead g k r (.start ahead db) := by
    refine ⟨⟨r, deadline, hrow, .refl hc, hdeadline, ?_⟩, Nat.le_refl _, Nat.le_add_right _ _,
      rfl, ?_⟩
    · simp only [Site.start, Nat.sub_zero]
      omega
    · simp [Site.start]
  have hend := invariant (fun s e h hok => AtWork.step h hb httl hok) hstart hok
  obtain ⟨r', _, hrow', hkept, -⟩ := hend.claim
  exact ⟨⟨r', hrow', hkept⟩, hend.heard⟩

/-- A post lost on the way, a sweep, and the next post heard. -/
theorem lease_kept_lost :
    let reqs : List Request := [.enqueue (Sample.hostJob "a" []), .executorNextJob "mac"]
    let b : Beaconer := { jobId := "a", deviceId := "m", intervalMs := 30000 }
    let events : List SiteEvent := [.collector (.tick 31000), .maybe .null .lost,
      .collector (.tick 31000), .collector .sweep, .maybe .null .answered]
    (∃ r', (run (Site.step .plain b 0) (.start 0 (after .plain reqs)) events).db.job? "a" =
      some r' ∧ r'.status = .claimed) ∧
    false ∉ (run (Site.step .plain b 0) (.start 0 (after .plain reqs)) events).returned := by
  intro reqs b events
  obtain ⟨hrow, hnow⟩ : ((after .plain reqs).job? "a").any (fun r => decide (r.status = .claimed ∧
      r.lease_ttl_s = 600 ∧ r.lease_deadline = some 600)) = true ∧ (after .plain reqs).now = 0 := by
    decide +kernel
  obtain ⟨r, hr, hrow⟩ := Db.exists_job_of_any hrow
  obtain ⟨hc, httl, hdeadline⟩ := of_decide_eq_true hrow
  have hb : b.Named := ⟨by decide, by decide⟩
  have hcalls : Along (Site.step .plain b 0)
      (fun s _ => s.clock 0 ≤ s.called + 31000 ∧ s.missed ≤ 1) (.start 0 (after .plain reqs))
      events := by
    decide +kernel
  have hok : Along (Site.step .plain b 0) (Attended b 0 31000 1) (.start 0 (after .plain reqs))
      events := by
    have hquiet : ∀ e ∈ events, ∀ req, e = .collector req → ¬ClosesClaim "a" req := by
      simp [events, ClosesClaim]
    obtain ⟨h₁, h₂, h₃, h₄, h₅, -⟩ := hcalls
    exact ⟨⟨h₁.1, h₁.2, hquiet _ (by simp [events])⟩, ⟨h₂.1, h₂.2, hquiet _ (by simp [events])⟩,
      ⟨h₃.1, h₃.2, hquiet _ (by simp [events])⟩, ⟨h₄.1, h₄.2, hquiet _ (by simp [events])⟩,
      ⟨h₅.1, h₅.2, hquiet _ (by simp [events])⟩, trivial⟩
  obtain ⟨⟨r', hr', hkept⟩, hheard⟩ := lease_kept .plain 0 hb hr hc hdeadline
    (by rw [hnow]; decide) (by rw [httl]; decide) hok
  exact ⟨⟨r', hr', hkept.status⟩, hheard⟩

end Kept

end FleetRunner.Machine
