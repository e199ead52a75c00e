import FleetRunner.Library.Runs
import FleetRunner.Library.Table
import FleetRunner.Library.Window

/-!
# How often a caller may call (`http.ts`, `protocol.ts`)

The gateway counts the tool calls of each person in a sliding minute, and their
`fleet_run` calls in a sliding hour besides. A call that is refused for its
scope is not counted; a `fleet_run` past its hourly limit has already been
counted as a call.

## Implementation notes

The clock counts milliseconds and does not go back.
-/

namespace FleetRunner.Gateway

open Library Window

/-! ## The limiter -/

/-- The calls of a key. -/
structure Hits where
  key : String
  times : List Nat

/-- The calls by key. -/
structure Limiter where
  hits : Table Hits.key

def Limiter.empty : Limiter := ⟨.empty⟩

/-- The calls of a key that are still kept. -/
def Limiter.times (l : Limiter) (key : String) : List Nat :=
  ((l.hits.find? key).map Hits.times).getD []

/-- Keys whose hits have all left the window, once there are many keys. -/
def Limiter.prune (l : Limiter) (windowMs now : Nat) : Limiter :=
  if 10000 < l.hits.rows.length then
    ⟨l.hits.deleteWhere fun h => !h.times.any fun t => decide (now - t < windowMs)⟩
  else l

/-- Takes a call if the window has room for it. -/
def Limiter.take (l : Limiter) (key : String) (max windowMs now : Nat) : Bool × Limiter :=
  let recent := recent windowMs now (l.times key)
  if max ≤ recent.length then (false, ⟨l.hits.upsert ⟨key, recent⟩⟩)
  else (true, Limiter.prune ⟨l.hits.upsert ⟨key, recent ++ [now]⟩⟩ windowMs now)

/-! ## A tool call -/

/-- What a person may do. -/
inductive Scope where
  | read
  | run
  deriving DecidableEq

/-- How many calls and runs are allowed. -/
structure Limits where
  callsPerMinute : Nat
  runsPerHour : Nat

/-- A tool and the scope it needs. -/
structure Tool where
  name : String
  needs : Scope

/-- Who is calling. -/
structure Principal where
  subject : String
  scopes : List Scope

/-- What becomes of a call. -/
inductive Outcome where
  | noScope
  | tooManyCalls
  | tooManyRuns
  | admitted
  deriving DecidableEq

/-- A call, as the log has it. -/
structure Call where
  at_ : Nat
  subject : String
  tool : Tool
  outcome : Outcome

/-- The limiters, the clock and all calls so far. -/
structure Sessions where
  now : Nat
  calls : Limiter
  runs : Limiter
  /-- All calls so far. -/
  log : List Call

def Sessions.start : Sessions := { now := 0, calls := .empty, runs := .empty, log := [] }

def Tool.isRun (tool : Tool) : Bool := decide (tool.name = "fleet_run")

/-- `allowed`, then `admit`. -/
def Sessions.admits (cfg : Limits) (s : Sessions) (p : Principal) (tool : Tool) :
    Outcome × Sessions :=
  if tool.needs ∉ p.scopes then (.noScope, s)
  else
    let (counted, calls) := s.calls.take p.subject cfg.callsPerMinute 60000 s.now
    if !counted then (.tooManyCalls, { s with calls })
    else if tool.isRun then
      let (counted, runs) := s.runs.take p.subject cfg.runsPerHour 3600000 s.now
      (if counted then .admitted else .tooManyRuns, { s with calls, runs })
    else (.admitted, { s with calls })

/-- Time passes or somebody calls. -/
inductive Step where
  | tick (ms : Nat)
  | call (p : Principal) (tool : Tool)

/-- One step. -/
def Sessions.step (cfg : Limits) (s : Sessions) : Step → Sessions
  | .tick ms => { s with now := s.now + ms }
  | .call p tool =>
    let (outcome, s') := s.admits cfg p tool
    { s' with log := s.log ++ [{ at_ := s.now, subject := p.subject, tool, outcome }] }

/-! ## What the limiter keeps -/

section Kept

variable {l : Limiter} {window max now : Nat}

/-- The limiter goes by the times of what it let through, as long as they count. -/
structure Tracks (l : Limiter) (window max now : Nat) (passed : String → List Nat) : Prop where
  same : ∀ key, recent window now (l.times key) = recent window now (passed key)
  paced : ∀ key, Paced window max (passed key)
  ordered : ∀ key, (passed key).Pairwise (· ≤ ·)
  past : ∀ key, ∀ t ∈ passed key, t ≤ now

theorem times_upsert (h : Hits) (key : String) :
    Limiter.times ⟨l.hits.upsert h⟩ key = if h.key = key then h.times else l.times key := by
  unfold Limiter.times
  rw [Table.find?_upsert]
  split <;> rfl

/-- Nothing that counts is pruned. -/
theorem recent_prune (key : String) :
    recent window now ((l.prune window now).times key) = recent window now (l.times key) := by
  unfold Limiter.prune
  split
  · unfold Limiter.times
    rw [Table.find?_deleteWhere]
    cases hfound : l.hits.find? key with
    | none => rfl
    | some h =>
        by_cases hlive : h.times.any (fun t => decide (now - t < window)) = true
        · simp [Option.filter, hlive]
        · have hnone : recent window now h.times = [] := by
            unfold recent
            rw [List.filter_eq_nil_iff]
            intro t ht hcounts
            exact hlive (List.any_eq_true.mpr ⟨t, ht, hcounts⟩)
          rw [Bool.not_eq_true] at hlive
          simp [Option.filter, hlive, hnone]
  · rfl

/-- One more passed for one key. -/
def passing (passed : String → List Nat) (key : String) (now : Nat) (counted : Bool) :
    String → List Nat :=
  fun k => if counted ∧ k = key then passed k ++ [now] else passed k

variable {passed : String → List Nat}

theorem Tracks.later (h : Tracks l window max now passed) {later : Nat} (hle : now ≤ later) :
    Tracks l window max later passed where
  same key := by
    rw [← recent_recent hle, h.same key, recent_recent hle]
  paced := h.paced
  ordered := h.ordered
  past key t ht := Nat.le_trans (h.past key t ht) hle

theorem recent_concat_now (hwindow : 0 < window) (times : List Nat) :
    recent window now (times ++ [now]) = recent window now times ++ [now] := by
  simp [recent, hwindow]

/-- What one question of the limiter does: it says yes exactly while fewer than `max` count. -/
theorem take_spec (h : Tracks l window max now passed) (hwindow : 0 < window) (key : String) :
    (l.take key max window now).1 = decide ((recent window now (passed key)).length < max) ∧
      Tracks (l.take key max window now).2 window max now
        (passing passed key now (l.take key max window now).1) := by
  have hsame := h.same key
  by_cases hroom : max ≤ (recent window now (l.times key)).length
  · have htake : l.take key max window now =
        (false, ⟨l.hits.upsert ⟨key, recent window now (l.times key)⟩⟩) := if_pos hroom
    rw [htake]
    rw [hsame] at hroom
    refine ⟨(decide_eq_false (Nat.not_lt.mpr hroom)).symm, ⟨?_, ?_, ?_, ?_⟩⟩
    · intro k
      rw [times_upsert]
      split
      · rename_i hk
        subst hk
        simp only [passing, Bool.false_eq_true, false_and, if_false]
        rw [recent_recent (Nat.le_refl now)]
        exact hsame
      · simpa [passing] using h.same k
    · simpa [passing] using h.paced
    · simpa [passing] using h.ordered
    · simpa [passing] using h.past
  · have htake : l.take key max window now = (true,
        Limiter.prune ⟨l.hits.upsert ⟨key, recent window now (l.times key) ++ [now]⟩⟩ window now) :=
      if_neg hroom
    rw [htake]
    rw [hsame, Nat.not_le] at hroom
    refine ⟨(decide_eq_true hroom).symm, ⟨?_, ?_, ?_, ?_⟩⟩
    · intro k
      rw [recent_prune, times_upsert]
      split
      · rename_i hk
        subst hk
        simp only [passing, true_and, if_true]
        rw [recent_concat_now hwindow, recent_concat_now hwindow, recent_recent (Nat.le_refl now),
          hsame]
      · rename_i hk
        have hne : ¬k = key := fun heq => hk heq.symm
        simpa [passing, hne] using h.same k
    · intro k
      by_cases hk : k = key
      · subst hk
        simpa [passing] using (h.paced k).concat hroom
      · simpa [passing, hk] using h.paced k
    · intro k
      by_cases hk : k = key
      · subst hk
        simp only [passing, and_self, if_true]
        refine List.pairwise_append.mpr ⟨h.ordered k, List.pairwise_singleton _ _, ?_⟩
        intro t ht s hs
        rw [List.mem_singleton.mp hs]
        exact h.past k t ht
      · simpa [passing, hk] using h.ordered k
    · intro k t ht
      by_cases hk : k = key
      · subst hk
        simp only [passing, and_self, if_true] at ht
        rcases List.mem_append.mp ht with ht | ht
        · exact h.past k t ht
        · exact Nat.le_of_eq (List.mem_singleton.mp ht)
      · exact h.past k t (by simpa [passing, hk] using ht)

end Kept

/-! ## Over every run -/

/-- The calls of a person that were counted in the minute. -/
def Call.counted (c : Call) (subject : String) : Bool :=
  decide (c.subject = subject ∧ (c.outcome = .tooManyRuns ∨ c.outcome = .admitted))

/-- The `fleet_run` calls of a person that went through. -/
def Call.ran (c : Call) (subject : String) : Bool :=
  decide (c.subject = subject ∧ c.outcome = .admitted) && c.tool.isRun

/-- When this person's counted calls were. -/
def Sessions.countedAt (s : Sessions) (subject : String) : List Nat :=
  (s.log.filter fun c => c.counted subject).map Call.at_

/-- When this person's runs were. -/
def Sessions.ranAt (s : Sessions) (subject : String) : List Nat :=
  (s.log.filter fun c => c.ran subject).map Call.at_

/-- Both limiters hold what the log has. -/
structure Counts (cfg : Limits) (s : Sessions) : Prop where
  calls : Tracks s.calls 60000 cfg.callsPerMinute s.now s.countedAt
  runs : Tracks s.runs 3600000 cfg.runsPerHour s.now s.ranAt

theorem counts_start (cfg : Limits) : Counts cfg .start := by
  have hnone : ∀ window max, Tracks Limiter.empty window max 0 fun _ => [] := by
    intro window max
    refine ⟨fun _ => rfl, ?_, fun _ => List.Pairwise.nil, by simp⟩
    intro _ past t later heq
    simp at heq
  exact ⟨hnone _ _, hnone _ _⟩

section Step

variable {cfg : Limits} {s : Sessions}

theorem tick_counts (h : Counts cfg s) (ms : Nat) : Counts cfg (s.step cfg (.tick ms)) :=
  ⟨h.calls.later (Nat.le_add_right _ _), h.runs.later (Nat.le_add_right _ _)⟩

/-- The log after one more call. -/
theorem countedAt_concat (s : Sessions) (c : Call) (subject : String) :
    Sessions.countedAt { s with log := s.log ++ [c] } subject =
      if c.counted subject then s.countedAt subject ++ [c.at_] else s.countedAt subject := by
  unfold Sessions.countedAt
  rw [List.filter_append]
  split
  · rename_i hc
    simp [hc]
  · rename_i hc
    simp [hc]

theorem ranAt_concat (s : Sessions) (c : Call) (subject : String) :
    Sessions.ranAt { s with log := s.log ++ [c] } subject =
      if c.ran subject then s.ranAt subject ++ [c.at_] else s.ranAt subject := by
  unfold Sessions.ranAt
  rw [List.filter_append]
  split
  · rename_i hc
    simp [hc]
  · rename_i hc
    simp [hc]

theorem counted_of_ne {c : Call} {subject : String} (h : subject ≠ c.subject) :
    c.counted subject = false := by
  simp [Call.counted, Ne.symm h]

theorem ran_of_ne {c : Call} {subject : String} (h : subject ≠ c.subject) :
    c.ran subject = false := by
  simp [Call.ran, Ne.symm h]

/-- A call logged as the limiters counted it. -/
theorem Counts.logged {calls runs : Limiter} {c : Call} (hat : c.at_ = s.now)
    (hcalls : Tracks calls 60000 cfg.callsPerMinute s.now
      (passing s.countedAt c.subject s.now (c.counted c.subject)))
    (hruns : Tracks runs 3600000 cfg.runsPerHour s.now
      (passing s.ranAt c.subject s.now (c.ran c.subject))) :
    Counts cfg { s with calls, runs, log := s.log ++ [c] } := by
  have hcounted : Sessions.countedAt { s with log := s.log ++ [c] } =
      passing s.countedAt c.subject s.now (c.counted c.subject) := by
    funext subject
    rw [countedAt_concat, hat]
    by_cases hsubject : subject = c.subject
    · simp [passing, hsubject]
    · simp [passing, hsubject, counted_of_ne hsubject]
  have hran : Sessions.ranAt { s with log := s.log ++ [c] } =
      passing s.ranAt c.subject s.now (c.ran c.subject) := by
    funext subject
    rw [ranAt_concat, hat]
    by_cases hsubject : subject = c.subject
    · simp [passing, hsubject]
    · simp [passing, hsubject, ran_of_ne hsubject]
  exact ⟨hcounted ▸ hcalls, hran ▸ hruns⟩

theorem passing_false (passed : String → List Nat) (key : String) (now : Nat) :
    passing passed key now false = passed := by
  funext k
  simp [passing]

/-- What becomes of a call, and how it is counted. -/
theorem counts_admits (h : Counts cfg s) (p : Principal) (tool : Tool) :
    ((s.admits cfg p tool).1 = .admitted ↔ tool.needs ∈ p.scopes ∧
      (recent 60000 s.now (s.countedAt p.subject)).length < cfg.callsPerMinute ∧
      (tool.isRun = true →
        (recent 3600000 s.now (s.ranAt p.subject)).length < cfg.runsPerHour)) ∧
      Counts cfg (s.step cfg (.call p tool)) := by
  obtain ⟨hcalls, hcalls'⟩ := take_spec h.calls (by decide) p.subject
  obtain ⟨hruns, hruns'⟩ := take_spec h.runs (by decide) p.subject
  have hcallsSame := h.calls
  have hrunsSame := h.runs
  rw [← passing_false s.countedAt p.subject s.now] at hcallsSame
  rw [← passing_false s.ranAt p.subject s.now] at hrunsSame
  simp only [Sessions.step, Sessions.admits]
  generalize s.calls.take p.subject cfg.callsPerMinute 60000 s.now = calls at hcalls hcalls'
  generalize s.runs.take p.subject cfg.runsPerHour 3600000 s.now = runs at hruns hruns'
  obtain ⟨counted, calls⟩ := calls
  obtain ⟨ran, runs⟩ := runs
  simp only at hcalls hruns hcalls' hruns'
  by_cases hscope : tool.needs ∈ p.scopes
  · simp only [hscope, not_true_eq_false, if_false, true_and]
    cases counted with
    | false =>
        have hfull := of_decide_eq_false hcalls.symm
        refine ⟨by simp [hfull], ?_⟩
        exact Counts.logged (s := s) rfl (by simpa [Call.counted] using hcalls')
          (by simpa [Call.ran] using hrunsSame)
    | true =>
        have hroom := of_decide_eq_true hcalls.symm
        by_cases hrun : tool.isRun = true
        · cases ran with
          | false =>
              have hfull := of_decide_eq_false hruns.symm
              refine ⟨by simp [hroom, hrun, hfull], ?_⟩
              simp only [Bool.not_true, Bool.false_eq_true, if_false, hrun, if_true]
              exact Counts.logged (s := s) rfl (by simpa [Call.counted] using hcalls')
                (by simpa [Call.ran] using hruns')
          | true =>
              have hmore := of_decide_eq_true hruns.symm
              refine ⟨by simp [hroom, hrun, hmore], ?_⟩
              simp only [Bool.not_true, Bool.false_eq_true, if_false, hrun, if_true]
              exact Counts.logged (s := s) rfl (by simpa [Call.counted] using hcalls')
                (by simpa [Call.ran, hrun] using hruns')
        · refine ⟨by simp [hroom, hrun], ?_⟩
          simp only [Bool.not_true, Bool.false_eq_true, if_false, hrun]
          exact Counts.logged (s := s) rfl (by simpa [Call.counted] using hcalls')
            (by simpa [Call.ran, hrun] using hrunsSame)
  · simp only [hscope, not_false_eq_true, if_true, false_and]
    refine ⟨by simp, ?_⟩
    exact Counts.logged (s := s) rfl (by simpa [Call.counted] using hcallsSame)
      (by simpa [Call.ran] using hrunsSame)

end Step

theorem counts_run (cfg : Limits) (steps : List Step) :
    Counts cfg (run (Sessions.step cfg) .start steps) := by
  apply invariant_all
  · intro s e h
    cases e with
    | tick ms => exact tick_counts h ms
    | call p tool => exact (counts_admits h p tool).2
  · exact counts_start cfg

/-- How many of the calls so far are of a kind and came at certain times. -/
def Sessions.count (s : Sessions) (kind : Call → Bool) (when_ : Nat → Bool) : Nat :=
  s.log.countP fun c => kind c && when_ c.at_

theorem length_filter_times (log : List Call) (kind : Call → Bool) (when_ : Nat → Bool) :
    (((log.filter kind).map Call.at_).filter when_).length =
      log.countP fun c => kind c && when_ c.at_ := by
  rw [List.filter_map, List.length_map, List.filter_filter, List.countP_eq_length_filter]
  congr 2
  funext c
  exact Bool.and_comm _ _

/-- In no minute does a person make more counted calls than the limit, nor more runs in an hour,
whoever else calls in between; and a call is refused only for its scope or a limit that is
reached. -/
theorem calls_within_limits (cfg : Limits) (steps : List Step) (p : Principal) (tool : Tool)
    (since : Nat) :
    let s := run (Sessions.step cfg) .start steps
    s.count (fun c => c.counted p.subject) (fun t => decide (since ≤ t ∧ t < since + 60000)) ≤
        cfg.callsPerMinute ∧
      s.count (fun c => c.ran p.subject) (fun t => decide (since ≤ t ∧ t < since + 3600000)) ≤
        cfg.runsPerHour ∧
      ((s.admits cfg p tool).1 = .admitted ↔ tool.needs ∈ p.scopes ∧
        s.count (fun c => c.counted p.subject) (fun t => decide (s.now - t < 60000)) <
          cfg.callsPerMinute ∧
        (tool.isRun = true →
          s.count (fun c => c.ran p.subject) (fun t => decide (s.now - t < 3600000)) <
            cfg.runsPerHour)) := by
  intro s
  have h : Counts cfg s := counts_run cfg steps
  refine ⟨?_, ?_, ?_⟩
  · have hle := (h.calls.paced p.subject).length_le (h.calls.ordered p.subject) since
    rwa [Sessions.countedAt, length_filter_times] at hle
  · have hle := (h.runs.paced p.subject).length_le (h.runs.ordered p.subject) since
    rwa [Sessions.ranAt, length_filter_times] at hle
  · have hadmits := (counts_admits h p tool).1
    rwa [recent, recent, Sessions.countedAt, Sessions.ranAt, length_filter_times,
      length_filter_times] at hadmits

end FleetRunner.Gateway
