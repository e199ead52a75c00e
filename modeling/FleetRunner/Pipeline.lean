import FleetRunner.Js.Value
import FleetRunner.Library.Feed
import FleetRunner.Library.Runs
import Mathlib.Data.Int.Order.Basic
import Mathlib.Data.List.Forall2
import Mathlib.Data.Nat.Basic
import Mathlib.Logic.Function.Basic

/-!
# Pipelines over the event table

Anyone may publish to a topic, and a pipeline node is a phone that polls one
topic behind a cursor, runs each event through its model and publishes what
comes out to the topic's `.out` (`PipelineEngine.kt`, `runPipeline` on iOS).
Publishers, nodes and retention share one table, and their steps fall in any
order.

## Implementation notes

Every request is a step of its own. One that reached the collector may still
look to the node like one that did not. What the backend makes of a payload is
data of the step; the text of the prompt is not modelled.
-/

namespace FleetRunner.Pipeline

open Library

/-! ## The event table -/

/-- A row of `events`. -/
structure Event where
  id : Nat
  topic : String
  payload : Json
  /-- In the seconds the table stamps rows with. -/
  created_at : Nat

/-- The collector's events. -/
structure Broker where
  now : Nat
  /-- The last id given. Ids of deleted rows are not given again. -/
  seq : Nat
  events : List Event
  /-- All that was ever published, deleted or not. -/
  published : List Event

/-- The row an insert adds. -/
def Broker.entry (b : Broker) (topic : String) (payload : Json) : Event where
  id := b.seq + 1
  topic
  payload
  created_at := b.now / 1000

/-- An event gets the next id. -/
def Broker.publish (b : Broker) (topic : String) (payload : Json) : Broker :=
  { b with seq := b.seq + 1
           events := b.events ++ [b.entry topic payload]
           published := b.published ++ [b.entry topic payload] }

/-- One look of a long poll. -/
def Broker.poll (b : Broker) (topic : String) (after : Int) : Option Event :=
  b.events.find? fun e => decide (e.topic = topic) && decide (after < e.id)

/-- `POST /api/system/retention`, for the events. -/
def Broker.retain (b : Broker) (cutoff : Nat) : Broker :=
  { b with events := b.events.filter fun e => decide (cutoff < e.created_at) }

/-! ## A node -/

inductive Platform where
  | android
  | ios
  deriving DecidableEq

/-- Android reads an event's id as an `Int`, and one that is not as 0. -/
def Platform.readId : Platform → Nat → Int
  | .android, id => if id ≤ 2147483647 then id else 0
  | .ios, id => id

/-- How a post ends for the node that sent it. -/
inductive Delivery where
  | answered
  /-- The collector never saw it. -/
  | lost (error : String)
  /-- The collector saw it, the node never heard. -/
  | unanswered (error : String)

/-- A result row of a node. -/
structure Row where
  iter : Nat
  final : Bool
  ok : Bool
  error : Option String

/-- Where in its loop a node is. -/
inductive Phase where
  | loading
  /-- At the top of the loop. -/
  | turning
  | polling
  | generating (e : Event)
  | publishing (e : Event) (output : String) (ms : Rat)
  | reporting
  | finishing
  | cancelling
  | failing (error : String)
  | ended

/-- What a node has done so far. -/
structure Progress where
  processed : Nat
  /-- The events its polls returned. -/
  taken : List Event
  /-- The events it published. -/
  outputs : List Event
  /-- The result rows the collector has from it. -/
  rows : List Row

/-- A runner that relays a topic. -/
structure Node extends Progress where
  platform : Platform
  deviceId : String
  topic : Option String
  maxEvents : Int
  maxTokens : Int
  after : Int
  cursor : Int
  phase : Phase

/-- What a node does next, and what comes back to it. -/
inductive Action where
  | load (result : Except String Unit)
  | turn (cancelled : Bool)
  | poll (answer : Except String Unit)
  | generate (backend : Json → Int → Except String String) (ms : Rat)
  | post (delivery : Delivery)

/-- A job's parameters, with the defaults of the phones. -/
def Node.start (platform : Platform) (deviceId : String) (topic : Option String)
    (max_events max_tokens after : Option Int) : Node where
  platform
  deviceId
  topic
  maxEvents := max_events.getD 1
  maxTokens := max_tokens.getD 64
  after := after.getD 0
  cursor := after.getD 0
  processed := 0
  phase := .loading
  taken := []
  outputs := []
  rows := []

namespace Node

variable (n : Node)

def load (result : Except String Unit) : Node :=
  match n.topic, result with
  | none, _ => { n with phase := .failing (match n.platform with
      | .android => "pipeline job needs params.topic"
      | .ios => "pipeline needs model + params.topic") }
  | some _, .error e => { n with phase := .failing e }
  | some _, .ok _ => { n with phase := .turning }

/-- Checked before each poll, so a cancelled node stops within one long poll. -/
def turn (cancelled : Bool) : Node :=
  if (n.processed : Int) < n.maxEvents then
    if cancelled then
      match n.platform with
      | .android => { n with phase := .cancelling }
      | .ios => { n with phase := .failing "cancelled" }
    else { n with phase := .polling }
  else { n with phase := .finishing }

/-- An empty poll is polled again. -/
def found : Option Event → Node
  | none => { n with phase := .turning }
  | some e => { n with cursor := n.platform.readId e.id, phase := .generating e,
                       taken := n.taken ++ [e] }

/-- A poll returns the next event of the topic, or fails. -/
def poll (b : Broker) : Except String Unit → Node
  | .error e => { n with phase := .failing e }
  | .ok _ => n.found (n.topic.bind fun topic => b.poll topic n.cursor)

/-- The backend's answer to an event. -/
def generate (e : Event) (backend : Json → Int → Except String String) (ms : Rat) : Node :=
  match backend e.payload n.maxTokens with
  | .error error => { n with phase := .failing error }
  | .ok output => { n with phase := .publishing e output ms }

/-- The topic that answers go to. -/
def outTopic : String := n.topic.getD "" ++ ".out"

/-- An answer, with the event it answers. -/
def outPayload (e : Event) (output : String) (ms : Rat) : Json :=
  .obj [("input_id", .num e.id), ("device_id", .str n.deviceId), ("output", .str output),
    ("ms", .num ms)]

/-- The answer is posted; an answer that got lost may have been published. -/
def publish (b : Broker) (e : Event) (output : String) (ms : Rat) : Delivery → Broker × Node
  | .lost error => (b, { n with phase := .failing error })
  | .answered => (b.publish n.outTopic (n.outPayload e output ms),
      { n with outputs := n.outputs ++ [b.entry n.outTopic (n.outPayload e output ms)],
               processed := n.processed + 1, phase := .reporting })
  | .unanswered error => (b.publish n.outTopic (n.outPayload e output ms),
      { n with outputs := n.outputs ++ [b.entry n.outTopic (n.outPayload e output ms)],
               phase := .failing error })

/-- A row posted: what the collector has of it, and where the node goes on. -/
def postResult (row : Row) (next : Phase) (failed : String → Phase) : Delivery → Node
  | .answered => { n with rows := n.rows ++ [row], phase := next }
  | .lost error => { n with phase := failed error }
  | .unanswered error => { n with rows := n.rows ++ [row], phase := failed error }

/-- Where a post that failed takes a node: iOS ignores it. -/
def onError (next : Phase) : String → Phase :=
  match n.platform with
  | .android => .failing
  | .ios => fun _ => next

/-- The row of an event that was answered. -/
def report : Delivery → Node :=
  n.postResult { iter := n.processed, final := false, ok := true, error := none } .turning
    (n.onError .turning)

/-- The last row of a job that is done. -/
def finish : Delivery → Node :=
  n.postResult { iter := 0, final := true, ok := true, error := none } .ended (n.onError .ended)

/-- The last row of a job that was cancelled. -/
def cancel : Delivery → Node :=
  n.postResult { iter := 0, final := true, ok := false, error := some "cancelled" } .ended .failing

/-- The last row of a job that failed. -/
def fail (error : String) : Delivery → Node :=
  n.postResult { iter := 0, final := true, ok := false, error := some error } .ended fun _ => .ended

/-- An action that the node is not at does nothing. -/
def step (b : Broker) (a : Action) : Broker × Node :=
  match n.phase, a with
  | .loading, .load result => (b, n.load result)
  | .turning, .turn cancelled => (b, n.turn cancelled)
  | .polling, .poll answer => (b, n.poll b answer)
  | .generating e, .generate backend ms => (b, n.generate e backend ms)
  | .publishing e output ms, .post d => n.publish b e output ms d
  | .reporting, .post d => (b, n.report d)
  | .finishing, .post d => (b, n.finish d)
  | .cancelling, .post d => (b, n.cancel d)
  | .failing error, .post d => (b, n.fail error d)
  | _, _ => (b, n)

end Node

/-! ## The collector and its nodes -/

/-- A broker and its nodes. -/
structure Rails where
  broker : Broker
  nodes : Nat → Node

/-- One step of the system. -/
inductive Step where
  | tick (ms : Nat)
  | publish (topic : String) (body : Json)
  | retain (cutoff : Nat)
  | node (i : Nat) (a : Action)

/-- `req.body ?? {}` -/
def bodyOr (body : Json) : Json :=
  match body with
  | .null => .obj []
  | body => body

def Rails.step (s : Rails) : Step → Rails
  | .tick ms => { s with broker := { s.broker with now := s.broker.now + ms } }
  | .publish topic body => { s with broker := s.broker.publish topic (bodyOr body) }
  | .retain cutoff => { s with broker := s.broker.retain cutoff }
  | .node i a =>
    let (broker, n) := (s.nodes i).step s.broker a
    { broker, nodes := Function.update s.nodes i n }

/-! ## The table -/

def key (e : Event) : Int := e.id

/-- Ids ascend, and what is in the table was published. -/
structure Broker.Sound (b : Broker) : Prop where
  ascending : Feed.Ascending key b.published
  given : ∀ e ∈ b.published, e.id ≤ b.seq
  kept : b.events.Sublist b.published

section Table

variable {b : Broker}

theorem Broker.Sound.publish (h : b.Sound) (topic : String) (payload : Json) :
    (b.publish topic payload).Sound := by
  have hlater : ∀ e ∈ b.published, key e < key (b.entry topic payload) := by
    intro e he
    have hle := h.given e he
    simp only [key, Broker.entry]
    omega
  refine ⟨h.ascending.append hlater, ?_, h.kept.append (List.Sublist.refl _)⟩
  intro e he
  rcases List.mem_append.mp he with he | he
  · exact (h.given e he).trans (Nat.le_succ _)
  · rw [List.mem_singleton.mp he]
    exact Nat.le_refl _

theorem Broker.Sound.retain (h : b.Sound) (cutoff : Nat) : (b.retain cutoff).Sound :=
  ⟨h.ascending, h.given, List.filter_sublist.trans h.kept⟩

end Table

/-! ## What a node has read and written -/

/-- Is this an event of the node's topic, after where the job begins? -/
def Node.wants (n : Node) (e : Event) : Bool :=
  decide (n.topic = some e.topic) && decide (n.after < e.id)

/-- The events the node is there for. -/
def Node.inputs (n : Node) (b : Broker) : List Event := b.published.filter n.wants

/-- The event a node publishes for one of its inputs. -/
def Node.Answers (n : Node) (e out : Event) : Prop :=
  ∃ output ms, out.topic = n.outTopic ∧ out.payload = n.outPayload e output ms

/-- Nothing in hand. -/
structure Between (p : Progress) : Prop where
  taken : p.taken.length = p.processed
  outputs : p.outputs.length = p.processed
  running : ∀ row ∈ p.rows, row.final = false

/-- An event taken and not yet answered. -/
structure Holding (p : Progress) (e : Event) : Prop where
  taken : p.taken.length = p.processed + 1
  outputs : p.outputs.length = p.processed
  running : ∀ row ∈ p.rows, row.final = false
  last : p.taken.getLast? = some e

/-- Nothing more is read or published. -/
structure Over (p : Progress) (maxEvents : Int) : Prop where
  outputs : p.outputs.length ≤ p.taken.length
  taken : p.taken.length ≤ p.outputs.length + 1
  done : ∀ row ∈ p.rows, row.final = true → row.ok = true → p.outputs.length = maxEvents.toNat

/-- How many answers a node has out, by its phase. -/
def Node.Placed (n : Node) : Prop :=
  match n.phase with
  | .loading => Between n.toProgress ∧ n.processed ≤ n.maxEvents.toNat
  | .turning => Between n.toProgress ∧ n.processed ≤ n.maxEvents.toNat
  | .reporting => Between n.toProgress ∧ n.processed ≤ n.maxEvents.toNat
  | .cancelling => Between n.toProgress
  | .polling => Between n.toProgress ∧ (n.processed : Int) < n.maxEvents
  | .generating e => Holding n.toProgress e ∧ (n.processed : Int) < n.maxEvents
  | .publishing e _ _ => Holding n.toProgress e ∧ (n.processed : Int) < n.maxEvents
  | .finishing => Between n.toProgress ∧ n.processed = n.maxEvents.toNat
  | .failing _ => Over n.toProgress n.maxEvents
  | .ended => Over n.toProgress n.maxEvents

/-- What a node has taken is the first of its topic's events, and the rest is there still. -/
structure Reads (b : Broker) (n : Node) : Prop where
  taken : n.taken = Feed.upTo key n.cursor (n.inputs b)
  unread : ∀ e ∈ n.inputs b, n.cursor < e.id → e ∈ b.events
  after : n.after ≤ n.cursor
  given : n.cursor = n.after ∨ n.cursor ≤ b.seq

/-- What a node has published answers what it took, in order. -/
structure Writes (b : Broker) (n : Node) : Prop where
  answers : List.Forall₂ n.Answers (n.taken.take n.outputs.length) n.outputs
  published : n.outputs.Sublist b.published

/-- A node reads and writes as it should. -/
structure Relays (b : Broker) (n : Node) : Prop where
  reads : Reads b n
  writes : Writes b n
  placed : n.Placed

section Node

variable {b : Broker} {n : Node}

theorem Between.over {p : Progress} (h : Between p) (maxEvents : Int) : Over p maxEvents where
  outputs := (h.outputs.trans h.taken.symm).le
  taken := by rw [h.outputs, h.taken]; exact Nat.le_succ _
  done row hrow hfinal := absurd (h.running row hrow) (by simp [hfinal])

theorem Holding.over {p : Progress} {e : Event} (h : Holding p e) (maxEvents : Int) :
    Over p maxEvents where
  outputs := by rw [h.outputs, h.taken]; exact Nat.le_succ _
  taken := by rw [h.outputs, h.taken]
  done row hrow hfinal := absurd (h.running row hrow) (by simp [hfinal])

theorem Node.Placed.over (h : n.Placed) : Over n.toProgress n.maxEvents := by
  unfold Node.Placed at h
  split at h
  case h_9 => exact h
  case h_10 => exact h
  case h_4 => exact h.over _
  case h_6 => exact h.1.over _
  case h_7 => exact h.1.over _
  all_goals exact h.1.over _

theorem wants_of_mem_inputs {e : Event} (h : e ∈ n.inputs b) : n.wants e = true :=
  (List.mem_filter.mp h).2

/-- What anyone publishes comes after what a node has read. -/
theorem Reads.publish (h : Reads b n) (topic : String) (payload : Json) :
    Reads (b.publish topic payload) n := by
  have hafter := h.after
  have hgiven := h.given
  have hnew : n.wants (b.entry topic payload) = true →
      n.cursor < key (b.entry topic payload) := by
    intro hwants
    have hlt : n.after < ((b.seq + 1 : Nat) : Int) := by
      simp only [Node.wants, Bool.and_eq_true, decide_eq_true_eq] at hwants
      exact hwants.2
    simp only [key, Broker.entry]
    omega
  have hinputs : n.inputs (b.publish topic payload) =
      n.inputs b ++ [b.entry topic payload].filter n.wants := List.filter_append _ _
  refine ⟨?_, ?_, hafter, ?_⟩
  · rw [h.taken, hinputs]
    cases hwants : n.wants (b.entry topic payload) with
    | false => simp [hwants]
    | true =>
        have hlater := hnew hwants
        rw [List.filter_cons_of_pos hwants, List.filter_nil, Feed.upTo_append hlater]
  · intro e he hcursor
    rw [hinputs] at he
    rcases List.mem_append.mp he with he | he
    · exact List.mem_append_left _ (h.unread e he hcursor)
    · exact List.mem_append_right _ (List.mem_of_mem_filter he)
  · simp only [Broker.publish]
    omega

theorem Writes.publish (h : Writes b n) (topic : String) (payload : Json) :
    Writes (b.publish topic payload) n :=
  ⟨h.answers, h.published.trans (List.sublist_append_left _ _)⟩

theorem Relays.publish (h : Relays b n) (topic : String) (payload : Json) :
    Relays (b.publish topic payload) n :=
  ⟨h.reads.publish topic payload, h.writes.publish topic payload, h.placed⟩

/-- What a poll returns is the node's next input. -/
theorem next?_of_poll (hb : b.Sound) (h : Reads b n) {topic : String} {e : Event}
    (htopic : n.topic = some topic) (hpoll : b.poll topic n.cursor = some e) :
    Feed.next? key n.cursor (n.inputs b) = some e := by
  have hafter := h.after
  have hlive : Feed.next? key n.cursor (b.events.filter n.wants) = some e := by
    unfold Feed.next?
    rw [List.find?_filter, ← hpoll, Broker.poll]
    congr 1
    funext a
    simp only [Node.wants, htopic, Option.some.injEq, key, eq_comm (a := topic)]
    by_cases hlt : n.cursor < (a.id : Int)
    · have hlate : n.after < (a.id : Int) := lt_of_le_of_lt hafter hlt
      simp [hlt, hlate]
    · simp [hlt]
  have hsub : (b.events.filter n.wants).Sublist (n.inputs b) := hb.kept.filter _
  have hasc : Feed.Ascending key (n.inputs b) := hb.ascending.sublist List.filter_sublist
  rw [← hlive]
  symm
  apply Feed.next?_of_sublist hasc.nodup hsub
  intro a ha hcursor
  exact List.mem_filter.mpr ⟨h.unread a ha hcursor, wants_of_mem_inputs ha⟩

/-- A node whose phase alone has changed. -/
theorem Relays.moved (h : Relays b n) {phase : Phase} (hplaced : { n with phase }.Placed) :
    Relays b { n with phase } :=
  ⟨⟨h.reads.taken, h.reads.unread, h.reads.after, h.reads.given⟩,
    ⟨h.writes.answers, h.writes.published⟩, hplaced⟩

theorem readId_eq {platform : Platform} {id : Nat}
    (h : platform = .android → id ≤ 2147483647) : platform.readId id = id := by
  cases platform with
  | android => exact if_pos (h rfl)
  | ios => rfl

theorem Relays.load (h : Relays b n) (hphase : n.phase = .loading) (result : Except String Unit) :
    Relays b (n.load result) := by
  have hplaced := h.placed
  rw [Node.Placed, hphase] at hplaced
  unfold Node.load
  split
  · exact h.moved (hplaced.1.over _)
  · exact h.moved (hplaced.1.over _)
  · exact h.moved hplaced

theorem Relays.turn (h : Relays b n) (hphase : n.phase = .turning) (cancelled : Bool) :
    Relays b (n.turn cancelled) := by
  have hplaced := h.placed
  rw [Node.Placed, hphase] at hplaced
  obtain ⟨hbetween, hle⟩ := hplaced
  unfold Node.turn
  split
  · rename_i hlt
    split
    · split
      · exact h.moved hbetween
      · exact h.moved (hbetween.over _)
    · exact h.moved ⟨hbetween, hlt⟩
  · rename_i hlt
    have hall : n.processed = n.maxEvents.toNat := by omega
    exact h.moved ⟨hbetween, hall⟩

/-- The next input is taken in hand. -/
theorem Relays.took (h : Relays b n) (hb : b.Sound) (hbetween : Between n.toProgress)
    (hlt : (n.processed : Int) < n.maxEvents) {e : Event}
    (hnext : Feed.next? key n.cursor (n.inputs b) = some e)
    (hid : n.platform.readId e.id = e.id) : Relays b (n.found (some e)) := by
  have hmem := (List.mem_filter.mp (Feed.mem_of_next? hnext)).1
  have hlater : n.cursor < key e := Feed.lt_of_next? hnext
  have hasc : Feed.Ascending key (n.inputs b) := hb.ascending.sublist List.filter_sublist
  have hcount : n.outputs.length = n.taken.length := hbetween.outputs.trans hbetween.taken.symm
  have hread : n.taken ++ [e] = Feed.upTo key e.id (n.inputs b) := by
    rw [h.reads.taken]
    exact (Feed.upTo_next hasc hnext).symm
  have hanswers : List.Forall₂ n.Answers ((n.taken ++ [e]).take n.outputs.length) n.outputs := by
    have hanswers := h.writes.answers
    rw [hcount, List.take_length] at hanswers
    rw [hcount, List.take_left]
    exact hanswers
  rw [Node.found, hid]
  refine ⟨⟨hread, ?_, h.reads.after.trans hlater.le, Or.inr (Int.ofNat_le.mpr (hb.given e hmem))⟩,
    ⟨hanswers, h.writes.published⟩, ⟨?_, hlt⟩⟩
  · intro a ha hcursor
    exact h.reads.unread a ha (hlater.trans hcursor)
  · refine ⟨?_, hbetween.outputs, hbetween.running, List.getLast?_concat⟩
    simp [hbetween.taken]

/-- A poll takes the next input in hand. -/
theorem Relays.poll (hb : b.Sound) (h : Relays b n) (hphase : n.phase = .polling)
    (hids : n.platform = .android → b.seq ≤ 2147483647) (answer : Except String Unit) :
    Relays b (n.poll b answer) := by
  have hplaced := h.placed
  rw [Node.Placed, hphase] at hplaced
  obtain ⟨hbetween, hlt⟩ := hplaced
  cases answer with
  | error e => exact h.moved (hbetween.over _)
  | ok _ =>
      unfold Node.poll
      cases hpoll : n.topic.bind fun topic => b.poll topic n.cursor with
      | none =>
          have hle : n.processed ≤ n.maxEvents.toNat := by omega
          exact h.moved ⟨hbetween, hle⟩
      | some e =>
          obtain ⟨topic, htopic, hpoll⟩ := Option.bind_eq_some_iff.mp hpoll
          have hnext := next?_of_poll hb h.reads htopic hpoll
          have hmem := (List.mem_filter.mp (Feed.mem_of_next? hnext)).1
          exact h.took hb hbetween hlt hnext (readId_eq fun ha => (hb.given e hmem).trans (hids ha))

theorem Relays.generate (h : Relays b n) {e : Event} (hphase : n.phase = .generating e)
    (backend : Json → Int → Except String String) (ms : Rat) :
    Relays b (n.generate e backend ms) := by
  have hplaced := h.placed
  rw [Node.Placed, hphase] at hplaced
  unfold Node.generate
  split
  · exact h.moved (hplaced.1.over _)
  · exact h.moved hplaced

/-- The event published answers the one in hand. -/
theorem Relays.published (h : Relays b n) {e : Event} (hold : Holding n.toProgress e)
    (output : String) (ms : Rat) {n' : Node}
    (hn : n' = { n with
      outputs := n.outputs ++ [b.entry n.outTopic (n.outPayload e output ms)],
      processed := n'.processed, phase := n'.phase }) (hplaced : n'.Placed) :
    Relays (b.publish n.outTopic (n.outPayload e output ms)) n' := by
  have hreads := h.reads.publish n.outTopic (n.outPayload e output ms)
  have htaken : n.taken = n.taken.take n.outputs.length ++ [e] := by
    have hlast := hold.last
    rw [List.getLast?_eq_getElem?, hold.taken, Nat.add_sub_cancel] at hlast
    rw [hold.outputs]
    calc n.taken = n.taken.take (n.processed + 1) := by rw [← hold.taken, List.take_length]
      _ = n.taken.take n.processed ++ [e] := by rw [List.take_add_one, hlast]; rfl
  rw [hn]
  refine ⟨⟨hreads.taken, hreads.unread, hreads.after, hreads.given⟩, ⟨?_, ?_⟩, ?_⟩
  · have hnew : n.Answers e (b.entry n.outTopic (n.outPayload e output ms)) :=
      ⟨output, ms, rfl, rfl⟩
    have hall : n.taken.take (n.outputs ++ [b.entry n.outTopic (n.outPayload e output ms)]).length =
        n.taken.take n.outputs.length ++ [e] := by
      rw [List.length_append, List.length_singleton, hold.outputs, ← hold.taken, List.take_length,
        ← hold.outputs]
      exact htaken
    simp only [hall]
    exact List.rel_append h.writes.answers (List.Forall₂.cons hnew .nil)
  · exact h.writes.published.append (List.Sublist.refl _)
  · rw [← hn]
    exact hplaced

theorem Relays.publishEvent (h : Relays b n) {e : Event} {output : String} {ms : Rat}
    (hphase : n.phase = .publishing e output ms) (d : Delivery) :
    Relays (n.publish b e output ms d).1 (n.publish b e output ms d).2 := by
  have hold := h.placed
  rw [Node.Placed, hphase] at hold
  obtain ⟨hold, hwanted⟩ := hold
  cases d with
  | lost error => exact h.moved (hold.over _)
  | answered =>
      refine h.published hold output ms rfl ⟨⟨hold.taken, ?_, hold.running⟩, ?_⟩
      · simp [Node.publish, hold.outputs]
      · simp only [Node.publish]
        omega
  | unanswered error =>
      refine h.published hold output ms rfl ⟨?_, ?_, ?_⟩
      · simp [Node.publish, hold.outputs, hold.taken]
      · simp [Node.publish, hold.outputs, hold.taken]
      · intro row hrow hfinal
        exact absurd (hold.running row hrow) (by simp [hfinal])

/-- What a post of a row may come to. -/
theorem postResult_cases (row : Row) (next : Phase) (failed : String → Phase) (d : Delivery) :
    ∃ rows phase, n.postResult row next failed d = { n with rows, phase } ∧
      (∀ r ∈ rows, r ∈ n.rows ∨ r = row) ∧ (phase = next ∨ ∃ error, phase = failed error) := by
  cases d with
  | answered => exact ⟨_, _, rfl, by simp, Or.inl rfl⟩
  | lost error => exact ⟨_, _, rfl, fun r hr => Or.inl hr, Or.inr ⟨error, rfl⟩⟩
  | unanswered error => exact ⟨_, _, rfl, by simp, Or.inr ⟨error, rfl⟩⟩

theorem Relays.posted (h : Relays b n) {rows : List Row} {phase : Phase}
    (hplaced : { n with rows, phase }.Placed) : Relays b { n with rows, phase } :=
  ⟨⟨h.reads.taken, h.reads.unread, h.reads.after, h.reads.given⟩,
    ⟨h.writes.answers, h.writes.published⟩, hplaced⟩

theorem Relays.report (h : Relays b n) (hphase : n.phase = .reporting) (d : Delivery) :
    Relays b (n.report d) := by
  have hplaced := h.placed
  rw [Node.Placed, hphase] at hplaced
  obtain ⟨hbetween, hle⟩ := hplaced
  obtain ⟨rows, phase, heq, hrows, hphase'⟩ := postResult_cases (n := n)
    { iter := n.processed, final := false, ok := true, error := none } .turning
    (n.onError .turning) d
  have hrunning : ∀ row ∈ rows, row.final = false := by
    intro row hrow
    rcases hrows row hrow with hold | rfl
    · exact hbetween.running row hold
    · rfl
  have hstill : Between { n.toProgress with rows } := ⟨hbetween.taken, hbetween.outputs, hrunning⟩
  rw [Node.report, heq]
  apply h.posted
  rcases hphase' with rfl | ⟨error, rfl⟩
  · exact ⟨hstill, hle⟩
  · unfold Node.onError
    cases n.platform with
    | android => exact hstill.over _
    | ios => exact ⟨hstill, hle⟩

/-- The final row: it says that all went well only if all was done. -/
theorem Relays.closed (h : Relays b n) (hover : Over n.toProgress n.maxEvents) {row : Row}
    (hrow : row.ok = true → n.outputs.length = n.maxEvents.toNat) {failed : String → Phase}
    (hfailed : ∀ error, failed error = .ended ∨ failed error = .failing error) (d : Delivery) :
    Relays b (n.postResult row .ended failed d) := by
  obtain ⟨rows, phase, heq, hrows, hphase⟩ := postResult_cases (n := n) row .ended failed d
  have hdone : Over { n.toProgress with rows } n.maxEvents := by
    refine ⟨hover.outputs, hover.taken, ?_⟩
    intro r hr hfinal hok
    rcases hrows r hr with hold | rfl
    · exact hover.done r hold hfinal hok
    · exact hrow hok
  rw [heq]
  apply h.posted
  rcases hphase with rfl | ⟨error, rfl⟩
  · exact hdone
  · rcases hfailed error with hend | hfail
    · rw [hend]
      exact hdone
    · rw [hfail]
      exact hdone

/-- What one action of a node preserves. -/
theorem Relays.step (hb : b.Sound) (h : Relays b n)
    (hids : n.platform = .android → b.seq ≤ 2147483647) (a : Action) :
    Relays (n.step b a).1 (n.step b a).2 := by
  have hplaced := h.placed
  unfold Node.step
  split
  · rename_i hphase
    exact h.load hphase _
  · rename_i hphase
    exact h.turn hphase _
  · rename_i hphase
    exact h.poll hb hphase hids _
  · rename_i hphase
    exact h.generate hphase _ _
  · rename_i hphase
    exact h.publishEvent hphase _
  · rename_i hphase
    exact h.report hphase _
  · rename_i hphase
    rw [Node.Placed, hphase] at hplaced
    have hall : n.outputs.length = n.maxEvents.toNat := hplaced.1.outputs.trans hplaced.2
    refine h.closed (hplaced.1.over _) (fun _ => hall) ?_ _
    intro error
    unfold Node.onError
    cases n.platform with
    | android => exact Or.inr rfl
    | ios => exact Or.inl rfl
  · rename_i hphase
    rw [Node.Placed, hphase] at hplaced
    exact h.closed (hplaced.over _) (by simp) (fun _ => Or.inr rfl) _
  · rename_i hphase
    rw [Node.Placed, hphase] at hplaced
    exact h.closed hplaced (by simp) (fun _ => Or.inl rfl) _
  · exact h

end Node

/-! ## Any order of steps -/

/-- What one action of a node does to the table. -/
theorem step_broker (b : Broker) (n : Node) (a : Action) :
    (n.step b a).1 = b ∨ ∃ topic payload, (n.step b a).1 = b.publish topic payload := by
  unfold Node.step
  split
  case h_5 =>
    rename_i d hphase
    cases d with
    | lost error => exact Or.inl rfl
    | answered => exact Or.inr ⟨_, _, rfl⟩
    | unanswered error => exact Or.inr ⟨_, _, rfl⟩
  all_goals exact Or.inl rfl

/-- Retention deletes nothing the node has yet to read, and the ids still fit its `Int`. -/
def Kept (i : Nat) (s : Rails) : Step → Prop
  | .retain cutoff => ∀ e ∈ s.broker.events, (s.nodes i).wants e = true →
      (s.nodes i).cursor < e.id → cutoff < e.created_at
  | .node _ _ => (s.nodes i).platform = .android → s.broker.seq ≤ 2147483647
  | _ => True

instance (i : Nat) (s : Rails) : ∀ e, Decidable (Kept i s e)
  | .tick _ => .isTrue trivial
  | .publish _ _ => .isTrue trivial
  | .retain cutoff => inferInstanceAs (Decidable (∀ e ∈ s.broker.events,
      (s.nodes i).wants e = true → (s.nodes i).cursor < e.id → cutoff < e.created_at))
  | .node _ _ => inferInstanceAs (Decidable ((s.nodes i).platform = .android → _))

structure Good (i : Nat) (s : Rails) : Prop where
  table : s.broker.Sound
  relays : Relays s.broker (s.nodes i)

theorem good_step {i : Nat} {s : Rails} {e : Step} (h : Good i s) (hok : Kept i s e) :
    Good i (s.step e) := by
  cases e with
  | tick ms =>
      obtain ⟨htable, hrelays⟩ := h
      exact ⟨⟨htable.ascending, htable.given, htable.kept⟩,
        ⟨⟨hrelays.reads.taken, hrelays.reads.unread, hrelays.reads.after, hrelays.reads.given⟩,
          ⟨hrelays.writes.answers, hrelays.writes.published⟩, hrelays.placed⟩⟩
  | publish topic body => exact ⟨h.table.publish _ _, h.relays.publish _ _⟩
  | retain cutoff =>
      obtain ⟨htable, hrelays⟩ := h
      refine ⟨htable.retain cutoff, ⟨⟨hrelays.reads.taken, ?_, hrelays.reads.after,
        hrelays.reads.given⟩, ⟨hrelays.writes.answers, hrelays.writes.published⟩, hrelays.placed⟩⟩
      intro e he hcursor
      have hlive := hrelays.reads.unread e he hcursor
      have hnew := hok e hlive (wants_of_mem_inputs he) hcursor
      exact List.mem_filter.mpr ⟨hlive, decide_eq_true hnew⟩
  | node j a =>
      have htable : ((s.nodes j).step s.broker a).1.Sound := by
        rcases step_broker s.broker (s.nodes j) a with hsame | ⟨topic, payload, hnew⟩
        · rw [hsame]
          exact h.table
        · rw [hnew]
          exact h.table.publish topic payload
      by_cases hij : i = j
      · subst hij
        refine ⟨htable, ?_⟩
        simp only [Rails.step, Function.update_self]
        exact h.relays.step h.table hok a
      · refine ⟨htable, ?_⟩
        simp only [Rails.step, Function.update_of_ne hij]
        rcases step_broker s.broker (s.nodes j) a with hsame | ⟨topic, payload, hnew⟩
        · rw [hsame]
          exact h.relays
        · rw [hnew]
          exact h.relays.publish topic payload

/-- A collector whose table is still empty. -/
def Rails.start (nodes : Nat → Node) : Rails where
  broker := { now := 0, seq := 0, events := [], published := [] }
  nodes

theorem good_start (nodes : Nat → Node) (i : Nat) {platform : Platform} {deviceId : String}
    {topic : Option String} {max_events max_tokens after : Option Int}
    (hstart : nodes i = .start platform deviceId topic max_events max_tokens after) :
    Good i (.start nodes) := by
  refine ⟨⟨List.Pairwise.nil, by simp [Rails.start], List.Sublist.refl _⟩, ?_⟩
  simp only [Rails.start, hstart]
  refine ⟨⟨rfl, by simp [Node.inputs], Int.le_refl _, Or.inl rfl⟩, ⟨.nil, List.Sublist.refl _⟩, ?_⟩
  exact ⟨⟨rfl, rfl, by simp [Node.start]⟩, Nat.zero_le _⟩

/-- In every order of steps, what a node publishes answers its inputs one for one: the first
is the answer to the first event of its topic, none is skipped and none answered twice, and a
final row says `ok` only when all the job asked for was answered. -/
theorem answered_in_order {nodes : Nat → Node} {i : Nat} {platform : Platform} {deviceId : String}
    {topic : Option String} {max_events max_tokens after : Option Int}
    (hstart : nodes i = .start platform deviceId topic max_events max_tokens after)
    {steps : List Step} (hok : Along Rails.step (Kept i) (.start nodes) steps) :
    let s := run Rails.step (.start nodes) steps
    let n := s.nodes i
    List.Forall₂ n.Answers ((n.inputs s.broker).take n.outputs.length) n.outputs ∧
      n.outputs.Sublist s.broker.published ∧
      ∀ row ∈ n.rows, row.final = true → row.ok = true → n.outputs.length = n.maxEvents.toNat := by
  intro s n
  have hgood : Good i s := invariant (fun _ _ h hok => good_step h hok)
    (good_start nodes i hstart) hok
  have hover := hgood.relays.placed.over
  have hasc : Feed.Ascending key (n.inputs s.broker) :=
    hgood.table.ascending.sublist List.filter_sublist
  have hprefix : n.taken <+: n.inputs s.broker := by
    rw [hgood.relays.reads.taken]
    exact Feed.upTo_prefix hasc
  have hfirst : n.taken.take n.outputs.length = (n.inputs s.broker).take n.outputs.length := by
    have htake := congrArg (List.take n.outputs.length) (List.prefix_iff_eq_take.mp hprefix)
    rw [List.take_take, Nat.min_eq_left hover.outputs] at htake
    exact htake
  refine ⟨?_, hgood.relays.writes.published, hover.done⟩
  rw [← hfirst]
  exact hgood.relays.writes.answers

/-- A phone that answers the first of two events while the second comes in, with another
topic's event between them and retention behind it. -/
theorem answered_in_order_pair :
    let node : Node := .start .android "phone" (some "in") (some 2) none none
    let next : List Step := [.node 0 (.turn false), .node 0 (.poll (.ok ())),
      .node 0 (.generate (fun _ _ => .ok "out") 5), .node 0 (.post .answered),
      .node 0 (.post .answered)]
    let steps : List Step := [.publish "in" .null, .node 0 (.load (.ok ())),
      .publish "other" .null, .publish "in" .null] ++ next ++
      [.tick 1000, .publish "in" .null, .node 1 (.turn false)] ++ next
    let s := run Rails.step (.start fun _ => node) steps
    let n := s.nodes 0
    n.outputs.length = 2 ∧ (n.inputs s.broker).length = 3 ∧
      List.Forall₂ n.Answers ((n.inputs s.broker).take n.outputs.length) n.outputs := by
  intro node next steps s n
  have hok : Along Rails.step (Kept 0) (.start fun _ => node) steps := by decide +kernel
  have hcounts : n.outputs.length = 2 ∧ (n.inputs s.broker).length = 3 := by decide +kernel
  clear_value steps
  have h := @answered_in_order (fun _ => node) 0 .android "phone" (some "in") (some 2) none none rfl
    steps hok
  exact ⟨hcounts.1, hcounts.2, And.left h⟩

end FleetRunner.Pipeline
