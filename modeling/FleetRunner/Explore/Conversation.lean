import FleetRunner.Js.Value
import FleetRunner.Library.Positions
import FleetRunner.Library.Runs
import Mathlib.Algebra.GroupWithZero.Nat

/-!
# The conversation with the model (`model.ts`)

A mission keeps its conversation with the model as one list of messages and an
index of those that hold a screenshot. Each turn answers the calls of the turn
before, adds an observation, trims what has grown too long and posts the list.

## Implementation notes

`keepShots`, `trimEvery` and `keepTurns` are counts. How a reply's calls are
read and how a screenshot is shrunk are left out: a reply is the calls it gave,
and a screenshot its URL. `extra_body` does not replace the messages.
-/

namespace FleetRunner.Explore.Model

open Library

/-- How much of a conversation a model is sent. -/
structure ModelConfig where
  keepShots : Option Nat
  trimEvery : Option Nat
  keepTurns : Option Nat
  treeHints : Bool

namespace ModelConfig

variable (cfg : ModelConfig)

def shots : Nat := cfg.keepShots.getD 3

def every : Nat := cfg.trimEvery.getD 4

def turns : Nat := cfg.keepTurns.getD 40

end ModelConfig

/-- A call the model asks for. -/
structure ToolCall where
  id : String
  name : String
  args : Json

/-- A part of a message. -/
inductive Part where
  | text (text : String)
  | image_url (url : String)

/-- A message of a conversation. -/
inductive Msg where
  | system (content : String)
  | user (content : String)
  | parts (content : List Part)
  | assistant (content : Option String) (tool_calls : List ToolCall)
  | tool (tool_call_id content : String)

namespace Part

/-- Is the part a screenshot? -/
def isImage : Part → Bool
  | .image_url _ => true
  | .text _ => false

/-- An old screenshot gives way to a remark. -/
def omitShot : Part → Part
  | .image_url _ => .text "[earlier screenshot omitted]"
  | p => p

end Part

namespace Msg

def isAssistant : Msg → Bool
  | .assistant _ _ => true
  | _ => false

def omitShot : Msg → Msg
  | .parts ps => .parts (ps.map Part.omitShot)
  | m => m

/-- Does the message hold a screenshot? -/
def holdsShot : Msg → Bool
  | .parts ps => ps.any Part.isImage
  | _ => false

/-- How many screenshots a message holds. -/
def shots : Msg → Nat
  | .parts ps => ps.countP Part.isImage
  | _ => 0

end Msg

/-- The messages, the places of the screenshots and the calls not answered yet. -/
structure Conversation where
  messages : List Msg
  shotsIndex : List Nat
  pendingCalls : List ToolCall

/-- What is seen after a turn. -/
structure Observation where
  /-- the shrunk screenshot as a `data:` URL -/
  shot : String
  focus : Option String
  /-- `elementHints` of the tree -/
  hints : String

/-- What came back: nothing, or a message with the calls read from it. -/
inductive Reply where
  | failed
  | message (content : String) (calls : List ToolCall)

def Reply.calls : Reply → List ToolCall
  | .failed => []
  | .message _ calls => calls

namespace Conversation

/-- The system's message and the mission's. -/
def start (system mission : String) : Conversation := ⟨[.system system, .user mission], [], []⟩

/-- One tool message for each pending call, in their order. -/
def answers (calls : List ToolCall) (results : List String) : List Msg :=
  calls.mapIdx fun i c => .tool c.id (results.getD i "ok")

/-- The message of an observation. -/
def observation (cfg : ModelConfig) (obs : Observation) (extraText : List String) : Msg :=
  let text := extraText ++
    (obs.focus.filter fun f => f ≠ "").toList.map (fun f => "Focus: " ++ f) ++
    (if cfg.treeHints ∧ obs.hints ≠ "" then [obs.hints] else [])
  .parts ((if text = [] then [] else [.text ("\n".intercalate text)]) ++ [.image_url obs.shot])

/-- The screenshots past `keepShots` become a line of text, once `trimEvery` more have come. -/
def trimShots (cfg : ModelConfig) (c : Conversation) : Conversation :=
  if c.shotsIndex.length ≤ cfg.shots + cfg.every then c
  else
    let old := c.shotsIndex.length - cfg.shots
    { c with
      messages := (c.shotsIndex.take old).foldl (fun ms i => ms.modify i Msg.omitShot) c.messages
      shotsIndex := c.shotsIndex.drop old }

/-- Whole turns past `keepTurns` go, oldest first. -/
def trimTurns (cfg : ModelConfig) (c : Conversation) : Conversation :=
  let turnStarts := c.messages.findIdxs Msg.isAssistant
  if cfg.turns < turnStarts.length then
    match turnStarts[turnStarts.length - cfg.turns]? with
    | some cut =>
        { c with
          messages := c.messages.take 2 ++ .user "[earlier steps omitted]" :: c.messages.drop cut
          shotsIndex := (c.shotsIndex.filter fun i => decide (cut ≤ i)).map fun i => i - cut + 3 }
    | none =>
        -- no turn is to be kept: the cut is `undefined`, and `slice` takes the whole list
        { c with
          messages := c.messages.take 2 ++ .user "[earlier steps omitted]" :: c.messages
          shotsIndex := [] }
  else c

/-- The pending calls are answered, and the observation comes after the answers. -/
def observe (cfg : ModelConfig) (c : Conversation) (obs : Observation)
    (results extraText : List String) : Conversation :=
  let messages := c.messages ++ answers c.pendingCalls results ++ [observation cfg obs extraText]
  ⟨messages, c.shotsIndex ++ [messages.length - 1], []⟩

/-- The conversation as it is posted. -/
def ask (cfg : ModelConfig) (c : Conversation) (obs : Observation)
    (results extraText : List String) : Conversation :=
  trimTurns cfg (trimShots cfg (c.observe cfg obs results extraText))

/-- What the model said is echoed into the history. -/
def receive (c : Conversation) : Reply → Conversation
  | .failed => c
  | .message content calls =>
      { c with
        messages := c.messages ++ [.assistant (if content = "" then none else some content) calls]
        pendingCalls := calls }

/-- A harness message the model must read before its next step. -/
def say (c : Conversation) (text : String) : Conversation :=
  { c with messages := c.messages ++ [.user ("<harness>" ++ text ++ "</harness>")] }

end Conversation

/-! ## The calls of a mission -/

/-- What the loop does with a conversation. -/
inductive Call where
  | next (obs : Observation) (results extraText : List String) (reply : Reply)
  | say (text : String)

/-- One call. -/
def step (cfg : ModelConfig) (c : Conversation) : Call → Conversation
  | .next obs results extraText reply => (c.ask cfg obs results extraText).receive reply
  | .say text => c.say text

/-- A turn of `runMission`, from the look to the crash check. -/
structure Turn where
  obs : Observation
  extraText : List String
  reply : Reply
  /-- one answer a call -/
  results : List String
  /-- the model was loaded again, and the step is taken again -/
  retaken : Bool
  crashed : Bool

/-- What the harness says at the end of a turn. -/
def Turn.said (t : Turn) : List Call :=
  if t.reply.calls.isEmpty then
    if t.retaken then []
    else [.say "Your last reply had no tool call. Every reply must call at least one tool."]
  else if t.crashed then [.say "The app crashed and the harness restarted it. Carry on exploring."]
  else []

/-- The calls of a mission, whatever ends it: nothing is posted after its last turn. -/
def missionCalls : List String → List Turn → List Call
  | _, [] => []
  | results, t :: rest =>
      .next t.obs results t.extraText t.reply ::
        (t.said ++ missionCalls (if t.reply.calls.isEmpty then [] else t.results) rest)

/-! ## A well formed list -/

/-- Read one message: the ids still to be answered before and after it. -/
def expect : List String → Msg → Option (List String)
  | id :: ids, .tool i _ => if i = id then some ids else none
  | _ :: _, _ => none
  | [], .tool _ _ => none
  | [], .assistant _ calls => some (calls.map ToolCall.id)
  | [], _ => some []

/-- Every call is answered at once, in order, and nothing else is. -/
def Answered (ms : List Msg) : Prop := ms.foldlM expect [] = some []

/-- What a conversation keeps through every call. -/
structure WellFormed (cfg : ModelConfig) (system mission : String) (c : Conversation) : Prop where
  head : [.system system, .user mission] <+: c.messages
  answered : Answered c.messages
  shots : (c.messages.map Msg.shots).sum ≤ cfg.shots + cfg.every
  turns : c.messages.countP Msg.isAssistant ≤ cfg.turns
  index : c.shotsIndex = c.messages.findIdxs Msg.holdsShot

/-- Each list posted is well formed. -/
def Right (cfg : ModelConfig) (system mission : String) (c : Conversation) : Call → Prop
  | .next obs results extraText _ => WellFormed cfg system mission (c.ask cfg obs results extraText)
  | .say _ => True

/-! ## What trimming leaves as it was -/

@[simp] theorem holdsShot_omitShot (m : Msg) : m.omitShot.holdsShot = false := by
  cases m with
  | parts ps =>
      simp only [Msg.omitShot, Msg.holdsShot, List.any_map, List.any_eq_false]
      intro part _
      cases part <;> simp [Part.omitShot, Part.isImage]
  | _ => rfl

@[simp] theorem isAssistant_omitShot (m : Msg) : m.omitShot.isAssistant = m.isAssistant := by
  cases m <;> rfl

@[simp] theorem expect_omitShot (ids : List String) (m : Msg) :
    expect ids m.omitShot = expect ids m := by
  cases ids <;> cases m <;> rfl

@[simp] theorem omitShot_omitShot (m : Msg) : m.omitShot.omitShot = m.omitShot := by
  cases m with
  | parts ps =>
      simp only [Msg.omitShot, List.map_map]
      congr 2
      funext part
      cases part <;> rfl
  | _ => rfl

theorem shots_omitShot (m : Msg) : m.omitShot.shots = 0 := by
  cases m with
  | parts ps =>
      simp only [Msg.omitShot, Msg.shots, List.countP_map, List.countP_eq_zero]
      intro part _
      cases part <;> simp [Part.omitShot, Part.isImage]
  | _ => rfl

theorem shots_eq {m : Msg} (h : m.shots ≤ 1) : m.shots = if m.holdsShot then 1 else 0 := by
  cases m with
  | parts ps =>
      have hcount : ps.countP Part.isImage ≤ 1 := h
      by_cases hany : (Msg.parts ps).holdsShot = true
      · rw [if_pos hany]
        have hpos : 0 < ps.countP Part.isImage := by
          rw [List.countP_pos_iff]
          simpa [Msg.holdsShot] using hany
        exact Nat.le_antisymm hcount hpos
      · rw [if_neg hany]
        apply List.countP_eq_zero.mpr
        simpa [Msg.holdsShot] using hany
  | _ => rfl

/-- What is still to be answered after a list of messages. -/
def owed (ids : List String) (ms : List Msg) : Option (List String) := ms.foldlM expect ids

theorem owed_append (ids : List String) (xs ys : List Msg) :
    owed ids (xs ++ ys) = (owed ids xs).bind fun rest => owed rest ys :=
  List.foldlM_append

@[simp] theorem owed_nil (ids : List String) : owed ids [] = some ids := rfl

@[simp] theorem owed_cons (ids : List String) (m : Msg) (ms : List Msg) :
    owed ids (m :: ms) = (expect ids m).bind fun rest => owed rest ms :=
  List.foldlM_cons

theorem owed_map_omitShot (ids : List String) (ms : List Msg) :
    owed ids (ms.map Msg.omitShot) = owed ids ms := by
  induction ms generalizing ids with
  | nil => rfl
  | cons m rest ih => simp only [List.map_cons, owed_cons, expect_omitShot, ih]

theorem owed_congr {ms ms' : List Msg} (h : ms'.map Msg.omitShot = ms.map Msg.omitShot)
    (ids : List String) : owed ids ms' = owed ids ms := by
  rw [← owed_map_omitShot, h, owed_map_omitShot]

theorem countP_congr {ms ms' : List Msg} (h : ms'.map Msg.omitShot = ms.map Msg.omitShot) :
    ms'.countP Msg.isAssistant = ms.countP Msg.isAssistant := by
  have hcount := congrArg (List.countP Msg.isAssistant) h
  simpa [List.countP_map, Function.comp_def] using hcount

theorem owed_answers (calls : List ToolCall) (results : List String) :
    owed (calls.map ToolCall.id) (Conversation.answers calls results) = some [] := by
  suffices h : ∀ n, owed (calls.map ToolCall.id)
      (calls.mapIdx fun i c => .tool c.id (results.getD (i + n) "ok")) = some [] from h 0
  induction calls with
  | nil => exact fun _ => rfl
  | cons c rest ih =>
      intro n
      rw [List.map_cons, List.mapIdx_cons, owed_cons]
      simp only [expect, if_true, Option.bind_some]
      simpa only [Nat.add_assoc, Nat.add_comm 1] using ih (1 + n)

/-! ## What holds between calls -/

variable {cfg : ModelConfig} {system mission : String} {c : Conversation}

/-- What the trimming keeps. -/
structure Kept (system mission : String) (c : Conversation) : Prop where
  head : [.system system, .user mission] <+: c.messages
  index : c.shotsIndex = c.messages.findIdxs Msg.holdsShot
  single : ∀ m ∈ c.messages, m.shots ≤ 1

theorem sum_shots {ms : List Msg} (h : ∀ m ∈ ms, m.shots ≤ 1) :
    (ms.map Msg.shots).sum = ms.countP Msg.holdsShot := by
  induction ms with
  | nil => rfl
  | cons m rest ih =>
      have hm := shots_eq (h m List.mem_cons_self)
      have hrest := ih fun x hx => h x (List.mem_cons_of_mem m hx)
      rw [List.map_cons, List.sum_cons, List.countP_cons, hm, hrest, Nat.add_comm]

theorem Kept.sum_shots (h : Kept system mission c) :
    (c.messages.map Msg.shots).sum = c.shotsIndex.length := by
  rw [Model.sum_shots h.single, h.index, List.length_findIdxs]

theorem head_congr {ms ms' : List Msg} (h : ms'.map Msg.omitShot = ms.map Msg.omitShot)
    (hhead : [.system system, .user mission] <+: ms) :
    [.system system, .user mission] <+: ms' := by
  obtain ⟨rest, rfl⟩ := hhead
  simp only [List.cons_append, List.nil_append, List.map_cons] at h
  obtain ⟨a, tail, rfl, ha, htail⟩ := List.map_eq_cons_iff.mp h
  obtain ⟨b, tail, rfl, hb, -⟩ := List.map_eq_cons_iff.mp htail
  have hsystem : a = .system system := by cases a <;> simp_all [Msg.omitShot]
  have huser : b = .user mission := by cases b <;> simp_all [Msg.omitShot]
  exact ⟨tail, by rw [hsystem, huser]; rfl⟩

theorem kept_start (system mission : String) :
    Kept system mission (Conversation.start system mission) where
  head := List.prefix_rfl
  index := rfl
  single := by simp [Conversation.start, Msg.shots]

theorem holdsShot_observation (obs : Observation) (extraText : List String) :
    (Conversation.observation cfg obs extraText).holdsShot = true := by
  simp [Conversation.observation, Msg.holdsShot, Part.isImage]

theorem shots_observation (obs : Observation) (extraText : List String) :
    (Conversation.observation cfg obs extraText).shots = 1 := by
  simp only [Conversation.observation, Msg.shots, List.countP_append]
  split <;> simp [Part.isImage]

theorem of_mem_answers {calls : List ToolCall} {results : List String} {m : Msg}
    (h : m ∈ Conversation.answers calls results) : ∃ id content, m = .tool id content := by
  obtain ⟨i, hi, rfl⟩ := List.mem_mapIdx.mp h
  exact ⟨_, _, rfl⟩

theorem Kept.observe (h : Kept system mission c) (obs : Observation)
    (results extraText : List String) :
    Kept system mission (c.observe cfg obs results extraText) where
  head := by
    rw [Conversation.observe, List.append_assoc]
    exact h.head.trans (List.prefix_append _ _)
  index := by
    have hnone : (Conversation.answers c.pendingCalls results).findIdxs Msg.holdsShot
        (0 + c.messages.length) = [] := by
      apply List.findIdxs_eq_nil_iff.mpr
      intro m hm
      obtain ⟨id, content, rfl⟩ := of_mem_answers hm
      rfl
    simp only [Conversation.observe, List.findIdxs_append, hnone, List.append_nil, ← h.index,
      List.findIdxs_singleton, holdsShot_observation, if_true]
    simp
  single := by
    intro m hm
    simp only [Conversation.observe, List.mem_append, List.mem_singleton] at hm
    rcases hm with (hm | hm) | rfl
    · exact h.single m hm
    · obtain ⟨id, content, rfl⟩ := of_mem_answers hm
      exact Nat.zero_le 1
    · exact Nat.le_of_eq (shots_observation obs extraText)

theorem countP_observe (c : Conversation) (obs : Observation) (results extraText : List String) :
    (c.observe cfg obs results extraText).messages.countP Msg.isAssistant =
      c.messages.countP Msg.isAssistant := by
  have hnone : (Conversation.answers c.pendingCalls results).countP Msg.isAssistant = 0 := by
    apply List.countP_eq_zero.mpr
    intro m hm
    obtain ⟨id, content, rfl⟩ := of_mem_answers hm
    simp [Msg.isAssistant]
  simp [Conversation.observe, List.countP_append, hnone, Conversation.observation, Msg.isAssistant]

theorem owed_observe (h : owed [] c.messages = some (c.pendingCalls.map ToolCall.id))
    (obs : Observation) (results extraText : List String) :
    owed [] (c.observe cfg obs results extraText).messages = some [] := by
  simp only [Conversation.observe, owed_append, h, Option.bind_some, owed_answers]
  rfl

/-! ## Trimming -/

theorem map_trimShots (cfg : ModelConfig) (c : Conversation) :
    (c.trimShots cfg).messages.map Msg.omitShot = c.messages.map Msg.omitShot := by
  unfold Conversation.trimShots
  split
  · rfl
  · exact map_foldl_modify omitShot_omitShot _ _

theorem length_trimShots (cfg : ModelConfig) (c : Conversation) :
    (c.trimShots cfg).shotsIndex.length ≤ cfg.shots + cfg.every := by
  unfold Conversation.trimShots
  split
  · assumption
  · simp only [List.length_drop]
    omega

theorem Kept.trimShots (h : Kept system mission c) : Kept system mission (c.trimShots cfg) where
  head := head_congr (map_trimShots cfg c) h.head
  index := by
    unfold Conversation.trimShots
    split
    · exact h.index
    · simp only [h.index]
      exact (findIdxs_foldl_modify holdsShot_omitShot _ _).symm
  single := by
    unfold Conversation.trimShots
    split
    · exact h.single
    · exact forall_foldl_modify (fun m => by simp [shots_omitShot]) _ h.single

/-- The list once its oldest turns are gone. -/
def shortened (c : Conversation) (rest : List Msg) : List Msg :=
  c.messages.take 2 ++ .user "[earlier steps omitted]" :: rest

/-- What the trimming of turns can do. -/
theorem trimTurns_cases (cfg : ModelConfig) (c : Conversation) :
    c.messages.countP Msg.isAssistant ≤ cfg.turns ∧ c.trimTurns cfg = c ∨
    (cfg.turns = 0 ∧ 0 < c.messages.countP Msg.isAssistant ∧
      (c.trimTurns cfg).messages = shortened c c.messages) ∨
    ∃ before a after, c.messages = before ++ a :: after ∧ a.isAssistant = true ∧
      (a :: after).countP Msg.isAssistant = cfg.turns ∧
      c.trimTurns cfg = ⟨shortened c (a :: after),
        (c.shotsIndex.filter fun i => decide (before.length ≤ i)).map
          fun i => i - before.length + 3, c.pendingCalls⟩ := by
  unfold Conversation.trimTurns
  simp only [List.length_findIdxs]
  by_cases hlen : cfg.turns < c.messages.countP Msg.isAssistant
  · rw [if_pos hlen]
    cases hcut : (c.messages.findIdxs Msg.isAssistant)[
        c.messages.countP Msg.isAssistant - cfg.turns]? with
    | none =>
        have hout := List.getElem?_eq_none_iff.mp hcut
        rw [List.length_findIdxs] at hout
        exact Or.inr (Or.inl ⟨by omega, by omega, rfl⟩)
    | some cut =>
        obtain ⟨before, a, after, hsplit, ha, rfl, hcount⟩ := split_at_findIdxs hcut
        have hdrop : c.messages.drop before.length = a :: after := by
          rw [hsplit, List.drop_left]
        refine Or.inr (Or.inr ⟨before, a, after, hsplit, ha, ?_, ?_⟩)
        · have hall := congrArg (List.countP Msg.isAssistant) hsplit
          rw [List.countP_append, hcount] at hall
          omega
        · simp only [hdrop, shortened]
  · rw [if_neg hlen]
    exact Or.inl ⟨Nat.le_of_not_lt hlen, rfl⟩

theorem take_of_head (h : [.system system, .user mission] <+: c.messages) :
    c.messages.take 2 = [.system system, .user mission] := by
  obtain ⟨rest, hrest⟩ := h
  rw [← hrest]
  rfl

/-- An assistant message comes when nothing is owed, so a list can be cut before it. -/
theorem owed_of_cut {before after : List Msg} {a : Msg} (ha : a.isAssistant = true)
    (h : owed [] (before ++ a :: after) = some []) : owed [] (a :: after) = some [] := by
  rw [owed_append] at h
  obtain ⟨ids, -, hrest⟩ := Option.bind_eq_some_iff.mp h
  cases a with
  | assistant content calls =>
      cases ids with
      | nil => exact hrest
      | cons id ids => simp [expect] at hrest
  | _ => cases ha

theorem Kept.shorten (h : Kept system mission c) {before after : List Msg} {a : Msg}
    (hsplit : c.messages = before ++ a :: after) (calls : List ToolCall) :
    Kept system mission ⟨shortened c (a :: after),
      (c.shotsIndex.filter fun i => decide (before.length ≤ i)).map fun i => i - before.length + 3,
      calls⟩ where
  head := by
    rw [shortened, take_of_head h.head]
    exact List.prefix_append _ _
  index := by
    have hbefore : (before.findIdxs Msg.holdsShot).filter (fun i => decide (before.length ≤ i)) =
        [] := by
      apply List.filter_eq_nil_iff.mpr
      intro i hi
      have hlt := List.lt_add_of_mem_findIdxs i hi
      simpa using hlt
    have hafter : ((a :: after).findIdxs Msg.holdsShot before.length).filter
        (fun i => decide (before.length ≤ i)) = (a :: after).findIdxs Msg.holdsShot before.length := by
      apply List.filter_eq_self.mpr
      intro i hi
      simpa using List.ge_of_mem_findIdxs i hi
    have hshift : ((a :: after).findIdxs Msg.holdsShot before.length).map
        (fun i => i - before.length + 3) = (a :: after).findIdxs Msg.holdsShot 3 := by
      rw [List.findIdxs_start, List.findIdxs_start (s := 3), List.map_map]
      apply List.map_congr_left
      intro i _
      simp
    rw [h.index, hsplit, List.findIdxs_append, List.filter_append, hbefore, Nat.zero_add, hafter,
      List.nil_append, hshift, shortened, take_of_head h.head]
    simp [List.findIdxs_cons, Msg.holdsShot]
  single := by
    intro m hm
    rw [shortened, take_of_head h.head] at hm
    have hcases : m = .system system ∨ m = .user mission ∨ m = .user "[earlier steps omitted]" ∨
        m ∈ a :: after := by simpa using hm
    rcases hcases with rfl | rfl | rfl | hm
    · exact Nat.zero_le 1
    · exact Nat.zero_le 1
    · exact Nat.zero_le 1
    · apply h.single
      rw [hsplit]
      exact List.mem_append_right before hm

/-! ## A turn in time -/

/-- Nothing stands between the calls to be answered and the next answers. -/
structure Ready (cfg : ModelConfig) (c : Conversation) : Prop where
  clean : owed [] c.messages = some (c.pendingCalls.map ToolCall.id)
  turns : cfg.turns = 0 → c.messages.countP Msg.isAssistant = 0

/-- What is posted of a conversation that is ready. -/
structure Posted (cfg : ModelConfig) (system mission : String) (c : Conversation) : Prop extends
    Kept system mission c where
  clean : owed [] c.messages = some []
  shots : c.shotsIndex.length ≤ cfg.shots + cfg.every
  turns : c.messages.countP Msg.isAssistant ≤ cfg.turns
  idle : c.pendingCalls = []

theorem Posted.wellFormed (h : Posted cfg system mission c) : WellFormed cfg system mission c where
  head := h.head
  answered := h.clean
  shots := by
    rw [h.sum_shots]
    exact h.shots
  turns := h.turns
  index := h.index

theorem pendingCalls_trimShots (cfg : ModelConfig) (c : Conversation) :
    (c.trimShots cfg).pendingCalls = c.pendingCalls := by
  unfold Conversation.trimShots
  split <;> rfl

theorem Ready.posted (h : Ready cfg c) (hkept : Kept system mission c) (obs : Observation)
    (results extraText : List String) :
    Posted cfg system mission (c.ask cfg obs results extraText) := by
  let t := (c.observe cfg obs results extraText).trimShots cfg
  have ht : Kept system mission t := (hkept.observe obs results extraText).trimShots
  have hclean : owed [] t.messages = some [] := by
    rw [owed_congr (map_trimShots cfg _)]
    exact owed_observe h.clean obs results extraText
  have hshots : t.shotsIndex.length ≤ cfg.shots + cfg.every := length_trimShots cfg _
  have hcount : t.messages.countP Msg.isAssistant = c.messages.countP Msg.isAssistant := by
    rw [countP_congr (map_trimShots cfg _), countP_observe]
  have hidle : t.pendingCalls = [] := pendingCalls_trimShots cfg _
  change Posted cfg system mission (t.trimTurns cfg)
  rcases trimTurns_cases cfg t with ⟨hle, hsame⟩ | ⟨hzero, hpos, -⟩ |
    ⟨before, a, after, hsplit, ha, hturns, hcut⟩
  · rw [hsame]
    exact ⟨ht, hclean, hshots, hle, hidle⟩
  · rw [hcount, h.turns hzero] at hpos
    cases hpos
  · have hrest : owed [] (a :: after) = some [] := by
      rw [hsplit] at hclean
      exact owed_of_cut ha hclean
    rw [hcut]
    refine ⟨ht.shorten hsplit t.pendingCalls, ?_, ?_, ?_, hidle⟩
    · rw [shortened, take_of_head ht.head]
      exact hrest
    · rw [List.length_map]
      exact Nat.le_trans (List.length_filter_le _ _) hshots
    · have hcountP : (shortened t (a :: after)).countP Msg.isAssistant = cfg.turns := by
        rw [shortened, take_of_head ht.head, ← hturns]
        rfl
      exact Nat.le_of_eq hcountP

/-! ## A turn cut in two -/

/-- Something stands between the last reply's calls and their answers. -/
def Broken (ms : List Msg) : Prop :=
  ∃ before content calls after, ms = before ++ .assistant content calls :: after ∧
    after.countP Msg.isAssistant = 0 ∧ owed (calls.map ToolCall.id) after = none

theorem Broken.owed_eq_none {ms : List Msg} (h : Broken ms) (ids : List String) :
    owed ids ms = none := by
  obtain ⟨before, content, calls, after, rfl, -, hnone⟩ := h
  rw [owed_append, Option.bind_eq_none_iff]
  intro rest _
  cases rest with
  | nil => exact hnone
  | cons id rest => rfl

theorem Broken.append {ms later : List Msg} (h : Broken ms)
    (hlater : later.countP Msg.isAssistant = 0) : Broken (ms ++ later) := by
  obtain ⟨before, content, calls, after, rfl, hafter, hnone⟩ := h
  refine ⟨before, content, calls, after ++ later, by simp, by simp [hafter, hlater], ?_⟩
  rw [owed_append, hnone]
  rfl

theorem Broken.congr {ms ms' : List Msg} (h : Broken ms)
    (hsame : ms'.map Msg.omitShot = ms.map Msg.omitShot) : Broken ms' := by
  obtain ⟨before, content, calls, after, rfl, hafter, hnone⟩ := h
  rw [List.map_append, List.map_cons] at hsame
  obtain ⟨before', rest, rfl, -, hrest⟩ := List.map_eq_append_iff.mp hsame
  obtain ⟨a, after', rfl, ha, hsame⟩ := List.map_eq_cons_iff.mp hrest
  have hassistant : a = .assistant content calls := by cases a <;> simp_all [Msg.omitShot]
  refine ⟨before', content, calls, after', by rw [hassistant], ?_, ?_⟩
  · rw [countP_congr hsame, hafter]
  · rw [owed_congr hsame, hnone]

/-- The turn that was cut in two is the last one, so a cut before some turn keeps it. -/
theorem Broken.cut {before after : List Msg} {a : Msg} (h : Broken (before ++ a :: after))
    (ha : a.isAssistant = true) (start : List Msg) : Broken (start ++ a :: after) := by
  obtain ⟨before', content, calls, after', heq, hafter, hnone⟩ := h
  rcases List.append_eq_append_iff.mp heq with ⟨mid, rfl, hmid⟩ | ⟨mid, rfl, hmid⟩
  · exact ⟨start ++ mid, content, calls, after', by simp [hmid], hafter, hnone⟩
  · cases mid with
    | nil => exact ⟨start, content, calls, after', by simpa using hmid.symm, hafter, hnone⟩
    | cons b mid =>
        obtain ⟨-, rfl⟩ := List.cons_eq_cons.mp hmid
        simp [List.countP_append, ha] at hafter

/-- A conversation that is posted malformed next. -/
def Bad (cfg : ModelConfig) (c : Conversation) : Prop :=
  Broken c.messages ∨ cfg.turns = 0 ∧ 0 < c.messages.countP Msg.isAssistant

theorem Broken.observe (h : Broken c.messages) (obs : Observation)
    (results extraText : List String) :
    Broken (c.observe cfg obs results extraText).messages := by
  have hnew : (Conversation.answers c.pendingCalls results ++
      [Conversation.observation cfg obs extraText]).countP Msg.isAssistant = 0 := by
    have hobs : (c.observe cfg obs results extraText).messages.countP Msg.isAssistant = _ :=
      countP_observe c obs results extraText
    simp only [Conversation.observe, List.append_assoc, List.countP_append] at hobs ⊢
    omega
  rw [Conversation.observe, List.append_assoc]
  exact h.append hnew

theorem Bad.not_wellFormed (h : Bad cfg c) (obs : Observation) (results extraText : List String) :
    ¬WellFormed cfg system mission (c.ask cfg obs results extraText) := by
  intro hwell
  let t := (c.observe cfg obs results extraText).trimShots cfg
  have hcount : t.messages.countP Msg.isAssistant = c.messages.countP Msg.isAssistant := by
    rw [countP_congr (map_trimShots cfg _), countP_observe]
  have hanswered : owed [] (t.trimTurns cfg).messages = some [] := hwell.answered
  have hturns : (t.trimTurns cfg).messages.countP Msg.isAssistant ≤ cfg.turns := hwell.turns
  rcases h with hbroken | ⟨hzero, hpos⟩
  · have hkept : Broken t.messages :=
      (hbroken.observe obs results extraText).congr (map_trimShots cfg _)
    rcases trimTurns_cases cfg t with ⟨-, hsame⟩ | ⟨hzero, hpos, hmessages⟩ |
      ⟨before, a, after, hsplit, ha, -, hcut⟩
    · rw [hsame, hkept.owed_eq_none] at hanswered
      cases hanswered
    · rw [hmessages, shortened, List.countP_append, List.countP_cons] at hturns
      omega
    · rw [hsplit] at hkept
      have hnone := (hkept.cut ha
        (t.messages.take 2 ++ [.user "[earlier steps omitted]"])).owed_eq_none []
      simp only [List.append_assoc, List.singleton_append] at hnone
      rw [hcut, shortened, hnone] at hanswered
      cases hanswered
  · rcases trimTurns_cases cfg t with ⟨hle, -⟩ | ⟨-, -, hmessages⟩ | ⟨-, a, after, -, ha, hcuts, -⟩
    · omega
    · rw [hmessages, shortened, List.countP_append, List.countP_cons] at hturns
      omega
    · rw [List.countP_cons, if_pos ha] at hcuts
      omega

/-! ## Every mission -/

/-- No crash is told after calls, and where no turn is to be kept nothing came back. -/
def Timely (cfg : ModelConfig) (t : Turn) : Prop :=
  ¬(t.reply.calls ≠ [] ∧ t.crashed = true) ∧ (cfg.turns = 0 → t.reply = .failed)

/-- The conversation after a turn. -/
def afterTurn (cfg : ModelConfig) (c : Conversation) (results : List String) (t : Turn) :
    Conversation :=
  run (step cfg) c (.next t.obs results t.extraText t.reply :: t.said)

theorem Kept.append_text (h : Kept system mission c) (m : Msg) (hm : m.holdsShot = false)
    (hshots : m.shots = 0) (calls : List ToolCall) :
    Kept system mission ⟨c.messages ++ [m], c.shotsIndex, calls⟩ where
  head := h.head.trans (List.prefix_append _ _)
  index := by
    rw [List.findIdxs_append, List.findIdxs_singleton, hm, h.index]
    simp
  single := by
    intro x hx
    rcases List.mem_append.mp hx with hx | hx
    · exact h.single x hx
    · rw [List.mem_singleton.mp hx, hshots]
      exact Nat.zero_le 1

theorem said_cases (t : Turn) :
    t.said = [] ∨ ∃ text, t.said = [.say text] ∧
      (t.reply.calls = [] ∨ t.reply.calls ≠ [] ∧ t.crashed = true) := by
  unfold Turn.said
  by_cases hcalls : t.reply.calls = []
  · by_cases hretaken : t.retaken = true
    · simp [hcalls, hretaken]
    · simp [hcalls, hretaken]
  · by_cases hcrashed : t.crashed = true
    · simp [hcalls, hcrashed]
    · simp [hcalls, hcrashed]

theorem Posted.receive (h : Posted cfg system mission c) (reply : Reply) :
    Kept system mission (c.receive reply) ∧
      owed [] (c.receive reply).messages = some (reply.calls.map ToolCall.id) ∧
      (c.receive reply).pendingCalls = reply.calls := by
  cases reply with
  | failed => exact ⟨h.toKept, h.clean, h.idle⟩
  | message content calls =>
      refine ⟨h.toKept.append_text _ rfl rfl calls, ?_, rfl⟩
      simp only [Conversation.receive, owed_append, h.clean]
      rfl

/-- After a turn in time the conversation is ready for the next. -/
theorem Ready.after (h : Ready cfg c) (hkept : Kept system mission c) (results : List String)
    {t : Turn} (ht : Timely cfg t) :
    Kept system mission (afterTurn cfg c results t) ∧ Ready cfg (afterTurn cfg c results t) := by
  have hposted := h.posted hkept t.obs results t.extraText
  obtain ⟨hkept', hclean, hcalls⟩ := hposted.receive t.reply
  have hturns : cfg.turns = 0 →
      ((c.ask cfg t.obs results t.extraText).receive t.reply).messages.countP Msg.isAssistant = 0 := by
    intro hzero
    rw [ht.2 hzero]
    have hle := hposted.turns
    rw [hzero] at hle
    exact Nat.le_zero.mp hle
  rcases said_cases t with hsaid | ⟨text, hsaid, hnone | hcrash⟩
  · simp only [afterTurn, hsaid, run_cons, run_nil, step]
    exact ⟨hkept', by rw [hclean, hcalls], hturns⟩
  · simp only [afterTurn, hsaid, run_cons, run_nil, step]
    refine ⟨hkept'.append_text _ rfl rfl _, ?_, fun hzero => ?_⟩
    · simp only [Conversation.say, owed_append, hclean, hcalls, hnone]
      rfl
    · simp [Conversation.say, List.countP_append, hturns hzero, Msg.isAssistant]
  · exact absurd hcrash ht.1

/-- After a turn that is not, the next list posted is malformed. -/
theorem bad_afterTurn (results : List String) {t : Turn} (ht : ¬Timely cfg t) :
    Bad cfg (afterTurn cfg c results t) := by
  by_cases hcrash : t.reply.calls ≠ [] ∧ t.crashed = true
  · left
    have hsaid : t.said =
        [.say "The app crashed and the harness restarted it. Carry on exploring."] := by
      simp [Turn.said, hcrash.1, hcrash.2]
    cases hreply : t.reply with
    | failed => simp [hreply, Reply.calls] at hcrash
    | message content calls =>
        have hcalls : calls ≠ [] := by
          have hne := hcrash.1
          rwa [hreply] at hne
        simp only [afterTurn, hsaid, run_cons, run_nil, step, hreply, Conversation.receive,
          Conversation.say, List.append_assoc, List.singleton_append]
        refine ⟨_, _, calls, _, rfl, rfl, ?_⟩
        cases calls with
        | nil => exact absurd rfl hcalls
        | cons call rest => rfl
  · right
    obtain ⟨hzero, hreply⟩ : cfg.turns = 0 ∧ t.reply ≠ .failed := by
      by_contra hnot
      exact ht ⟨hcrash, fun hzero => by_contra fun hreply => hnot ⟨hzero, hreply⟩⟩
    refine ⟨hzero, ?_⟩
    cases hr : t.reply with
    | failed => exact absurd hr hreply
    | message content calls =>
        rcases said_cases t with hsaid | ⟨text, hsaid, -⟩
        · simp [afterTurn, hsaid, step, hr, Conversation.receive, Msg.isAssistant]
        · simp [afterTurn, hsaid, step, hr, Conversation.receive, Conversation.say,
            List.countP_cons, Msg.isAssistant]

theorem along_said (cfg : ModelConfig) (system mission : String) (t : Turn) (c : Conversation) :
    Along (step cfg) (Right cfg system mission) c t.said := by
  rcases said_cases t with hsaid | ⟨text, hsaid, -⟩
  · rw [hsaid]
    trivial
  · rw [hsaid]
    exact ⟨trivial, trivial⟩

theorem along_missionCalls_iff (turns : List Turn) (h : Ready cfg c)
    (hkept : Kept system mission c) (results : List String) :
    Along (step cfg) (Right cfg system mission) c (missionCalls results turns) ↔
      ∀ t ∈ turns.dropLast, Timely cfg t := by
  induction turns generalizing c results with
  | nil => simp [missionCalls]
  | cons t rest ih =>
      have hfirst : Right cfg system mission c (.next t.obs results t.extraText t.reply) :=
        (h.posted hkept t.obs results t.extraText).wellFormed
      have hsplit : ∀ later,
          Along (step cfg) (Right cfg system mission) c
            (.next t.obs results t.extraText t.reply :: (t.said ++ later)) ↔
          Along (step cfg) (Right cfg system mission) (afterTurn cfg c results t) later := by
        intro later
        rw [along_cons, along_append]
        exact ⟨fun hall => hall.2.2, fun hlater => ⟨hfirst, along_said _ _ _ _ _, hlater⟩⟩
      rw [missionCalls, hsplit]
      cases rest with
      | nil => simp [missionCalls]
      | cons next rest =>
          rw [List.dropLast_cons_cons, List.forall_mem_cons]
          by_cases ht : Timely cfg t
          · obtain ⟨hkept', hready⟩ := h.after hkept results ht
            rw [ih hready hkept']
            exact ⟨fun hall => ⟨ht, hall⟩, fun hall => hall.2⟩
          · refine ⟨fun hall => ?_, fun hall => absurd hall.1 ht⟩
            exact absurd hall.1 ((bad_afterTurn results ht).not_wellFormed _ _ _)

theorem ready_start (cfg : ModelConfig) (system mission : String) :
    Ready cfg (Conversation.start system mission) :=
  ⟨rfl, fun _ => rfl⟩

/-- Every list a mission posts is well formed exactly when no crash is told after a reply with
calls that another turn follows, and where no turn is to be kept no reply came before the last
turn. -/
theorem posts_wellFormed_iff (cfg : ModelConfig) (system mission : String) (turns : List Turn) :
    Along (step cfg) (Right cfg system mission) (Conversation.start system mission)
        (missionCalls [] turns) ↔
      ∀ t ∈ turns.dropLast, Timely cfg t :=
  along_missionCalls_iff turns (ready_start cfg system mission) (kept_start system mission) []

/-- A tap that crashes the app, and the turn after it. -/
def crashedTap : Turn where
  obs := ⟨"data:image/png;base64,iVBORw0K", none, ""⟩
  extraText := ["Step 1 of 60."]
  reply := .message "" [⟨"call_1", "mobile_click", .obj [("x", .num 500), ("y", .num 500)]⟩]
  results := ["ok"]
  retaken := false
  crashed := true

/-- The harness speaks between the tap and its answer. -/
theorem crash_before_answer :
    ¬Along (step ⟨none, none, none, false⟩) (Right ⟨none, none, none, false⟩ "system" "mission")
      (Conversation.start "system" "mission") (missionCalls [] [crashedTap, crashedTap]) := by
  rw [along_missionCalls_iff _ (ready_start _ _ _) (kept_start _ _)]
  intro hall
  have htap := hall crashedTap (by simp)
  exact htap.1 ⟨by simp [crashedTap, Reply.calls], rfl⟩

end FleetRunner.Explore.Model
