import FleetRunner.Js.Text
import FleetRunner.Library.Runs

/-!
# Shaping on the host (`network-shape.ts`)

The `3g` and `lossy` profiles send the traffic to a destination through a
dummynet pipe on the Mac. Every target has a pipe of its own number; the pf
anchor with the rules, and pf's switch, are the host's.

## Implementation notes

The commands succeed here, and do what their manual says: loading rules into an
anchor replaces the ones it had. An apply and a restore are one step each.
-/

namespace FleetRunner.Network

open Library

/-! ## The host -/

structure PipeConfig where
  bwKbit : Nat
  delayMs : Nat
  plr : Rat
  deriving DecidableEq

inductive ShapedKind where
  | threeG | lossy
  deriving DecidableEq

def ShapedKind.text : ShapedKind → String
  | .threeG => "3g"
  | .lossy => "lossy"

/-- Dummynet settings per shaped profile. -/
def PIPE_CONFIG : ShapedKind → PipeConfig
  | .threeG => ⟨780, 200, 0⟩
  | .lossy => ⟨0, 100, 5 / 100⟩

/-- What to shape. -/
structure Scope where
  host : String
  port : Option String
  deriving DecidableEq

def Scope.label (s : Scope) : String := s.port.elim s.host fun port => s.host ++ ":" ++ port

inductive Direction where
  | out | in
  deriving DecidableEq

/-- `dummynet out proto tcp to host port n pipe p`, or `in proto tcp from host pipe p` -/
structure Rule where
  direction : Direction
  host : String
  port : Option String
  pipe : Nat
  deriving DecidableEq

structure HostEntry where
  profile : String
  pipe : Nat
  scope : String
  pf_was_enabled : Bool

structure Host where
  /-- `dnctl` -/
  pipes : Nat → Option PipeConfig
  /-- the rules in the anchor `fleet-shape` -/
  anchor : List Rule
  /-- pf's switch -/
  enabled : Bool
  journal : String → Option HostEntry

/-- A target with the profile and the destination of its job. -/
structure Shaping where
  id : String
  kind : ShapedKind
  scope : Scope

/-- `c.charCodeAt(0)` -/
def charCode (c : Char) : Nat :=
  if c.toNat < 0x10000 then c.toNat else 0xD800 + (c.toNat - 0x10000) / 0x400

/-- A stable pipe number per device. -/
def pipeFor (id : String) : Nat :=
  4200 + id.toList.foldl (fun h c => (h * 31 + charCode c) % 600) 0

/-- Both directions: a download-only pipe describes no real connection. -/
def rulesFor (scope : Scope) (pipe : Nat) : List Rule :=
  [⟨.out, scope.host, scope.port, pipe⟩,
    ⟨.in, String.ofList (scope.label.toList.takeWhile fun c => decide (c ≠ ':')), none, pipe⟩]

def put {β : Type} [DecidableEq β] {γ : Type} (f : β → γ) (b : β) (v : γ) : β → γ :=
  fun x => if x = b then v else f x

def hostRestore (h : Host) (id : String) : Host :=
  match h.journal id with
  | none => h
  | some entry => {
      pipes := put h.pipes entry.pipe none
      anchor := []
      -- only what we did is undone: a Mac whose pf was on already stays on
      enabled := if entry.pf_was_enabled then h.enabled else false
      journal := put h.journal id none }

/-- The target's entry, its pipe, the rules, and pf switched on. -/
def load (h : Host) (t : Shaping) : Host where
  pipes := put h.pipes (pipeFor t.id) (some (PIPE_CONFIG t.kind))
  anchor := rulesFor t.scope (pipeFor t.id)
  enabled := if h.enabled then h.enabled else true
  journal := put h.journal t.id
    (some ⟨t.kind.text, pipeFor t.id, t.scope.label, h.enabled⟩)

/-- An unverifiable pipe is torn down. -/
def hostShape (h : Host) (t : Shaping) : Host :=
  let loaded := load h t
  if (loaded.pipes (pipeFor t.id)).isSome ∧ loaded.anchor ≠ [] then loaded
  else hostRestore loaded t.id

inductive Op where
  | apply (t : Shaping)
  | restore (id : String)

def step (h : Host) : Op → Host
  | .apply t => hostShape h t
  | .restore id => hostRestore h id

/-- Which targets are between the end of their apply and their restore. -/
def shapedStep (shaped : List Shaping) : Op → List Shaping
  | .apply t => shaped.filter (fun u => decide (u.id ≠ t.id)) ++ [t]
  | .restore id => shaped.filter fun u => decide (u.id ≠ id)

def shaped (ops : List Op) : List Shaping := ops.foldl shapedStep []

/-- The targets one inside the other. -/
def withNetworkAll : List Shaping → List Op
  | [] => []
  | t :: rest => .apply t :: withNetworkAll rest ++ [.restore t.id]

/-! ## Independence -/

/-- The traffic to and from the target's destination goes through a pipe with its profile's
settings. -/
def Shapes (h : Host) (t : Shaping) : Prop :=
  h.enabled = true ∧ ∃ pipe, h.pipes pipe = some (PIPE_CONFIG t.kind) ∧
    ∀ rule ∈ rulesFor t.scope pipe, rule ∈ h.anchor

/-- What the operator would find on the host. -/
structure SameHost (h h' : Host) : Prop where
  pipes : h.pipes = h'.pipes
  anchor : h.anchor = h'.anchor
  enabled : h.enabled = h'.enabled

/-- No target's shaping is touched by what is done for the others. -/
structure Independent (h : Host) (ops : List Op) : Prop where
  shapes : ∀ past, past <+: ops → ∀ t ∈ shaped past, Shapes (run step h past) t
  pipes : ∀ past, past <+: ops → ∀ t ∈ shaped past, ∀ u ∈ shaped past, t.id ≠ u.id →
    pipeFor t.id ≠ pipeFor u.id
  restored : SameHost (run step h ops) h

/-- Two targets are shaped at the same time at some point, and in the end all are restored. -/
structure Overlapping (ops : List Op) : Prop where
  together : ∃ past, past <+: ops ∧ ∃ t ∈ shaped past, ∃ u ∈ shaped past, t.id ≠ u.id
  restored : shaped ops = []

theorem shaped_concat (ops : List Op) (op : Op) : shaped (ops ++ [op]) = shapedStep (shaped ops) op := by
  rw [shaped, List.foldl_append]
  rfl

theorem hostShape_eq (h : Host) (t : Shaping) : hostShape h t = load h t := by
  apply if_pos
  refine ⟨?_, List.cons_ne_nil _ _⟩
  simp [load, put]

/-- A target that is shaped has its entry. -/
theorem journal_of_shaped (h : Host) {ops : List Op} {t : Shaping} (ht : t ∈ shaped ops) :
    ((run step h ops).journal t.id).isSome = true := by
  induction ops using List.reverseRecOn generalizing t with
  | nil => cases ht
  | append_singleton past op ih =>
      rw [run_concat]
      rw [shaped_concat] at ht
      cases op with
      | apply u =>
          rw [step, hostShape_eq]
          by_cases hid : t.id = u.id
          · simp [load, put, hid]
          · have hpast : t ∈ shaped past := by
              rcases List.mem_append.mp ht with ht | ht
              · exact (List.mem_filter.mp ht).1
              · exact absurd (congrArg Shaping.id (List.mem_singleton.mp ht)) hid
            simpa [load, put, hid] using ih hpast
      | restore id =>
          obtain ⟨hpast, hid⟩ := List.mem_filter.mp ht
          have hne : t.id ≠ id := of_decide_eq_true hid
          rw [step, hostRestore]
          split
          · exact ih hpast
          · simpa [put, hne] using ih hpast

/-- A restore empties the anchor for all. -/
theorem not_shapes_of_restore {h : Host} {id : String} (hentry : (h.journal id).isSome = true)
    (t : Shaping) : ¬Shapes (hostRestore h id) t := by
  rintro ⟨-, pipe, -, hrules⟩
  obtain ⟨entry, hjournal⟩ := Option.isSome_iff_exists.mp hentry
  have hmem := hrules _ List.mem_cons_self
  rw [hostRestore, hjournal] at hmem
  cases hmem

/-- Of two targets that are shaped at the same time one is restored first. -/
theorem exists_restore {past rest : List Op} (hlast : shaped (past ++ rest) = [])
    {t u : Shaping} (ht : t ∈ shaped past) (hu : u ∈ shaped past) (hne : t.id ≠ u.id) :
    ∃ before id after, past ++ rest = before ++ .restore id :: after ∧
      ∃ x ∈ shaped before, ∃ y ∈ shaped before, x.id = id ∧ y.id ≠ id := by
  induction rest generalizing past t u with
  | nil =>
      rw [List.append_nil] at hlast
      rw [hlast] at ht
      cases ht
  | cons op rest ih =>
      have hassoc : past ++ op :: rest = (past ++ [op]) ++ rest := by simp
      have hkeep : ∀ id, shapedStep (shaped past) op = (shaped past).filter (fun v => decide (v.id ≠ id)) →
          t.id ≠ id → u.id ≠ id →
          t ∈ shaped (past ++ [op]) ∧ u ∈ shaped (past ++ [op]) := by
        intro id hstep htid huid
        rw [shaped_concat, hstep]
        exact ⟨List.mem_filter.mpr ⟨ht, decide_eq_true htid⟩,
          List.mem_filter.mpr ⟨hu, decide_eq_true huid⟩⟩
      cases op with
      | restore id =>
          by_cases htid : t.id = id
          · exact ⟨past, id, rest, rfl, t, ht, u, hu, htid, fun h => hne (htid.trans h.symm)⟩
          · by_cases huid : u.id = id
            · exact ⟨past, id, rest, rfl, u, hu, t, ht, huid, htid⟩
            · obtain ⟨ht', hu'⟩ := hkeep id rfl htid huid
              rw [hassoc] at hlast ⊢
              exact ih hlast ht' hu' hne
      | apply v =>
          have hmem : ∀ w ∈ shaped past, ∃ w' ∈ shaped (past ++ [.apply v]), w'.id = w.id := by
            intro w hw
            rw [shaped_concat]
            by_cases hid : w.id = v.id
            · exact ⟨v, List.mem_append_right _ (List.mem_singleton.mpr rfl), hid.symm⟩
            · exact ⟨w, List.mem_append_left _ (List.mem_filter.mpr ⟨hw, decide_eq_true hid⟩), rfl⟩
          obtain ⟨t', ht', htid⟩ := hmem t ht
          obtain ⟨u', hu', huid⟩ := hmem u hu
          rw [hassoc] at hlast ⊢
          exact ih hlast ht' hu' (by rwa [htid, huid])

/-- Targets that are shaped at the same time are never independent: the first restore unshapes the
others. -/
theorem not_independent_of_overlapping (h : Host) {ops : List Op} (hover : Overlapping ops) :
    ¬Independent h ops := by
  intro hindep
  obtain ⟨⟨past, ⟨rest, rfl⟩, t, ht, u, hu, hne⟩, hlast⟩ := hover
  obtain ⟨before, id, after, hsplit, x, hx, y, hy, rfl, hyx⟩ := exists_restore hlast ht hu hne
  have hprefix : before ++ [.restore x.id] <+: past ++ rest := by
    rw [hsplit]
    exact ⟨after, by simp⟩
  have hshaped : y ∈ shaped (before ++ [.restore x.id]) := by
    rw [shaped_concat]
    exact List.mem_filter.mpr ⟨hy, decide_eq_true hyx⟩
  have hshapes := hindep.shapes _ hprefix y hshaped
  rw [run_concat] at hshapes
  exact not_shapes_of_restore (journal_of_shaped h hx) y hshapes

/-! ## One inside the other -/

theorem shaped_withNetworkAll (ts : List Shaping) {past : List Op}
    (hfresh : ∀ t ∈ ts, ∀ u ∈ shaped past, u.id ≠ t.id) (hdistinct : (ts.map Shaping.id).Nodup) :
    shaped (past ++ withNetworkAll ts) = shaped past := by
  induction ts generalizing past with
  | nil => rw [withNetworkAll, List.append_nil]
  | cons t rest ih =>
      rw [List.map_cons, List.nodup_cons] at hdistinct
      have hkeep : (shaped past).filter (fun u => decide (u.id ≠ t.id)) = shaped past := by
        apply List.filter_eq_self.mpr
        intro u hu
        exact decide_eq_true (hfresh t List.mem_cons_self u hu)
      have happly : shaped (past ++ [.apply t]) = shaped past ++ [t] := by
        rw [shaped_concat, shapedStep, hkeep]
      have hinner : shaped ((past ++ [.apply t]) ++ withNetworkAll rest) = shaped past ++ [t] := by
        rw [ih _ hdistinct.2, happly]
        intro v hv u hu
        rw [happly] at hu
        rcases List.mem_append.mp hu with hu | hu
        · exact hfresh v (List.mem_cons_of_mem t hv) u hu
        · rw [List.mem_singleton.mp hu]
          intro heq
          exact hdistinct.1 (heq ▸ List.mem_map_of_mem hv)
      have hassoc : past ++ withNetworkAll (t :: rest) =
          ((past ++ [.apply t]) ++ withNetworkAll rest) ++ [.restore t.id] := by
        simp [withNetworkAll]
      rw [hassoc, shaped_concat, hinner, shapedStep, List.filter_append, hkeep]
      simp

/-- A job that shapes two targets has both shaped at the same time. -/
theorem overlapping_withNetworkAll (t u : Shaping) (rest : List Shaping)
    (hdistinct : ((t :: u :: rest).map Shaping.id).Nodup) :
    Overlapping (withNetworkAll (t :: u :: rest)) := by
  have hne : t.id ≠ u.id := by
    intro heq
    simp [heq] at hdistinct
  constructor
  · refine ⟨[.apply t, .apply u], ⟨withNetworkAll rest ++ [.restore u.id] ++ [.restore t.id], ?_⟩, t, ?_,
      u, ?_, hne⟩
    · simp [withNetworkAll]
    · simp [shaped, shapedStep, hne]
    · simp [shaped, shapedStep]
  · have hshaped : shaped ([] ++ withNetworkAll (t :: u :: rest)) = shaped [] :=
      shaped_withNetworkAll (t :: u :: rest) (by simp [shaped]) hdistinct
    exact hshaped

/-- A target that is shaped alone, on a host without rules or a pipe of its number, is shaped and
leaves the host as it was. -/
theorem independent_alone (h : Host) (t : Shaping) (hanchor : h.anchor = [])
    (hpipe : h.pipes (pipeFor t.id) = none) : Independent h (withNetworkAll [t]) := by
  have hpasts : ∀ past, past <+: withNetworkAll [t] →
      past = [] ∨ past = [.apply t] ∨ past = [.apply t, .restore t.id] := by
    rintro past ⟨rest, hrest⟩
    rcases past with _ | ⟨op, _ | ⟨op', past⟩⟩
    · exact Or.inl rfl
    · simp only [withNetworkAll, List.cons_append, List.nil_append, List.cons.injEq] at hrest
      exact Or.inr (Or.inl (by rw [hrest.1]))
    · simp only [withNetworkAll, List.cons_append, List.nil_append, List.cons.injEq] at hrest
      obtain ⟨rfl, rfl, hnil⟩ := hrest
      rw [List.append_eq_nil_iff.mp hnil |>.1]
      exact Or.inr (Or.inr rfl)
  constructor
  · intro past hpast u hu
    rcases hpasts past hpast with rfl | rfl | rfl
    · cases hu
    · obtain rfl : u = t := by simpa [shaped, shapedStep] using hu
      rw [run_cons, run_nil, step, hostShape_eq]
      refine ⟨?_, pipeFor u.id, if_pos rfl, fun rule hrule => hrule⟩
      cases henabled : h.enabled <;> simp [load, henabled]
    · simp [shaped, shapedStep] at hu
  · intro past hpast u hu v hv hne
    rcases hpasts past hpast with rfl | rfl | rfl
    · cases hu
    · obtain rfl : u = t := by simpa [shaped, shapedStep] using hu
      obtain rfl : v = u := by simpa [shaped, shapedStep] using hv
      exact absurd rfl hne
    · simp [shaped, shapedStep] at hu
  · have hrun : run step h (withNetworkAll [t]) = hostRestore (load h t) t.id := by
      rw [← hostShape_eq]
      rfl
    have hentry : (load h t).journal t.id =
        some ⟨t.kind.text, pipeFor t.id, t.scope.label, h.enabled⟩ := if_pos rfl
    rw [hrun, hostRestore, hentry]
    constructor
    · funext pipe
      by_cases hp : pipe = pipeFor t.id
      · simp [put, hp, hpipe]
      · simp [put, load, hp]
    · exact hanchor.symm
    · cases henabled : h.enabled <;> simp [load, henabled]

def freshMac : Host where
  pipes _ := none
  anchor := []
  enabled := false
  journal _ := none

def iPhone : Shaping := ⟨"6A1F", .threeG, ⟨"shop.example", some "443"⟩⟩

def iPad : Shaping := ⟨"93C0", .threeG, ⟨"shop.example", some "443"⟩⟩

theorem iPhone_not_iPad : ([iPhone, iPad].map Shaping.id).Nodup := by
  decide

theorem not_independent_iPhone_iPad : ¬Independent freshMac (withNetworkAll [iPhone, iPad]) :=
  not_independent_of_overlapping freshMac (overlapping_withNetworkAll iPhone iPad [] iPhone_not_iPad)

/-- When the inner target is restored, the outer one is not shaped any more. -/
theorem shaping_not_independent :
    ¬∀ (h : Host) (ops : List Op), Overlapping ops → Independent h ops := by
  intro h
  have hindep := h freshMac _ (overlapping_withNetworkAll iPhone iPad [] iPhone_not_iPad)
  have hprefix : [.apply iPhone, .apply iPad, .restore iPad.id] <+: withNetworkAll [iPhone, iPad] :=
    ⟨[.restore iPhone.id], rfl⟩
  have hshaped : iPhone ∈ shaped [.apply iPhone, .apply iPad, .restore iPad.id] :=
    List.mem_cons_self
  have hboth : iPad ∈ shaped [.apply iPhone, .apply iPad] :=
    List.mem_cons_of_mem _ List.mem_cons_self
  exact not_shapes_of_restore (journal_of_shaped freshMac hboth) iPhone
    (hindep.shapes _ hprefix iPhone hshaped)

end FleetRunner.Network
