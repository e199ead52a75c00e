import Mathlib.Data.List.Induction
import Mathlib.Logic.Relation

/-!
# A depth-first pass that lists its work in advance

A pass over an acyclic graph visits the successors of a node one after the
other, each followed by its own successors. It lists the successors that were
not visited yet before it visits the first of them. One of them may have been
visited by the time it is its turn, below a sibling, and is then visited again.
`Shortcut` says of the graph alone which nodes that happens to.

The order of successors and the rank of a node stand for the order in which
nodes were added; a node is added after everything that leads to it.
-/

namespace FleetRunner.Library

open Relation

/-- An acyclic graph: the successors of a node in order, ranked above it. -/
structure Dag (α : Type*) where
  succ : α → List α
  rank : α → Nat
  bound : Nat
  rank_lt : ∀ {c w}, w ∈ succ c → rank c < rank w
  rank_lt_bound : ∀ {c w}, w ∈ succ c → rank w < bound
  sorted : ∀ c, (succ c).Pairwise fun x y => rank x < rank y

namespace Dag

variable {α : Type*} (g : Dag α)

/-! ## The pass -/

section Pass

variable [DecidableEq α]

/-- Visit the nodes of a list that `opens` selects, and those visited meanwhile, with what is
below them. -/
def each (go : List α → α → List α) (opens : α → Prop) [DecidablePred opens] (ws log : List α) :
    List α :=
  ws.foldl (fun log w => if opens w ∨ w ∈ log then go (log ++ [w]) w else log) log

theorem each_concat (go : List α → α → List α) (opens : α → Prop) [DecidablePred opens]
    (ws log : List α) (w : α) :
    each go opens (ws ++ [w]) log =
      if opens w ∨ w ∈ each go opens ws log then go (each go opens ws log ++ [w]) w
      else each go opens ws log := by
  rw [each, List.foldl_append]
  rfl

/-- Visit what is below a node: the log of the visits, repeats included. -/
def visit : Nat → List α → α → List α
  | 0, log, _ => log
  | depth + 1, log, c =>
      each (visit depth) (fun _ => True) ((g.succ c).filter fun w => decide (w ∉ log)) log

end Pass

/-! ## What it visits twice -/

/-- An edge to a node not visited yet. -/
def Edge (log : List α) (c w : α) : Prop := w ∈ g.succ c ∧ w ∉ log

/-- Follow the first successor that leads to `v`; a node on the way leads to it directly too. -/
inductive Shortcut (log : List α) (v : α) : α → Prop
  | again {c w : α} : g.Edge log c w → TransGen (g.Edge log) w v → g.Edge log c v →
      Shortcut log v c
  | along {c p : α} : g.Edge log c p → TransGen (g.Edge log) p v →
      (∀ s, g.Edge log c s → g.rank s < g.rank p → ¬ReflTransGen (g.Edge log) s v) →
      Shortcut log v p → Shortcut log v c

/-- The same for a list of nodes of which `opens` selects some. -/
def Doubled (log : List α) (opens : α → Prop) (ws : List α) (v : α) : Prop :=
  (∃ w ∈ ws, opens w ∧ TransGen (g.Edge log) w v ∧ v ∈ ws) ∨
    ∃ p ∈ ws, opens p ∧ TransGen (g.Edge log) p v ∧
      (∀ s ∈ ws, opens s → g.rank s < g.rank p → ¬ReflTransGen (g.Edge log) s v) ∧
      g.Shortcut log v p

/-! ## Ranks along a path -/

variable {g} {log : List α} {c v w x y : α}

theorem Edge.rank_lt (h : g.Edge log c w) : g.rank c < g.rank w := g.rank_lt h.1

theorem rank_lt_of_transGen (h : TransGen (g.Edge log) c v) : g.rank c < g.rank v := by
  induction h with
  | single h => exact h.rank_lt
  | tail _ h ih => exact Nat.lt_trans ih h.rank_lt

/-- No node leads to itself. -/
theorem acyclic (c : α) : ¬TransGen (g.Edge log) c c :=
  fun h => Nat.lt_irrefl _ (rank_lt_of_transGen h)

/-- What a path leads to was not visited. -/
theorem notMem_of_transGen (h : TransGen (g.Edge log) c v) : v ∉ log := by
  cases h with
  | single h => exact h.2
  | tail _ h => exact h.2

theorem Shortcut.leads (h : g.Shortcut log v c) : TransGen (g.Edge log) c v := by
  cases h with
  | again hw hv _ => exact TransGen.head hw hv
  | along hp hv _ _ => exact TransGen.head hp hv

/-! ## Visiting elsewhere first -/

/-- A later log that leaves open whatever lies between `w` and `v`. -/
structure Spares (log log' : List α) (w v : α) : Prop where
  grows : ∀ x ∈ log, x ∈ log'
  between : ∀ x, TransGen (g.Edge log) w x → ReflTransGen (g.Edge log) x v → x ∉ log'

namespace Spares

variable {log' : List α} (h : Spares (g := g) log log' w v)

include h

theorem edge_of (hxy : g.Edge log' x y) : g.Edge log x y :=
  ⟨hxy.1, fun hy => hxy.2 (h.grows y hy)⟩

theorem reflTransGen_iff (hx : ReflTransGen (g.Edge log) w x) :
    ReflTransGen (g.Edge log') x v ↔ ReflTransGen (g.Edge log) x v := by
  constructor
  · exact fun hv => ReflTransGen.mono (fun _ _ => h.edge_of) _ _ hv
  · intro hv
    induction hv using ReflTransGen.head_induction_on with
    | refl => exact .refl
    | head hxy hyv ih =>
        have hy : TransGen (g.Edge log) w _ := TransGen.tail' hx hxy
        exact (ih hy.to_reflTransGen).head ⟨hxy.1, h.between _ hy hyv⟩

theorem transGen_iff (hx : ReflTransGen (g.Edge log) w x) :
    TransGen (g.Edge log') x v ↔ TransGen (g.Edge log) x v := by
  rw [TransGen.head'_iff, TransGen.head'_iff]
  constructor
  · rintro ⟨y, hxy, hyv⟩
    have hxy' := h.edge_of hxy
    exact ⟨y, hxy', (h.reflTransGen_iff (hx.tail hxy')).mp hyv⟩
  · rintro ⟨y, hxy, hyv⟩
    have hy : TransGen (g.Edge log) w y := TransGen.tail' hx hxy
    exact ⟨y, ⟨hxy.1, h.between y hy hyv⟩, (h.reflTransGen_iff hy.to_reflTransGen).mpr hyv⟩

theorem shortcut_iff (hx : ReflTransGen (g.Edge log) w x) :
    g.Shortcut log' v x ↔ g.Shortcut log v x := by
  constructor
  · intro hs
    induction hs with
    | @again c u hu huv hv =>
        have hu' := h.edge_of hu
        exact .again hu' ((h.transGen_iff (hx.tail hu')).mp huv) (h.edge_of hv)
    | @along c p hp hpv hfirst _ ih =>
        have hp' := h.edge_of hp
        have hwp := hx.tail hp'
        refine .along hp' ((h.transGen_iff hwp).mp hpv) ?_ (ih hwp)
        intro s hs hlt hsv
        have hws : TransGen (g.Edge log) w s := TransGen.tail' hx hs
        exact hfirst s ⟨hs.1, h.between s hws hsv⟩ hlt
          ((h.reflTransGen_iff hws.to_reflTransGen).mpr hsv)
  · intro hs
    induction hs with
    | @again c u hu huv hv =>
        have hwu : TransGen (g.Edge log) w u := TransGen.tail' hx hu
        have hwv : TransGen (g.Edge log) w v := TransGen.tail' hx hv
        exact .again ⟨hu.1, h.between u hwu huv.to_reflTransGen⟩
          ((h.transGen_iff hwu.to_reflTransGen).mpr huv) ⟨hv.1, h.between v hwv .refl⟩
    | @along c p hp hpv hfirst _ ih =>
        have hwp : TransGen (g.Edge log) w p := TransGen.tail' hx hp
        refine .along ⟨hp.1, h.between p hwp hpv.to_reflTransGen⟩
          ((h.transGen_iff hwp.to_reflTransGen).mpr hpv) ?_ (ih hwp.to_reflTransGen)
        intro s hs hlt hsv
        have hs' := h.edge_of hs
        exact hfirst s hs' hlt ((h.reflTransGen_iff (hx.tail hs')).mp hsv)

end Spares

/-! ## What a pass visits -/

section Visits

/-- A node to come does not lead back to those before it. -/
theorem not_leads_back {pre : List α} (hrank : ∀ u ∈ pre, g.rank u < g.rank w) (hv : v ∈ pre) :
    ¬TransGen (g.Edge log) w v :=
  fun h => Nat.lt_asymm (hrank v hv) (rank_lt_of_transGen h)

/-- A later node that reaches nothing new leaves open what was doubled. -/
theorem doubled_append_iff_of_led {opens : α → Prop} {pre : List α}
    (hrank : ∀ u ∈ pre, g.rank u < g.rank w) (hne : v ≠ w)
    (hled : ∃ u ∈ pre, opens u ∧ ReflTransGen (g.Edge log) u v) :
    g.Doubled log opens (pre ++ [w]) v ↔ g.Doubled log opens pre v := by
  obtain ⟨first, hfirst, hofirst, hfirstv⟩ := hled
  constructor
  · rintro (⟨u, hu, hou, huv, hv⟩ | ⟨p, hp, hop, hpv, hleast, hs⟩)
    · have hv' : v ∈ pre := by
        rcases List.mem_append.mp hv with hv | hv
        · exact hv
        · exact absurd (List.mem_singleton.mp hv) hne
      rcases List.mem_append.mp hu with hu | hu
      · exact Or.inl ⟨u, hu, hou, huv, hv'⟩
      · rw [List.mem_singleton.mp hu] at huv
        exact absurd huv (not_leads_back hrank hv')
    · rcases List.mem_append.mp hp with hp | hp
      · exact Or.inr ⟨p, hp, hop, hpv, fun s hs' => hleast s (by simp [hs']), hs⟩
      · obtain rfl := List.mem_singleton.mp hp
        exact absurd hfirstv (hleast first (by simp [hfirst]) hofirst (hrank first hfirst))
  · rintro (⟨u, hu, hou, huv, hv⟩ | ⟨p, hp, hop, hpv, hleast, hs⟩)
    · exact Or.inl ⟨u, by simp [hu], hou, huv, by simp [hv]⟩
    · refine Or.inr ⟨p, by simp [hp], hop, hpv, fun s hs' hos hlt => ?_, hs⟩
      rcases List.mem_append.mp hs' with hs' | hs'
      · exact hleast s hs' hos hlt
      · rw [List.mem_singleton.mp hs'] at hlt
        exact absurd hlt (Nat.lt_asymm (hrank p hp))

variable [DecidableEq α]

/-- Below `c`, what can be reached is visited, and twice exactly where there is a shortcut. -/
structure Visits (g : Dag α) (log : List α) (c : α) (added : List α) : Prop where
  mem_iff : ∀ v, v ∈ added ↔ TransGen (g.Edge log) c v
  twice_iff : ∀ v, 2 ≤ added.count v ↔ g.Shortcut log v c

/-- The same for the nodes of a list. -/
structure VisitsEach (g : Dag α) (log : List α) (opens : α → Prop) (ws added : List α) :
    Prop where
  mem_iff : ∀ v, v ∈ added ↔ ∃ w ∈ ws, opens w ∧ ReflTransGen (g.Edge log) w v
  twice_iff : ∀ v, 2 ≤ added.count v ↔ g.Doubled log opens ws v

variable {opens : α → Prop} {pre added : List α}

/-- A node that is neither selected nor visited meanwhile changes nothing. -/
theorem VisitsEach.skip (h : VisitsEach g log opens pre added) (hopens : ¬opens w)
    (hw : w ∉ added) :
    VisitsEach g log opens (pre ++ [w]) added where
  mem_iff v := by
    rw [h.mem_iff]
    simp [or_and_right, exists_or, hopens]
  twice_iff v := by
    rw [h.twice_iff]
    constructor
    · rintro (⟨u, hu, hou, huv, hv⟩ | ⟨p, hp, hop, hpv, hfirst, hs⟩)
      · exact Or.inl ⟨u, by simp [hu], hou, huv, by simp [hv]⟩
      · refine Or.inr ⟨p, by simp [hp], hop, hpv, fun s hs' hos hlt => ?_, hs⟩
        rcases List.mem_append.mp hs' with hs' | hs'
        · exact hfirst s hs' hos hlt
        · exact absurd (List.mem_singleton.mp hs' ▸ hos) hopens
    · rintro (⟨u, hu, hou, huv, hv⟩ | ⟨p, hp, hop, hpv, hfirst, hs⟩)
      · rcases List.mem_append.mp hu with hupre | hulast
        · rcases List.mem_append.mp hv with hvpre | hvlast
          · exact Or.inl ⟨u, hupre, hou, huv, hvpre⟩
          · -- the node itself was led to, so it was visited
            have hvadded := (h.mem_iff v).mpr ⟨u, hupre, hou, huv.to_reflTransGen⟩
            rw [List.mem_singleton.mp hvlast] at hvadded
            exact absurd hvadded hw
        · exact absurd (List.mem_singleton.mp hulast ▸ hou) hopens
      · rcases List.mem_append.mp hp with hp | hp
        · exact Or.inr ⟨p, hp, hop, hpv, fun s hs' => hfirst s (by simp [hs']), hs⟩
        · exact absurd (List.mem_singleton.mp hp ▸ hop) hopens

/-- A node visited below one before it is visited again, and nothing below it is. -/
theorem VisitsEach.again (h : VisitsEach g log opens pre added)
    (hrank : ∀ u ∈ pre, g.rank u < g.rank w) (hw : w ∈ added) {below : List α}
    (hbelow : Visits g (log ++ added ++ [w]) w below) :
    VisitsEach g log opens (pre ++ [w]) (added ++ [w] ++ below) := by
  obtain ⟨u, hu, hou, huw⟩ := (h.mem_iff w).mp hw
  have hlead : ∀ v, ReflTransGen (g.Edge log) w v → v ∈ added :=
    fun v hv => (h.mem_iff v).mpr ⟨u, hu, hou, huw.trans hv⟩
  have hnone : below = [] := by
    apply List.eq_nil_iff_forall_not_mem.mpr
    intro v hv
    have hpath := (hbelow.mem_iff v).mp hv
    have hfree := notMem_of_transGen hpath
    have hgrow : TransGen (g.Edge log) w v := by
      refine TransGen.mono (fun x y hxy => ⟨hxy.1, fun hy => hxy.2 ?_⟩) _ _ hpath
      simp [hy]
    exact hfree (by simp [hlead v hgrow.to_reflTransGen])
  have huw' : TransGen (g.Edge log) u w := by
    rcases reflTransGen_iff_eq_or_transGen.mp huw with rfl | hpath
    · exact absurd (hrank w hu) (Nat.lt_irrefl _)
    · exact hpath
  subst hnone
  rw [List.append_nil]
  refine ⟨fun v => ?_, fun v => ?_⟩
  · rw [List.mem_append, List.mem_singleton, h.mem_iff]
    constructor
    · rintro (⟨x, hx, hox, hxv⟩ | rfl)
      · exact ⟨x, by simp [hx], hox, hxv⟩
      · exact ⟨u, by simp [hu], hou, huw⟩
    · rintro ⟨x, hx, hox, hxv⟩
      rcases List.mem_append.mp hx with hx | hx
      · exact Or.inl ⟨x, hx, hox, hxv⟩
      · rw [List.mem_singleton.mp hx] at hxv
        exact Or.inl ((h.mem_iff v).mp (hlead v hxv))
  · by_cases hvw : v = w
    · subst hvw
      have hpos := List.count_pos_iff.mpr hw
      rw [List.count_append, List.count_singleton_self]
      refine ⟨fun _ => Or.inl ⟨u, by simp [hu], hou, huw', by simp⟩, fun _ => by omega⟩
    · rw [List.count_append, List.count_singleton, beq_false_of_ne (Ne.symm hvw)]
      by_cases hv : v ∈ added
      · rw [doubled_append_iff_of_led hrank hvw ((h.mem_iff v).mp hv), ← h.twice_iff]
        simp
      · have hzero := List.count_eq_zero.mpr hv
        simp only [hzero, Bool.false_eq_true, if_false, Nat.add_zero]
        refine ⟨fun h => by omega, fun hd => absurd ?_ hv⟩
        have hled : ∃ x ∈ pre ++ [w], opens x ∧ ReflTransGen (g.Edge log) x v := by
          rcases hd with ⟨x, hx, hox, hxv, -⟩ | ⟨x, hx, hox, hxv, -, -⟩
          · exact ⟨x, hx, hox, hxv.to_reflTransGen⟩
          · exact ⟨x, hx, hox, hxv.to_reflTransGen⟩
        obtain ⟨x, hx, hox, hxv⟩ := hled
        rcases List.mem_append.mp hx with hx | hx
        · exact (h.mem_iff v).mpr ⟨x, hx, hox, hxv⟩
        · rw [List.mem_singleton.mp hx] at hxv
          exact hlead v hxv

/-- A node visited for the first time, and what is below it. -/
theorem VisitsEach.fresh (h : VisitsEach g log opens pre added)
    (hrank : ∀ u ∈ pre, g.rank u < g.rank w) (hopens : opens w) (hw : w ∉ added)
    {below : List α} (hbelow : Visits g (log ++ added ++ [w]) w below) :
    VisitsEach g log opens (pre ++ [w]) (added ++ [w] ++ below) := by
  have hclosed : ∀ x v, x ∈ added → ReflTransGen (g.Edge log) x v → v ∈ added := by
    intro x v hx hxv
    obtain ⟨u, hu, hou, hux⟩ := (h.mem_iff x).mp hx
    exact (h.mem_iff v).mpr ⟨u, hu, hou, hux.trans hxv⟩
  have hspares : ∀ v, v ∉ added → Spares (g := g) log (log ++ added ++ [w]) w v := by
    intro v hv
    refine ⟨fun x hx => by simp [hx], fun x hwx hxv hx => ?_⟩
    simp only [List.mem_append, List.mem_singleton] at hx
    rcases hx with (hx | hx) | rfl
    · exact notMem_of_transGen hwx hx
    · exact hv (hclosed x v hx hxv)
    · exact acyclic x hwx
  have hbelow_log : ∀ v ∈ below, v ∉ log ++ added ++ [w] :=
    fun v hv => notMem_of_transGen ((hbelow.mem_iff v).mp hv)
  refine ⟨fun v => ?_, fun v => ?_⟩
  · constructor
    · intro hv
      simp only [List.mem_append, List.mem_singleton] at hv
      rcases hv with (hv | rfl) | hv
      · obtain ⟨u, hu, hou, huv⟩ := (h.mem_iff v).mp hv
        exact ⟨u, by simp [hu], hou, huv⟩
      · exact ⟨v, by simp, hopens, .refl⟩
      · have hfree := hbelow_log v hv
        have hpath := ((hspares v fun hmem => hfree (by simp [hmem])).transGen_iff .refl).mp
          ((hbelow.mem_iff v).mp hv)
        exact ⟨w, by simp, hopens, hpath.to_reflTransGen⟩
    · rintro ⟨x, hx, hox, hxv⟩
      by_cases hv : v ∈ added
      · simp [hv]
      · rcases List.mem_append.mp hx with hx | hx
        · exact absurd ((h.mem_iff v).mpr ⟨x, hx, hox, hxv⟩) hv
        · rw [List.mem_singleton.mp hx] at hxv
          rcases reflTransGen_iff_eq_or_transGen.mp hxv with rfl | hpath
          · simp
          · simp [(hbelow.mem_iff v).mpr (((hspares v hv).transGen_iff .refl).mpr hpath)]
  · rw [List.count_append, List.count_append, List.count_singleton]
    by_cases hv : v ∈ added
    · have hvw : v ≠ w := fun heq => hw (heq ▸ hv)
      have hzero : below.count v = 0 :=
        List.count_eq_zero.mpr fun hmem => hbelow_log v hmem (by simp [hv])
      rw [doubled_append_iff_of_led hrank hvw ((h.mem_iff v).mp hv), ← h.twice_iff, hzero,
        beq_false_of_ne (Ne.symm hvw)]
      simp
    · have hnone : ¬∃ u ∈ pre, opens u ∧ ReflTransGen (g.Edge log) u v :=
        fun hled => hv ((h.mem_iff v).mpr hled)
      rw [List.count_eq_zero.mpr hv]
      by_cases hvw : v = w
      · subst hvw
        have hzero : below.count v = 0 :=
          List.count_eq_zero.mpr fun hmem => hbelow_log v hmem (by simp)
        rw [hzero, beq_self_eq_true]
        refine ⟨fun h => by simp at h, fun hd => absurd ?_ hnone⟩
        rcases hd with ⟨u, hu, hou, huv, -⟩ | ⟨u, hu, hou, huv, -, -⟩
        · rcases List.mem_append.mp hu with hu | hu
          · exact ⟨u, hu, hou, huv.to_reflTransGen⟩
          · exact absurd (List.mem_singleton.mp hu ▸ huv) (acyclic v)
        · rcases List.mem_append.mp hu with hu | hu
          · exact ⟨u, hu, hou, huv.to_reflTransGen⟩
          · exact absurd (List.mem_singleton.mp hu ▸ huv) (acyclic v)
      · rw [beq_false_of_ne (Ne.symm hvw)]
        simp only [Bool.false_eq_true, if_false, Nat.zero_add]
        rw [hbelow.twice_iff, (hspares v hv).shortcut_iff .refl]
        constructor
        · intro hs
          refine Or.inr ⟨w, by simp, hopens, hs.leads, fun s hsmem hos hlt hsv => ?_, hs⟩
          rcases List.mem_append.mp hsmem with hsmem | hsmem
          · exact hnone ⟨s, hsmem, hos, hsv⟩
          · rw [List.mem_singleton.mp hsmem] at hlt
            exact Nat.lt_irrefl _ hlt
        · rintro (⟨u, hu, hou, huv, hvmem⟩ | ⟨p, hp, hop, hpv, -, hs⟩)
          · rcases List.mem_append.mp hu with hu | hu
            · exact absurd ⟨u, hu, hou, huv.to_reflTransGen⟩ hnone
            · rw [List.mem_singleton.mp hu] at huv
              rcases List.mem_append.mp hvmem with hvmem | hvmem
              · exact absurd huv (not_leads_back hrank hvmem)
              · exact absurd (List.mem_singleton.mp hvmem) hvw
          · rcases List.mem_append.mp hp with hp | hp
            · exact absurd ⟨p, hp, hop, hpv.to_reflTransGen⟩ hnone
            · exact List.mem_singleton.mp hp ▸ hs

/-- What visiting the nodes of a list comes to, given what a visit comes to. -/
theorem visitsEach_each {go : List α → α → List α} [DecidablePred opens]
    (hgo : ∀ log', ∀ w ∈ pre, ∃ below, go log' w = log' ++ below ∧ Visits g log' w below)
    (hsorted : pre.Pairwise fun x y => g.rank x < g.rank y) (hfree : ∀ w ∈ pre, w ∉ log) :
    ∃ added, each go opens pre log = log ++ added ∧ VisitsEach g log opens pre added := by
  induction pre using List.reverseRecOn with
  | nil => exact ⟨[], by simp [each], ⟨by simp, by simp [Doubled]⟩⟩
  | append_singleton pre w ih =>
      rw [List.pairwise_append] at hsorted
      have hrank : ∀ u ∈ pre, g.rank u < g.rank w :=
        fun u hu => hsorted.2.2 u hu w List.mem_cons_self
      obtain ⟨added, heach, hvisits⟩ := ih (fun log' u hu => hgo log' u (by simp [hu]))
        hsorted.1 fun u hu => hfree u (by simp [hu])
      have hwlog : w ∉ log := hfree w (by simp)
      have hstep : each go opens (pre ++ [w]) log =
          if opens w ∨ w ∈ log ++ added then go (log ++ added ++ [w]) w else log ++ added := by
        rw [each_concat, heach]
      obtain ⟨below, hbelow, hbelowVisits⟩ := hgo (log ++ added ++ [w]) w (by simp)
      by_cases hw : w ∈ added
      · refine ⟨added ++ [w] ++ below, ?_, hvisits.again hrank hw hbelowVisits⟩
        rw [hstep, if_pos (Or.inr (by simp [hw])), hbelow]
        simp
      · by_cases hopens : opens w
        · refine ⟨added ++ [w] ++ below, ?_, hvisits.fresh hrank hopens hw hbelowVisits⟩
          rw [hstep, if_pos (Or.inl hopens), hbelow]
          simp
        · refine ⟨added, ?_, hvisits.skip hopens hw⟩
          rw [hstep, if_neg (by simp [hopens, hwlog, hw])]

theorem visits_visit (depth : Nat) (log : List α) (c : α) (hdepth : g.bound ≤ depth + g.rank c) :
    ∃ added, visit g depth log c = log ++ added ∧ Visits g log c added := by
  induction depth generalizing log c with
  | zero =>
      have hnone : ∀ w, ¬g.Edge log c w := by
        intro w hw
        have hlow := hw.rank_lt
        have hhigh := g.rank_lt_bound hw.1
        omega
      have hpath : ∀ v, ¬TransGen (g.Edge log) c v := by
        intro v hv
        obtain ⟨w, hw, -⟩ := TransGen.head'_iff.mp hv
        exact hnone w hw
      exact ⟨[], by simp [visit], fun v => by simp [hpath v],
        fun v => ⟨fun h => by simp at h, fun h => absurd h.leads (hpath v)⟩⟩
  | succ depth ih =>
      have hmem : ∀ w, w ∈ (g.succ c).filter (fun w => decide (w ∉ log)) ↔ g.Edge log c w := by
        intro w
        simp [Edge]
      have hgo : ∀ log', ∀ w ∈ (g.succ c).filter (fun w => decide (w ∉ log)),
          ∃ below, visit g depth log' w = log' ++ below ∧ Visits g log' w below := by
        intro log' w hw
        have hlt := ((hmem w).mp hw).rank_lt
        exact ih log' w (by omega)
      obtain ⟨added, hadded, hvisits⟩ : ∃ added, visit g (depth + 1) log c = log ++ added ∧
          VisitsEach g log (fun _ => True) _ added :=
        visitsEach_each hgo ((g.sorted c).sublist List.filter_sublist) fun w hw => ((hmem w).mp hw).2
      refine ⟨added, hadded, fun v => ?_, fun v => ?_⟩
      · rw [hvisits.mem_iff, TransGen.head'_iff]
        exact exists_congr fun w => by rw [hmem]; simp
      · rw [hvisits.twice_iff]
        constructor
        · rintro (⟨w, hw, -, hwv, hv⟩ | ⟨p, hp, -, hpv, hfirst, hs⟩)
          · exact .again ((hmem w).mp hw) hwv ((hmem v).mp hv)
          · exact .along ((hmem p).mp hp) hpv
              (fun s hs' hlt => hfirst s ((hmem s).mpr hs') trivial hlt) hs
        · intro hs
          cases hs with
          | again hw hwv hv => exact Or.inl ⟨_, (hmem _).mpr hw, trivial, hwv, (hmem v).mpr hv⟩
          | along hp hpv hfirst hs =>
              exact Or.inr ⟨_, (hmem _).mpr hp, trivial, hpv,
                fun s hs' _ hlt => hfirst s ((hmem s).mp hs') hlt, hs⟩

end Visits

end Dag

end FleetRunner.Library
