import FleetRunner.Js.Value
import FleetRunner.Library.Sorting
import Mathlib.Algebra.Order.Ring.Rat
import Mathlib.Tactic.Linarith
import Mathlib.Tactic.Ring

/-!
# The energy of a window (`watts.ts`)

A plug's readings are integrated over a window by trapezoids: from each reading in the
window to the next, unless they are too far apart.

A window that is cut at a reading has that reading on both sides, so that no trapezoid
is lost at the cut and none is cut through. Numbers are exact here.
-/

namespace FleetRunner.Watts

structure WattSample where
  t : JsNum
  w : JsNum

structure Integration where
  wh : Option Rat
  wh_raw : Option Rat
  samples : Nat
  covered_ms : Rat
  window_ms : Rat
  gaps : Nat

/-- A reading: its time and its watts, both finite. -/
abbrev Reading := Rat × Rat

def finite? : WattSample → Option Reading
  | ⟨.fin t, .fin w⟩ => some (t, w)
  | _ => none

/-- The samples that are readings. -/
def readings (samples : List WattSample) : List Reading := samples.filterMap finite?

/-- `a.t - b.t` does not put `a` behind `b`. -/
def NotLater (a b : Reading) : Prop := a.1 ≤ b.1

instance : DecidableRel NotLater := fun a b => inferInstanceAs (Decidable (a.1 ≤ b.1))

instance : Std.Total NotLater := ⟨fun a b => le_total a.1 b.1⟩

instance : IsTrans Reading NotLater := ⟨fun _ _ _ hab hbc => le_trans hab hbc⟩

def inWindow (samples : List WattSample) (fromMs toMs : Rat) : List Reading :=
  ((readings samples).filter fun s => decide (fromMs ≤ s.1) && decide (s.1 ≤ toMs)).insertionSort
    NotLater

/-- What the loop adds up. -/
structure Totals where
  joulesRaw : Rat
  joulesNet : Rat
  covered_ms : Rat
  gaps : Nat

section Loop

variable (baselineW maxGapMs : Rat)

/-- One turn of the loop, from a reading to the next. -/
def turn (acc : Totals) (a b : Reading) : Totals :=
  let dt := b.1 - a.1
  if dt ≤ 0 then acc
  else if maxGapMs < dt then { acc with gaps := acc.gaps + 1 }
  else
    let mean := (a.2 + b.2) / 2
    { acc with
      joulesRaw := acc.joulesRaw + mean * dt
      joulesNet := acc.joulesNet + (mean - baselineW) * dt
      covered_ms := acc.covered_ms + dt }

def loop (acc : Totals) : List Reading → Totals
  | a :: b :: rest => loop (turn baselineW maxGapMs acc a b) (b :: rest)
  | _ => acc

end Loop

def toWh (x : Rat) : Rat := x / 3600000

def integrateWh (samples : List WattSample) (fromMs toMs : Rat) (baselineW maxGapMs : Option Rat) :
    Integration :=
  let baselineW := baselineW.getD 0
  let maxGapMs := maxGapMs.getD (5 * 60000)
  let window_ms := max 0 (toMs - fromMs)
  let inWindow := inWindow samples fromMs toMs
  if inWindow.length < 2 then
    { wh := none, wh_raw := none, samples := inWindow.length, covered_ms := 0,
      window_ms := window_ms, gaps := 0 }
  else
    let totals := loop baselineW maxGapMs ⟨0, 0, 0, 0⟩ inWindow
    { wh := if totals.covered_ms = 0 then none else some (toWh totals.joulesNet)
      wh_raw := if totals.covered_ms = 0 then none else some (toWh totals.joulesRaw)
      samples := inWindow.length
      covered_ms := totals.covered_ms
      window_ms := window_ms
      gaps := totals.gaps }

/-! ## Totals -/

namespace Totals

def zero : Totals := ⟨0, 0, 0, 0⟩

def add (x y : Totals) : Totals :=
  ⟨x.joulesRaw + y.joulesRaw, x.joulesNet + y.joulesNet, x.covered_ms + y.covered_ms,
    x.gaps + y.gaps⟩

theorem add_add (x y z : Totals) : (x.add y).add z = x.add (y.add z) := by
  simp only [add, add_assoc]

theorem add_none (x : Totals) : x.add zero = x := by
  simp only [add, zero, add_zero]

theorem none_add (x : Totals) : zero.add x = x := by
  simp only [add, zero, zero_add]

end Totals

section Sums

variable (b g : Rat)

/-- What a turn adds. -/
def segment (x y : Reading) : Totals := turn b g .zero x y

theorem turn_eq (acc : Totals) (x y : Reading) : turn b g acc x y = acc.add (segment b g x y) := by
  unfold segment turn
  dsimp only
  split
  · exact acc.add_none.symm
  · split <;> simp [Totals.add, Totals.zero]

theorem loop_eq (acc : Totals) (l : List Reading) :
    loop b g acc l = acc.add (loop b g .zero l) := by
  induction l generalizing acc with
  | nil => exact acc.add_none.symm
  | cons x l ih =>
    cases l with
    | nil => exact acc.add_none.symm
    | cons y l =>
      rw [loop, ih, turn_eq, loop, ih (turn b g .zero x y), Totals.add_add]
      rfl

/-- The totals of readings in order. -/
def total (l : List Reading) : Totals := loop b g .zero l

theorem total_cons (x y : Reading) (l : List Reading) :
    total b g (x :: y :: l) = (segment b g x y).add (total b g (y :: l)) := by
  rw [total, loop, loop_eq]
  rfl

/-- A list of readings that is cut at one of them. -/
theorem total_append (pre : List Reading) (m : Reading) (post : List Reading) :
    total b g (pre ++ m :: post) = (total b g (pre ++ [m])).add (total b g (m :: post)) := by
  induction pre with
  | nil => exact (Totals.none_add _).symm
  | cons x pre ih =>
    cases pre with
    | nil =>
      rw [List.singleton_append, List.singleton_append, total_cons, total_cons]
      exact congrArg₂ Totals.add (Totals.add_none _).symm rfl
    | cons y pre =>
      rw [List.cons_append, List.cons_append, List.cons_append, List.cons_append, total_cons,
        total_cons, Totals.add_add]
      exact congrArg (Totals.add _) ih

/-- The net energy is the raw energy less the baseline's, over the time that is covered. -/
theorem total_net (l : List Reading) : (total b g l).joulesNet =
    (total b g l).joulesRaw - b * (total b g l).covered_ms := by
  induction l with
  | nil => simp [total, loop, Totals.zero]
  | cons x l ih =>
    cases l with
    | nil => simp [total, loop, Totals.zero]
    | cons y l =>
      have hsegment : (segment b g x y).joulesNet =
          (segment b g x y).joulesRaw - b * (segment b g x y).covered_ms := by
        unfold segment turn
        dsimp only
        split
        · simp [Totals.zero]
        · split
          · simp [Totals.zero]
          · simp only [Totals.zero]
            ring
      rw [total_cons]
      simp only [Totals.add, hsegment, ih]
      ring

/-- A segment covers its time at most; where it covers none it has no energy. -/
theorem segment_covered (x y : Reading) (hxy : x.1 ≤ y.1) :
    0 ≤ (segment b g x y).covered_ms ∧ (segment b g x y).covered_ms ≤ y.1 - x.1 ∧
      ((segment b g x y).covered_ms = 0 → (segment b g x y).joulesRaw = 0) := by
  unfold segment turn
  dsimp only
  split
  · exact ⟨le_refl 0, by simpa [Totals.zero] using hxy, fun _ => rfl⟩
  · next hdt =>
    split
    · exact ⟨le_refl 0, by simpa [Totals.zero] using hxy, fun _ => rfl⟩
    · simp only [Totals.zero, zero_add]
      exact ⟨by linarith, le_refl _, fun h => absurd h.le hdt⟩

/-- The same of readings in order. -/
theorem total_covered (x : Reading) (l : List Reading) (hl : (x :: l).Pairwise NotLater) :
    0 ≤ (total b g (x :: l)).covered_ms ∧
      (total b g (x :: l)).covered_ms ≤ ((x :: l).getLast (List.cons_ne_nil x l)).1 - x.1 ∧
      ((total b g (x :: l)).covered_ms = 0 → (total b g (x :: l)).joulesRaw = 0) := by
  induction l generalizing x with
  | nil => exact ⟨le_refl 0, by simp [total, loop, Totals.zero], fun _ => rfl⟩
  | cons y l ih =>
    obtain ⟨hx, hrest⟩ := List.pairwise_cons.mp hl
    obtain ⟨hnonneg, hle, hzero⟩ := ih y hrest
    obtain ⟨hnonneg', hle', hzero'⟩ := segment_covered b g x y (hx y List.mem_cons_self)
    rw [total_cons, List.getLast_cons (List.cons_ne_nil y l)]
    simp only [Totals.add]
    refine ⟨by linarith, by linarith, fun h => ?_⟩
    rw [hzero' (by linarith), hzero (by linarith), add_zero]

end Sums

/-! ## Windows -/

/-- The times of the readings are distinct. -/
def Distinct (samples : List WattSample) : Prop := ((readings samples).map Prod.fst).Nodup

section Windows

variable {samples : List WattSample} {fromMs midMs toMs : Rat}

theorem mem_inWindow {s : Reading} : s ∈ inWindow samples fromMs toMs ↔
    s ∈ readings samples ∧ fromMs ≤ s.1 ∧ s.1 ≤ toMs := by
  simp [inWindow, List.mem_insertionSort]

/-- A list in strict order is determined by its readings. -/
theorem eq_of_strict {l l' : List Reading} (hl : l.Pairwise fun a b => a.1 < b.1)
    (hl' : l'.Pairwise fun a b => a.1 < b.1) (hmem : ∀ s, s ∈ l ↔ s ∈ l') : l = l' := by
  have hnodup : ∀ {xs : List Reading}, (xs.Pairwise fun a b => a.1 < b.1) → xs.Nodup :=
    fun hxs => hxs.imp fun hlt heq => (heq ▸ hlt).false
  have hperm : l.Perm l' := (List.perm_ext_iff_of_nodup (hnodup hl) (hnodup hl')).mpr hmem
  exact hperm.eq_of_pairwise (fun a b _ _ hab hba => absurd (hab.trans hba) (lt_irrefl _)) hl hl'

theorem sorted_inWindow (hdistinct : Distinct samples) (fromMs toMs : Rat) :
    (inWindow samples fromMs toMs).Pairwise fun a b => a.1 < b.1 := by
  have hsorted : (inWindow samples fromMs toMs).Pairwise NotLater := List.pairwise_insertionSort _ _
  have hperm : (inWindow samples fromMs toMs).Perm _ := List.perm_insertionSort _ _
  have hnodup : ((inWindow samples fromMs toMs).map Prod.fst).Nodup :=
    (hperm.map Prod.fst).nodup_iff.mpr (hdistinct.sublist (List.filter_sublist.map Prod.fst))
  exact (hsorted.and (List.pairwise_map.mp hnodup)).imp fun h => lt_of_le_of_ne h.1 h.2

/-- With distinct times the window's readings are the ones in it, in strict order. -/
theorem inWindow_eq (hdistinct : Distinct samples) {l : List Reading}
    (hl : l.Pairwise fun a b => a.1 < b.1)
    (hmem : ∀ s, s ∈ l ↔ s ∈ readings samples ∧ fromMs ≤ s.1 ∧ s.1 ≤ toMs) :
    inWindow samples fromMs toMs = l :=
  eq_of_strict (sorted_inWindow hdistinct fromMs toMs) hl fun s =>
    mem_inWindow.trans (hmem s).symm

/-- A window that is cut at a reading. -/
theorem inWindow_cut (hdistinct : Distinct samples) (hfrom : fromMs ≤ midMs) (hto : midMs ≤ toMs)
    (hmid : midMs ∈ (readings samples).map Prod.fst) : ∃ pre m post,
      inWindow samples fromMs toMs = pre ++ m :: post ∧
      inWindow samples fromMs midMs = pre ++ [m] ∧ inWindow samples midMs toMs = m :: post := by
  obtain ⟨m, hm, rfl⟩ := List.mem_map.mp hmid
  obtain ⟨pre, post, hcut⟩ := List.append_of_mem (mem_inWindow.mpr ⟨hm, hfrom, hto⟩)
  have hsorted := sorted_inWindow hdistinct fromMs toMs
  have hmem : ∀ s, s ∈ pre ++ m :: post ↔ s ∈ readings samples ∧ fromMs ≤ s.1 ∧ s.1 ≤ toMs :=
    fun s => hcut ▸ mem_inWindow
  rw [hcut] at hsorted
  obtain ⟨hpre, hpost, hacross⟩ := List.pairwise_append.mp hsorted
  obtain ⟨hbehind, hpost⟩ := List.pairwise_cons.mp hpost
  have hbefore : ∀ s ∈ pre, s.1 < m.1 := fun s hs => hacross s hs m List.mem_cons_self
  refine ⟨pre, m, post, hcut, inWindow_eq hdistinct ?_ fun s => ?_,
    inWindow_eq hdistinct (List.pairwise_cons.mpr ⟨hbehind, hpost⟩) fun s => ?_⟩
  · refine List.pairwise_append.mpr ⟨hpre, List.pairwise_singleton _ _, fun s hs t ht => ?_⟩
    exact List.mem_singleton.mp ht ▸ hbefore s hs
  · have hs := hmem s
    rw [List.mem_append, List.mem_cons] at hs
    rw [List.mem_append, List.mem_singleton]
    constructor
    · rintro (hin | rfl)
      · obtain ⟨hread, hge, -⟩ := hs.mp (.inl hin)
        exact ⟨hread, hge, (hbefore s hin).le⟩
      · exact ⟨hm, hfrom, le_refl _⟩
    · rintro ⟨hread, hge, hle⟩
      rcases hs.mpr ⟨hread, hge, hle.trans hto⟩ with hin | rfl | hin
      · exact .inl hin
      · exact .inr rfl
      · exact absurd (hbehind s hin) (not_lt.mpr hle)
  · have hs := hmem s
    rw [List.mem_append, List.mem_cons] at hs
    rw [List.mem_cons]
    constructor
    · rintro (rfl | hin)
      · exact ⟨hm, le_refl _, hto⟩
      · obtain ⟨hread, -, hle⟩ := hs.mp (.inr (.inr hin))
        exact ⟨hread, (hbehind s hin).le, hle⟩
    · rintro ⟨hread, hge, hle⟩
      rcases hs.mpr ⟨hread, hfrom.trans hge, hle⟩ with hin | hin
      · exact absurd (hbefore s hin) (not_lt.mpr hge)
      · exact hin

theorem inWindow_perm (hdistinct : Distinct samples) {shuffled : List WattSample}
    (hperm : samples.Perm shuffled) (fromMs toMs : Rat) :
    inWindow shuffled fromMs toMs = inWindow samples fromMs toMs := by
  have hreadings : (readings samples).Perm (readings shuffled) := hperm.filterMap finite?
  have hshuffled : Distinct shuffled := (hreadings.map Prod.fst).nodup_iff.mp hdistinct
  refine inWindow_eq hshuffled (sorted_inWindow hdistinct fromMs toMs) fun s => ?_
  rw [mem_inWindow, hreadings.mem_iff]

end Windows

/-! ## The integral -/

/-- The integral of a window is that of the totals, with null for no time. -/
structure Reports (i : Integration) (t : Totals) : Prop where
  covered : i.covered_ms = t.covered_ms
  gaps : i.gaps = t.gaps
  wh : i.wh = if t.covered_ms = 0 then none else some (toWh t.joulesNet)
  wh_raw : i.wh_raw = if t.covered_ms = 0 then none else some (toWh t.joulesRaw)

section Integral

variable (samples : List WattSample) (baselineW maxGapMs : Option Rat)

/-- The totals of a window. -/
def windowTotal (fromMs toMs : Rat) : Totals :=
  total (baselineW.getD 0) (maxGapMs.getD (5 * 60000)) (inWindow samples fromMs toMs)

theorem reports (fromMs toMs : Rat) :
    Reports (integrateWh samples fromMs toMs baselineW maxGapMs)
      (windowTotal samples baselineW maxGapMs fromMs toMs) := by
  unfold integrateWh windowTotal
  dsimp only
  split
  · next hfew =>
    have hnone : ∀ b g, total b g (inWindow samples fromMs toMs) = .zero := fun b g => by
      match inWindow samples fromMs toMs, hfew with
      | [], _ => rfl
      | [_], _ => rfl
    rw [hnone]
    exact ⟨rfl, rfl, rfl, rfl⟩
  · exact ⟨rfl, rfl, rfl, rfl⟩

variable {samples baselineW maxGapMs}

/-- A window covers no more than its length, and no time has no energy. -/
theorem windowTotal_covered (hdistinct : Distinct samples) (fromMs toMs : Rat) :
    (windowTotal samples baselineW maxGapMs fromMs toMs).covered_ms ≤ max 0 (toMs - fromMs) ∧
      ((windowTotal samples baselineW maxGapMs fromMs toMs).covered_ms = 0 →
        (windowTotal samples baselineW maxGapMs fromMs toMs).joulesRaw = 0) := by
  unfold windowTotal
  cases hl : inWindow samples fromMs toMs with
  | nil => exact ⟨le_max_left _ _, fun _ => rfl⟩
  | cons x l =>
    have hsorted := sorted_inWindow hdistinct fromMs toMs
    rw [hl] at hsorted
    have hbound : ∀ s ∈ x :: l, fromMs ≤ s.1 ∧ s.1 ≤ toMs := fun s hs =>
      (mem_inWindow.mp (hl ▸ hs)).2
    obtain ⟨-, hle, hzero⟩ := total_covered (baselineW.getD 0) (maxGapMs.getD (5 * 60000)) x l
      (hsorted.imp fun h => h.le)
    refine ⟨le_max_of_le_right ?_, hzero⟩
    have hlast := (hbound _ (List.getLast_mem (List.cons_ne_nil x l))).2
    have hfirst := (hbound x List.mem_cons_self).1
    linarith

theorem windowTotal_net (fromMs toMs : Rat) :
    (windowTotal samples baselineW maxGapMs fromMs toMs).joulesNet =
      (windowTotal samples baselineW maxGapMs fromMs toMs).joulesRaw -
        baselineW.getD 0 * (windowTotal samples baselineW maxGapMs fromMs toMs).covered_ms :=
  total_net _ _ _

theorem getD_wh (hdistinct : Distinct samples) (fromMs toMs : Rat) :
    (integrateWh samples fromMs toMs baselineW maxGapMs).wh.getD 0 =
        toWh (windowTotal samples baselineW maxGapMs fromMs toMs).joulesNet ∧
      (integrateWh samples fromMs toMs baselineW maxGapMs).wh_raw.getD 0 =
        toWh (windowTotal samples baselineW maxGapMs fromMs toMs).joulesRaw := by
  have hreports := reports samples baselineW maxGapMs fromMs toMs
  have hzero : (windowTotal samples baselineW maxGapMs fromMs toMs).covered_ms = 0 →
      (windowTotal samples baselineW maxGapMs fromMs toMs).joulesRaw = 0 :=
    (windowTotal_covered hdistinct fromMs toMs).2
  rw [hreports.wh, hreports.wh_raw]
  split
  · next hcovered =>
    have hnet : (windowTotal samples baselineW maxGapMs fromMs toMs).joulesNet = 0 := by
      rw [windowTotal_net, hzero hcovered, hcovered, mul_zero, sub_zero]
    rw [hnet, hzero hcovered]
    simp [toWh]
  · exact ⟨rfl, rfl⟩

theorem window_ms_eq (fromMs toMs : Rat) :
    (integrateWh samples fromMs toMs baselineW maxGapMs).window_ms = max 0 (toMs - fromMs) := by
  unfold integrateWh
  dsimp only
  split <;> rfl

theorem windowTotal_cut (hdistinct : Distinct samples) {fromMs midMs toMs : Rat}
    (hfrom : fromMs ≤ midMs) (hto : midMs ≤ toMs)
    (hmid : midMs ∈ (readings samples).map Prod.fst) :
    windowTotal samples baselineW maxGapMs fromMs toMs =
      (windowTotal samples baselineW maxGapMs fromMs midMs).add
        (windowTotal samples baselineW maxGapMs midMs toMs) := by
  obtain ⟨pre, m, post, hwhole, hleft, hright⟩ := inWindow_cut hdistinct hfrom hto hmid
  unfold windowTotal
  rw [hwhole, hleft, hright, total_append]

/-- The figures over the whole are the sums of those over its parts, with null as 0. -/
structure Splits (whole left right : Integration) : Prop where
  covered : whole.covered_ms = left.covered_ms + right.covered_ms
  gaps : whole.gaps = left.gaps + right.gaps
  wh : whole.wh.getD 0 = left.wh.getD 0 + right.wh.getD 0
  wh_raw : whole.wh_raw.getD 0 = left.wh_raw.getD 0 + right.wh_raw.getD 0

theorem toWh_add (x y : Rat) : toWh (x + y) = toWh x + toWh y := add_div x y 3600000

/-- Totals that add up make integrals that do. -/
theorem splits_of_total {fromMs midMs toMs : Rat}
    (hcut : windowTotal samples baselineW maxGapMs fromMs toMs =
      (windowTotal samples baselineW maxGapMs fromMs midMs).add
        (windowTotal samples baselineW maxGapMs midMs toMs))
    (hdistinct : Distinct samples) :
    Splits (integrateWh samples fromMs toMs baselineW maxGapMs)
      (integrateWh samples fromMs midMs baselineW maxGapMs)
      (integrateWh samples midMs toMs baselineW maxGapMs) := by
  have hwhole := reports samples baselineW maxGapMs fromMs toMs
  have hleft := reports samples baselineW maxGapMs fromMs midMs
  have hright := reports samples baselineW maxGapMs midMs toMs
  constructor
  · rw [hwhole.covered, hleft.covered, hright.covered, hcut]
    rfl
  · rw [hwhole.gaps, hleft.gaps, hright.gaps, hcut]
    rfl
  · rw [(getD_wh hdistinct fromMs toMs).1, (getD_wh hdistinct fromMs midMs).1,
      (getD_wh hdistinct midMs toMs).1, hcut]
    exact toWh_add _ _
  · rw [(getD_wh hdistinct fromMs toMs).2, (getD_wh hdistinct fromMs midMs).2,
      (getD_wh hdistinct midMs toMs).2, hcut]
    exact toWh_add _ _

end Integral

/-- Energy is additive where a window is cut at a reading, and does not depend on the order of the
samples; the time covered is in the window, and the baseline is taken off over that time. -/
theorem integrateWh_splits (samples : List WattSample) (hdistinct : Distinct samples)
    (baselineW maxGapMs : Option Rat) :
    (∀ fromMs midMs toMs, fromMs ≤ midMs → midMs ≤ toMs →
      midMs ∈ (readings samples).map Prod.fst →
      Splits (integrateWh samples fromMs toMs baselineW maxGapMs)
        (integrateWh samples fromMs midMs baselineW maxGapMs)
        (integrateWh samples midMs toMs baselineW maxGapMs)) ∧
    ∀ fromMs toMs,
      (∀ shuffled, samples.Perm shuffled → integrateWh shuffled fromMs toMs baselineW maxGapMs =
        integrateWh samples fromMs toMs baselineW maxGapMs) ∧
      (integrateWh samples fromMs toMs baselineW maxGapMs).covered_ms ≤
        (integrateWh samples fromMs toMs baselineW maxGapMs).window_ms ∧
      (integrateWh samples fromMs toMs baselineW maxGapMs).wh =
        (integrateWh samples fromMs toMs baselineW maxGapMs).wh_raw.map fun raw =>
          raw - baselineW.getD 0 *
            ((integrateWh samples fromMs toMs baselineW maxGapMs).covered_ms / 3600000) := by
  refine ⟨fun fromMs midMs toMs hfrom hto hmid => ?_, fun fromMs toMs => ⟨fun shuffled hperm => ?_,
    ?_, ?_⟩⟩
  · exact splits_of_total (windowTotal_cut hdistinct hfrom hto hmid) hdistinct
  · unfold integrateWh
    rw [inWindow_perm hdistinct hperm]
  · rw [(reports samples baselineW maxGapMs fromMs toMs).covered, window_ms_eq]
    exact (windowTotal_covered hdistinct fromMs toMs).1
  · have hreports := reports samples baselineW maxGapMs fromMs toMs
    rw [hreports.wh, hreports.wh_raw, hreports.covered]
    split
    · rfl
    · rw [Option.map_some, windowTotal_net]
      exact congrArg some (by unfold toWh; ring)

/-- Three readings, the second of which is where the window is cut. -/
def three : List WattSample :=
  [⟨.fin 0, .fin 10⟩, ⟨.fin 60000, .fin 30⟩, ⟨.fin 120000, .fin 20⟩]

theorem three_splits : Distinct three ∧ Splits (integrateWh three 0 120000 (some 4) none)
    (integrateWh three 0 60000 (some 4) none) (integrateWh three 60000 120000 (some 4) none) := by
  have hreadings : readings three = [(0, 10), (60000, 30), (120000, 20)] := rfl
  have hdistinct : Distinct three := by
    unfold Distinct
    rw [hreadings]
    decide
  refine ⟨hdistinct, (integrateWh_splits three hdistinct (some 4) none).1 0 60000 120000
    (by norm_num) (by norm_num) ?_⟩
  rw [hreadings]
  decide

end FleetRunner.Watts
