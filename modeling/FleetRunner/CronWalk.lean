import FleetRunner.Cron
import Mathlib.Data.Int.ConditionallyCompleteOrder
import Mathlib.Order.Monotone.Basic

/-!
# The next and the previous run (`cron.ts`)

The walk goes from minute to minute for seven days, away from the minute it is
asked in. Local time is at a fixed offset from UTC.

## Implementation notes

A date is its milliseconds, or nothing when it is invalid: no field of an
invalid date equals or exceeds a number, so no expression matches it.
-/

namespace FleetRunner

namespace Cron

/-! ## Dates -/

abbrev Date := Option Int

/-- The furthest instant from 1970 that a date can be. -/
def maxTime : Int := 8640000000000000

def timeClip (ms : Int) : Date := if -maxTime ≤ ms ∧ ms ≤ maxTime then some ms else none

/-- A date that is valid. -/
structure Instant where
  ms : Int
  valid : -maxTime ≤ ms ∧ ms ≤ maxTime

section Clock

-- minutes from UTC
variable (offset : Int)

def localTime (t : Int) : Int := t + offset * 60000

def dayOf (t : Int) : Int := localTime offset t / 86400000

def getHours (t : Int) : Int := localTime offset t / 3600000 % 24

def getMinutes (t : Int) : Int := localTime offset t / 60000 % 60

def getSeconds (t : Int) : Int := localTime offset t / 1000 % 60

def getMilliseconds (t : Int) : Int := localTime offset t % 1000

/-- Day 0 was a Thursday. -/
def getDay (t : Int) : Int := (dayOf offset t + 4) % 7

/-- Month from 1 and day of month, counted in eras of 400 years that begin in March. -/
def monthAndDate (day : Int) : Int × Int :=
  let ofEra := (day + 719468) % 146097
  let yearOfEra := (ofEra - ofEra / 1460 + ofEra / 36524 - ofEra / 146096) / 365
  let ofYear := ofEra - (365 * yearOfEra + yearOfEra / 4 - yearOfEra / 100)
  let fromMarch := (5 * ofYear + 2) / 153
  (if fromMarch < 10 then fromMarch + 3 else fromMarch - 9, ofYear - (153 * fromMarch + 2) / 5 + 1)

def getDate (t : Int) : Int := (monthAndDate (dayOf offset t)).2

/-- `getMonth() + 1` -/
def month (t : Int) : Int := (monthAndDate (dayOf offset t)).1

def makeDate (day hours minutes seconds ms : Int) : Int :=
  day * 86400000 + hours * 3600000 + minutes * 60000 + seconds * 1000 + ms

/-- `d.setSeconds(0, 0)` -/
def wholeMinute (t : Int) : Date :=
  timeClip (makeDate (dayOf offset t) (getHours offset t) (getMinutes offset t) 0 0 - offset * 60000)

def setMinutes (t minutes : Int) : Date :=
  timeClip (makeDate (dayOf offset t) (getHours offset t) minutes (getSeconds offset t)
    (getMilliseconds offset t) - offset * 60000)

theorem wholeMinute_eq (t : Int) : wholeMinute offset t = timeClip (60000 * (t / 60000)) := by
  simp only [wholeMinute, makeDate, dayOf, getHours, getMinutes, localTime]
  congr 1
  omega

theorem setMinutes_add (t step : Int) :
    setMinutes offset t (getMinutes offset t + step) = timeClip (t + 60000 * step) := by
  simp only [setMinutes, makeDate, dayOf, getHours, getMinutes, getSeconds, getMilliseconds,
    localTime]
  congr 1
  omega

end Clock

example : monthAndDate 0 = (1, 1) ∧ monthAndDate 20745 = (10, 19) := by decide

/-! ## The walk -/

section Walk

variable (offset : Int) (expr : String)

def dateValues (t : Int) : List Int :=
  [getMinutes offset t, getHours offset t, getDate offset t, month offset t, getDay offset t]

def cronMatches (date : Date) : Bool :=
  match date with
  | none => false
  | some t =>
    (fields expr).length = 5 &&
      (fields expr).zipIdx.all fun p => fieldMatches p.1 ((dateValues offset t).getD p.2 0) p.2

def HORIZON_MINUTES : Nat := 7 * 24 * 60

def walkFrom (step : Int) : Nat → Date → Date
  | 0, _ => none
  | n + 1, d =>
    let d := d.bind fun t => setMinutes offset t (getMinutes offset t + step)
    if cronMatches offset expr d then d else walkFrom step n d

def walk (t : Instant) (step : Int) : Date :=
  if isValidCron expr then walkFrom offset expr step HORIZON_MINUTES (wholeMinute offset t.ms)
  else none

def nextRun (t : Instant) : Date := walk offset expr t 1

def prevRun (t : Instant) : Date := walk offset expr t (-1)

end Walk

/-! ## The first of some -/

/-- Nothing from `a` to `b`, or the first there is. -/
def First (h : Nat → Prop) (a b : Nat) : Option Nat → Prop
  | none => ∀ j, a ≤ j → j < b → ¬ h j
  | some j => a ≤ j ∧ j < b ∧ h j ∧ ∀ i, a ≤ i → i < j → ¬ h i

/-- The first after a place is also the first from it on, one place shorter, unless the place
itself or only the last one counts. -/
theorem First.shift_iff {h : Nat → Prop} {n : Nat} (hn : 0 < n) {r : Option Nat}
    (hr : First h 1 (n + 1) r) :
    First h 0 n r ↔ ¬ h 0 ∧ (h n → ∃ j, 0 < j ∧ j < n ∧ h j) := by
  cases r with
  | none =>
      constructor
      · intro h0
        exact ⟨h0 0 (Nat.le_refl 0) hn, fun hlast => absurd hlast (hr n hn (Nat.lt_succ_self n))⟩
      · rintro ⟨h0, -⟩ j - hj
        rcases Nat.eq_zero_or_pos j with rfl | hpos
        · exact h0
        · exact hr j hpos (Nat.lt_succ_of_lt hj)
  | some j =>
      obtain ⟨hpos, hlt, hj, hbefore⟩ := hr
      constructor
      · rintro ⟨-, hjn, -, hnone⟩
        exact ⟨hnone 0 (Nat.le_refl 0) hpos, fun _ => ⟨j, hpos, hjn, hj⟩⟩
      · rintro ⟨h0, hlast⟩
        have hjn : j < n := by
          rcases Nat.lt_or_eq_of_le (Nat.lt_succ_iff.mp hlt) with hlt | rfl
          · exact hlt
          · obtain ⟨i, hi, hin, hhit⟩ := hlast hj
            exact absurd hhit (hbefore i hi hin)
        refine ⟨Nat.zero_le j, hjn, hj, fun i _ hij => ?_⟩
        rcases Nat.eq_zero_or_pos i with rfl | hi
        · exact h0
        · exact hbefore i hi hij

/-- A date that is the least, or the greatest, of a set; no date for the empty set. -/
def Picks (best : Set Int → Int → Prop) (s : Set Int) : Date → Prop
  | none => s = ∅
  | some m => best s m

section Picks

variable {h : Nat → Prop} {a b : Nat} {f : Nat → Int} {s : Set Int}

/-- `f` carries the order of the numbers to the order that `best` is the best in. -/
theorem picks_iff {best : Set Int → Int → Prop} {le : Int → Int → Prop}
    (hbest : ∀ s m, best s m ↔ m ∈ s ∧ ∀ x ∈ s, le m x) (hf : ∀ i j, le (f i) (f j) ↔ i ≤ j)
    (hinj : f.Injective) (hs : ∀ m, m ∈ s ↔ ∃ j, a ≤ j ∧ j < b ∧ h j ∧ m = f j) (r : Option Nat) :
    Picks best s (r.map f) ↔ First h a b r := by
  cases r with
  | none =>
      simp only [Option.map_none, Picks, First, Set.eq_empty_iff_forall_notMem, hs]
      constructor
      · intro hnone j ha hb hj
        exact hnone (f j) ⟨j, ha, hb, hj, rfl⟩
      · rintro hnone m ⟨j, ha, hb, hj, -⟩
        exact hnone j ha hb hj
  | some j =>
      simp only [Option.map_some, Picks, First, hbest]
      constructor
      · rintro ⟨hmem, hle⟩
        obtain ⟨i, ha, hb, hi, heq⟩ := (hs _).mp hmem
        obtain rfl : j = i := hinj heq
        refine ⟨ha, hb, hi, fun i hi hij hhit => ?_⟩
        have hji : le (f j) (f i) := hle _ ((hs _).mpr ⟨i, hi, hij.trans hb, hhit, rfl⟩)
        exact absurd ((hf j i).mp hji) (Nat.not_le.mpr hij)
      · rintro ⟨ha, hb, hj, hbefore⟩
        refine ⟨(hs _).mpr ⟨j, ha, hb, hj, rfl⟩, ?_⟩
        intro m hm
        obtain ⟨i, hi, -, hhit, rfl⟩ := (hs _).mp hm
        apply (hf j i).mpr
        by_contra hlt
        exact hbefore i hi (Nat.lt_of_not_le hlt) hhit

theorem picks_least_iff (hf : StrictMono f) (hs : ∀ m, m ∈ s ↔ ∃ j, a ≤ j ∧ j < b ∧ h j ∧ m = f j)
    (r : Option Nat) : Picks IsLeast s (r.map f) ↔ First h a b r :=
  picks_iff (fun _ _ => Iff.rfl) (fun _ _ => hf.le_iff_le) hf.injective hs r

theorem picks_greatest_iff (hf : StrictAnti f)
    (hs : ∀ m, m ∈ s ↔ ∃ j, a ≤ j ∧ j < b ∧ h j ∧ m = f j) (r : Option Nat) :
    Picks IsGreatest s (r.map f) ↔ First h a b r :=
  picks_iff (fun _ _ => Iff.rfl) (fun _ _ => hf.le_iff_ge) hf.injective hs r

end Picks

/-! ## What the walk finds -/

section Found

variable {offset : Int} {expr : String}

/-- The minute with this number fires. -/
def Fired (offset : Int) (expr : String) (minute : Int) : Prop :=
  cronMatches offset expr (timeClip (60000 * minute)) = true

instance (minute : Int) : Decidable (Fired offset expr minute) :=
  inferInstanceAs (Decidable (_ = true))

theorem fired_iff {minute : Int} :
    Fired offset expr minute ↔
      timeClip (60000 * minute) = some (60000 * minute) ∧
        cronMatches offset expr (some (60000 * minute)) = true := by
  unfold Fired timeClip
  split <;> simp [cronMatches]

/-- The minutes of the walk, one further each time. -/
def place (start step : Int) (i : Nat) : Int := start + step * i

theorem step_place {start step : Int} (hstep : step = 1 ∨ step = -1)
    (hstart : -144000000000 ≤ start ∧ start ≤ 144000000000) (i : Nat) :
    ((timeClip (60000 * place start step i)).bind fun t =>
        setMinutes offset t (getMinutes offset t + step)) =
      timeClip (60000 * place start step (i + 1)) := by
  have hnext : 60000 * place start step i + 60000 * step = 60000 * place start step (i + 1) := by
    rcases hstep with rfl | rfl <;> simp only [place] <;> omega
  by_cases hin : -maxTime ≤ 60000 * place start step i ∧ 60000 * place start step i ≤ maxTime
  · rw [timeClip, if_pos hin, Option.bind_some, setMinutes_add, hnext]
  · -- beyond the last date there is no way back
    have hout : ¬ (-maxTime ≤ 60000 * place start step (i + 1) ∧
        60000 * place start step (i + 1) ≤ maxTime) := by
      simp only [maxTime, place] at hin ⊢
      rcases hstep with rfl | rfl <;> omega
    rw [timeClip, if_neg hin, Option.bind_none, timeClip, if_neg hout]

theorem walkFrom_first {start step : Int} (hstep : step = 1 ∨ step = -1)
    (hstart : -144000000000 ≤ start ∧ start ≤ 144000000000) (n i : Nat) :
    ∃ r : Option Nat,
      First (fun j => Fired offset expr (place start step j)) (i + 1) (i + 1 + n) r ∧
        walkFrom offset expr step n (timeClip (60000 * place start step i)) =
          r.map fun j => 60000 * place start step j := by
  induction n generalizing i with
  | zero => exact ⟨none, fun j ha hb => absurd hb (by omega), rfl⟩
  | succ n ih =>
      simp only [walkFrom, step_place hstep hstart]
      by_cases hhit : Fired offset expr (place start step (i + 1))
      · have hmatch : cronMatches offset expr
            (timeClip (60000 * place start step (i + 1))) = true := hhit
        refine ⟨some (i + 1), ⟨Nat.le_refl _, by omega, hhit, ?_⟩, ?_⟩
        · intro j ha hb
          omega
        · rw [if_pos hmatch, (fired_iff.mp hhit).1]
          rfl
      · obtain ⟨r, hr, hwalk⟩ := ih (i + 1)
        refine ⟨r, ?_, ?_⟩
        · cases r with
          | none =>
              intro j ha hb
              rcases Nat.lt_or_eq_of_le ha with hlt | rfl
              · exact hr j hlt (by omega)
              · exact hhit
          | some j =>
              obtain ⟨ha, hb, hj, hbefore⟩ := hr
              refine ⟨by omega, by omega, hj, fun k hk hkj => ?_⟩
              rcases Nat.lt_or_eq_of_le hk with hlt | rfl
              · exact hbefore k hlt hkj
              · exact hhit
        · have hmiss : ¬ cronMatches offset expr
              (timeClip (60000 * place start step (i + 1))) = true := hhit
          rw [if_neg hmiss, hwalk]

theorem walk_first (hvalid : isValidCron expr = true) (t : Instant) {step : Int}
    (hstep : step = 1 ∨ step = -1) :
    ∃ r : Option Nat,
      First (fun j => Fired offset expr (place (t.ms / 60000) step j)) 1 (HORIZON_MINUTES + 1) r ∧
        walk offset expr t step = r.map fun j => 60000 * place (t.ms / 60000) step j := by
  have hstart : -144000000000 ≤ t.ms / 60000 ∧ t.ms / 60000 ≤ 144000000000 := by
    have hlo := t.valid.1
    have hhi := t.valid.2
    simp only [maxTime] at hlo hhi
    omega
  obtain ⟨r, hr, hwalk⟩ := @walkFrom_first offset expr _ _ hstep hstart HORIZON_MINUTES 0
  rw [Nat.zero_add, Nat.add_comm 1] at hr
  refine ⟨r, hr, ?_⟩
  have hzero : place (t.ms / 60000) step 0 = t.ms / 60000 := by simp [place]
  rw [← hwalk, hzero, walk, if_pos hvalid, wholeMinute_eq]

end Found

/-! ## What is asked of it -/

section Bracket

variable (offset : Int) (expr : String)

def WEEK : Int := 604800000

/-- A whole minute of local time that matches. -/
def FiresAt (m : Int) : Prop :=
  localTime offset m % 60000 = 0 ∧ timeClip m = some m ∧ cronMatches offset expr (some m) = true

/-- The least whole minute from `t` on, before seven days are over. -/
def IsNextRun (t : Int) (r : Date) : Prop :=
  Picks IsLeast {m | t ≤ m ∧ m < t + WEEK ∧ FiresAt offset expr m} r

/-- The greatest whole minute before `t`, no more than seven days back. -/
def IsPrevRun (t : Int) (r : Date) : Prop :=
  Picks IsGreatest {m | t - WEEK ≤ m ∧ m < t ∧ FiresAt offset expr m} r

variable {offset expr}

theorem firesAt_iff {m : Int} :
    FiresAt offset expr m ↔ ∃ k, m = 60000 * k ∧ Fired offset expr k := by
  constructor
  · rintro ⟨hwhole, hclip, hmatch⟩
    have hm : m = 60000 * (m / 60000) := by
      simp only [localTime] at hwhole
      omega
    refine ⟨m / 60000, hm, fired_iff.mpr ?_⟩
    rw [← hm]
    exact ⟨hclip, hmatch⟩
  · rintro ⟨k, rfl, hk⟩
    obtain ⟨hclip, hmatch⟩ := fired_iff.mp hk
    refine ⟨?_, hclip, hmatch⟩
    simp only [localTime]
    omega

/-- The next run is the first of the minutes from the first that is not before `t`. -/
theorem isNextRun_iff {t start : Int} {a : Nat} (ha : ∀ k, t ≤ 60000 * k ↔ start + a ≤ k)
    (r : Option Nat) :
    IsNextRun offset expr t (r.map fun j => 60000 * place start 1 j) ↔
      First (fun j => Fired offset expr (place start 1 j)) a (a + HORIZON_MINUTES) r := by
  refine picks_least_iff ?_ ?_ r
  · intro i j hij
    simp only [place]
    omega
  · intro m
    simp only [Set.mem_ofPred_eq, firesAt_iff, HORIZON_MINUTES, WEEK]
    constructor
    · rintro ⟨hlo, hhi, k, rfl, hk⟩
      have hak := (ha k).mp hlo
      have hnot : ¬ start + a ≤ k - 10080 := fun hle => by
        have := (ha (k - 10080)).mpr hle
        omega
      refine ⟨(k - start).toNat, by omega, by omega, ?_, ?_⟩
      · have hplace : place start 1 (k - start).toNat = k := by
          simp only [place]
          omega
        rw [hplace]
        exact hk
      · simp only [place]
        omega
    · rintro ⟨j, hj, hlt, hfired, rfl⟩
      have hlo : t ≤ 60000 * place start 1 j := (ha _).mpr (by simp only [place]; omega)
      refine ⟨hlo, ?_, _, rfl, hfired⟩
      by_contra hge
      have hle : t ≤ 60000 * (place start 1 j - 10080) := by omega
      have := (ha _).mp hle
      simp only [place] at this
      omega

/-- The previous run is the first of the minutes back from the last that is before `t`. -/
theorem isPrevRun_iff {t start : Int} {a : Nat} (ha : ∀ k, 60000 * k < t ↔ k ≤ start - a)
    (r : Option Nat) :
    IsPrevRun offset expr t (r.map fun j => 60000 * place start (-1) j) ↔
      First (fun j => Fired offset expr (place start (-1) j)) a (a + HORIZON_MINUTES) r := by
  refine picks_greatest_iff ?_ ?_ r
  · intro i j hij
    simp only [place]
    omega
  · intro m
    simp only [Set.mem_ofPred_eq, firesAt_iff, HORIZON_MINUTES, WEEK]
    constructor
    · rintro ⟨hlo, hhi, k, rfl, hk⟩
      have hak := (ha k).mp hhi
      have hnot : ¬ k + 10080 ≤ start - a := fun hle => by
        have := (ha (k + 10080)).mpr hle
        omega
      refine ⟨(start - k).toNat, by omega, by omega, ?_, ?_⟩
      · have hplace : place start (-1) (start - k).toNat = k := by
          simp only [place]
          omega
        rw [hplace]
        exact hk
      · simp only [place]
        omega
    · rintro ⟨j, hj, hlt, hfired, rfl⟩
      have hhi : 60000 * place start (-1) j < t := (ha _).mpr (by simp only [place]; omega)
      refine ⟨?_, hhi, _, rfl, hfired⟩
      by_contra hge
      have hlt : 60000 * (place start (-1) j + 10080) < t := by omega
      have := (ha _).mp hlt
      simp only [place] at this
      omega

/-- The minute does not fire, and the minute a week away in this direction does not fire alone. -/
def Apart (offset : Int) (expr : String) (minute step : Int) : Prop :=
  ¬ Fired offset expr minute ∧
    (Fired offset expr (minute + step * 10080) →
      ∃ j : Nat, 0 < j ∧ j < 10080 ∧ Fired offset expr (minute + step * j))

/-- The walk brackets the instant exactly when the minute it starts in is apart: going forward
from an instant on a minute, going back from one inside a minute. -/
theorem runs_bracket_iff (offset : Int) (expr : String) (hvalid : isValidCron expr = true)
    (t : Instant) :
    (IsNextRun offset expr t.ms (nextRun offset expr t) ∧
        IsPrevRun offset expr t.ms (prevRun offset expr t)) ↔
      Apart offset expr (t.ms / 60000) (if t.ms % 60000 = 0 then 1 else -1) := by
  obtain ⟨next, hnext, hwalk⟩ := @walk_first offset expr hvalid t 1 (Or.inl rfl)
  obtain ⟨prev, hprev, hwalk'⟩ := @walk_first offset expr hvalid t (-1) (Or.inr rfl)
  have hpos : 0 < HORIZON_MINUTES := by decide
  have hzero : ∀ step, place (t.ms / 60000) step 0 = t.ms / 60000 := by simp [place]
  rw [nextRun, prevRun, hwalk, hwalk']
  by_cases hwhole : t.ms % 60000 = 0
  · rw [@isNextRun_iff offset expr t.ms (t.ms / 60000) 0 (by intro k; omega),
      @isPrevRun_iff offset expr t.ms (t.ms / 60000) 1 (by intro k; omega), Nat.zero_add,
      Nat.add_comm 1, hnext.shift_iff hpos, if_pos hwhole, hzero]
    exact and_iff_left hprev
  · rw [@isNextRun_iff offset expr t.ms (t.ms / 60000) 1 (by intro k; omega),
      @isPrevRun_iff offset expr t.ms (t.ms / 60000) 0 (by intro k; omega), Nat.zero_add,
      Nat.add_comm 1, hprev.shift_iff hpos, if_neg hwhole, hzero]
    exact and_iff_right hnext

/-- Half a minute after midnight, and a run every night at three. -/
theorem runs_bracket_nightly :
    IsNextRun 0 "0 3 * * *" 30000 (nextRun 0 "0 3 * * *" ⟨30000, by decide⟩) ∧
      IsPrevRun 0 "0 3 * * *" 30000 (prevRun 0 "0 3 * * *" ⟨30000, by decide⟩) :=
  (runs_bracket_iff 0 "0 3 * * *" (by decide) ⟨30000, by decide⟩).mpr
    ⟨by decide +kernel, fun hfired => absurd hfired (by decide +kernel)⟩

/-- Every minute fires: asked on a minute the next run is not that minute, and asked inside one
the previous run is not it. -/
theorem own_minute_missed :
    isValidCron "* * * * *" = true ∧
      ¬ IsNextRun 0 "* * * * *" 0 (nextRun 0 "* * * * *" ⟨0, by decide⟩) ∧
      ¬ IsPrevRun 0 "* * * * *" 30000 (prevRun 0 "* * * * *" ⟨30000, by decide⟩) := by
  have hfires : FiresAt 0 "* * * * *" 0 := ⟨by decide, by decide, by decide⟩
  have hnext : nextRun 0 "* * * * *" ⟨0, by decide⟩ = some 60000 := by decide
  have hprev : prevRun 0 "* * * * *" ⟨30000, by decide⟩ = some (-60000) := by decide
  refine ⟨by decide, ?_, ?_⟩
  · rw [hnext]
    rintro ⟨-, hleast⟩
    exact absurd (hleast ⟨by decide, by decide, hfires⟩) (by decide)
  · rw [hprev]
    rintro ⟨-, hgreatest⟩
    exact absurd (hgreatest ⟨by decide, by decide, hfires⟩) (by decide)

end Bracket

end Cron

end FleetRunner
