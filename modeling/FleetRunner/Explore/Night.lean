import Mathlib.Algebra.Order.BigOperators.Group.List
import Mathlib.Data.Rat.Floor
import Mathlib.Tactic.FieldSimp
import Mathlib.Tactic.Linarith
import Mathlib.Tactic.Positivity
import Mathlib.Tactic.Ring

/-!
# Sharing the night (`workloads/explore/night.ts`)

A night that is shorter than its specs ask for runs every one of them shorter,
or fewer of them. The plan is made again before each spec, with the time that is
left then.

## Implementation notes

Minutes are exact numbers; a share is rounded down to a whole minute as in the
source.
-/

namespace FleetRunner.Explore.Night

structure NightRules where
  safetyMin : Rat
  perSpecMin : Rat
  minUsefulMin : Rat

def NIGHT : NightRules where
  safetyMin := 10
  perSpecMin := 3
  minUsefulMin := 15

structure PlanOptions where
  safetyMin : Option Rat
  perSpecMin : Option Rat
  minUsefulMin : Option Rat

namespace PlanOptions

def safety (o : PlanOptions) : Rat := o.safetyMin.getD NIGHT.safetyMin

def perSpec (o : PlanOptions) : Rat := o.perSpecMin.getD NIGHT.perSpecMin

def minUseful (o : PlanOptions) : Rat := o.minUsefulMin.getD NIGHT.minUsefulMin

end PlanOptions

structure Plan where
  minutes : List Rat
  short : Bool
  deriving DecidableEq

/-- What the night has for the exploring itself, with `k` specs to start. -/
def avail (o : PlanOptions) (leftMin : Rat) (k : Nat) : Rat := leftMin - o.safety - k * o.perSpec

/-- All that is asked for when the sum fits, else a share in proportion. -/
def share (avail sum m : Rat) : Rat := if sum ≤ avail then m else (⌊avail * m / sum⌋ : Int)

def shares (o : PlanOptions) (asked : List Rat) (leftMin : Rat) (k : Nat) : List Rat :=
  (asked.take k).map (share (avail o leftMin k) (asked.take k).sum)

/-- A spec that asks for less than the minimum only needs what it asks for. -/
def useful (o : PlanOptions) (minutes want : List Rat) : Bool :=
  (minutes.zip want).all fun p => decide (min o.minUseful p.2 ≤ p.1)

/-- The loop of `planSpecs`, from `k` specs down. -/
def planFrom (asked : List Rat) (leftMin : Rat) (o : PlanOptions) : Nat → Plan
  | 0 => { minutes := asked.map fun _ => 0, short := decide (0 < asked.length) }
  | k + 1 =>
    let minutes := shares o asked leftMin (k + 1)
    if useful o minutes (asked.take (k + 1)) then
      let all := minutes ++ (asked.drop (k + 1)).map fun _ => 0
      { minutes := all, short := (all.zip asked).any fun p => decide (p.1 < p.2) }
    else planFrom asked leftMin o k

def planSpecs (asked : List Rat) (leftMin : Rat) (o : PlanOptions) : Plan :=
  planFrom asked leftMin o asked.length

/-! ## One share -/

section Share

variable {avail sum m : Rat}

theorem share_le (hm : 0 ≤ m) (hsum : 0 < sum) : share avail sum m ≤ m := by
  unfold share
  split
  · exact le_refl m
  · rename_i hshort
    have hquot : avail * m / sum ≤ m := by
      rw [div_le_iff₀ hsum]
      nlinarith
    exact (Int.floor_le _).trans hquot

theorem share_le_quot (hshort : ¬ sum ≤ avail) : share avail sum m ≤ avail * m / sum := by
  rw [share, if_neg hshort]
  exact Int.floor_le _

/-- A better rate gives no smaller share. -/
theorem share_mono {avail' sum' : Rat} (hm : 0 ≤ m) (hsum : 0 < sum) (hsum' : 0 < sum')
    (hrate : avail * sum' ≤ avail' * sum) : share avail sum m ≤ share avail' sum' m := by
  by_cases hfits' : sum' ≤ avail'
  · have hall : share avail' sum' m = m := if_pos hfits'
    rw [hall]
    exact share_le hm hsum
  · have hfits : ¬ sum ≤ avail := by
      intro hle
      apply hfits'
      have hscaled : sum * sum' ≤ avail' * sum :=
        (mul_le_mul_of_nonneg_right hle hsum'.le).trans hrate
      nlinarith
    rw [share, share, if_neg hfits, if_neg hfits', Int.cast_le]
    apply Int.floor_le_floor
    rw [div_le_div_iff₀ hsum hsum']
    nlinarith

end Share

/-! ## One plan -/

/-- With `k` specs every one has a share that is worth its start. -/
def Fits (o : PlanOptions) (asked : List Rat) (leftMin : Rat) (k : Nat) : Prop :=
  ∀ a ∈ asked.take k, min o.minUseful a ≤ share (avail o leftMin k) (asked.take k).sum a

variable {o : PlanOptions} {asked : List Rat} {leftMin : Rat}

theorem useful_shares_iff {k : Nat} :
    useful o (shares o asked leftMin k) (asked.take k) = true ↔ Fits o asked leftMin k := by
  unfold useful shares Fits
  generalize share (avail o leftMin k) (asked.take k).sum = f
  induction asked.take k with
  | nil => simp
  | cons a rest ih => simp_all

/-- What a loop over the lengths from `n` down settles on. -/
structure Longest (o : PlanOptions) (asked : List Rat) (leftMin : Rat) (n k : Nat)
    (minutes : List Rat) : Prop where
  le : k ≤ n
  minutes_eq : minutes = shares o asked leftMin k ++ (asked.drop k).map fun _ => 0
  fits : Fits o asked leftMin k
  longer : ∀ j, k < j → j ≤ n → ¬ Fits o asked leftMin j

theorem longest_planFrom (n : Nat) :
    ∃ k, Longest o asked leftMin n k (planFrom asked leftMin o n).minutes := by
  induction n with
  | zero =>
      refine ⟨0, Nat.le_refl 0, by simp [planFrom, shares], ?_, fun j hj hle => absurd hle (by omega)⟩
      intro a ha
      simp at ha
  | succ n ih =>
      by_cases hfits : useful o (shares o asked leftMin (n + 1)) (asked.take (n + 1)) = true
      · refine ⟨n + 1, Nat.le_refl _, ?_, useful_shares_iff.mp hfits, fun j hj hle => absurd hle (by omega)⟩
        simp only [planFrom, if_pos hfits]
      · obtain ⟨k, hk⟩ := ih
        have hplan : planFrom asked leftMin o (n + 1) = planFrom asked leftMin o n := by
          simp only [planFrom, if_neg hfits]
        rw [hplan]
        refine ⟨k, Nat.le_succ_of_le hk.le, hk.minutes_eq, hk.fits, fun j hj hle => ?_⟩
        rcases Nat.lt_or_eq_of_le hle with hlt | rfl
        · exact hk.longer j hj (Nat.lt_succ_iff.mp hlt)
        · exact fun h => hfits (useful_shares_iff.mpr h)

theorem longest_planSpecs (asked : List Rat) (leftMin : Rat) (o : PlanOptions) :
    ∃ k, Longest o asked leftMin asked.length k (planSpecs asked leftMin o).minutes :=
  longest_planFrom _

/-! ## What the shares add up to -/

section Shares

variable {k : Nat}

theorem sum_take_pos (hasked : ∀ a ∈ asked, 0 < a) (hk : 0 < k) (hne : asked ≠ []) :
    0 < (asked.take k).sum := by
  obtain ⟨a, rest, rfl⟩ := List.exists_cons_of_ne_nil hne
  obtain ⟨j, rfl⟩ := Nat.exists_eq_succ_of_ne_zero (Nat.ne_of_gt hk)
  have hrest : 0 ≤ (rest.take j).sum :=
    List.sum_nonneg fun b hb => (hasked b (List.mem_cons_of_mem a (List.mem_of_mem_take hb))).le
  have ha : 0 < a := hasked a List.mem_cons_self
  rw [List.take_succ_cons, List.sum_cons]
  exact add_pos_of_pos_of_nonneg ha hrest

theorem sum_map_quot (avail sum : Rat) (want : List Rat) :
    (want.map fun m => avail * m / sum).sum = avail * want.sum / sum := by
  induction want with
  | nil => simp
  | cons m rest ih =>
      rw [List.map_cons, List.sum_cons, List.sum_cons, ih]
      ring

/-- The shares fit in what the night has. -/
theorem sum_shares_le {avail : Rat} {want : List Rat} (hpos : 0 < want.sum) :
    (want.map (share avail want.sum)).sum ≤ avail := by
  by_cases hfits : want.sum ≤ avail
  · have hid : share avail want.sum = id := funext fun m => if_pos hfits
    rw [hid, List.map_id]
    exact hfits
  · have hquot : (want.map (share avail want.sum)).sum ≤
        (want.map fun m => avail * m / want.sum).sum :=
      List.sum_le_sum fun m _ => share_le_quot hfits
    rw [sum_map_quot, mul_div_assoc, div_self hpos.ne', mul_one] at hquot
    exact hquot

/-- No share is more than what was asked. -/
theorem shares_le (hasked : ∀ a ∈ asked, 0 < a) :
    List.Forall₂ (· ≤ ·) (shares o asked leftMin k) (asked.take k) := by
  have hmem : ∀ a ∈ asked.take k, share (avail o leftMin k) (asked.take k).sum a ≤ a := by
    intro a ha
    have hpos : 0 < a := hasked a (List.mem_of_mem_take ha)
    have hsum : a ≤ (asked.take k).sum :=
      List.single_le_sum (fun b hb => (hasked b (List.mem_of_mem_take hb)).le) a ha
    exact share_le hpos.le (hpos.trans_le hsum)
  exact List.forall₂_map_left_iff.mpr (List.forall₂_same.mpr hmem)

end Shares

/-! ## The plan made again -/

/-- Once the first spec took no more than its share and its start, the others still fit. -/
theorem Fits.tail {a used : Rat} {rest : List Rat} {k : Nat}
    (hasked : ∀ b ∈ a :: rest, 0 < b) (hfits : Fits o (a :: rest) leftMin (k + 1))
    (hused : used ≤ share (avail o leftMin (k + 1)) ((a :: rest).take (k + 1)).sum a + o.perSpec) :
    Fits o rest (leftMin - used) k := by
  intro b hb
  have ha : 0 < a := hasked a List.mem_cons_self
  have hpos : ∀ c ∈ rest.take k, 0 < c := fun c hc =>
    hasked c (List.mem_cons_of_mem a (List.mem_of_mem_take hc))
  have hb0 : 0 < b := hpos b hb
  have hrest : 0 < (rest.take k).sum :=
    hb0.trans_le (List.single_le_sum (fun c hc => (hpos c hc).le) b hb)
  rw [List.take_succ_cons, List.sum_cons] at hused
  have hkept := hfits b (by rw [List.take_succ_cons]; exact List.mem_cons_of_mem a hb)
  rw [List.take_succ_cons, List.sum_cons] at hkept
  generalize (rest.take k).sum = T at hused hkept hrest ⊢
  have hsum : 0 < a + T := add_pos ha hrest
  have havail : avail o leftMin (k + 1) - share (avail o leftMin (k + 1)) (a + T) a ≤
      avail o (leftMin - used) k := by
    have hstart : avail o leftMin (k + 1) = leftMin - o.safety - (k + 1) * o.perSpec := by
      simp [avail]
    rw [hstart] at hused ⊢
    simp only [avail]
    linarith
  refine hkept.trans (share_mono hb0.le hsum hrest ?_)
  by_cases hall : a + T ≤ avail o leftMin (k + 1)
  · have hshare : share (avail o leftMin (k + 1)) (a + T) a = a := if_pos hall
    rw [hshare] at havail
    nlinarith
  · have hquot : share (avail o leftMin (k + 1)) (a + T) a ≤ avail o leftMin (k + 1) * a / (a + T) :=
      share_le_quot hall
    have hrate : avail o leftMin (k + 1) * a / (a + T) * (a + T) = avail o leftMin (k + 1) * a :=
      div_mul_cancel₀ _ hsum.ne'
    nlinarith

/-- Each spec of the night so far took no more than the plan made before it gave it, and its
start. -/
def Frugal (o : PlanOptions) : List Rat → Rat → List Rat → Prop
  | _, _, [] => True
  | asked, leftMin, used :: later =>
    used ≤ (planSpecs asked leftMin o).minutes.headD 0 + o.perSpec ∧
      Frugal o asked.tail (leftMin - used) later

/-- The specs that fitted when the night began still fit after some of them have run. -/
theorem fits_later {used : List Rat} {k : Nat} (hasked : ∀ a ∈ asked, 0 < a)
    (hk : Longest o asked leftMin asked.length k (planSpecs asked leftMin o).minutes)
    (hlen : used.length ≤ k) (hfrugal : Frugal o asked leftMin used) :
    ∃ j, k ≤ j + used.length ∧
      Longest o (asked.drop used.length) (leftMin - used.sum) (asked.drop used.length).length j
        (planSpecs (asked.drop used.length) (leftMin - used.sum) o).minutes := by
  induction used generalizing asked leftMin k with
  | nil => exact ⟨k, Nat.le_refl k, by simpa using hk⟩
  | cons u later ih =>
      obtain ⟨hused, hlater⟩ := hfrugal
      cases asked with
      | nil =>
          have hzero : k ≤ 0 := hk.le
          simp only [List.length_cons] at hlen
          omega
      | cons a rest =>
          cases k with
          | zero => simp at hlen
          | succ k =>
              have hhead : (planSpecs (a :: rest) leftMin o).minutes.headD 0 =
                  share (avail o leftMin (k + 1)) ((a :: rest).take (k + 1)).sum a := by
                rw [hk.minutes_eq]
                rfl
              have hfits : Fits o rest (leftMin - u) k :=
                hk.fits.tail hasked (by rw [← hhead]; exact hused)
              obtain ⟨j, hj⟩ := longest_planSpecs rest (leftMin - u) o
              have hkj : k ≤ j := by
                by_contra hlt
                exact hj.longer k (Nat.lt_of_not_le hlt) (Nat.le_of_succ_le_succ hk.le) hfits
              simp only [List.length_cons] at hlen
              obtain ⟨i, hi, hlast⟩ := ih (fun b hb => hasked b (List.mem_cons_of_mem a hb)) hj
                (by omega) hlater
              refine ⟨i, by simp only [List.length_cons]; omega, ?_⟩
              simpa [sub_sub] using hlast

/-! ## The promise -/

/-- The spec at place `i` is given what makes it worth starting. -/
def Given (o : PlanOptions) (asked minutes : List Rat) (i : Nat) : Prop :=
  ∃ a m, asked[i]? = some a ∧ minutes[i]? = some m ∧ min o.minUseful a ≤ m

theorem Longest.given {k i : Nat} {minutes : List Rat}
    (h : Longest o asked leftMin asked.length k minutes) (hi : i < k) :
    Given o asked minutes i := by
  have hlt : i < asked.length := Nat.lt_of_lt_of_le hi h.le
  have htake : (asked.take k)[i]? = some asked[i] := by
    rw [List.getElem?_take_of_lt hi, List.getElem?_eq_getElem hlt]
  have hmem : asked[i] ∈ asked.take k := List.mem_of_getElem? htake
  refine ⟨asked[i], _, List.getElem?_eq_getElem hlt, ?_, h.fits _ hmem⟩
  rw [h.minutes_eq, List.getElem?_append_left (by simp [shares]; omega), shares, List.getElem?_map,
    htake]
  rfl

theorem Longest.nothing {k i : Nat} {minutes : List Rat} {m : Rat}
    (h : Longest o asked leftMin asked.length k minutes) (hi : k ≤ i) (hm : minutes[i]? = some m) :
    m = 0 := by
  have hlen : (shares o asked leftMin k).length = k := by
    simp [shares, h.le]
  rw [h.minutes_eq, List.getElem?_append_right (by omega), List.getElem?_map] at hm
  obtain ⟨b, -, rfl⟩ := Option.map_eq_some_iff.mp hm
  rfl

/-- What a plan promises, with `k` specs in it, and that no later plan of the night breaks it. -/
structure Promised (o : PlanOptions) (asked : List Rat) (leftMin : Rat) (k : Nat) : Prop where
  le_asked : List.Forall₂ (· ≤ ·) (planSpecs asked leftMin o).minutes asked
  given : ∀ i, i < k → Given o asked (planSpecs asked leftMin o).minutes i
  nothing : ∀ i m, k ≤ i → (planSpecs asked leftMin o).minutes[i]? = some m → m = 0
  positive : 0 < o.minUseful →
    ∀ i m, (planSpecs asked leftMin o).minutes[i]? = some m → (0 < m ↔ i < k)
  total : 0 < k →
    (planSpecs asked leftMin o).minutes.sum + k * o.perSpec + o.safety ≤ leftMin
  longest : ∀ j, k < j → j ≤ asked.length → ¬ Fits o asked leftMin j
  later : ∀ used, used.length ≤ k → Frugal o asked leftMin used → ∀ i, used.length ≤ i → i < k →
    Given o (asked.drop used.length)
      (planSpecs (asked.drop used.length) (leftMin - used.sum) o).minutes (i - used.length)

/-- A plan gives a prefix of the specs what makes them worth starting and the rest nothing, fits
in the night, leaves out no spec it could take, and keeps to it all night. -/
theorem plan_promises (asked : List Rat) (leftMin : Rat) (o : PlanOptions)
    (hasked : ∀ a ∈ asked, 0 < a) :
    ∃ k ≤ asked.length, Promised o asked leftMin k := by
  obtain ⟨k, hk⟩ := longest_planSpecs asked leftMin o
  refine ⟨k, hk.le, ?_⟩
  constructor
  · rw [hk.minutes_eq]
    conv_rhs => rw [← List.take_append_drop k asked]
    refine List.rel_append (shares_le hasked) ?_
    have hdrop : ∀ a ∈ asked.drop k, 0 ≤ a := fun a ha => (hasked a (List.mem_of_mem_drop ha)).le
    exact List.forall₂_map_left_iff.mpr (List.forall₂_same.mpr hdrop)
  · exact fun i hi => hk.given hi
  · exact fun i m hi hm => hk.nothing hi hm
  · intro huseful i m hm
    constructor
    · intro hpos
      by_contra hge
      rw [hk.nothing (Nat.le_of_not_lt hge) hm] at hpos
      exact lt_irrefl 0 hpos
    · intro hi
      obtain ⟨a, m', ha, hm', hle⟩ := hk.given hi
      rw [hm] at hm'
      cases hm'
      exact (lt_min huseful (hasked a (List.mem_of_getElem? ha))).trans_le hle
  · intro hpos
    have hne : asked ≠ [] := by
      rintro rfl
      exact absurd hk.le (Nat.not_le.mpr hpos)
    have hsum := @sum_shares_le (avail o leftMin k) _ (sum_take_pos hasked hpos hne)
    have hzero : ((asked.drop k).map fun _ => (0 : Rat)).sum = 0 := by simp
    rw [hk.minutes_eq, List.sum_append, hzero, add_zero]
    change (shares o asked leftMin k).sum ≤ leftMin - o.safety - k * o.perSpec at hsum
    linarith
  · exact hk.longer
  · intro used hlen hfrugal i hlo hhi
    obtain ⟨j, hj, hlast⟩ := fits_later hasked hk hlen hfrugal
    exact hlast.given (by omega)

/-- Three specs of a television night with 80 minutes left. -/
theorem plan_promises_tv :
    ∃ k ≤ 3, Promised ⟨none, none, none⟩ [45, 45, 30] 80 k :=
  plan_promises [45, 45, 30] 80 ⟨none, none, none⟩ (by simp)

/-- Where no share is too short, the first spec may get nothing and the second some. -/
theorem given_no_prefix :
    ¬ ∃ k : Nat, ∀ i m, (planSpecs [1, 100] 50 ⟨some 0, some 0, some 0⟩).minutes[i]? = some m →
      (0 < m ↔ i < k) := by
  have hplan : planSpecs [1, 100] 50 ⟨some 0, some 0, some 0⟩ = ⟨[0, 49], true⟩ := by
    decide +kernel
  rintro ⟨k, h⟩
  rw [hplan] at h
  have hsecond : 1 < k := (h 1 49 rfl).mp (by norm_num)
  have hfirst : (0 : Rat) < 0 := (h 0 0 rfl).mpr (by omega)
  exact lt_irrefl (0 : Rat) hfirst

end FleetRunner.Explore.Night
