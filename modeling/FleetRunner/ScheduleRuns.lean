import FleetRunner.Db
import FleetRunner.Js.Number
import FleetRunner.Js.TextOrder
import FleetRunner.Library.Collect
import Mathlib.Data.List.Infix
import Mathlib.Data.Set.List

/-!
# The runs of a schedule (`alerts.ts`)

A firing of a schedule is a job, or one child for each device of a fan-out. The
runs of a schedule are read back from the ids of all jobs: a range of the primary
key, a pattern, and the part in front of two dashes together name the firing.

## Implementation notes

The pattern is the schedule's id with every operator escaped; it is matched as a
literal, and an operator that is not escaped matches nothing.
-/

namespace FleetRunner.ScheduleRuns

open Library

structure JobRow where
  job_id : String
  status : Status
  last_error : Option String
  created_at : String

structure ScheduleRun where
  run : String
  skipped : Bool
  reasons : List String

/-! ## Which rows -/

/-- `job_id < upper`: the key is compared by its bytes, so by its characters. -/
def keyLt (a b : String) : Prop := a.toList < b.toList

instance : DecidableRel keyLt := fun _ _ => inferInstanceAs (Decidable (_ < _))

def isOperator (c : Char) : Bool := c ∈ ".*+?^$()|[]\x7b\x7d\\".toList

/-- `scheduleId.replace(/[.*+?^$()|[\]{}\\]/g, "\\$&")` -/
def escaped (scheduleId : List Char) : List Char :=
  scheduleId.flatMap fun c => if isOperator c then ['\\', c] else [c]

/-- What follows a literal pattern in a text. -/
def literal : List Char → List Char → Option (List Char)
  | [], text => some text
  | '\\' :: c :: ps, x :: text => if c = x then literal ps text else none
  | p :: ps, x :: text => if !isOperator p && p = x then literal ps text else none
  | _ :: _, [] => none

def isLineEnd (c : Char) : Bool :=
  c.toNat = 10 || c.toNat = 13 || c.toNat = 0x2028 || c.toNat = 0x2029

/-- `(--.*)?$` -/
def isTail : List Char → Bool
  | [] => true
  | '-' :: '-' :: device => device.all fun c => !isLineEnd c
  | _ => false

/-- `-\d{12}(--.*)?$` -/
def isStamp : List Char → Bool
  | '-' :: rest =>
    decide ((rest.take 12).length = 12) && (rest.take 12).all Char.isDigit && isTail (rest.drop 12)
  | _ => false

def own (scheduleId job_id : String) : Bool :=
  (literal (escaped scheduleId.toList) job_id.toList).any isStamp

/-- `SELECT … WHERE job_id >= ? AND job_id < ?`, filtered. -/
def ownRows (scheduleId : String) (jobs : List JobRow) : List JobRow :=
  (jobs.filter fun r => !decide (keyLt r.job_id (scheduleId ++ "-")) &&
    decide (keyLt r.job_id (scheduleId ++ "."))).filter fun r => own scheduleId r.job_id

/-! ## Runs -/

structure Run where
  key : String
  created : String
  statuses : List Status
  reasons : List String

/-- What is in front of the first two dashes. -/
def beforeDashes : List Char → List Char
  | [] => []
  | c :: rest => if c = '-' ∧ rest.head? = some '-' then [] else c :: beforeDashes rest

/-- `r.job_id.split("--")[0]` -/
def runKey (r : JobRow) : String := String.ofList (beforeDashes r.job_id.toList)

def pushRow (o : Option Run) (r : JobRow) : Run :=
  let run := o.getD ⟨runKey r, r.created_at, [], []⟩
  { run with
    created := if jsTextLe run.created r.created_at then run.created else r.created_at
    statuses := run.statuses ++ [r.status]
    reasons := run.reasons ++
      (if r.status = .skipped then (r.last_error.filter fun e => decide (e ≠ "")).toList else []) }

def isFinished : Status → Bool
  | .done | .failed | .cancelled | .skipped => true
  | _ => false

/-- The family rule: nothing in it ran. -/
def isSkipped (statuses : List Status) : Bool :=
  decide (.done ∉ statuses) && decide (.failed ∉ statuses) && decide (.skipped ∈ statuses)

def scheduleRuns (scheduleId : String) (jobs : List JobRow) : List ScheduleRun :=
  let runs := Table.collect Run.key runKey pushRow (ownRows scheduleId jobs)
  ((runs.rows.filter fun r => r.statuses.all isFinished).insertionSort
      fun a b => jsTextLe b.key a.key).map
    fun r => ⟨r.key, isSkipped r.statuses, r.reasons⟩

/-! ## The pattern and the range -/

theorem literal_escaped {id text rest : List Char} :
    literal (escaped id) text = some rest ↔ text = id ++ rest := by
  induction id generalizing text with
  | nil => simp [escaped, literal]
  | cons c id ih =>
      have hescaped : escaped (c :: id) =
          (if isOperator c then ['\\', c] else [c]) ++ escaped id := rfl
      rw [hescaped]
      cases text with
      | nil => split <;> simp [literal]
      | cons x text =>
          cases hop : isOperator c with
          | true =>
              simp only [if_true, List.cons_append, List.nil_append, literal]
              by_cases hx : c = x
              · rw [if_pos hx, ih, hx, List.cons.injEq, and_iff_right rfl]
              · simp [hx, Ne.symm hx]
          | false =>
              have hslash : c ≠ '\\' := by
                rintro rfl
                exact absurd hop (by decide)
              simp only [Bool.false_eq_true, if_false, List.cons_append, List.nil_append]
              rw [literal.eq_3 _ _ _ _ (fun d ps h => absurd h hslash)]
              by_cases hx : c = x
              · subst hx
                simp [hop, ih]
              · simp [hx, Ne.symm hx]

theorem own_iff {scheduleId job_id : String} :
    own scheduleId job_id = true ↔
      ∃ stamp, job_id.toList = scheduleId.toList ++ stamp ∧ isStamp stamp = true := by
  simp only [own, Option.any_eq_true, literal_escaped]

theorem isStamp_iff {stamp : List Char} :
    isStamp stamp = true ↔ ∃ digits tail, stamp = '-' :: (digits ++ tail) ∧ digits.length = 12 ∧
      digits.all Char.isDigit = true ∧ isTail tail = true := by
  constructor
  · intro h
    unfold isStamp at h
    split at h
    · rename_i rest
      simp only [Bool.and_eq_true, decide_eq_true_eq] at h
      exact ⟨rest.take 12, rest.drop 12, by rw [List.take_append_drop], h.1.1, h.1.2, h.2⟩
    · cases h
  · rintro ⟨digits, tail, rfl, hlength, hdigits, htail⟩
    simp only [isStamp, ← hlength, List.take_left', List.drop_left', hdigits, htail]
    decide

theorem append_lt_append_iff (a b c : List Char) : a ++ b < a ++ c ↔ b < c := by
  induction a with
  | nil => exact Iff.rfl
  | cons x a ih => simp [ih]

/-- Every id the pattern accepts is in the range. -/
theorem ownRows_eq (scheduleId : String) (jobs : List JobRow) :
    ownRows scheduleId jobs = jobs.filter fun r => own scheduleId r.job_id := by
  rw [ownRows, List.filter_filter]
  apply List.filter_congr
  intro r _
  rw [Bool.and_eq_left_iff_imp]
  intro hown
  obtain ⟨stamp, hid, hstamp⟩ := own_iff.mp hown
  obtain ⟨digits, tail, rfl, -⟩ := isStamp_iff.mp hstamp
  have hlow : ¬ keyLt r.job_id (scheduleId ++ "-") := by
    intro hlt
    rw [keyLt, hid, String.toList_append, append_lt_append_iff] at hlt
    exact absurd hlt (by simp)
  have hhigh : keyLt r.job_id (scheduleId ++ ".") := by
    rw [keyLt, hid, String.toList_append]
    rw [append_lt_append_iff]
    exact List.cons_lt_cons_iff.mpr (Or.inl (by decide))
  simp [hlow, hhigh]

/-! ## What is reported -/

/-- Some job ran, and none is still to. -/
def Settled (statuses : List Status) : Prop :=
  statuses ≠ [] ∧ statuses.all isFinished = true

/-- The statuses of the rows that are read under one key. -/
def statusesAt (scheduleId : String) (jobs : List JobRow) (key : String) : List Status :=
  ((ownRows scheduleId jobs).filter fun r => decide (runKey r = key)).map JobRow.status

def verdict (r : ScheduleRun) : String × Bool := (r.run, r.skipped)

theorem keyed_pushRow : Table.Keyed Run.key runKey pushRow := by
  intro o r ho
  cases o with
  | none => rfl
  | some run => exact ho run rfl

theorem statuses_foldRow (o : Option Run) (rs : List JobRow) (run : Run)
    (h : foldRow pushRow o rs = some run) :
    run.statuses = (o.elim [] Run.statuses) ++ rs.map JobRow.status := by
  induction rs generalizing o with
  | nil =>
      obtain rfl : o = some run := h
      simp
  | cons r rest ih =>
      rw [ih (some (pushRow o r)) h]
      cases o <;> simp [pushRow]

section

variable {scheduleId : String} {jobs : List JobRow}

theorem mem_runs_iff {run : Run} (h : run ∈ (Table.collect Run.key runKey pushRow
      (ownRows scheduleId jobs)).rows) :
    run.statuses = statusesAt scheduleId jobs run.key := by
  rw [Table.mem_collect_iff keyed_pushRow] at h
  exact statuses_foldRow none _ run h

theorem exists_run {key : String} (h : statusesAt scheduleId jobs key ≠ []) :
    ∃ run ∈ (Table.collect Run.key runKey pushRow (ownRows scheduleId jobs)).rows,
      run.key = key := by
  have hne : (ownRows scheduleId jobs).filter (fun r => decide (runKey r = key)) ≠ [] := by
    intro hempty
    exact h (by rw [statusesAt, hempty]; rfl)
  have hsome := (isSome_foldRow pushRow none _).mpr (Or.inr hne)
  rw [← Table.find?_collect keyed_pushRow] at hsome
  obtain ⟨run, hrun⟩ := Option.isSome_iff_exists.mp hsome
  have hkey := Table.key_of_find? hrun
  refine ⟨run, ?_, hkey⟩
  rw [Table.mem_rows_iff, hkey]
  exact hrun

theorem statusesAt_ne_nil {run : Run} (h : run ∈ (Table.collect Run.key runKey pushRow
      (ownRows scheduleId jobs)).rows) : statusesAt scheduleId jobs run.key ≠ [] := by
  rw [Table.mem_collect_iff keyed_pushRow] at h
  have hsome : (foldRow pushRow none ((ownRows scheduleId jobs).filter
      fun r => decide (runKey r = run.key))).isSome = true := by rw [h]; rfl
  rcases (isSome_foldRow pushRow none _).mp hsome with hnone | hne
  · cases hnone
  · exact fun hmap => hne (List.map_eq_nil_iff.mp hmap)

/-- A key is reported when all its jobs are finished. -/
theorem mem_scheduleRuns_iff {key : String} {skipped : Bool} :
    (key, skipped) ∈ (scheduleRuns scheduleId jobs).map verdict ↔
      Settled (statusesAt scheduleId jobs key) ∧
        skipped = isSkipped (statusesAt scheduleId jobs key) := by
  simp only [scheduleRuns, List.map_map, List.mem_map, List.mem_insertionSort, List.mem_filter,
    Function.comp, verdict, Prod.mk.injEq]
  constructor
  · rintro ⟨run, ⟨hrun, hall⟩, rfl, rfl⟩
    rw [← mem_runs_iff hrun]
    refine ⟨⟨?_, hall⟩, rfl⟩
    rw [mem_runs_iff hrun]
    exact statusesAt_ne_nil hrun
  · rintro ⟨⟨hne, hall⟩, rfl⟩
    obtain ⟨run, hrun, rfl⟩ := exists_run hne
    rw [← mem_runs_iff hrun] at hall ⊢
    exact ⟨run, ⟨hrun, hall⟩, rfl, rfl⟩

/-- Each key is reported once, the larger ones first. -/
theorem pairwise_scheduleRuns :
    ((scheduleRuns scheduleId jobs).map verdict).Pairwise fun a b =>
      jsTextLe b.1 a.1 ∧ a.1 ≠ b.1 := by
  let runs := (Table.collect Run.key runKey pushRow (ownRows scheduleId jobs)).rows.filter
    fun r => r.statuses.all isFinished
  have : Std.Total fun a b : Run => jsTextLe b.key a.key :=
    ⟨fun a b => Std.Total.total (r := jsTextLe) b.key a.key⟩
  have : IsTrans Run fun a b => jsTextLe b.key a.key :=
    ⟨fun a b c hab hbc => IsTrans.trans (r := jsTextLe) c.key b.key a.key hbc hab⟩
  have hsorted := List.pairwise_insertionSort (fun a b : Run => jsTextLe b.key a.key) runs
  have hnodup : ((runs.insertionSort fun a b => jsTextLe b.key a.key).map Run.key).Nodup := by
    have hperm := (List.perm_insertionSort (fun a b : Run => jsTextLe b.key a.key) runs).map Run.key
    rw [hperm.nodup_iff]
    exact (Table.collect Run.key runKey pushRow (ownRows scheduleId jobs)).nodup.sublist
      (List.filter_sublist.map Run.key)
  have hdistinct := List.pairwise_map.mp hnodup
  have hmap : (scheduleRuns scheduleId jobs).map verdict =
      (runs.insertionSort fun a b => jsTextLe b.key a.key).map
        fun r => (r.key, isSkipped r.statuses) := by
    simp only [scheduleRuns, List.map_map]
    rfl
  rw [hmap, List.pairwise_map]
  exact hsorted.and hdistinct

end

/-! ## Firings -/

/-- `YYYYMMDDHHMM` -/
structure Minute where
  digits : List Char
  length_eq : digits.length = 12
  all_digits : digits.all Char.isDigit = true
  deriving DecidableEq

def numberOf : List Char → Nat
  | [] => 0
  | c :: cs => (c.toNat - 48) * 10 ^ cs.length + numberOf cs

def Minute.value (m : Minute) : Nat := numberOf m.digits

/-- Where a job comes from: a firing of the schedule, one child of it, or anything else. -/
inductive Origin where
  | fired (m : Minute) (device : Option String)
  | other (job_id : String)

structure Entry where
  origin : Origin
  status : Status
  last_error : Option String
  created_at : String

def Entry.minute (e : Entry) : Option Minute :=
  match e.origin with
  | .fired m _ => some m
  | .other _ => none

section

variable (scheduleId : String)

def runId (m : Minute) : String := scheduleId ++ "-" ++ String.ofList m.digits

def Entry.job_id (e : Entry) : String :=
  match e.origin with
  | .fired m none => runId scheduleId m
  | .fired m (some device) => runId scheduleId m ++ "--" ++ device
  | .other job_id => job_id

def Entry.row (e : Entry) : JobRow := ⟨e.job_id scheduleId, e.status, e.last_error, e.created_at⟩

end

/-- The jobs of one firing. -/
def firedAt (entries : List Entry) (m : Minute) : List Status :=
  (entries.filter fun e => decide (e.minute = some m)).map Entry.status

/-- One entry for each firing whose jobs are all finished, the newest first. -/
def CountsFirings (scheduleId : String) (entries : List Entry) (out : List (String × Bool)) : Prop :=
  ∃ ms : List Minute,
    out = ms.map (fun m => (runId scheduleId m, isSkipped (firedAt entries m))) ∧
      ms.Pairwise (fun a b => b.value < a.value) ∧ ∀ m, m ∈ ms ↔ Settled (firedAt entries m)

/-! ### The order of the minutes -/

theorem numberOf_lt {cs : List Char} (h : cs.all Char.isDigit = true) :
    numberOf cs < 10 ^ cs.length := by
  induction cs with
  | nil => decide
  | cons c cs ih =>
      rw [List.all_cons, Bool.and_eq_true] at h
      have hrest := ih h.2
      have hdigit : c.toNat - 48 ≤ 9 := by
        have hhi := (isDigit_iff.mp h.1).2
        omega
      rw [numberOf, List.length_cons, pow_succ]
      have hmul := Nat.mul_le_mul_right (10 ^ cs.length) hdigit
      omega

theorem codeUnits_digit {c : Char} (h : c.isDigit = true) : codeUnits c = [c.toNat] := by
  have hhi := (isDigit_iff.mp h).2
  rw [codeUnits, if_pos (by omega)]

theorem unitsLe_append (us as bs : List Nat) : unitsLe (us ++ as) (us ++ bs) = unitsLe as bs := by
  induction us with
  | nil => rfl
  | cons u us ih => simp [unitsLe, ih]

theorem unitsLe_digits {as bs : List Char} (ha : as.all Char.isDigit = true)
    (hb : bs.all Char.isDigit = true) (hlength : as.length = bs.length) :
    unitsLe (as.flatMap codeUnits) (bs.flatMap codeUnits) = true ↔ numberOf as ≤ numberOf bs := by
  induction as generalizing bs with
  | nil => simp [unitsLe, numberOf]
  | cons a as ih =>
      cases bs with
      | nil => cases hlength
      | cons b bs =>
          rw [List.all_cons, Bool.and_eq_true] at ha hb
          have hlength' : as.length = bs.length := Nat.succ.inj hlength
          have hrest := ih ha.2 hb.2 hlength'
          have hlt := numberOf_lt ha.2
          have hlt' := numberOf_lt hb.2
          have hlo := (isDigit_iff.mp ha.1).1
          have hlo' := (isDigit_iff.mp hb.1).1
          simp only [List.flatMap_cons, codeUnits_digit ha.1, codeUnits_digit hb.1,
            List.cons_append, List.nil_append, unitsLe, Bool.or_eq_true, Bool.and_eq_true,
            decide_eq_true_eq, hrest, numberOf, hlength'] at hlt ⊢
          rcases Nat.lt_trichotomy a.toNat b.toNat with hab | hab | hab
          · have hmul := Nat.mul_le_mul_right (10 ^ bs.length)
              (show a.toNat - 48 + 1 ≤ b.toNat - 48 by omega)
            rw [Nat.add_mul, Nat.one_mul] at hmul
            exact iff_of_true (Or.inl hab) (by omega)
          · rw [hab]
            constructor
            · rintro (h | ⟨-, h⟩)
              · omega
              · omega
            · intro h
              exact Or.inr ⟨rfl, by omega⟩
          · have hmul := Nat.mul_le_mul_right (10 ^ bs.length)
              (show b.toNat - 48 + 1 ≤ a.toNat - 48 by omega)
            rw [Nat.add_mul, Nat.one_mul] at hmul
            exact iff_of_false (by omega) (by omega)

/-- The ids of two firings stand in the order of their minutes. -/
theorem jsTextLe_runId_iff (scheduleId : String) (m m' : Minute) :
    jsTextLe (runId scheduleId m) (runId scheduleId m') ↔ m.value ≤ m'.value := by
  simp only [jsTextLe, runId, String.toList_append, String.toList_ofList, List.flatMap_append,
    unitsLe_append]
  exact unitsLe_digits m.all_digits m'.all_digits (m.length_eq.trans m'.length_eq.symm)

theorem runId_inj {scheduleId : String} {m m' : Minute}
    (h : runId scheduleId m = runId scheduleId m') :
    m = m' := by
  have hchars := congrArg String.toList h
  simp only [runId, String.toList_append, String.toList_ofList, List.append_cancel_left_eq] at hchars
  cases m
  cases m'
  simpa using hchars

/-! ### The part in front of two dashes -/

/-- The ids that keep their firings apart: no two dashes, and none at the end. -/
def Plain (scheduleId : String) : Prop := ¬ ['-', '-'] <:+: scheduleId.toList ++ ['-']

instance : DecidablePred Plain := fun _ => inferInstanceAs (Decidable (¬ _))

theorem beforeDashes_of_isInfix {a : List Char} (h : ['-', '-'] <:+: a) (rest : List Char) :
    beforeDashes (a ++ rest) = beforeDashes a ∧ (beforeDashes a).length < a.length := by
  induction a with
  | nil => simp at h
  | cons c a ih =>
      by_cases hhere : c = '-' ∧ a.head? = some '-'
      · have hmore : (a ++ rest).head? = some '-' := by
          cases a with
          | nil => cases hhere.2
          | cons x a => exact hhere.2
        rw [List.cons_append, beforeDashes, beforeDashes, if_pos ⟨hhere.1, hmore⟩, if_pos hhere]
        exact ⟨rfl, Nat.zero_lt_succ _⟩
      · have hin : ['-', '-'] <:+: a := by
          rcases List.infix_cons_iff.mp h with hprefix | hin
          · obtain ⟨rfl, hrest⟩ := List.cons_prefix_cons.mp hprefix
            refine absurd ⟨rfl, ?_⟩ hhere
            obtain ⟨more, rfl⟩ := hrest
            rfl
          · exact hin
        obtain ⟨hsame, hlength⟩ := ih hin
        have hmore : (a ++ rest).head? = a.head? := by
          cases a with
          | nil => simp at hin
          | cons x a => rfl
        rw [List.cons_append, beforeDashes, beforeDashes, hmore, if_neg hhere, if_neg hhere, hsame]
        exact ⟨rfl, Nat.succ_lt_succ hlength⟩

theorem beforeDashes_of_not_isInfix {a rest : List Char} (h : ¬ ['-', '-'] <:+: a)
    (hjoin : a.getLast? = some '-' → rest.head? ≠ some '-') :
    beforeDashes (a ++ rest) = a ++ beforeDashes rest := by
  induction a with
  | nil => rfl
  | cons c a ih =>
      have hin : ¬ ['-', '-'] <:+: a := fun hin => h (hin.trans (List.suffix_cons c a).isInfix)
      have hhere : ¬ (c = '-' ∧ (a ++ rest).head? = some '-') := by
        rintro ⟨rfl, hhead⟩
        cases a with
        | nil => exact hjoin rfl hhead
        | cons x a =>
            obtain rfl : x = '-' := Option.some.inj hhead
            exact h (List.prefix_append ['-', '-'] a).isInfix
      rw [List.cons_append, beforeDashes, if_neg hhere, ih hin ?_, List.cons_append]
      intro hlast
      apply hjoin
      cases a with
      | nil => cases hlast
      | cons x a => rw [List.getLast?_cons_cons, hlast]

theorem beforeDashes_tail {tail : List Char} (h : isTail tail = true) : beforeDashes tail = [] := by
  unfold isTail at h
  split at h
  · rfl
  · rfl
  · cases h

theorem not_dash_of_isDigit {c : Char} (h : c.isDigit = true) : c ≠ '-' := by
  rintro rfl
  exact absurd h (by decide)

/-- The firing is read off the id of each of its jobs. -/
theorem beforeDashes_stamp {scheduleId : String} (hplain : Plain scheduleId) (m : Minute)
    {tail : List Char} (htail : isTail tail = true) :
    beforeDashes ((runId scheduleId m).toList ++ tail) = (runId scheduleId m).toList := by
  have hdigits : ∀ c ∈ m.digits, c ≠ '-' := fun c hc =>
    not_dash_of_isDigit (List.all_eq_true.mp m.all_digits c hc)
  have hinner : ¬ ['-', '-'] <:+: m.digits := fun hin =>
    hdigits '-' (hin.subset List.mem_cons_self) rfl
  have hlast : m.digits.getLast? = some '-' → tail.head? ≠ some '-' := fun h =>
    absurd rfl (hdigits '-' (List.mem_of_getLast? h))
  have hhead : (m.digits ++ tail).head? ≠ some '-' := by
    intro h
    cases hd : m.digits with
    | nil =>
        have hlength := m.length_eq
        rw [hd] at hlength
        cases hlength
    | cons c cs =>
        rw [hd] at h hdigits
        exact hdigits c List.mem_cons_self (Option.some.inj h)
  have hchars : (runId scheduleId m).toList = scheduleId.toList ++ ['-'] ++ m.digits := by
    simp [runId]
  rw [hchars, List.append_assoc, beforeDashes_of_not_isInfix hplain fun _ => hhead,
    beforeDashes_of_not_isInfix hinner hlast, beforeDashes_tail htail, List.append_nil]

/-! ### What the rows say -/

/-- The id is that of a job of this firing, as far as the pattern can tell. -/
def looksLike (scheduleId : String) (m : Minute) (job_id : String) : Bool :=
  (runId scheduleId m).toList.isPrefixOf job_id.toList &&
    isTail (job_id.toList.drop (runId scheduleId m).toList.length)

theorem looksLike_iff {scheduleId job_id : String} {m : Minute} :
    looksLike scheduleId m job_id = true ↔
      ∃ tail, job_id.toList = (runId scheduleId m).toList ++ tail ∧ isTail tail = true := by
  rw [looksLike, Bool.and_eq_true, List.isPrefixOf_iff_prefix]
  constructor
  · rintro ⟨⟨tail, htail⟩, h⟩
    rw [← htail, List.drop_left] at h
    exact ⟨tail, htail.symm, h⟩
  · rintro ⟨tail, hid, htail⟩
    rw [hid, List.drop_left]
    exact ⟨List.prefix_append _ _, htail⟩

theorem own_iff_looksLike {scheduleId job_id : String} :
    own scheduleId job_id = true ↔ ∃ m, looksLike scheduleId m job_id = true := by
  rw [own_iff]
  constructor
  · rintro ⟨stamp, hid, hstamp⟩
    obtain ⟨digits, tail, rfl, hlength, hdigits, htail⟩ := isStamp_iff.mp hstamp
    refine ⟨⟨digits, hlength, hdigits⟩, looksLike_iff.mpr ⟨tail, ?_, htail⟩⟩
    rw [hid]
    simp [runId]
  · rintro ⟨m, hm⟩
    obtain ⟨tail, hid, htail⟩ := looksLike_iff.mp hm
    refine ⟨'-' :: (m.digits ++ tail), ?_, isStamp_iff.mpr
      ⟨m.digits, tail, rfl, m.length_eq, m.all_digits, htail⟩⟩
    rw [hid]
    simp [runId]

/-- The statuses of the jobs that look like one firing's. -/
def readAt (scheduleId : String) (entries : List Entry) (m : Minute) : List Status :=
  (entries.filter fun e => looksLike scheduleId m (e.job_id scheduleId)).map Entry.status

/-- The statuses of the jobs that look like some firing's. -/
def readAll (scheduleId : String) (entries : List Entry) : List Status :=
  (entries.filter fun e => own scheduleId (e.job_id scheduleId)).map Entry.status

section

variable {scheduleId : String} {entries : List Entry}

theorem statusesAt_entries (key : String) :
    statusesAt scheduleId (entries.map (Entry.row scheduleId)) key =
      (entries.filter fun e => own scheduleId (e.job_id scheduleId) &&
        decide (runKey (e.row scheduleId) = key)).map Entry.status := by
  rw [statusesAt, ownRows_eq, List.filter_map, List.filter_map, List.map_map, List.filter_filter]
  congr 1
  apply List.filter_congr
  intro e _
  exact Bool.and_comm _ _

theorem runKey_of_looksLike (hplain : Plain scheduleId) {e : Entry} {m : Minute}
    (h : looksLike scheduleId m (e.job_id scheduleId) = true) :
    runKey (e.row scheduleId) = runId scheduleId m := by
  obtain ⟨tail, hid, htail⟩ := looksLike_iff.mp h
  rw [runKey]
  change String.ofList (beforeDashes (e.job_id scheduleId).toList) = _
  rw [hid, beforeDashes_stamp hplain m htail, String.ofList_toList]

theorem statusesAt_plain (hplain : Plain scheduleId) (m : Minute) :
    statusesAt scheduleId (entries.map (Entry.row scheduleId)) (runId scheduleId m) =
      readAt scheduleId entries m := by
  rw [statusesAt_entries, readAt]
  congr 1
  apply List.filter_congr
  intro e _
  rw [Bool.eq_iff_iff, Bool.and_eq_true, decide_eq_true_eq, own_iff_looksLike]
  constructor
  · rintro ⟨⟨m', hm'⟩, hkey⟩
    rw [runKey_of_looksLike hplain hm'] at hkey
    rwa [← runId_inj hkey]
  · intro hm
    exact ⟨⟨m, hm⟩, runKey_of_looksLike hplain hm⟩

theorem exists_minute (hplain : Plain scheduleId) {key : String}
    (h : statusesAt scheduleId (entries.map (Entry.row scheduleId)) key ≠ []) :
    ∃ m, key = runId scheduleId m := by
  rw [statusesAt_entries] at h
  obtain ⟨e, he⟩ := List.exists_mem_of_ne_nil _ fun hnil => h (List.map_eq_nil_iff.mpr hnil)
  rw [List.mem_filter, Bool.and_eq_true, decide_eq_true_eq, own_iff_looksLike] at he
  obtain ⟨-, ⟨m, hm⟩, rfl⟩ := he
  exact ⟨m, runKey_of_looksLike hplain hm⟩

/-- Two dashes in the schedule's id make one key of all its firings. -/
theorem exists_common_key (hplain : ¬ Plain scheduleId) :
    ∃ key, (∀ m, key ≠ runId scheduleId m) ∧
      ∀ e : Entry, own scheduleId (e.job_id scheduleId) = true → runKey (e.row scheduleId) = key := by
  rw [Plain, not_not] at hplain
  refine ⟨String.ofList (beforeDashes (scheduleId.toList ++ ['-'])), fun m heq => ?_, fun e hown => ?_⟩
  · have hlength := (beforeDashes_of_isInfix hplain []).2
    have hchars := congrArg String.toList heq
    rw [String.toList_ofList] at hchars
    rw [hchars] at hlength
    simp [runId] at hlength
  · obtain ⟨m, hm⟩ := own_iff_looksLike.mp hown
    obtain ⟨tail, hid, -⟩ := looksLike_iff.mp hm
    have hshape : (e.job_id scheduleId).toList =
        (scheduleId.toList ++ ['-']) ++ (m.digits ++ tail) := by
      rw [hid]
      simp [runId]
    rw [runKey]
    change String.ofList (beforeDashes (e.job_id scheduleId).toList) = _
    rw [hshape, (beforeDashes_of_isInfix hplain _).1]

/-- The rows read say of every minute what the jobs fired in it say. An id with two dashes keeps no
minute apart, so there must be nothing to report and nothing reported. -/
def FiringsApart (scheduleId : String) (entries : List Entry) : Prop :=
  if Plain scheduleId then
    ∀ m, (Settled (readAt scheduleId entries m) ↔ Settled (firedAt entries m)) ∧
      (Settled (firedAt entries m) →
        isSkipped (readAt scheduleId entries m) = isSkipped (firedAt entries m))
  else (∀ m, ¬ Settled (firedAt entries m)) ∧ ¬ Settled (readAll scheduleId entries)

/-- Which firings are reported, and with which verdict. -/
theorem mem_of_countsFirings {out : List (String × Bool)}
    (h : CountsFirings scheduleId entries out) (key : String) (skipped : Bool) :
    (key, skipped) ∈ out ↔ ∃ m, key = runId scheduleId m ∧ Settled (firedAt entries m) ∧
      skipped = isSkipped (firedAt entries m) := by
  obtain ⟨ms, rfl, -, hms⟩ := h
  simp only [List.mem_map, Prod.mk.injEq, hms]
  constructor
  · rintro ⟨m, hm, rfl, rfl⟩
    exact ⟨m, rfl, hm, rfl⟩
  · rintro ⟨m, rfl, hm, rfl⟩
    exact ⟨m, hm, rfl, rfl⟩

theorem countsFirings_of_mem {out : List (String × Bool)}
    (hmem : ∀ key skipped, (key, skipped) ∈ out ↔ ∃ m, key = runId scheduleId m ∧
      Settled (firedAt entries m) ∧ skipped = isSkipped (firedAt entries m))
    (hsorted : out.Pairwise fun a b => jsTextLe b.1 a.1 ∧ a.1 ≠ b.1) :
    CountsFirings scheduleId entries out := by
  have hform : ∀ x ∈ out, ∃ m, (runId scheduleId m, isSkipped (firedAt entries m)) = x := by
    rintro ⟨key, skipped⟩ hx
    obtain ⟨m, rfl, -, rfl⟩ := (hmem key skipped).mp hx
    exact ⟨m, rfl⟩
  obtain ⟨ms, hms⟩ : ∃ ms : List Minute,
      ms.map (fun m => (runId scheduleId m, isSkipped (firedAt entries m))) = out :=
    (Set.ext_iff.mp (Set.range_list_map _) out).mpr hform
  refine ⟨ms, hms.symm, ?_, fun m => ?_⟩
  · rw [← hms, List.pairwise_map] at hsorted
    refine hsorted.imp fun {a b} hab => ?_
    have hle := (jsTextLe_runId_iff scheduleId b a).mp hab.1
    refine lt_of_le_of_ne hle fun heq => hab.2 ?_
    have hge := (jsTextLe_runId_iff scheduleId a b).mpr (Nat.le_of_eq heq.symm)
    exact Std.Antisymm.antisymm (r := jsTextLe) _ _ hge hab.1
  · have h := hmem (runId scheduleId m) (isSkipped (firedAt entries m))
    constructor
    · intro hm
      obtain ⟨m', hid, hset, -⟩ := h.mp (by rw [← hms]; exact List.mem_map.mpr ⟨m, hm, rfl⟩)
      rwa [runId_inj hid]
    · intro hset
      have hin := h.mpr ⟨m, rfl, hset, rfl⟩
      rw [← hms] at hin
      obtain ⟨m', hm', heq⟩ := List.mem_map.mp hin
      rwa [← runId_inj (Prod.mk.inj heq).1]

/-- The runs are the firings, one entry each and judged by their own jobs, exactly where the rows
read under an id speak for the jobs fired. -/
theorem scheduleRuns_counts_iff (scheduleId : String) (entries : List Entry) :
    CountsFirings scheduleId entries
        ((scheduleRuns scheduleId (entries.map (Entry.row scheduleId))).map verdict) ↔
      FiringsApart scheduleId entries := by
  unfold FiringsApart
  split
  · rename_i hplain
    constructor
    · intro h m
      have hsame : ∀ skipped, (Settled (readAt scheduleId entries m) ∧
          skipped = isSkipped (readAt scheduleId entries m)) ↔
          (Settled (firedAt entries m) ∧ skipped = isSkipped (firedAt entries m)) := by
        intro skipped
        rw [← statusesAt_plain hplain, ← mem_scheduleRuns_iff, mem_of_countsFirings h]
        constructor
        · rintro ⟨m', hid, hset⟩
          rwa [runId_inj hid]
        · intro hset
          exact ⟨m, rfl, hset⟩
      refine ⟨⟨fun hread => ?_, fun hfired => ?_⟩, fun hfired => ?_⟩
      · exact ((hsame _).mp ⟨hread, rfl⟩).1
      · exact ((hsame _).mpr ⟨hfired, rfl⟩).1
      · exact ((hsame _).mpr ⟨hfired, rfl⟩).2.symm
    · intro h
      refine countsFirings_of_mem (fun key skipped => ?_) pairwise_scheduleRuns
      rw [mem_scheduleRuns_iff]
      constructor
      · rintro ⟨hset, rfl⟩
        obtain ⟨m, rfl⟩ := exists_minute hplain hset.1
        rw [statusesAt_plain hplain] at hset ⊢
        have hfired := (h m).1.mp hset
        exact ⟨m, rfl, hfired, (h m).2 hfired⟩
      · rintro ⟨m, rfl, hfired, rfl⟩
        rw [statusesAt_plain hplain]
        exact ⟨(h m).1.mpr hfired, ((h m).2 hfired).symm⟩
  · rename_i hplain
    obtain ⟨common, hne, hkey⟩ := exists_common_key hplain
    have hall : statusesAt scheduleId (entries.map (Entry.row scheduleId)) common =
        readAll scheduleId entries := by
      rw [statusesAt_entries, readAll]
      congr 1
      apply List.filter_congr
      intro e _
      rw [Bool.and_eq_left_iff_imp, decide_eq_true_eq]
      exact hkey e
    constructor
    · intro h
      refine ⟨fun m hfired => ?_, fun hset => ?_⟩
      · have hin := (mem_of_countsFirings h _ _).mpr ⟨m, rfl, hfired, rfl⟩
        rw [mem_scheduleRuns_iff, statusesAt_entries] at hin
        obtain ⟨e, he⟩ := List.exists_mem_of_ne_nil _ fun hnil =>
          hin.1.1 (List.map_eq_nil_iff.mpr hnil)
        rw [List.mem_filter, Bool.and_eq_true, decide_eq_true_eq] at he
        exact hne m ((hkey e he.2.1).symm.trans he.2.2)
      · rw [← hall] at hset
        obtain ⟨m, hm, -⟩ := (mem_of_countsFirings h _ _).mp (mem_scheduleRuns_iff.mpr ⟨hset, rfl⟩)
        exact hne m hm
    · rintro ⟨hfired, hread⟩
      refine countsFirings_of_mem (fun key skipped => ?_) pairwise_scheduleRuns
      rw [mem_scheduleRuns_iff]
      constructor
      · rintro ⟨hset, -⟩
        exfalso
        rw [statusesAt_entries] at hset
        obtain ⟨e, he⟩ := List.exists_mem_of_ne_nil _ fun hnil =>
          hset.1 (List.map_eq_nil_iff.mpr hnil)
        rw [List.mem_filter, Bool.and_eq_true, decide_eq_true_eq] at he
        obtain rfl : key = common := he.2.2.symm.trans (hkey e he.2.1)
        rw [← statusesAt_entries, hall] at hset
        exact hread hset
      · rintro ⟨m, -, hset, -⟩
        exact absurd hset (hfired m)

end

/-- A nightly whose id has two dashes, done in one night and skipped in the other. -/
def nights : List Entry :=
  [⟨.fired ⟨"202601010300".toList, by decide, by decide⟩ none, .done, none, "2026-01-01 03:00:00"⟩,
    ⟨.fired ⟨"202601020300".toList, by decide, by decide⟩ none, .skipped, none,
      "2026-01-02 03:00:00"⟩]

/-- It is reported as one run, not skipped. -/
theorem dashes_merge_runs :
    (scheduleRuns "web--nightly" (nights.map (Entry.row "web--nightly"))).map verdict =
        [("web", false)] ∧
      ¬ CountsFirings "web--nightly" nights
        ((scheduleRuns "web--nightly" (nights.map (Entry.row "web--nightly"))).map verdict) := by
  have hruns : (scheduleRuns "web--nightly" (nights.map (Entry.row "web--nightly"))).map verdict =
      [("web", false)] := by decide +kernel
  refine ⟨hruns, ?_⟩
  rw [hruns]
  rintro ⟨ms, hms, -⟩
  cases ms with
  | nil => cases hms
  | cons m more =>
      have hid : "web" = runId "web--nightly" m := (Prod.mk.inj (List.cons.inj hms).1).1
      have hlength := congrArg (fun s => s.toList.length) hid
      simp [runId] at hlength

end FleetRunner.ScheduleRuns
