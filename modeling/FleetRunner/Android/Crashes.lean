import FleetRunner.Regressions
import Mathlib.Data.List.Forall2

/-!
# Crashes since the last call (`actuators/android.ts`)

The actuator keeps how many crashes and how many ANRs its last reading had. What a
reading has more is new, and its signatures are taken from the end of the list: the
managed crashes, then the native ones, and the ANRs of the other buffer behind them.

## Implementation notes

The readers, the buffers and what a line logs are those of the regressions.
-/

namespace FleetRunner.Android.Actuator

open Regressions Library.Backtrack

/-! ## The program -/

structure CrashReport where
  count : Nat
  signatures : List String
  excerpt : String
  problems : List String

/-- What the actuator keeps from call to call. -/
structure Baselines where
  crash : Option Nat
  anr : Option Nat

/-- Before the first call. -/
def Baselines.unset : Baselines := ⟨none, none⟩

def fresh (baseline : Option Nat) (count : Nat) : Nat :=
  match baseline with
  | none => 0
  | some baseline => count - baseline

/-- `xs.slice(-n)`, for a positive `n` -/
def sliceLast {α : Type} (n : Nat) (xs : List α) : List α := xs.drop (xs.length - n)

/-- From two lines above the last crash of the package on, 40 lines. -/
def crashExcerpt (log pkg : List Char) : String :=
  let ls := lines log
  let names (l : List Char) : Bool :=
    charsInclude l ("Process: ".toList ++ pkg) ||
      charsInclude l (">>> ".toList ++ pkg ++ " <<<".toList)
  match ls.reverse.findIdx? names with
  | none => ""
  | some back =>
    String.ofList (['\n'].intercalate ((ls.drop (ls.length - 1 - back - 2)).take 40))

/-- What the crash buffer adds to the report, and its next baseline. -/
def crashesOf (appId : List Char) (out : Except String (List Char)) (baseline : Option Nat) :
    CrashReport × Option Nat :=
  match out with
  | .error message => (⟨0, [], "", ["logcat -b crash failed: " ++ jsSlice message 120]⟩, baseline)
  | .ok stdout =>
    let c := parseCrashLogcat stdout appId
    match c.problem with
    | some problem => (⟨0, [], "", [problem]⟩, baseline)
    | none =>
      let new := fresh baseline c.count
      (if 0 < new then ⟨new, sliceLast new c.signatures, crashExcerpt stdout appId, []⟩
        else ⟨0, [], "", []⟩, some c.count)

/-- What the events buffer adds. -/
def anrsOf (appId : List Char) (out : Except String (List Char)) (baseline : Option Nat) :
    CrashReport × Option Nat :=
  match out with
  | .error message => (⟨0, [], "", ["logcat -b events failed: " ++ jsSlice message 120]⟩, baseline)
  | .ok stdout =>
    let anrs := parseAnrEvents stdout appId
    let new := fresh baseline anrs.length
    (if 0 < new then ⟨new, sliceLast new anrs, "", []⟩ else ⟨0, [], "", []⟩, some anrs.length)

def crashes (appId : List Char) (crash events : Except String (List Char)) (kept : Baselines) :
    CrashReport × Baselines :=
  let c := crashesOf appId crash kept.crash
  let e := anrsOf appId events kept.anr
  (⟨c.1.count + e.1.count, c.1.signatures ++ e.1.signatures, c.1.excerpt,
    c.1.problems ++ e.1.problems⟩, ⟨c.2, e.2⟩)

/-! ## The calls -/

/-- The lines of the two buffers. -/
structure Logs where
  crash : List Line
  events : List Line

/-- Lines are appended to both. -/
def Logs.append (logs new : Logs) : Logs := ⟨logs.crash ++ new.crash, logs.events ++ new.events⟩

def call (appId : List Char) (logs : Logs) (kept : Baselines) : CrashReport × Baselines :=
  crashes appId (.ok (logcat logs.crash)) (.ok (logcat logs.events)) kept

/-- A call behind each batch of lines. -/
def calls (appId : List Char) : Logs → Baselines → List Logs → List CrashReport
  | _, _, [] => []
  | logs, kept, new :: later =>
    (call appId (logs.append new) kept).1 ::
      calls appId (logs.append new) (call appId (logs.append new) kept).2 later

/-- The first call, and one behind each batch. -/
def session (appId : List Char) (logs : Logs) (news : List Logs) : CrashReport × List CrashReport :=
  ((call appId logs .unset).1, calls appId logs (call appId logs .unset).2 news)

/-! ## What was logged -/

/-- The signatures of the package's crashes and ANRs among the lines. -/
def happened (pkg : List Char) (new : Logs) : List String :=
  Regressions.happened pkg new.crash new.events

/-- Each call reports what was logged since the one before, and the counts add up. -/
def ReportsOnce (appId : List Char) (logs : Logs) (news : List Logs) : Prop :=
  List.Forall₂ (fun (r : CrashReport) new => r.signatures.Perm (happened appId new))
      (session appId logs news).2 news ∧
    ((session appId logs news).2.map CrashReport.count).sum =
      (news.map fun new => (happened appId new).length).sum

/-! ## A successful call -/

section Calls

variable {appId : List Char}

/-- The crashes of the package that these lines log, in the order of the report. -/
def crashEntries (pkg : List Char) (ls : List Line) : List String :=
  managedSignatures pkg (ls.map stripped) ++ nativeSignatures pkg (ls.map stripped)

def anrEntries (pkg : List Char) (ls : List Line) : List String :=
  ((ls.map stripped).filter (namesAnr pkg)).map anrSignature

/-- The baselines of an actuator whose last call read these logs. -/
def baselinesOf (appId : List Char) (logs : Logs) : Baselines :=
  ⟨some (crashEntries appId (window logs.crash)).length,
    some (anrEntries appId (window logs.events)).length⟩

theorem sliceLast_zero {α : Type} (xs : List α) : sliceLast 0 xs = [] :=
  List.drop_length

theorem sliceLast_append {α : Type} (xs ys : List α) : sliceLast ys.length (xs ++ ys) = ys := by
  rw [sliceLast, List.length_append, Nat.add_sub_cancel, List.drop_left]

theorem length_sliceLast {α : Type} {n : Nat} {xs : List α} (h : n ≤ xs.length) :
    (sliceLast n xs).length = n := by
  rw [sliceLast, List.length_drop]
  omega

theorem fresh_le (baseline : Option Nat) (count : Nat) : fresh baseline count ≤ count := by
  cases baseline with
  | none => exact Nat.zero_le _
  | some baseline => exact Nat.sub_le _ _

theorem crashesOf_logcat {log : List Line} {baseline : Option Nat}
    (hok : (crashesOf appId (.ok (logcat log)) baseline).1.problems = []) :
    (crashesOf appId (.ok (logcat log)) baseline).1.signatures =
        sliceLast (fresh baseline (crashEntries appId (window log)).length)
          (crashEntries appId (window log)) ∧
      (crashesOf appId (.ok (logcat log)) baseline).1.count =
        fresh baseline (crashEntries appId (window log)).length ∧
      (crashesOf appId (.ok (logcat log)) baseline).2 =
        some (crashEntries appId (window log)).length := by
  unfold crashesOf at hok ⊢
  cases hproblem : (parseCrashLogcat (logcat log) appId).problem with
  | some problem =>
    simp only [hproblem] at hok
    cases hok
  | none =>
    obtain ⟨hsig, hcount⟩ := parseCrashLogcat_logcat hproblem
    have hentries : (parseCrashLogcat (logcat log) appId).signatures =
        crashEntries appId (window log) := hsig
    simp only [hproblem, hcount, hentries, and_true]
    split
    · exact ⟨rfl, rfl⟩
    · next hnone =>
      rw [Nat.eq_zero_of_not_pos hnone, sliceLast_zero]
      exact ⟨rfl, rfl⟩

theorem anrsOf_logcat (appId : List Char) (log : List Line) (baseline : Option Nat) :
    (anrsOf appId (.ok (logcat log)) baseline).1.signatures =
        sliceLast (fresh baseline (anrEntries appId (window log)).length)
          (anrEntries appId (window log)) ∧
      (anrsOf appId (.ok (logcat log)) baseline).1.count =
        fresh baseline (anrEntries appId (window log)).length ∧
      (anrsOf appId (.ok (logcat log)) baseline).2 =
        some (anrEntries appId (window log)).length := by
  have hread : parseAnrEvents (logcat log) appId = anrEntries appId (window log) :=
    parseAnrEvents_output _
  unfold anrsOf
  simp only [hread, and_true]
  split
  · exact ⟨rfl, rfl⟩
  · next hnone =>
    rw [Nat.eq_zero_of_not_pos hnone, sliceLast_zero]
    exact ⟨rfl, rfl⟩

/-- What a successful call reports, and what it keeps. -/
theorem call_ok {logs : Logs} {kept : Baselines} (hok : (call appId logs kept).1.problems = []) :
    (call appId logs kept).1.signatures =
        sliceLast (fresh kept.crash (crashEntries appId (window logs.crash)).length)
            (crashEntries appId (window logs.crash)) ++
          sliceLast (fresh kept.anr (anrEntries appId (window logs.events)).length)
            (anrEntries appId (window logs.events)) ∧
      (call appId logs kept).1.count = (call appId logs kept).1.signatures.length ∧
      (call appId logs kept).2 = baselinesOf appId logs := by
  have hcrash : (crashesOf appId (.ok (logcat logs.crash)) kept.crash).1.problems = [] :=
    (List.append_eq_nil_iff.mp hok).1
  obtain ⟨hsig, hcount, hnext⟩ := crashesOf_logcat hcrash
  obtain ⟨hsig', hcount', hnext'⟩ := anrsOf_logcat appId logs.events kept.anr
  refine ⟨congrArg₂ _ hsig hsig', ?_, congrArg₂ _ hnext hnext'⟩
  change (crashesOf appId (.ok (logcat logs.crash)) kept.crash).1.count +
    (anrsOf appId (.ok (logcat logs.events)) kept.anr).1.count = List.length (_ ++ _)
  rw [List.length_append, hsig, hsig', hcount, hcount', length_sliceLast (fresh_le _ _),
    length_sliceLast (fresh_le _ _)]

end Calls

/-! ## A call that meets its conditions -/

/-- Where there is something new, nothing old has gone out of the window; where a managed crash is
new, no native one is in front of it; and who is counted for an ANR has one. -/
structure Met (appId : List Char) (logs new : Logs) : Prop where
  crash : NoCrash appId new.crash ∨ NoCrash appId (slid logs.crash new.crash)
  order : (∀ l ∈ new.crash, ¬ IsManaged appId (stripped l)) ∨
    ∀ l ∈ kept logs.crash new.crash, ¬ IsNative appId (stripped l)
  anr : NoAnr appId new.events ∨ NoAnr appId (slid logs.events new.events)
  exact : ∀ l ∈ new.events, namesAnr appId (stripped l) = true → IsAnr appId (stripped l)

/-- Fewer lines than a reading returns. -/
def Short (new : Logs) : Prop := new.crash.length < 4000 ∧ new.events.length < 4000

section Step

variable {appId : List Char} {old new : List Line}

theorem window_append_short (hnew : new.length < 4000) :
    window (old ++ new) = kept old new ++ new := by
  rw [window_append, window_short hnew.le]

theorem countP_eq_zero {is : List Char → Bool} {ls : List Line}
    (h : ∀ l ∈ ls, ¬ is (stripped l) = true) : (ls.map stripped).countP is = 0 := by
  rw [List.countP_eq_zero]
  intro l hl
  obtain ⟨l, hmem, rfl⟩ := List.mem_map.mp hl
  exact h l hmem

theorem signaturesAt_eq_nil {names : Re} {sig : List Char → List (List Char) → String}
    {ls : List Line} (h : ∀ l ∈ ls, ¬ names.test (stripped l) = true) :
    signaturesAt names sig (ls.map stripped) = [] :=
  List.eq_nil_of_length_eq_zero ((length_signaturesAt _ _ _).trans (countP_eq_zero h))

/-- Where nothing is new, or nothing has gone out of the window, the crashes at the end are the new
ones. -/
theorem sliceLast_crashEntries (hnew : new.length < 4000)
    (hcrash : NoCrash appId new ∨ NoCrash appId (slid old new))
    (horder : (∀ l ∈ new, ¬ IsManaged appId (stripped l)) ∨
      ∀ l ∈ kept old new, ¬ IsNative appId (stripped l)) :
    sliceLast ((crashEntries appId (window (old ++ new))).length -
        (crashEntries appId (window old)).length) (crashEntries appId (window (old ++ new))) =
      crashEntries appId new := by
  obtain ⟨fm, hfm, hlm⟩ := signaturesAt_append (managedRe appId)
    (fun _ rest => signature exceptionRe "FATAL EXCEPTION" (rest.take 5))
    ((kept old new).map stripped) (new.map stripped)
  obtain ⟨fn, hfn, hln⟩ := signaturesAt_append (nativeRe appId)
    (fun l rest => signature signalRe "native crash" ((l :: rest).take 8))
    ((kept old new).map stripped) (new.map stripped)
  have hafter : crashEntries appId (window (old ++ new)) =
      fm ++ managedSignatures appId (new.map stripped) ++
        (fn ++ nativeSignatures appId (new.map stripped)) := by
    rw [window_append_short hnew, crashEntries, List.map_append]
    exact congrArg₂ _ hfm hfn
  have hbefore : (crashEntries appId (window old)).length =
      ((slid old new).map stripped).countP (managedRe appId).test + fm.length +
        (((slid old new).map stripped).countP (nativeRe appId).test + fn.length) := by
    rw [← slid_append_kept old new, crashEntries, List.length_append, managedSignatures,
      nativeSignatures, length_signaturesAt, length_signaturesAt, List.map_append,
      List.countP_append, List.countP_append, hlm, hln]
  have hmanaged : ∀ {ls : List Line}, (∀ l ∈ ls, ¬ IsManaged appId (stripped l)) →
      ∀ l ∈ ls, ¬ (managedRe appId).test (stripped l) = true := fun h l hl =>
    mt (managedRe_test_iff appId _).mp (h l hl)
  have hnative : ∀ {ls : List Line}, (∀ l ∈ ls, ¬ IsNative appId (stripped l)) →
      ∀ l ∈ ls, ¬ (nativeRe appId).test (stripped l) = true := fun h l hl =>
    mt (nativeRe_test_iff appId _).mp (h l hl)
  rcases hcrash with hnone | hslid
  · have hm : managedSignatures appId (new.map stripped) = [] :=
      signaturesAt_eq_nil (hmanaged fun l hl => (hnone l hl).1)
    have hn : nativeSignatures appId (new.map stripped) = [] :=
      signaturesAt_eq_nil (hnative fun l hl => (hnone l hl).2)
    have hzero : (crashEntries appId (window (old ++ new))).length -
        (crashEntries appId (window old)).length = 0 := by
      rw [hafter, hbefore, hm, hn]
      simp only [List.length_append, List.length_nil]
      omega
    rw [hzero, sliceLast_zero, crashEntries, hm, hn, List.append_nil]
  · have hfresh : (crashEntries appId (window (old ++ new))).length -
        (crashEntries appId (window old)).length = (crashEntries appId new).length := by
      rw [hafter, hbefore, countP_eq_zero (hmanaged fun l hl => (hslid l hl).1),
        countP_eq_zero (hnative fun l hl => (hslid l hl).2), crashEntries]
      simp only [List.length_append]
      omega
    rw [hfresh]
    rcases horder with hm | hn
    · have hm : managedSignatures appId (new.map stripped) = [] :=
        signaturesAt_eq_nil (hmanaged hm)
      rw [hafter, crashEntries, hm, List.nil_append, List.append_nil, ← List.append_assoc]
      exact sliceLast_append _ _
    · have hfn : fn = [] := List.eq_nil_of_length_eq_zero (hln.trans (countP_eq_zero (hnative hn)))
      rw [hafter, hfn, List.nil_append, List.append_assoc]
      exact sliceLast_append _ _

theorem sliceLast_anrEntries (hnew : new.length < 4000)
    (hanr : NoAnr appId new ∨ NoAnr appId (slid old new)) :
    sliceLast ((anrEntries appId (window (old ++ new))).length -
        (anrEntries appId (window old)).length) (anrEntries appId (window (old ++ new))) =
      anrEntries appId new := by
  have happend : ∀ xs ys : List Line,
      anrEntries appId (xs ++ ys) = anrEntries appId xs ++ anrEntries appId ys := fun xs ys => by
    rw [anrEntries, List.map_append, List.filter_append, List.map_append]
    rfl
  have hnil : ∀ {ls : List Line}, NoAnr appId ls → anrEntries appId ls = [] := fun {ls} h => by
    rw [anrEntries, List.map_eq_nil_iff, List.filter_eq_nil_iff]
    intro l hl
    obtain ⟨l, hmem, rfl⟩ := List.mem_map.mp hl
    rw [h l hmem]
    decide
  rw [window_append_short hnew, ← slid_append_kept old new, happend, happend]
  rcases hanr with hnone | hslid
  · rw [hnil hnone, List.append_nil, List.length_append,
      Nat.sub_eq_zero_of_le (Nat.le_add_left _ _), sliceLast_zero]
  · rw [hnil hslid, List.nil_append, List.length_append, Nat.add_sub_cancel_left]
    exact sliceLast_append _ _

/-- A successful call behind lines that meet the conditions reports what they log. -/
theorem call_met {logs new : Logs} (hshort : Short new) (hmet : Met appId logs new)
    (hok : (call appId (logs.append new) (baselinesOf appId logs)).1.problems = []) :
    (call appId (logs.append new) (baselinesOf appId logs)).1.signatures = happened appId new ∧
      (call appId (logs.append new) (baselinesOf appId logs)).1.count =
        (happened appId new).length ∧
      (call appId (logs.append new) (baselinesOf appId logs)).2 =
        baselinesOf appId (logs.append new) := by
  obtain ⟨hsig, hcount, hnext⟩ := call_ok hok
  have hsignatures : (call appId (logs.append new) (baselinesOf appId logs)).1.signatures =
      happened appId new := by
    rw [hsig, happened, happened_eq hmet.exact]
    exact congrArg₂ _ (sliceLast_crashEntries hshort.1 hmet.crash hmet.order)
      (sliceLast_anrEntries hshort.2 hmet.anr)
  exact ⟨hsignatures, hcount.trans (congrArg _ hsignatures), hnext⟩

end Step

/-! ## The run -/

/-- Each batch meets the conditions behind the lines before it. -/
def EachMet (appId : List Char) : Logs → List Logs → Prop
  | _, [] => True
  | logs, new :: later => Met appId logs new ∧ EachMet appId (logs.append new) later

/-- No call of the session has a problem. -/
def Successful (appId : List Char) (logs : Logs) (news : List Logs) : Prop :=
  (session appId logs news).1.problems = [] ∧
    ∀ r ∈ (session appId logs news).2, r.problems = []

theorem calls_met {appId : List Char} {logs : Logs} {news : List Logs}
    (hshort : ∀ new ∈ news, Short new) (hmet : EachMet appId logs news)
    (hok : ∀ r ∈ calls appId logs (baselinesOf appId logs) news, r.problems = []) :
    List.Forall₂ (fun (r : CrashReport) new => r.signatures = happened appId new ∧
        r.count = (happened appId new).length)
      (calls appId logs (baselinesOf appId logs) news) news := by
  induction news generalizing logs with
  | nil => exact .nil
  | cons new later ih =>
    rw [List.forall_mem_cons] at hshort
    rw [calls, List.forall_mem_cons] at hok
    obtain ⟨hsig, hcount, hnext⟩ := call_met hshort.1 hmet.1 hok.1
    rw [hnext] at hok
    rw [calls, hnext]
    exact .cons ⟨hsig, hcount⟩ (ih hshort.2 hmet.2 hok.2)

theorem sum_count {appId : List Char} {rs : List CrashReport} {news : List Logs}
    (h : List.Forall₂ (fun (r : CrashReport) new => r.signatures = happened appId new ∧
      r.count = (happened appId new).length) rs news) :
    (rs.map CrashReport.count).sum = (news.map fun new => (happened appId new).length).sum := by
  induction h with
  | nil => rfl
  | cons hfirst _ ih =>
    rw [List.map_cons, List.map_cons, List.sum_cons, List.sum_cons, hfirst.2, ih]

/-- Where each batch meets the conditions, every call reports what its batch logged. -/
theorem reportsOnce {appId : List Char} {logs : Logs} {news : List Logs}
    (hshort : ∀ new ∈ news, Short new) (hok : Successful appId logs news)
    (hmet : EachMet appId logs news) : ReportsOnce appId logs news := by
  obtain ⟨hfirst, hlater⟩ := hok
  have hnext : (call appId logs .unset).2 = baselinesOf appId logs := (call_ok hfirst).2.2
  unfold ReportsOnce
  rw [session, hnext] at hlater ⊢
  have hcalls := calls_met hshort hmet hlater
  exact ⟨hcalls.imp fun _ _ h => .of_eq h.1, sum_count hcalls⟩

/-! ## Three small sessions -/

def noLogs : Logs := ⟨[], []⟩

/-- A native crash between the first two calls, a managed one before the third. -/
def nativeFirst : List Logs := [⟨[nativeLine], []⟩, ⟨[crashLine], []⟩]

/-- An ANR of a package whose name goes on. -/
def otherAnr : List Logs := [⟨[], [otherAnrLine]⟩]

/-- A crash and an ANR from before the first call. -/
def oldLogs : Logs := ⟨[crashLine], [anrLine]⟩

/-- Another of each, and then a native crash and a third ANR. -/
def crashAndAnr : List Logs := [⟨[crashLine], [anrLine]⟩, ⟨[nativeLine], [anrLine]⟩]

theorem logcat_short {log : List Line} (h : log.length ≤ 4000) :
    logcat log = log.flatMap fun l => l.chars ++ ['\n'] := by
  rw [logcat, window_short h]

theorem successful_nativeFirst : Successful ['a'] noLogs nativeFirst := by
  unfold Successful session nativeFirst calls calls calls call noLogs Logs.append
  simp (disch := decide) only [logcat_short]
  decide

theorem successful_otherAnr : Successful ['a'] noLogs otherAnr := by
  unfold Successful session otherAnr calls calls call noLogs Logs.append
  simp (disch := decide) only [logcat_short]
  decide

theorem successful_crashAndAnr : Successful ['a'] oldLogs crashAndAnr := by
  unfold Successful session crashAndAnr calls calls calls call oldLogs Logs.append
  simp (disch := decide) only [logcat_short]
  decide

/-- The native crash is reported again in place of the managed one, and the other package's ANR is
reported. -/
theorem reportsOnce_fails :
    ((∀ new ∈ nativeFirst, Short new) ∧ Successful ['a'] noLogs nativeFirst ∧
      ¬ ReportsOnce ['a'] noLogs nativeFirst) ∧
    (∀ new ∈ otherAnr, Short new) ∧ Successful ['a'] noLogs otherAnr ∧
      ¬ ReportsOnce ['a'] noLogs otherAnr := by
  refine ⟨⟨by simp [nativeFirst, Short], successful_nativeFirst, fun h => ?_⟩,
    by simp [otherAnr, Short], successful_otherAnr, fun h => ?_⟩
  · obtain ⟨hreports, -⟩ := h
    unfold session nativeFirst calls calls calls at hreports
    have hsecond := (List.forall₂_cons.mp (List.forall₂_cons.mp hreports).2).1
    have hnew : happened ['a'] ⟨[crashLine], []⟩ = ["FATAL EXCEPTION"] := by decide
    rw [hnew] at hsecond
    unfold call noLogs Logs.append at hsecond
    simp (disch := decide) only [logcat_short] at hsecond
    revert hsecond
    decide
  · obtain ⟨-, hsum⟩ := h
    unfold session otherAnr calls calls call noLogs Logs.append at hsum
    simp (disch := decide) only [logcat_short] at hsum
    revert hsum
    decide

theorem reportsOnce_crashAndAnr : ReportsOnce ['a'] oldLogs crashAndAnr := by
  refine reportsOnce (by simp [crashAndAnr, Short]) successful_crashAndAnr ⟨?_, ?_, trivial⟩
  · refine ⟨Or.inr ?_, Or.inr ?_, Or.inr ?_, by decide⟩
    · rw [slid_short (by decide)]
      exact List.forall_mem_nil _
    · rw [kept_short (by decide)]
      decide
    · rw [slid_short (by decide)]
      exact List.forall_mem_nil _
  · refine ⟨Or.inr ?_, Or.inl (by decide), Or.inr ?_, by decide⟩
    · rw [slid_short (by decide)]
      exact List.forall_mem_nil _
    · rw [slid_short (by decide)]
      exact List.forall_mem_nil _

end FleetRunner.Android.Actuator
