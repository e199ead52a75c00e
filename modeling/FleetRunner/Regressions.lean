import FleetRunner.Js.Text
import FleetRunner.Library.Backtrack
import FleetRunner.Library.Pieces

/-!
# Regressions (`workloads/regressions.ts`, `soak-samples.ts`)

A fixed crash is replayed, and the device's log buffers are read before and
after: what the second reading has more of happened during the flow.

## Implementation notes

A buffer keeps its lines, and a reading is its last 4000. `parseAnrEvents` is
`android.ts`'s. A line names its package as the whole name, in the place where its kind
has it; `parseAnrEvents` asks for less.
-/

namespace FleetRunner.Regressions

open Library.Backtrack
open Library (isWordChar)

/-! ## The program -/

def isBreak (c : Char) : Bool := c = '\n' || c = '\r' || c.toNat = 0x2028 || c.toNat = 0x2029

/-- The lines of an output, without carriage returns. -/
def lines (out : List Char) : List (List Char) := (out.filter (· ≠ '\r')).splitOn '\n'

/-- What a reading of the logs found. -/
structure CrashSample where
  count : Nat
  signatures : List String
  problem : Option String

def spaces : Re := .many isJsSpace

/-- `^(?:error:|logcat: |Unable to open log device)`, in any line -/
def failureRe : Re :=
  .seq (.lineStart isBreak) (.alt (.lit "error:".toList)
    (.alt (.lit "logcat: ".toList) (.lit "Unable to open log device".toList)))

/-- `Process:\s*pkg,\s*PID:\s*\d+` -/
def managedRe (pkg : List Char) : Re :=
  .all [.lit "Process:".toList, spaces, .lit pkg, .lit [','], spaces, .lit "PID:".toList, spaces,
    .many1 Char.isDigit]

/-- `AndroidRuntime:\s+((?:[\w$.]+\.)?\w*(?:Exception|Error)\b.*)$` -/
def exceptionRe : Re :=
  .all [.lit "AndroidRuntime:".toList, .many1 isJsSpace,
    .group (.all [.opt (.seq (.many1 fun c => isWordChar c || c = '$' || c = '.') (.lit ['.'])),
      .many isWordChar, .alt (.lit "Exception".toList) (.lit "Error".toList), .wordBoundary,
      .many fun c => !isBreak c]), .textEnd]

/-- `>>>\s*pkg\s*<<<` -/
def nativeRe (pkg : List Char) : Re :=
  .all [.lit ">>>".toList, spaces, .lit pkg, spaces, .lit "<<<".toList]

/-- `(signal\s+\d+\s*\([A-Z]+\)[^\n]*)` -/
def signalRe : Re :=
  .group (.all [.lit "signal".toList, .many1 isJsSpace, .many1 Char.isDigit, spaces, .lit ['('],
    .many1 Char.isUpper, .lit [')'], .many fun c => decide (c ≠ '\n')])

/-- The first of these lines that the expression finds, or what is said when none does. -/
def signature (re : Re) (otherwise : String) (ls : List (List Char)) : String :=
  match ls.findSome? re.exec1 with
  | some found => jsSlice (jsTrim (String.ofList found)) 160
  | none => otherwise

/-- A signature for each line that names the package, from the lines that follow it. -/
def signaturesAt (names : Re) (sig : List Char → List (List Char) → String) :
    List (List Char) → List String
  | [] => []
  | l :: rest =>
    if names.test l then sig l rest :: signaturesAt names sig rest else signaturesAt names sig rest

/-- The managed crashes of the package, by the exception on one of the five lines behind. -/
def managedSignatures (pkg : List Char) : List (List Char) → List String :=
  signaturesAt (managedRe pkg) fun _ rest => signature exceptionRe "FATAL EXCEPTION" (rest.take 5)

/-- The native crashes, by the signal on the line or one of the seven behind it. -/
def nativeSignatures (pkg : List Char) : List (List Char) → List String :=
  signaturesAt (nativeRe pkg) fun l rest => signature signalRe "native crash" ((l :: rest).take 8)

/-- `text.trim().split("\n")[0]` -/
def firstLine (text : String) : String :=
  String.ofList ((jsTrim text).toList.takeWhile (· ≠ '\n'))

/-- The crashes in the crash buffer, or why it could not be read. -/
def parseCrashLogcat (out pkg : List Char) : CrashSample :=
  let ls := lines out
  let text := ['\n'].intercalate ls
  if failureRe.test text then
    ⟨0, [], some ("logcat could not be read: " ++ jsSlice (firstLine (String.ofList text)) 140)⟩
  else
    let signatures := managedSignatures pkg ls ++ nativeSignatures pkg ls
    ⟨signatures.length, signatures, none⟩

/-- `\bam_anr\b` -/
def anrRe : Re := .all [.wordBoundary, .lit "am_anr".toList, .wordBoundary]

/-- `,([^,\]]+)\]\s*$` -/
def reasonRe : Re :=
  .all [.lit [','], .group (.many1 fun c => decide (c ≠ ',' ∧ c ≠ ']')), .lit [']'], spaces,
    .textEnd]

/-- The line is an ANR's, and the package's name occurs in it. -/
def namesAnr (pkg l : List Char) : Bool :=
  anrRe.test l && strIncludes (String.ofList l) (String.ofList pkg)

/-- The reason at the end of the line. -/
def anrSignature (l : List Char) : String :=
  jsSlice ("ANR: " ++ ((reasonRe.exec1 l).map fun r => jsTrim (String.ofList r)).getD
    "Application Not Responding") 160

/-- The ANRs in the events buffer. -/
def parseAnrEvents (events pkg : List Char) : List String :=
  ((lines events).filter (namesAnr pkg)).map anrSignature

/-- How a regression run ends. -/
inductive Outcome where
  | passed | reproduced | failed | skipped
  deriving DecidableEq

structure RegressionResult where
  outcome : Outcome
  detail : String

/-- What `logcat` answered for the crash buffer and for the events, or why it did not. -/
def readCrashes (platform : String) (crash events : Except String (List Char)) (pkg : List Char) :
    Option CrashSample :=
  if platform ≠ "android" then none
  else
    match crash with
    | .error message => some ⟨0, [], some ("logcat could not be read: " ++ jsSlice message 120)⟩
    | .ok out =>
      let c := parseCrashLogcat out pkg
      match c.problem with
      | some problem => some ⟨0, [], some problem⟩
      | none =>
        let anrs := match events with
          | .ok out => parseAnrEvents out pkg
          | .error _ => []
        some ⟨c.count + anrs.length, c.signatures ++ anrs, none⟩

/-- The last two lines of the flow's error that say something. -/
def flowFailed (flowError : Option String) : Option String :=
  (flowError.filter (· ≠ "")).map fun e =>
    let said := (e.toList.splitOn '\n').filter (· ≠ [])
    "the flow failed: " ++ jsSlice (String.ofList
      ([' '].intercalate (said.drop (said.length - 2)))) 300

/-- Where both readings have no problem, both. -/
def bothRead (before after : Option CrashSample) : Option (CrashSample × CrashSample) :=
  match before, after with
  | some b, some a => if b.problem = none ∧ a.problem = none then some (b, a) else none
  | _, _ => none

/-- Decides a run from the readings before and after its flow. -/
def judgeRegression (check platform : String) (flowError : Option String)
    (before after : Option CrashSample) : RegressionResult :=
  let failed := flowFailed flowError
  if check = "crash" ∨ check = "anr" then
    match bothRead before after with
    | some (before, after) =>
      let fresh := after.count - before.count
      if 0 < fresh then
        let sig := (after.signatures.drop (after.signatures.length - fresh)).head?.getD "crash"
        ⟨.reproduced, "the app crashed again during the flow: " ++ sig⟩
      else
        match failed with
        | some failed => ⟨.failed, failed ++ " (no crash of the app during it)"⟩
        | none => ⟨.passed, "no crash of the app during the flow"⟩
    | none =>
      let why := ((before.bind (·.problem)).or (after.bind (·.problem))).getD
        ("no crash log is read on " ++ platform)
      match failed with
      | some failed => ⟨.failed, failed ++ "; crash not checked (" ++ why ++ ")"⟩
      | none => ⟨.passed, "replayed without error; crash not checked (" ++ why ++ ")"⟩
  else
    match failed with
    | some failed => ⟨.failed, failed ++ ". A " ++ check ++
        " finding's flow cannot tell the bug from a changed screen; look before reopening it"⟩
    | none => ⟨.passed, "replayed without error (a " ++ check ++
        " finding's flow cannot assert the bug's absence, only that the steps still run)"⟩

/-! ## The buffers -/

/-- A line of a log. -/
structure Line where
  chars : List Char
  one : '\n' ∉ chars

/-- What happened to the two buffers: what they held, and what was appended during the flow. -/
structure History where
  crash : List Line
  crashNew : List Line
  events : List Line
  eventsNew : List Line

/-- `-t 4000` -/
@[irreducible] def windowSize : Nat := 4000

/-- What a reading returns. -/
def window (log : List Line) : List Line := log.drop (log.length - windowSize)

/-- `logcat -d -t 4000` -/
def logcat (log : List Line) : List Char := (window log).flatMap fun l => l.chars ++ ['\n']

/-- A line as it is read. -/
def stripped (l : Line) : List Char := l.chars.filter (· ≠ '\r')

/-- The signatures that the readers find in these lines, of the three kinds in turn. -/
def logged (pkg : List Char) (crash events : List Line) : List String :=
  managedSignatures pkg (crash.map stripped) ++ nativeSignatures pkg (crash.map stripped) ++
    ((events.map stripped).filter (namesAnr pkg)).map anrSignature

section Reading

variable {pkg : List Char}

theorem lines_output (ls : List Line) :
    lines (ls.flatMap fun l => l.chars ++ ['\n']) = ls.map stripped ++ [[]] := by
  induction ls with
  | nil => rfl
  | cons l ls ih =>
    have hone : '\n' ∉ stripped l := fun hmem => l.one (List.mem_filter.mp hmem).1
    unfold lines at ih ⊢
    have hsplit : (((l :: ls).flatMap fun l => l.chars ++ ['\n']).filter (· ≠ '\r')) =
        stripped l ++ '\n' :: ((ls.flatMap fun l => l.chars ++ ['\n']).filter (· ≠ '\r')) := by
      simp [stripped]
    rw [hsplit, List.splitOn_append_cons_self_of_not_mem hone, ih]
    rfl

theorem signature_blank {re : Re} (hre : re.exec1 [] = none) (otherwise : String)
    (ls : List (List Char)) (n : Nat) :
    signature re otherwise ((ls ++ [[]]).take n) = signature re otherwise (ls.take n) := by
  have hblank : (List.take (n - ls.length) [([] : List Char)]).findSome? re.exec1 = none := by
    cases n - ls.length with
    | zero => rfl
    | succ k => simp [hre]
  unfold signature
  rw [List.take_append, List.findSome?_append, hblank, Option.or_none]

/-- A last line that is empty adds nothing. -/
theorem signaturesAt_blank {names : Re} {sig : List Char → List (List Char) → String}
    (hnames : names.test [] = false) (hsig : ∀ l ls, sig l (ls ++ [[]]) = sig l ls)
    (ls : List (List Char)) : signaturesAt names sig (ls ++ [[]]) = signaturesAt names sig ls := by
  induction ls with
  | nil => simp [signaturesAt, hnames]
  | cons l ls ih => rw [List.cons_append, signaturesAt, signaturesAt, ih, hsig]

theorem managedSignatures_blank (ls : List (List Char)) :
    managedSignatures pkg (ls ++ [[]]) = managedSignatures pkg ls :=
  signaturesAt_blank rfl (fun _ ls => signature_blank rfl _ ls 5) ls

theorem nativeSignatures_blank (ls : List (List Char)) :
    nativeSignatures pkg (ls ++ [[]]) = nativeSignatures pkg ls :=
  signaturesAt_blank rfl (fun l ls => signature_blank rfl _ (l :: ls) 8) ls

theorem parseAnrEvents_output (ls : List Line) :
    parseAnrEvents (ls.flatMap fun l => l.chars ++ ['\n']) pkg =
      ((ls.map stripped).filter (namesAnr pkg)).map anrSignature := by
  have hblank : namesAnr pkg [] = false := rfl
  rw [parseAnrEvents, lines_output, List.filter_append]
  simp [hblank]

/-- A crash buffer that could be read has the crashes that the window logs. -/
theorem parseCrashLogcat_logcat {log : List Line}
    (h : (parseCrashLogcat (logcat log) pkg).problem = none) :
    (parseCrashLogcat (logcat log) pkg).signatures =
        managedSignatures pkg ((window log).map stripped) ++
          nativeSignatures pkg ((window log).map stripped) ∧
      (parseCrashLogcat (logcat log) pkg).count =
        (parseCrashLogcat (logcat log) pkg).signatures.length := by
  unfold parseCrashLogcat at h ⊢
  simp only [logcat, lines_output, managedSignatures_blank, nativeSignatures_blank] at h ⊢
  split at h
  · cases h
  · next hread =>
    rw [if_neg hread]
    exact ⟨rfl, rfl⟩

/-- A reading without a problem has the entries that the window logs. -/
theorem readCrashes_logcat {crash events : List Line} {r : CrashSample}
    (h : readCrashes "android" (.ok (logcat crash)) (.ok (logcat events)) pkg = some r)
    (hproblem : r.problem = none) :
    r.signatures = logged pkg (window crash) (window events) ∧
      r.count = r.signatures.length := by
  rw [readCrashes, if_neg (by decide)] at h
  cases hread : (parseCrashLogcat (logcat crash) pkg).problem with
  | some problem =>
    simp only [hread] at h
    rw [← Option.some.inj h] at hproblem
    cases hproblem
  | none =>
    obtain ⟨hsig, hcount⟩ := parseCrashLogcat_logcat hread
    have hanr : parseAnrEvents (logcat events) pkg = _ := parseAnrEvents_output (window events)
    simp only [hread, hcount, hsig, hanr] at h
    rw [← Option.some.inj h]
    exact ⟨rfl, (List.length_append).symm⟩

end Reading

/-! ## What was logged -/

def IsSpaces (cs : List Char) : Prop := ∀ c ∈ cs, isJsSpace c = true

/-- A managed crash of the package: `Process: pkg, PID: 4242`. -/
def IsManaged (pkg l : List Char) : Prop :=
  ∃ before a b c after : List Char, ∃ d : Char,
    IsSpaces a ∧ IsSpaces b ∧ IsSpaces c ∧ d.isDigit = true ∧
      l = before ++ ("Process:".toList ++ (a ++ (pkg ++ ([','] ++ (b ++
        ("PID:".toList ++ (c ++ (d :: after))))))))

/-- A native one: `>>> pkg <<<`. -/
def IsNative (pkg l : List Char) : Prop :=
  ∃ before a b after : List Char, IsSpaces a ∧ IsSpaces b ∧
    l = before ++ (">>>".toList ++ (a ++ (pkg ++ (b ++ ("<<<".toList ++ after)))))

/-- The third field of an event. -/
def packageField (l : List Char) : Option (List Char) :=
  ((l.dropWhile (· ≠ '[')).splitOn ',')[2]?

/-- An ANR of the package: `am_anr: [0,4242,pkg,…]`. -/
def IsAnr (pkg l : List Char) : Prop := anrRe.test l = true ∧ packageField l = some pkg

instance (pkg l : List Char) : Decidable (IsAnr pkg l) := inferInstanceAs (Decidable (_ ∧ _))

/-- `Process:` and what the expression has between it and the number. -/
theorem managedRe_test_iff (pkg l : List Char) :
    (managedRe pkg).test l = true ↔ IsManaged pkg l := by
  have hplain : (managedRe pkg).Plain := Re.plain_all (by
    simp [Re.plain_lit, Re.plain_many1, Re.plain_many, spaces])
  rw [Re.test_iff hplain]
  simp only [managedRe, Re.all, List.foldr_cons, List.foldr_nil, Re.many1, Re.Reads, Re.reads_lit,
    spaces, Re.reads_many]
  constructor
  · rintro ⟨before, t, u, rfl, m, rfl, _, ⟨a, ha, rfl⟩, _, rfl, _, rfl, _, ⟨b, hb, rfl⟩, _, rfl, _,
      ⟨c, hc, rfl⟩, _, ⟨_, ⟨d, hd, rfl⟩, ds, -, rfl⟩, rfl⟩
    exact ⟨before, a, b, c, _, d, ha, hb, hc, hd, rfl⟩
  · rintro ⟨before, a, b, c, after, d, ha, hb, hc, hd, rfl⟩
    exact ⟨before, _, after, rfl, _, rfl, _, ⟨a, ha, rfl⟩, _, rfl, _, rfl, _, ⟨b, hb, rfl⟩, _, rfl,
      _, ⟨c, hc, rfl⟩, _, ⟨_, ⟨d, hd, rfl⟩, [], List.forall_mem_nil _, rfl⟩, rfl⟩

theorem nativeRe_test_iff (pkg l : List Char) :
    (nativeRe pkg).test l = true ↔ IsNative pkg l := by
  have hplain : (nativeRe pkg).Plain := Re.plain_all (by
    simp [Re.plain_lit, Re.plain_many, spaces])
  rw [Re.test_iff hplain]
  simp only [nativeRe, Re.all, List.foldr_cons, List.foldr_nil, Re.Reads, Re.reads_lit, spaces,
    Re.reads_many]
  constructor
  · rintro ⟨before, t, u, rfl, m, rfl, _, ⟨a, ha, rfl⟩, _, rfl, _, ⟨b, hb, rfl⟩, _, rfl, rfl⟩
    exact ⟨before, a, b, _, ha, hb, rfl⟩
  · rintro ⟨before, a, b, after, ha, hb, rfl⟩
    exact ⟨before, _, after, rfl, _, rfl, _, ⟨a, ha, rfl⟩, _, rfl, _, ⟨b, hb, rfl⟩, _, rfl, rfl⟩

instance (pkg : List Char) : DecidablePred (IsManaged pkg) := fun l =>
  decidable_of_iff _ (managedRe_test_iff pkg l)

instance (pkg : List Char) : DecidablePred (IsNative pkg) := fun l =>
  decidable_of_iff _ (nativeRe_test_iff pkg l)

@[simp] theorem decide_isManaged (pkg l : List Char) :
    decide (IsManaged pkg l) = (managedRe pkg).test l := by
  rw [Bool.eq_iff_iff, decide_eq_true_eq, managedRe_test_iff]

@[simp] theorem decide_isNative (pkg l : List Char) :
    decide (IsNative pkg l) = (nativeRe pkg).test l := by
  rw [Bool.eq_iff_iff, decide_eq_true_eq, nativeRe_test_iff]

/-- A signature for each line that is an entry. -/
def entries (is : List Char → Prop) [DecidablePred is]
    (sig : List Char → List (List Char) → String) : List (List Char) → List String
  | [] => []
  | l :: rest => if is l then sig l rest :: entries is sig rest else entries is sig rest

/-- The signatures of the package's crashes and ANRs among the lines. -/
def happened (pkg : List Char) (crash events : List Line) : List String :=
  entries (IsManaged pkg)
      (fun _ rest => signature exceptionRe "FATAL EXCEPTION" (rest.take 5))
      (crash.map stripped) ++
    entries (IsNative pkg)
      (fun l rest => signature signalRe "native crash" ((l :: rest).take 8))
      (crash.map stripped) ++
    ((events.map stripped).filter fun l => decide (IsAnr pkg l)).map anrSignature

theorem entries_eq {is : List Char → Prop} [DecidablePred is] {names : Re}
    (h : ∀ l, names.test l = true ↔ is l) (sig : List Char → List (List Char) → String)
    (ls : List (List Char)) : entries is sig ls = signaturesAt names sig ls := by
  induction ls with
  | nil => rfl
  | cons l ls ih =>
    rw [entries, signaturesAt, ih]
    exact if_congr (h l).symm rfl rfl

/-- The third field stands in the line. -/
theorem namesAnr_of_isAnr {pkg l : List Char} (h : IsAnr pkg l) : namesAnr pkg l = true := by
  obtain ⟨htest, hfield⟩ := h
  have hpart : pkg <:+: l.dropWhile (· ≠ '[') :=
    Library.isInfix_of_mem_splitOn (List.mem_of_getElem? hfield)
  have hincludes : charsInclude l pkg = true :=
    charsInclude_of_isInfix (hpart.trans (List.dropWhile_suffix _).isInfix)
  rw [namesAnr, htest, strIncludes, String.toList_ofList, String.toList_ofList, hincludes]
  rfl

/-- Who is counted for an ANR has one. -/
def Exact (pkg : List Char) (events : List Line) : Prop :=
  ∀ l ∈ events, namesAnr pkg (stripped l) = true → IsAnr pkg (stripped l)

theorem happened_eq {pkg : List Char} {crash events : List Line} (hexact : Exact pkg events) :
    happened pkg crash events = logged pkg crash events := by
  have hanr : ∀ l ∈ events.map stripped, decide (IsAnr pkg l) = namesAnr pkg l := by
    intro l hl
    obtain ⟨l, hmem, rfl⟩ := List.mem_map.mp hl
    rw [Bool.eq_iff_iff, decide_eq_true_eq]
    exact ⟨namesAnr_of_isAnr, hexact l hmem⟩
  rw [happened, entries_eq (managedRe_test_iff pkg), entries_eq (nativeRe_test_iff pkg),
    List.filter_congr hanr]
  rfl

/-! ## Old entries and new ones -/

theorem signaturesAt_append (names : Re) (sig : List Char → List (List Char) → String)
    (xs ys : List (List Char)) :
    ∃ front, signaturesAt names sig (xs ++ ys) = front ++ signaturesAt names sig ys ∧
      front.length = xs.countP names.test := by
  induction xs with
  | nil => exact ⟨[], rfl, rfl⟩
  | cons x xs ih =>
    obtain ⟨front, hfront, hlength⟩ := ih
    cases hx : names.test x with
    | false => exact ⟨front, by simp [signaturesAt, hx, hfront], by simp [hx, hlength]⟩
    | true =>
      exact ⟨sig x (xs ++ ys) :: front, by simp [signaturesAt, hx, hfront], by simp [hx, hlength]⟩

theorem length_signaturesAt (names : Re) (sig : List Char → List (List Char) → String)
    (ls : List (List Char)) : (signaturesAt names sig ls).length = ls.countP names.test := by
  obtain ⟨front, hfront, hlength⟩ := signaturesAt_append names sig ls []
  rw [List.append_nil, signaturesAt, List.append_nil] at hfront
  rw [hfront, hlength]

/-- What is left of the old lines in a window that ends with the new ones. -/
def kept (old new : List Line) : List Line := old.drop (old.length + new.length - windowSize)

theorem window_append (old new : List Line) : window (old ++ new) = kept old new ++ window new := by
  unfold window kept
  rw [List.drop_append, List.length_append]
  congr 2
  omega

theorem kept_suffix (old new : List Line) : kept old new <:+ window old := by
  have hkept : kept old new = (window old).drop
      (old.length + new.length - windowSize - (old.length - windowSize)) := by
    rw [window, List.drop_drop, kept]
    congr 1
    omega
  exact hkept ▸ List.drop_suffix _ _

/-- What of the last window is out of it when the new lines are in. -/
def slid (old new : List Line) : List Line :=
  (window old).take ((window old).length - (kept old new).length)

theorem slid_append_kept (old new : List Line) : slid old new ++ kept old new = window old :=
  List.suffix_iff_eq_append.mp (kept_suffix old new)

/-- The lines of the new window that the test takes, each marked with whether it is new. -/
def marksOf (is : Line → Bool) (old new : List Line) : List Bool :=
  List.replicate ((kept old new).countP is) false ++
    List.replicate ((window new).countP is) true

/-- The entries of the second reading, each marked with whether it was logged during the flow. -/
def marks (pkg : List Char) (h : History) : List Bool :=
  marksOf (fun l => (managedRe pkg).test (stripped l)) h.crash h.crashNew ++
    marksOf (fun l => (nativeRe pkg).test (stripped l)) h.crash h.crashNew ++
    marksOf (fun l => namesAnr pkg (stripped l)) h.events h.eventsNew

/-- How many lines are read as entries of the package. -/
def entryCount (pkg : List Char) (crash events : List Line) : Nat :=
  crash.countP (fun l => decide (IsManaged pkg (stripped l))) +
    crash.countP (fun l => decide (IsNative pkg (stripped l))) +
    events.countP fun l => namesAnr pkg (stripped l)

/-- Signatures are read off the lines one by one, each from itself and what follows. -/
structure Reads (is : List Char → Bool) (sigs : List (List Char) → List String) : Prop where
  append : ∀ xs ys, ∃ front, sigs (xs ++ ys) = front ++ sigs ys ∧ front.length = xs.countP is
  length : ∀ ls, (sigs ls).length = ls.countP is

theorem reads_signaturesAt (names : Re) (sig : List Char → List (List Char) → String) :
    Reads names.test (signaturesAt names sig) :=
  ⟨signaturesAt_append names sig, length_signaturesAt names sig⟩

theorem reads_anr (pkg : List Char) :
    Reads (namesAnr pkg) fun ls => (ls.filter (namesAnr pkg)).map anrSignature := by
  refine ⟨fun xs ys => ⟨(xs.filter (namesAnr pkg)).map anrSignature, ?_, ?_⟩, fun ls => ?_⟩
  · rw [List.filter_append, List.map_append]
  · rw [List.length_map, List.countP_eq_length_filter]
  · rw [List.length_map, List.countP_eq_length_filter]

/-- The signatures of a window with their marks; what is marked new is one of the new ones'. -/
theorem Reads.marked {is : List Char → Bool} {sigs : List (List Char) → List String}
    (h : Reads is sigs) (old new : List Line) :
    ∃ t : List (Bool × String), t.map Prod.snd = sigs ((window (old ++ new)).map stripped) ∧
      t.map Prod.fst = marksOf (fun l => is (stripped l)) old new ∧
      ∀ s, (true, s) ∈ t → s ∈ sigs (new.map stripped) := by
  obtain ⟨front, hfront, hlength⟩ :=
    h.append ((kept old new).map stripped) ((window new).map stripped)
  obtain ⟨lost, hlost, -⟩ :=
    h.append ((new.take (new.length - windowSize)).map stripped) ((window new).map stripped)
  rw [← List.map_append, window, List.take_append_drop, ← window] at hlost
  refine ⟨front.map (Prod.mk false) ++ (sigs ((window new).map stripped)).map (Prod.mk true),
    ?_, ?_, fun s hs => ?_⟩
  · rw [window_append, List.map_append (f := stripped), hfront]
    simp [Function.comp_def]
  · simp [marksOf, hlength, h.length, List.countP_map, Function.comp_def, List.map_const']
  · rw [hlost]
    refine List.mem_append_right _ ?_
    rcases List.mem_append.mp hs with hs | hs
    · obtain ⟨s', -, heq⟩ := List.mem_map.mp hs
      cases (Prod.mk.inj heq).1
    · obtain ⟨s', hs', heq⟩ := List.mem_map.mp hs
      exact (Prod.mk.inj heq).2 ▸ hs'

/-- What the second reading holds. -/
def after (pkg : List Char) (h : History) : List String :=
  logged pkg (window (h.crash ++ h.crashNew)) (window (h.events ++ h.eventsNew))

theorem marked_after (pkg : List Char) (h : History) :
    ∃ t : List (Bool × String), t.map Prod.snd = after pkg h ∧ t.map Prod.fst = marks pkg h ∧
      ∀ s, (true, s) ∈ t → s ∈ logged pkg h.crashNew h.eventsNew := by
  obtain ⟨t₁, hsig₁, hmark₁, hnew₁⟩ :=
    (reads_signaturesAt (managedRe pkg) _).marked h.crash h.crashNew
  obtain ⟨t₂, hsig₂, hmark₂, hnew₂⟩ :=
    (reads_signaturesAt (nativeRe pkg) _).marked h.crash h.crashNew
  obtain ⟨t₃, hsig₃, hmark₃, hnew₃⟩ := (reads_anr pkg).marked h.events h.eventsNew
  refine ⟨t₁ ++ t₂ ++ t₃, ?_, ?_, fun s hs => ?_⟩
  · rw [List.map_append, List.map_append, hsig₁, hsig₂, hsig₃]
    rfl
  · rw [List.map_append, List.map_append, hmark₁, hmark₂, hmark₃]
    rfl
  · rcases List.mem_append.mp hs with hs | hs
    · rcases List.mem_append.mp hs with hs | hs
      · exact List.mem_append_left _ (List.mem_append_left _ (hnew₁ s hs))
      · exact List.mem_append_left _ (List.mem_append_right _ (hnew₂ s hs))
    · exact List.mem_append_right _ (hnew₃ s hs)

theorem length_logged (pkg : List Char) (crash events : List Line) :
    (logged pkg crash events).length = entryCount pkg crash events := by
  simp only [logged, List.length_append, managedSignatures, nativeSignatures, length_signaturesAt,
    (reads_anr pkg).length, List.countP_map, entryCount, decide_isManaged, decide_isNative]
  rfl

/-- The first window's entries go out of it or are kept. -/
theorem entryCount_window (pkg : List Char) (h : History) :
    entryCount pkg (window h.crash) (window h.events) =
      entryCount pkg (slid h.crash h.crashNew) (slid h.events h.eventsNew) +
        entryCount pkg (kept h.crash h.crashNew) (kept h.events h.eventsNew) := by
  rw [← slid_append_kept h.crash h.crashNew, ← slid_append_kept h.events h.eventsNew]
  simp only [entryCount, List.countP_append]
  omega

/-- No line of the package's crashes. -/
def NoCrash (pkg : List Char) (ls : List Line) : Prop :=
  ∀ l ∈ ls, ¬ IsManaged pkg (stripped l) ∧ ¬ IsNative pkg (stripped l)

/-- No line that is counted for the package's ANR. -/
def NoAnr (pkg : List Char) (ls : List Line) : Prop :=
  ∀ l ∈ ls, namesAnr pkg (stripped l) = false

/-- Of what the second reading lists behind other kinds, nothing is old where those are new. -/
structure InOrder (pkg : List Char) (h : History) : Prop where
  managed : (∀ l ∈ h.crashNew, ¬ IsManaged pkg (stripped l)) ∨
    ((∀ l ∈ kept h.crash h.crashNew, ¬ IsNative pkg (stripped l)) ∧
      NoAnr pkg (kept h.events h.eventsNew))
  native : (∀ l ∈ h.crashNew, ¬ IsNative pkg (stripped l)) ∨ NoAnr pkg (kept h.events h.eventsNew)

theorem replicates_in_order {kM nM kN nN kA nA : Nat} (hmanaged : nM = 0 ∨ kN = 0 ∧ kA = 0)
    (hnative : nN = 0 ∨ kA = 0) :
    List.replicate kM false ++ List.replicate nM true ++
        (List.replicate kN false ++ List.replicate nN true) ++
        (List.replicate kA false ++ List.replicate nA true) =
      List.replicate (kM + kN + kA) false ++ List.replicate (nM + nN + nA) true := by
  rcases hmanaged with rfl | ⟨rfl, rfl⟩
  · rcases hnative with rfl | rfl
    · simp only [List.replicate_add, List.replicate_zero, List.append_nil, List.append_assoc,
        Nat.zero_add]
    · simp only [List.replicate_add, List.replicate_zero, List.append_nil, List.nil_append,
        List.append_assoc, Nat.zero_add]
  · simp only [List.replicate_add, List.replicate_zero, List.nil_append, List.append_assoc,
      Nat.add_zero]

theorem getElem?_replicates (k n lost : Nat) :
    (List.replicate k false ++ List.replicate n true)[lost + k]? =
      if lost < n then some true else none := by
  rw [List.getElem?_append_right (by simp), List.length_replicate, Nat.add_sub_cancel,
    List.getElem?_replicate]

/-- The old entries, and behind them the new ones. -/
theorem marks_of_inOrder {pkg : List Char} {h : History} (horder : InOrder pkg h) :
    marks pkg h =
      List.replicate (entryCount pkg (kept h.crash h.crashNew) (kept h.events h.eventsNew)) false ++
        List.replicate (entryCount pkg (window h.crashNew) (window h.eventsNew)) true := by
  have hnew : window h.crashNew ⊆ h.crashNew := List.drop_subset _ _
  have hanr : NoAnr pkg (kept h.events h.eventsNew) →
      (kept h.events h.eventsNew).countP (fun l => namesAnr pkg (stripped l)) = 0 := fun hnone =>
    List.countP_eq_zero.mpr fun l hl => by rw [hnone l hl]; decide
  simp only [marks, marksOf, entryCount, decide_isManaged, decide_isNative]
  refine replicates_in_order ?_ ?_
  · refine horder.managed.imp (fun hnone => ?_) fun hkept => ⟨?_, hanr hkept.2⟩
    · exact List.countP_eq_zero.mpr fun l hl => mt (managedRe_test_iff pkg _).mp (hnone l (hnew hl))
    · exact List.countP_eq_zero.mpr fun l hl => mt (nativeRe_test_iff pkg _).mp (hkept.1 l hl)
  · refine horder.native.imp (fun hnone => ?_) hanr
    exact List.countP_eq_zero.mpr fun l hl => mt (nativeRe_test_iff pkg _).mp (hnone l (hnew hl))

/-- More entries of the package come into the windows during the flow than go out, if any do. -/
def Gains (pkg : List Char) (h : History) : Prop :=
  happened pkg h.crashNew h.eventsNew = [] ∨
    entryCount pkg (slid h.crash h.crashNew) (slid h.events h.eventsNew) <
      entryCount pkg (window h.crashNew) (window h.eventsNew)

/-! ## What is judged -/

/-- The reading before the flow. -/
def readBefore (pkg : List Char) (h : History) : Option CrashSample :=
  readCrashes "android" (.ok (logcat h.crash)) (.ok (logcat h.events)) pkg

/-- The reading after it. -/
def readAfter (pkg : List Char) (h : History) : Option CrashSample :=
  readCrashes "android" (.ok (logcat (h.crash ++ h.crashNew)))
    (.ok (logcat (h.events ++ h.eventsNew))) pkg

/-- The run is judged by what the buffers logged during it. -/
def JudgedByFlow (check : String) (flowError : Option String) (pkg : List Char) (h : History) :
    Prop :=
  let r := judgeRegression check "android" flowError (readBefore pkg h) (readAfter pkg h)
  (r.outcome = .reproduced ↔ happened pkg h.crashNew h.eventsNew ≠ []) ∧
    (r.outcome = .reproduced → ∃ s ∈ happened pkg h.crashNew h.eventsNew,
      r.detail = "the app crashed again during the flow: " ++ s)

section Judged

variable {check : String} {flowError : Option String} {pkg : List Char} {h : History}

theorem bothRead_isSome (hread : (bothRead (readBefore pkg h) (readAfter pkg h)).isSome) :
    ∃ b a, bothRead (readBefore pkg h) (readAfter pkg h) = some (b, a) ∧
      b.count = entryCount pkg (window h.crash) (window h.events) ∧ a.signatures = after pkg h ∧
      a.count = a.signatures.length := by
  unfold bothRead at hread ⊢
  split at hread
  · next b a hb ha =>
    split at hread
    · next hboth =>
      obtain ⟨hsigb, hcountb⟩ := readCrashes_logcat hb hboth.1
      obtain ⟨hsiga, hcounta⟩ := readCrashes_logcat ha hboth.2
      exact ⟨b, a, if_pos hboth, by rw [hcountb, hsigb, length_logged], hsiga, hcounta⟩
    · cases hread
  · cases hread

/-- The entry at the place where the first reading ends is the one that is quoted. -/
theorem judgeRegression_some (hcheck : check = "crash" ∨ check = "anr")
    (hread : (bothRead (readBefore pkg h) (readAfter pkg h)).isSome) {s : String}
    (hs : (after pkg h)[entryCount pkg (window h.crash) (window h.events)]? = some s) :
    judgeRegression check "android" flowError (readBefore pkg h) (readAfter pkg h) =
      ⟨.reproduced, "the app crashed again during the flow: " ++ s⟩ := by
  obtain ⟨b, a, hboth, hb, ha, hcount⟩ := bothRead_isSome hread
  obtain ⟨hlt, -⟩ := List.getElem?_eq_some_iff.mp hs
  rw [← ha] at hs hlt
  have hfresh : 0 < a.count - b.count := by omega
  have hplace : a.signatures.length - (a.count - b.count) =
      entryCount pkg (window h.crash) (window h.events) := by omega
  simp only [judgeRegression, if_pos hcheck, hboth, if_pos hfresh, hplace, List.head?_drop, hs,
    Option.getD_some]

theorem judgeRegression_none (hcheck : check = "crash" ∨ check = "anr")
    (hread : (bothRead (readBefore pkg h) (readAfter pkg h)).isSome)
    (hnone : (after pkg h)[entryCount pkg (window h.crash) (window h.events)]? = none) :
    (judgeRegression check "android" flowError (readBefore pkg h) (readAfter pkg h)).outcome ≠
      .reproduced := by
  obtain ⟨b, a, hboth, hb, ha, hcount⟩ := bothRead_isSome hread
  have hle := List.getElem?_eq_none_iff.mp hnone
  rw [← ha] at hle
  have hfresh : ¬ 0 < a.count - b.count := by omega
  simp only [judgeRegression, if_pos hcheck, hboth, if_neg hfresh]
  split <;> simp

/-- Where the readings list the new entries last and no other package's, the run is judged by what
happened during it exactly when more of its entries come into the windows than go out. -/
theorem judgedByFlow_iff (hcheck : check = "crash" ∨ check = "anr")
    (hread : (bothRead (readBefore pkg h) (readAfter pkg h)).isSome) (horder : InOrder pkg h)
    (hexact : Exact pkg h.eventsNew) : JudgedByFlow check flowError pkg h ↔ Gains pkg h := by
  obtain ⟨t, hsig, hmark, hnew⟩ := marked_after pkg h
  rw [← happened_eq hexact] at hnew
  have hplace : t[entryCount pkg (window h.crash) (window h.events)]?.map Prod.fst =
      if entryCount pkg (slid h.crash h.crashNew) (slid h.events h.eventsNew) <
        entryCount pkg (window h.crashNew) (window h.eventsNew) then some true else none := by
    rw [← List.getElem?_map, hmark, marks_of_inOrder horder, entryCount_window,
      getElem?_replicates]
  have hafter : (after pkg h)[entryCount pkg (window h.crash) (window h.events)]? =
      t[entryCount pkg (window h.crash) (window h.events)]?.map Prod.snd := by
    rw [← hsig, List.getElem?_map]
  unfold JudgedByFlow Gains
  split at hplace
  · next hmore =>
    obtain ⟨⟨_, s⟩, hs, rfl⟩ := Option.map_eq_some_iff.mp hplace
    have hmem : s ∈ happened pkg h.crashNew h.eventsNew := hnew s (List.mem_of_getElem? hs)
    rw [hs] at hafter
    have hjudged : judgeRegression check "android" flowError (readBefore pkg h)
        (readAfter pkg h) = _ := judgeRegression_some hcheck hread hafter
    rw [hjudged]
    exact iff_of_true ⟨iff_of_true rfl (List.ne_nil_of_mem hmem), fun _ => ⟨s, hmem, rfl⟩⟩
      (Or.inr hmore)
  · next hfew =>
    rw [Option.map_eq_none_iff.mp hplace] at hafter
    have hjudged : (judgeRegression check "android" flowError (readBefore pkg h)
        (readAfter pkg h)).outcome ≠ .reproduced := judgeRegression_none hcheck hread hafter
    simp [hjudged, hfew]

/-- A run is judged by what happened during it where the package's entries come into the windows
faster than they go out, the new ones are listed last, and no other package's are among them. -/
theorem judgedByFlow_of_gains (hcheck : check = "crash" ∨ check = "anr")
    (hread : (bothRead (readBefore pkg h) (readAfter pkg h)).isSome) (hgains : Gains pkg h)
    (horder : InOrder pkg h) (hexact : Exact pkg h.eventsNew) :
    JudgedByFlow check flowError pkg h :=
  (judgedByFlow_iff hcheck hread horder hexact).mpr hgains

end Judged

/-! ## A crash after an ANR, and another package's ANR -/

theorem window_short {log : List Line} (h : log.length ≤ 4000) : window log = log := by
  unfold window windowSize
  rw [Nat.sub_eq_zero_of_le h, List.drop_zero]

theorem kept_short {old new : List Line} (h : old.length + new.length ≤ 4000) :
    kept old new = old := by
  unfold kept windowSize
  rw [Nat.sub_eq_zero_of_le h, List.drop_zero]

theorem slid_short {old new : List Line} (h : old.length + new.length ≤ 4000) :
    slid old new = [] := by
  rw [slid, kept_short h, window_short (Nat.le_of_add_right_le h), Nat.sub_self, List.take_zero]

def crashLine : Line := ⟨"E AndroidRuntime: Process: a, PID: 1".toList, by decide⟩

def nativeLine : Line := ⟨"F DEBUG : pid: 1  >>> a <<<".toList, by decide⟩

def anrLine : Line := ⟨"I am_anr: [0,1,a,1,stuck]".toList, by decide⟩

def otherAnrLine : Line := ⟨"I am_anr: [0,1,ab,1,stuck]".toList, by decide⟩

/-- There was an ANR before the flow, and a crash during it. -/
def crashAfterAnr : History := ⟨[], [crashLine], [anrLine], []⟩

/-- An ANR of a package whose name goes on. -/
def otherAnr : History := ⟨[], [], [], [otherAnrLine]⟩

/-- The ANR that was there before is quoted for the crash, and the other package's ANR is taken for
one of this package. -/
theorem judgedByFlow_fails :
    ((bothRead (readBefore ['a'] crashAfterAnr) (readAfter ['a'] crashAfterAnr)).isSome ∧
      ¬ JudgedByFlow "crash" none ['a'] crashAfterAnr) ∧
    (bothRead (readBefore ['a'] otherAnr) (readAfter ['a'] otherAnr)).isSome ∧
      ¬ JudgedByFlow "crash" none ['a'] otherAnr := by
  unfold JudgedByFlow readBefore readAfter logcat crashAfterAnr otherAnr
  simp (disch := decide) only [window_short]
  decide

def eventLine : Line := ⟨"I wm_create: [0,1,b]".toList, by decide⟩

/-- The package crashed before the flow; during it, it does so both ways and stops answering. -/
def crashesAgain : History := ⟨[crashLine], [nativeLine, crashLine], [eventLine], [anrLine]⟩

theorem judgedByFlow_crashesAgain : JudgedByFlow "crash" none ['a'] crashesAgain := by
  have hevents : NoAnr ['a'] (kept crashesAgain.events crashesAgain.eventsNew) := by
    rw [kept_short (by decide)]
    unfold NoAnr
    decide
  refine judgedByFlow_of_gains (Or.inl rfl) ?_ (Or.inr ?_) ⟨Or.inr ⟨?_, hevents⟩, Or.inr hevents⟩ ?_
  · unfold readBefore readAfter logcat crashesAgain
    simp (disch := decide) only [window_short]
    decide
  · unfold crashesAgain
    simp (disch := decide) only [window_short, slid_short]
    decide
  · rw [kept_short (by decide)]
    decide
  · unfold Exact
    decide

end FleetRunner.Regressions
