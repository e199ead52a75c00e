import FleetRunner.Findings.Issues
import FleetRunner.Library.Fences

/-!
# What a model writes into an issue (`findings.ts`, T6)

The body of an issue again, as lines in which every piece says whether a model
wrote it. The detail and the steps of a finding are fenced; the name of its
screen stands in a table.
-/

namespace FleetRunner.Findings

open Library

/-- A part of a line, and whether it is the model's. -/
structure Piece where
  model : Bool
  text : String

def plain (text : String) : Piece := ⟨false, text⟩

def written (text : String) : Piece := ⟨true, text⟩

abbrev Line := List Piece

def Line.chars (line : Line) : List Char := line.flatMap fun p => p.text.toList

def Line.FromModel (line : Line) : Prop := ∃ p ∈ line, p.model = true ∧ p.text ≠ ""

/-- `${i + 1}. ${s}` for every step, joined with line feeds -/
def stepPieces (steps : List String) : Line :=
  [plain "\n"].intercalate
    (steps.zipIdx.map fun p => [plain (toString (p.2 + 1) ++ ". "), written p.1])

def stepsText (steps : List String) : String :=
  "\n".intercalate (steps.zipIdx.map fun p => toString (p.2 + 1) ++ ". " ++ p.1)

/-- The lines above the fenced blocks. -/
def headLines (f : FindingRow) : List Line :=
  [[plain ("Night QA found this while exploring **" ++ f.app ++ "** and replayed it before filing.")],
    [], [plain "| | |"], [plain "|---|---|"],
    [plain ("| Check | `" ++ f.check_name.text ++ "` (severity " ++ f.severity.text ++ ") |")],
    [plain ("| Build | `" ++ f.build ++ "` |")],
    [plain ("| Platform / device | " ++ f.platform ++ " / `" ++ f.device_id ++ "` |")],
    [plain "| Screen | ", if f.screen_name = "" then plain "unnamed" else written f.screen_name] ++
      (if f.screen = "" then [] else [plain " (`", written f.screen, plain "`)"]) ++ [plain " |"],
    [plain ("| Replay | " ++ (match f.replay with
      | some r => replayLabel f.replay f.check_name ++ " on a clean install (" ++ r.kind.text ++ ")"
      | none => "not replayed; the crash log is the evidence") ++ " |")],
    [plain ("| Mission / job | `" ++ f.mission_id ++ "` / `" ++ f.job_id ++ "` |")], []]

/-- A title and a fenced text. -/
def blockLines (title : String) (text : String) (body : Line) : List Line :=
  [[plain title], [], [plain (fence text)], body, [plain (fence text)], []]

def detailLines (f : FindingRow) : List Line :=
  if isBlank f.detail then [] else blockLines "### What went wrong" f.detail [written f.detail]

def stepLines (f : FindingRow) : List Line :=
  if stepsText f.steps = "" then []
  else blockLines "### Steps" (stepsText f.steps) (stepPieces f.steps)

def tailLines (f : FindingRow) (dashUrl : String) : List Line :=
  let links := artifactLinks f.artifacts dashUrl
  (if links.isEmpty then [] else [[plain ("Artifacts: " ++ " · ".intercalate links)], []]) ++
    [[plain ("[Open it in the Fleet Runner dashboard](" ++ dashUrl ++ "/dash/findings/" ++
        toString f.id ++ ")")], [],
      [plain ("<sub>Filed by Fleet Runner night QA. Fingerprint `" ++ f.fingerprint ++
        "`. Fleet Runner only ever opens issues; it never edits, comments on or closes them.</sub>")]]

def issueLines (f : FindingRow) (dashUrl : String) : List Line :=
  headLines f ++ detailLines f ++ stepLines f ++ tailLines f dashUrl

/-! ## The lines are the body -/

theorem chars_stepPieces (steps : List String) :
    Line.chars (stepPieces steps) = (stepsText steps).toList := by
  unfold stepPieces stepsText
  rw [String.toList_intercalate]
  generalize steps.zipIdx = ps
  induction ps with
  | nil => rfl
  | cons p rest ih =>
      cases rest with
      | nil => simp [Line.chars, plain, written]
      | cons q more =>
          simp only [List.map_cons, List.intercalate_cons_cons, Line.chars,
            List.flatMap_append] at ih ⊢
          rw [ih]
          simp [plain, written]

theorem composeBody_lines (f : FindingRow) (dashUrl : String) :
    (composeBody f dashUrl).toList =
      ['\n'].intercalate ((issueLines f dashUrl).map Line.chars) := by
  have hblock : ∀ (title text : String) (body : Line), Line.chars body = text.toList →
      (blockLines title text body).map Line.chars =
        [title, "", fence text, text, fence text, ""].map String.toList := by
    intro title text body hbody
    have hplain : ∀ t : String, Line.chars [plain t] = t.toList := by simp [Line.chars, plain]
    have hempty : Line.chars [] = "".toList := rfl
    simp only [blockLines, List.map_cons, List.map_nil, hplain, hbody, hempty]
  have hdetail : (detailLines f).map Line.chars =
      (if isBlank f.detail then []
        else ["### What went wrong", "", fence f.detail, f.detail, fence f.detail, ""]).map
          String.toList := by
    unfold detailLines
    split
    · rfl
    · exact hblock _ _ _ (by simp [Line.chars, written])
  have hsteps : (stepLines f).map Line.chars =
      (if stepsText f.steps = "" then []
        else ["### Steps", "", fence (stepsText f.steps), stepsText f.steps,
          fence (stepsText f.steps), ""]).map String.toList := by
    unfold stepLines
    split
    · rfl
    · exact hblock _ _ _ (chars_stepPieces f.steps)
  have hlinks : ∀ links : List String,
      ((if links.isEmpty then [] else [[plain ("Artifacts: " ++ " · ".intercalate links)], []]) :
          List Line).map Line.chars =
        (if links.isEmpty then [] else ["Artifacts: " ++ " · ".intercalate links, ""]).map
          String.toList := by
    intro links
    split
    · rfl
    · simp [Line.chars, plain]
  unfold composeBody
  rw [String.toList_intercalate]
  simp only [issueLines, tailLines, List.map_append, hdetail, hsteps, hlinks]
  congr 1
  simp only [List.append_assoc]
  congr 1
  · by_cases hname : f.screen_name = "" <;> by_cases hscreen : f.screen = "" <;>
      cases hreplay : f.replay <;>
      simp [headLines, Line.chars, plain, written, hname, hscreen, hreplay]
  · congr 3
    simp [Line.chars, plain]

/-! ## Fences -/

/-- The body's lines `pre`, as CommonMark reads them. -/
def physical (pre : List Line) : List (List Char) := pre.flatMap fun l => physicalLines l.chars

/-- The line `l` between `pre` and `post` stands in a block: a line of backticks above it opens
one, an equal line below closes it, and nothing between the two does. -/
def Fenced (pre : List Line) (l : Line) (post : List Line) : Prop :=
  ∃ (n : Nat) (above inner : List Line) (o : Line) (rest below : List Line) (c : Line),
    3 ≤ n ∧ pre = above ++ o :: inner ∧ post = rest ++ c :: below ∧
      o.chars = bar backtick n ∧ c.chars = bar backtick n ∧
      scan none (physical above) = none ∧
      ∀ x ∈ physical (inner ++ l :: rest), closes (backtick, n) x = false

/-- Whatever a model wrote stands in a block. -/
def AllFenced (lines : List Line) : Prop :=
  ∀ (pre : List Line) (l : Line) (post : List Line),
    lines = pre ++ l :: post → l.FromModel → Fenced pre l post

theorem physical_append (xs ys : List Line) :
    physical (xs ++ ys) = physical xs ++ physical ys := List.flatMap_append

/-! ### The fence is longer than any run -/

/-- What one character does to the run that ends there and the longest one. -/
def runStep (mark : Char) (s : Nat × Nat) (c : Char) : Nat × Nat :=
  if c = mark then (s.1 + 1, max s.2 (s.1 + 1)) else (0, s.2)

theorem runStep_mono (mark : Char) (s : Nat × Nat) (c : Char) : s.2 ≤ (runStep mark s c).2 := by
  unfold runStep
  split
  · exact Nat.le_max_left _ _
  · exact Nat.le_refl _

theorem runs_mono (mark : Char) (cs : List Char) (s : Nat × Nat) :
    s.2 ≤ (cs.foldl (runStep mark) s).2 := by
  induction cs generalizing s with
  | nil => exact Nat.le_refl _
  | cons c rest ih => exact (runStep_mono mark s c).trans (ih (runStep mark s c))

theorem runs_bar (mark : Char) (m : Nat) (s : Nat × Nat) (hm : 0 < m) :
    s.1 + m ≤ ((bar mark m).foldl (runStep mark) s).2 := by
  induction m generalizing s with
  | zero => omega
  | succ m ih =>
      have hstep : runStep mark s mark = (s.1 + 1, max s.2 (s.1 + 1)) := if_pos rfl
      change s.1 + (m + 1) ≤ ((bar mark m).foldl (runStep mark) (runStep mark s mark)).2
      rw [hstep]
      rcases Nat.eq_zero_or_pos m with hzero | hpos
      · subst hzero
        exact Nat.le_max_right _ _
      · have h := ih (s.1 + 1, max s.2 (s.1 + 1)) hpos
        simp only at h
        omega

theorem longestRun_of_isInfix {mark : Char} {m : Nat} {cs : List Char} (h : bar mark m <:+: cs) :
    m ≤ longestRun mark cs := by
  obtain ⟨before, after, rfl⟩ := h
  rcases Nat.eq_zero_or_pos m with hzero | hpos
  · omega
  · change m ≤ ((before ++ bar mark m ++ after).foldl (runStep mark) (0, 0)).2
    rw [List.foldl_append, List.foldl_append]
    refine Nat.le_trans ?_ (runs_mono mark after _)
    exact (Nat.le_add_left m _).trans (runs_bar mark m _ hpos)

theorem fence_chars (s : String) :
    (fence s).toList = bar backtick (max 3 (longestRun backtick s.toList + 1)) := by
  simp [fence, bar, backtick]

/-- No line of a text closes the fence made for it. -/
theorem fence_not_closed (s : String) (x : List Char) (hx : x ∈ physicalLines s.toList) :
    closes (backtick, max 3 (longestRun backtick s.toList + 1)) x = false := by
  apply not_closes_of_runs
  intro hbar
  have hle := longestRun_of_isInfix (hbar.trans (isInfix_of_mem_physicalLines hx))
  omega

/-! ### One block -/

/-- One line, which neither opens nor closes a block. -/
structure Inert (title : String) : Prop where
  single : physicalLines title.toList = [title.toList]
  opens_none : opens title.toList = none
  not_closes : ∀ fence, closes fence title.toList = false

theorem inert_heading {title : String} {c : Char} {rest : List Char}
    (htitle : title.toList = '#' :: '#' :: '#' :: ' ' :: c :: rest) (hc : c ≠ ' ' ∧ c ≠ '\t')
    (hbreak : title.toList.any isBreak = false) : Inert title := by
  have hclean : ∀ x ∈ title.toList, isBreak x = false := fun x hx => by
    simpa using List.any_eq_false.mp hbreak x hx
  refine ⟨physicalLines_of_no_break hclean, ?_, fun fence => ?_⟩
  · rw [htitle]
    exact opens_of_head (by decide) (by decide) (by decide)
  · rw [htitle]
    by_cases hmark : fence.1 = '#'
    · simp [closes, afterRun, hmark, hc]
    · have hmark' : '#' ≠ fence.1 := fun h => hmark h.symm
      simp [closes, afterRun, hmark']

theorem inert_detail : Inert "### What went wrong" :=
  inert_heading rfl (by decide) (by decide)

theorem inert_steps : Inert "### Steps" :=
  inert_heading rfl (by decide) (by decide)

/-- A title and an empty line leave the state alone. -/
theorem scan_title {title : String} (htitle : Inert title) (pre : List Line) :
    scan none (physical (pre ++ [[plain title], []])) = scan none (physical pre) := by
  have hlines : physical [[plain title], []] = [title.toList, []] := by
    have hchars : Line.chars [plain title] = title.toList := by simp [Line.chars, plain]
    have hempty : physicalLines (Line.chars []) = [[]] := rfl
    simp only [physical, List.flatMap_cons, List.flatMap_nil, hchars, htitle.single, hempty,
      List.append_nil, List.cons_append, List.nil_append]
  rw [physical_append, scan_append, hlines]
  have hone := @blockStep_of_inert title.toList htitle.opens_none (scan none (physical pre))
    fun fence _ => htitle.not_closes fence
  have htwo := @blockStep_of_inert [] rfl (scan none (physical pre))
    fun fence hfence => by
      have hlen := scan_length hfence
      have hshort : ¬ fence.2 ≤ 0 := by omega
      simp [closes, runOf, hshort]
  calc scan (scan none (physical pre)) [title.toList, []]
      = blockStep (blockStep (scan none (physical pre)) title.toList) [] := rfl
    _ = scan none (physical pre) := by rw [hone, htwo]

/-- The lines of a block up to its text. -/
def opening (title text : String) : List Line := [[plain title], [], [plain (fence text)]]

theorem chars_fence (s : String) : Line.chars [plain (fence s)] =
    bar backtick (max 3 (longestRun backtick s.toList + 1)) := by
  rw [← fence_chars]
  simp [Line.chars, plain]

section Block

variable {title text : String} {body : Line}

/-- Where no block is open, the text of a block stands in it. -/
theorem fenced_of_scan (htitle : Inert title) (hbody : body.chars = text.toList) {pre : List Line}
    (hpre : scan none (physical pre) = none) (post : List Line) :
    Fenced (pre ++ opening title text) body ([[plain (fence text)], []] ++ post) := by
  refine ⟨_, pre ++ [[plain title], []], [], [plain (fence text)], [], [] :: post,
    [plain (fence text)], Nat.le_max_left _ _, by simp [opening], rfl, chars_fence text,
    chars_fence text, by rw [scan_title htitle, hpre], fun x hx => ?_⟩
  have hx' : x ∈ physicalLines text.toList := by simpa [physical, hbody] using hx
  exact fence_not_closed text x hx'

/-- A block that begins where none is open has ended with its last line. -/
theorem scan_blockLines (htitle : Inert title) (hbody : body.chars = text.toList)
    {pre : List Line} (hpre : scan none (physical pre) = none) :
    scan none (physical (pre ++ blockLines title text body)) = none := by
  have hbreak : ∀ n, physicalLines (bar backtick n) = [bar backtick n] := by
    intro n
    apply physicalLines_of_no_break
    intro c hc
    rw [List.eq_of_mem_replicate hc]
    decide
  have hlines : physical (blockLines title text body) =
      physical [[plain title], []] ++
        bar backtick (max 3 (longestRun backtick text.toList + 1)) ::
          (physicalLines text.toList ++
            [bar backtick (max 3 (longestRun backtick text.toList + 1)), []]) := by
    have hempty : physicalLines (Line.chars []) = [[]] := rfl
    simp only [physical, blockLines, List.flatMap_cons, List.flatMap_nil, chars_fence, hbreak, hbody,
      hempty, List.append_assoc, List.nil_append, List.cons_append, List.append_nil]
  have hopen := opens_bar (n := max 3 (longestRun backtick text.toList + 1)) (Nat.le_max_left _ _)
  have hclose := @closes_bar backtick (by decide)
    (max 3 (longestRun backtick text.toList + 1))
  rw [physical_append, hlines, ← List.append_assoc, ← physical_append, scan_append,
    scan_title htitle, hpre]
  change scan (opens (bar backtick _)) _ = none
  rw [hopen, scan_append, scan_of_not_closes (fence_not_closed text)]
  change blockStep (blockStep (some _) (bar backtick _)) [] = none
  simp only [blockStep, hclose, if_true]
  rfl

/-- The only fence line above the text is its own. -/
theorem scan_of_fenced (htitle : Inert title) {pre post : List Line}
    (hpre : ∀ l ∈ pre, l.chars.head? ≠ some backtick)
    (h : Fenced (pre ++ opening title text) body post) : scan none (physical pre) = none := by
  obtain ⟨n, above, inner, o, rest, below, c, hn, hsplit, -, ho, -, hscan, -⟩ := h
  have hhead : o.chars.head? = some backtick := by
    rw [ho, bar]
    cases n with
    | zero => omega
    | succ n => rfl
  have hsplit' : (pre ++ [[plain title], []]) ++ [[plain (fence text)]] = above ++ o :: inner := by
    simpa [opening] using hsplit
  rcases List.eq_nil_or_concat inner with rfl | ⟨inner', last, rfl⟩
  · obtain ⟨habove, -⟩ := List.append_inj' hsplit' rfl
    rw [← habove, scan_title htitle] at hscan
    exact hscan
  · exfalso
    rw [List.concat_eq_append, ← List.cons_append, ← List.append_assoc] at hsplit'
    obtain ⟨habove, -⟩ := List.append_inj' hsplit' rfl
    have hmem : o ∈ pre ++ [[plain title], []] := by
      rw [habove]
      exact List.mem_append_right _ List.mem_cons_self
    rcases List.mem_append.mp hmem with hin | hin
    · exact hpre o hin hhead
    · have hor : o = [plain title] ∨ o = [] := by simpa using hin
      rcases hor with rfl | rfl
      · have hn3 := htitle.opens_none
        have hchars : title.toList = bar backtick n := by simpa [Line.chars, plain] using ho
        rw [hchars, opens_bar hn] at hn3
        cases hn3
      · cases hhead

end Block

/-! ### The whole body -/

/-- What a model wrote in a part of the body stands in a block. -/
def FencedIn (before part after : List Line) : Prop :=
  ∀ (pre : List Line) (l : Line) (post : List Line),
    part = pre ++ l :: post → l.FromModel → Fenced (before ++ pre) l (post ++ after)

theorem allFenced_iff (lines : List Line) : AllFenced lines ↔ FencedIn [] lines [] := by
  simp only [AllFenced, FencedIn, List.nil_append, List.append_nil]

theorem fencedIn_append (before xs ys after : List Line) :
    FencedIn before (xs ++ ys) after ↔
      FencedIn before xs (ys ++ after) ∧ FencedIn (before ++ xs) ys after := by
  constructor
  · intro h
    refine ⟨fun pre l post hsplit hmodel => ?_, fun pre l post hsplit hmodel => ?_⟩
    · have hxs := h pre l (post ++ ys) (by rw [hsplit]; simp) hmodel
      rwa [List.append_assoc] at hxs
    · have hys := h (xs ++ pre) l post (by rw [hsplit]; simp) hmodel
      rwa [← List.append_assoc] at hys
  · rintro ⟨hxs, hys⟩ pre l post hsplit hmodel
    rcases List.append_eq_append_iff.mp hsplit with ⟨mid, rfl, hrest⟩ | ⟨mid, rfl, hrest⟩
    · rw [← List.append_assoc]
      exact hys mid l post hrest hmodel
    · cases mid with
      | nil =>
          have h := hys [] l post (by simpa using hrest.symm) hmodel
          simpa using h
      | cons m mid =>
          obtain ⟨rfl, rfl⟩ := List.cons.inj hrest
          have h := hxs pre l mid rfl hmodel
          simpa using h

theorem fencedIn_singleton (before after : List Line) (l : Line) :
    FencedIn before [l] after ↔ (l.FromModel → Fenced before l after) := by
  constructor
  · intro h hmodel
    simpa using h [] l [] rfl hmodel
  · intro h pre x post hsplit hmodel
    rcases List.append_eq_singleton_iff.mp hsplit.symm with ⟨rfl, hx⟩ | ⟨-, hx⟩
    · obtain ⟨rfl, rfl⟩ := List.cons.inj hx
      simpa using h hmodel
    · cases hx

theorem fencedIn_of_plain {part : List Line} (h : ∀ l ∈ part, ¬ l.FromModel)
    (before after : List Line) : FencedIn before part after := by
  intro pre l post hsplit hmodel
  refine absurd hmodel (h l ?_)
  rw [hsplit]
  exact List.mem_append_right _ List.mem_cons_self

theorem not_fromModel_plain (t : String) : ¬ Line.FromModel [plain t] := by
  simp [Line.FromModel, plain]

theorem not_fromModel_nil : ¬ Line.FromModel [] := by
  simp [Line.FromModel]

theorem fencedIn_blockLines (before after : List Line) (title text : String) (body : Line) :
    FencedIn before (blockLines title text body) after ↔
      (body.FromModel → Fenced (before ++ opening title text) body
        ([[plain (fence text)], []] ++ after)) := by
  have hopening : ∀ l ∈ opening title text, ¬ l.FromModel := by
    simp [opening, not_fromModel_plain, not_fromModel_nil]
  have hclosing : ∀ l ∈ [[plain (fence text)], []], ¬ Line.FromModel l := by
    simp [not_fromModel_plain, not_fromModel_nil]
  have hblock : blockLines title text body =
      opening title text ++ ([body] ++ [[plain (fence text)], []]) := rfl
  rw [hblock, fencedIn_append, fencedIn_append, fencedIn_singleton]
  constructor
  · rintro ⟨-, h, -⟩
    exact h
  · intro h
    exact ⟨fencedIn_of_plain hopening _ _, h, fencedIn_of_plain hclosing _ _⟩

/-- The row of the screen. -/
def screenRow (f : FindingRow) : Line :=
  [plain "| Screen | ", if f.screen_name = "" then plain "unnamed" else written f.screen_name] ++
    (if f.screen = "" then [] else [plain " (`", written f.screen, plain "`)"]) ++ [plain " |"]

theorem screenRow_fromModel (f : FindingRow) :
    (screenRow f).FromModel ↔ ¬ (f.screen = "" ∧ f.screen_name = "") := by
  by_cases hname : f.screen_name = "" <;> by_cases hscreen : f.screen = "" <;>
    simp [screenRow, Line.FromModel, plain, written, hname, hscreen]

theorem head_of_headLines (f : FindingRow) (l : Line) (hl : l ∈ headLines f) :
    l.chars.head? ≠ some backtick := by
  simp only [headLines, List.mem_cons, List.not_mem_nil, or_false] at hl
  rcases hl with rfl | rfl | rfl | rfl | rfl | rfl | rfl | rfl | rfl | rfl | rfl <;>
    simp [Line.chars, plain, backtick]

/-- The lines of the head around the row of the screen. -/
theorem headLines_eq (f : FindingRow) :
    headLines f = (headLines f).take 7 ++ ([screenRow f] ++ (headLines f).drop 8) := rfl

theorem fencedIn_headLines (f : FindingRow) (after : List Line) :
    FencedIn [] (headLines f) after ↔ f.screen = "" ∧ f.screen_name = "" := by
  have hplain : ∀ l ∈ (headLines f).take 7 ++ (headLines f).drop 8, ¬ l.FromModel := by
    simp [headLines, not_fromModel_plain, not_fromModel_nil]
  rw [headLines_eq, fencedIn_append, fencedIn_append, fencedIn_singleton, screenRow_fromModel]
  constructor
  · rintro ⟨-, hrow, -⟩
    by_contra hne
    obtain ⟨n, above, inner, o, rest, below, c, hn, hsplit, -, ho, -⟩ := hrow hne
    have hmem : o ∈ headLines f := by
      apply List.mem_of_mem_take (i := 7)
      rw [List.nil_append] at hsplit
      rw [hsplit]
      exact List.mem_append_right _ List.mem_cons_self
    apply head_of_headLines f o hmem
    rw [ho, bar]
    cases n with
    | zero => omega
    | succ n => rfl
  · intro hempty
    refine ⟨fencedIn_of_plain (fun l hl => hplain l (List.mem_append_left _ hl)) _ _,
      fun hne => absurd hempty hne,
      fencedIn_of_plain (fun l hl => hplain l (List.mem_append_right _ hl)) _ _⟩

theorem fromModel_append (a b : Line) :
    Line.FromModel (a ++ b) ↔ a.FromModel ∨ b.FromModel := by
  simp only [Line.FromModel, List.mem_append, or_and_right, exists_or]

theorem fromModel_intercalate (sep : String) (ls : List Line) :
    Line.FromModel ([plain sep].intercalate ls) ↔ ∃ l ∈ ls, l.FromModel := by
  induction ls with
  | nil => simp [Line.FromModel]
  | cons l rest ih =>
      cases rest with
      | nil => simp
      | cons m more =>
          rw [List.intercalate_cons_cons, fromModel_append, fromModel_append, ih]
          simp [not_fromModel_plain]

theorem stepPieces_fromModel (steps : List String) :
    (stepPieces steps).FromModel ↔ ∃ s ∈ steps, s ≠ "" := by
  have hstep : ∀ p : String × Nat,
      Line.FromModel [plain (toString (p.2 + 1) ++ ". "), written p.1] ↔ p.1 ≠ "" := by
    simp [Line.FromModel, plain, written]
  rw [stepPieces, fromModel_intercalate]
  constructor
  · rintro ⟨l, hl, hmodel⟩
    obtain ⟨p, hp, rfl⟩ := List.mem_map.mp hl
    exact ⟨p.1, List.fst_mem_of_mem_zipIdx hp, (hstep p).mp hmodel⟩
  · rintro ⟨s, hs, hne⟩
    rw [← List.zipIdx_map_fst 0 steps] at hs
    obtain ⟨p, hp, rfl⟩ := List.mem_map.mp hs
    exact ⟨_, List.mem_map.mpr ⟨p, hp, rfl⟩, (hstep p).mpr hne⟩

/-- The text of the steps is there as soon as one of them is. -/
theorem stepsText_ne_empty {steps : List String} (h : ∃ s ∈ steps, s ≠ "") :
    stepsText steps ≠ "" := by
  intro hempty
  obtain ⟨p, hp, -, hne⟩ := (stepPieces_fromModel steps).mpr h
  have hchars := chars_stepPieces steps
  rw [hempty] at hchars
  have hnil := List.flatMap_eq_nil_iff.mp hchars p hp
  exact hne (String.toList_eq_nil_iff.mp hnil)

theorem not_fromModel_tailLines (f : FindingRow) (dashUrl : String) :
    ∀ l ∈ tailLines f dashUrl, ¬ l.FromModel := by
  intro l hl
  simp only [tailLines, List.mem_append] at hl
  rcases hl with hlinks | hrest
  · split at hlinks
    · cases hlinks
    · simp only [List.mem_cons, List.not_mem_nil, or_false] at hlinks
      rcases hlinks with rfl | rfl
      · exact not_fromModel_plain _
      · exact not_fromModel_nil
  · simp only [List.mem_cons, List.not_mem_nil, or_false] at hrest
    rcases hrest with rfl | rfl | rfl
    · exact not_fromModel_plain _
    · exact not_fromModel_nil
    · exact not_fromModel_plain _

/-- No block is left open above the first fenced text. -/
def HeadClosed (f : FindingRow) : Prop := scan none (physical (headLines f)) = none

theorem fencedIn_detailLines (f : FindingRow) (after : List Line) :
    FencedIn (headLines f) (detailLines f) after ↔ (isBlank f.detail = false → HeadClosed f) := by
  unfold detailLines
  split
  · rename_i hblank
    simp only [hblank, Bool.true_eq_false, false_implies, iff_true]
    exact fencedIn_of_plain (by simp) _ _
  · rename_i hblank
    have hmodel : Line.FromModel [written f.detail] := by
      refine ⟨written f.detail, List.mem_singleton.mpr rfl, rfl, fun hempty => hblank ?_⟩
      change f.detail = "" at hempty
      rw [hempty]
      rfl
    rw [Bool.not_eq_true] at hblank
    rw [fencedIn_blockLines]
    have hbody : Line.chars [written f.detail] = f.detail.toList := by simp [Line.chars, written]
    constructor
    · intro h _
      exact scan_of_fenced inert_detail (head_of_headLines f) (h hmodel)
    · intro h _
      exact fenced_of_scan inert_detail hbody (h hblank) after

theorem scan_detailLines {f : FindingRow} (h : HeadClosed f) :
    scan none (physical (headLines f ++ detailLines f)) = none := by
  unfold detailLines
  split
  · rwa [List.append_nil]
  · exact scan_blockLines inert_detail (by simp [Line.chars, written]) h

theorem fencedIn_stepLines {f : FindingRow}
    (hdetail : isBlank f.detail = false → HeadClosed f) (after : List Line) :
    FencedIn (headLines f ++ detailLines f) (stepLines f) after ↔
      ((∃ s ∈ f.steps, s ≠ "") → HeadClosed f) := by
  unfold stepLines
  split
  · rename_i hempty
    refine iff_of_true (fencedIn_of_plain (by simp) _ _) fun hsome => ?_
    exact absurd hempty (stepsText_ne_empty hsome)
  · rw [fencedIn_blockLines, stepPieces_fromModel]
    constructor
    · intro h hsome
      cases hblank : isBlank f.detail with
      | false => exact hdetail hblank
      | true =>
          have hnone : detailLines f = [] := by simp [detailLines, hblank]
          rw [hnone, List.append_nil] at h
          exact scan_of_fenced inert_steps (head_of_headLines f) (h hsome)
    · intro h hsome
      exact fenced_of_scan inert_steps (chars_stepPieces f.steps) (scan_detailLines (h hsome)) after

/-- The body is its lines, and everything a model wrote is fenced exactly for a screen without key
and name, when no other field has opened a block above the first fenced text. -/
theorem issue_fenced_iff (f : FindingRow) (dashUrl : String) :
    (composeBody f dashUrl).toList =
        ['\n'].intercalate ((issueLines f dashUrl).map Line.chars) ∧
      (AllFenced (issueLines f dashUrl) ↔
        (f.screen = "" ∧ f.screen_name = "") ∧
          ((isBlank f.detail = false ∨ ∃ s ∈ f.steps, s ≠ "") → HeadClosed f)) := by
  refine ⟨composeBody_lines f dashUrl, ?_⟩
  rw [allFenced_iff, issueLines, fencedIn_append, fencedIn_append, fencedIn_append,
    fencedIn_headLines, List.nil_append, fencedIn_detailLines]
  have htail := fencedIn_of_plain (not_fromModel_tailLines f dashUrl)
    (headLines f ++ detailLines f ++ stepLines f) []
  constructor
  · rintro ⟨⟨⟨hscreen, hdetail⟩, hsteps⟩, -⟩
    refine ⟨hscreen, fun hsome => hsome.elim hdetail ?_⟩
    exact (fencedIn_stepLines hdetail _).mp hsteps
  · rintro ⟨hscreen, hclosed⟩
    have hdetail : isBlank f.detail = false → HeadClosed f := fun h => hclosed (Or.inl h)
    refine ⟨⟨⟨hscreen, hdetail⟩, ?_⟩, htail⟩
    exact (fencedIn_stepLines hdetail _).mpr fun h => hclosed (Or.inr h)

/-- A finding whose screen a model has named after a user. -/
def mentioned : FindingRow :=
  { id := 1, fingerprint := "f00d", app := "com.example.app", build := "7", platform := "android",
    device_id := "pixel-7", job_id := "j1", last_job_id := none, mission_id := "m1",
    check_name := .crash, subclass := none, severity := .high, title := "Crash on the home screen",
    detail := "It crashed.", screen := "", screen_name := "@octocat", steps := ["Open the app"],
    replay := none, artifacts := .empty, first_seen := 0, last_seen := 0, seen_count := 1,
    builds_seen := ["7"], verdict := none, verdict_note := none, verdict_at := none,
    duplicate_of := none, issue := none, issue_state := none, issue_at := none }

/-- Its row stands in the open, where GitHub reads a mention. -/
theorem mention_is_live :
    ¬ AllFenced (issueLines mentioned "https://fleet.test") ∧
      (screenRow mentioned).chars = "| Screen | @octocat |".toList ∧
      scan none (physical ((issueLines mentioned "https://fleet.test").take 7)) = none := by
  refine ⟨fun h => ?_, by decide, by decide +kernel⟩
  rw [allFenced_iff, issueLines, fencedIn_append, fencedIn_append, fencedIn_append,
    fencedIn_headLines] at h
  have hname : "@octocat" = "" := h.1.1.1.2
  exact absurd hname (by decide)

end FleetRunner.Findings
