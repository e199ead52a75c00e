import FleetRunner.Js.Text
import Mathlib.Data.List.Infix

/-!
# Typing on an Android device (`android.ts`)

Text goes to the device as an argument of `input text`, by way of the device's shell.
It is escaped for the shell, and its spaces are written `%s`, which `input` turns back.

The shell's escapes are undone character by character, whatever the text is. A `%s` of
the text's own is one that `input` turns into a space as well.
-/

namespace FleetRunner.Explore.Typing

/-! ## The program -/

/-- `[\x20-\x7e]` -/
def isPrintable (c : Char) : Bool := decide (0x20 ≤ c.toNat) && decide (c.toNat ≤ 0x7e)

/-- The characters that get a backslash. -/
def escaped : List Char :=
  ['\\', '\x27', '"', '\x60', '$', '&', '|', ';', '<', '>', '(', ')', '*', '?', '!', '#', '~', '^',
    '[', ']', '\x7b', '\x7d']

def escapeChar (c : Char) : List Char := if c ∈ escaped then ['\\', c] else [c]

def spaceOut (c : Char) : List Char := if c = ' ' then ['%', 's'] else [c]

def escapeInputText (text : List Char) : Except String (List Char) :=
  if text.any (fun c => !isPrintable c) then
    .error "adb's \x60input text\x60 can only type printable ASCII; this text has other characters"
  else .ok ((text.flatMap escapeChar).flatMap spaceOut)

/-- A command's words, as `adb shell` gets them. -/
abbrev Command := List (List Char)

section Act

variable (js : Js)

/-- `String(Math.round(n))` -/
def rounded (n : Rat) : List Char := (js.showNum (mathRound n)).toList

def tapCommand : Option Rat → Option Rat → List Command
  | some x, some y => [["input".toList, "tap".toList, rounded js x, rounded js y]]
  | _, _ => []

/-- What clears the field; `works` says whether the platform has `keycombination`. -/
def clearCommands (works : Bool) : List Command :=
  ["input".toList, "keycombination".toList, "113".toList, "29".toList] ::
    if works then [["input".toList, "keyevent".toList, "67".toList]]
    else ["input".toList :: "keyevent".toList :: "123".toList :: List.replicate 60 "67".toList]

/-- The `type` action, as the commands that it sends. -/
def typeCommands (works : Bool) (text : List Char) (x y : Option Rat) (overwrite enter : Bool) :
    Except String (List Command) := do
  let arg ← escapeInputText text
  return tapCommand js x y ++ (if overwrite then clearCommands works else []) ++
    (if arg = [] then [] else [["input".toList, "text".toList, arg]]) ++
    (if enter then [["input".toList, "keyevent".toList, "66".toList]] else [])

end Act

/-! ## The device -/

/-- The characters that act in the shell where no backslash is before them. -/
def shellSpecial : List Char :=
  ['|', '&', ';', '<', '>', '(', ')', '$', '\x60', '"', '\x27', '*', '?', '[', ']', '#', '~', '!',
    '^', '\x7b', '\x7d']

/-- The shell's words, with the one that has begun; none where a character acts. -/
def shellWords : Option (List Char) → List Char → Option (List (List Char))
  | word, [] => some word.toList
  | _, ['\\'] => none
  | word, '\\' :: c :: cs => shellWords (some (word.getD [] ++ [c])) cs
  | word, c :: cs =>
    if c = ' ' then (shellWords none cs).map (word.toList ++ ·)
    else if c ∈ shellSpecial then none
    else shellWords (some (word.getD [] ++ [c])) cs

/-- `input text` types its argument, with a space for every `%s`. -/
def inputText : List Char → List Char
  | '%' :: 's' :: cs => ' ' :: inputText cs
  | c :: cs => c :: inputText cs
  | [] => []

/-- What a command types. -/
def typedBy (command : Command) : Option (List Char) :=
  match shellWords none (List.intercalate [' '] command) with
  | some [program, mode, word] =>
    if program = "input".toList ∧ mode = "text".toList then some (inputText word) else none
  | _ => none

/-- A text that is to be typed. -/
structure Printable where
  text : List Char
  ne_nil : text ≠ []
  printable : text.all isPrintable = true

/-- The text is accepted, arrives as one word, and is typed as it is. -/
def TypedAs (text : List Char) : Prop :=
  ∃ arg word, escapeInputText text = .ok arg ∧ shellWords none arg = some [word] ∧
    inputText word = text

/-- The action sends commands that type the text, and nothing else. -/
def Types (js : Js) (works : Bool) (text : List Char) (x y : Option Rat) (overwrite enter : Bool) :
    Prop :=
  ∃ commands, typeCommands js works text x y overwrite enter = .ok commands ∧
    commands.filterMap typedBy = [text]

/-! ## The shell -/

theorem shellWords_space (word : Option (List Char)) (cs : List Char) :
    shellWords word (' ' :: cs) = (shellWords none cs).map (word.toList ++ ·) := by
  rw [shellWords.eq_4 _ _ _ (by simp) (by simp), if_pos rfl]

theorem shellWords_plain {c : Char} (hspace : c ≠ ' ') (hback : c ≠ '\\') (hc : c ∉ shellSpecial)
    (word : Option (List Char)) (cs : List Char) :
    shellWords word (c :: cs) = shellWords (some (word.getD [] ++ [c])) cs := by
  rw [shellWords.eq_4 _ _ _ (by simp [hback]) (by simp [hback]), if_neg hspace, if_neg hc]

theorem special_subset {c : Char} (h : c ∈ shellSpecial) : c ∈ escaped :=
  of_decide_eq_true (List.all_eq_true.mp
    (show shellSpecial.all (fun d => decide (d ∈ escaped)) = true by decide) c h)

/-- What is escaped of a character arrives as that character, or as `%s` for a space. -/
theorem shellWords_char (c : Char) (word : Option (List Char)) (cs : List Char) :
    shellWords word ((escapeChar c).flatMap spaceOut ++ cs) =
      shellWords (some (word.getD [] ++ spaceOut c)) cs := by
  by_cases hspace : c = ' '
  · subst hspace
    have htext : (escapeChar ' ').flatMap spaceOut ++ cs = '%' :: 's' :: cs := rfl
    rw [htext, shellWords_plain (by decide) (by decide) (by decide),
      shellWords_plain (by decide) (by decide) (by decide), Option.getD_some, List.append_assoc]
    rfl
  · have hown : spaceOut c = [c] := if_neg hspace
    rw [hown]
    by_cases hc : c ∈ escaped
    · have htext : (escapeChar c).flatMap spaceOut ++ cs = '\\' :: c :: cs := by
        rw [escapeChar, if_pos hc]
        simp [spaceOut, hspace]
      rw [htext, shellWords]
    · have htext : (escapeChar c).flatMap spaceOut ++ cs = c :: cs := by
        rw [escapeChar, if_neg hc]
        simp [spaceOut, hspace]
      have hback : c ≠ '\\' := fun h => hc (h ▸ List.mem_cons_self)
      rw [htext, shellWords_plain hspace hback fun h => hc (special_subset h)]

/-- The shell undoes the escapes: what arrives is one word, with `%s` for spaces. -/
theorem shellWords_escaped (text : List Char) (word : Option (List Char)) :
    shellWords word ((text.flatMap escapeChar).flatMap spaceOut) =
      some (if text = [] then word.toList else [word.getD [] ++ text.flatMap spaceOut]) := by
  induction text generalizing word with
  | nil => rfl
  | cons c text ih =>
    rw [List.flatMap_cons, List.flatMap_append, shellWords_char, ih, if_neg (List.cons_ne_nil _ _),
      List.flatMap_cons, ← List.append_assoc]
    split
    · next hnil =>
      rw [hnil, List.flatMap_nil, List.append_nil]
      rfl
    · rfl

/-! ## The device's own escape -/

/-- Spaces that were written `%s` are turned back, and nothing else is turned by them. -/
theorem inputText_spaceOut (text : List Char) :
    inputText (text.flatMap spaceOut) = inputText text := by
  induction text using inputText.induct with
  | case1 cs ih =>
    change inputText ('%' :: 's' :: cs.flatMap spaceOut) = _
    rw [inputText, ih, inputText]
  | case2 c cs hno ih =>
    rw [inputText.eq_2 _ _ hno, ← ih, List.flatMap_cons]
    by_cases hspace : c = ' '
    · subst hspace
      change inputText ('%' :: 's' :: cs.flatMap spaceOut) = _
      rw [inputText]
    · have hown : spaceOut c = [c] := if_neg hspace
      rw [hown, List.singleton_append, inputText.eq_2]
      intro ds hc hds
      cases cs with
      | nil => cases hds
      | cons d cs =>
        rw [List.flatMap_cons, spaceOut] at hds
        split at hds
        · cases hds
        · exact hno cs hc (by rw [(List.cons.inj hds).1])
  | case3 => rfl

theorem length_inputText_le (text : List Char) : (inputText text).length ≤ text.length := by
  induction text using inputText.induct with
  | case1 cs ih =>
    rw [inputText, List.length_cons, List.length_cons, List.length_cons]
    omega
  | case2 c cs hno ih =>
    rw [inputText.eq_2 _ _ hno, List.length_cons, List.length_cons]
    omega
  | case3 => exact Nat.le_refl 0

theorem inputText_eq_iff (text : List Char) : inputText text = text ↔ ¬ ['%', 's'] <:+: text := by
  induction text using inputText.induct with
  | case1 cs ih =>
    refine iff_of_false (fun h => ?_) (not_not.mpr ⟨[], cs, rfl⟩)
    have hlength := congrArg List.length h
    have hle := length_inputText_le cs
    rw [inputText, List.length_cons, List.length_cons, List.length_cons] at hlength
    omega
  | case2 c cs hno ih =>
    rw [inputText.eq_2 _ _ hno, List.cons.injEq, List.infix_cons_iff, not_or, ← ih]
    refine ⟨fun h => ⟨fun hfirst => ?_, h.2⟩, fun h => ⟨rfl, h.2⟩⟩
    obtain ⟨hc, hrest⟩ := List.cons_prefix_cons.mp hfirst
    obtain ⟨rest, hrest⟩ := hrest
    exact hno rest hc.symm hrest.symm
  | case3 => exact iff_of_true rfl (by simp)

/-! ## What is typed -/

theorem escapeInputText_of_printable {text : List Char} (h : text.all isPrintable = true) :
    escapeInputText text = .ok ((text.flatMap escapeChar).flatMap spaceOut) := by
  have hnone : ¬ text.any (fun c => !isPrintable c) = true := by
    rw [List.any_eq_true]
    rintro ⟨c, hc, hno⟩
    rw [List.all_eq_true.mp h c hc] at hno
    cases hno
  rw [escapeInputText, if_neg hnone]

theorem shellWords_arg (t : Printable) :
    shellWords none ((t.text.flatMap escapeChar).flatMap spaceOut) =
      some [t.text.flatMap spaceOut] := by
  rw [shellWords_escaped, if_neg t.ne_nil]
  rfl

theorem typedAs_iff (t : Printable) : TypedAs t.text ↔ ¬ ['%', 's'] <:+: t.text := by
  rw [← inputText_eq_iff, ← inputText_spaceOut]
  constructor
  · rintro ⟨arg, word, harg, hword, htyped⟩
    rw [escapeInputText_of_printable t.printable] at harg
    rw [← Except.ok.inj harg, shellWords_arg] at hword
    obtain ⟨rfl, -⟩ := List.cons.inj (Option.some.inj hword)
    exact htyped
  · exact fun h => ⟨_, _, escapeInputText_of_printable t.printable, shellWords_arg t, h⟩

/-- A word of letters and digits. -/
def IsPlain (word : List Char) : Prop := ∀ c ∈ word, c.isAlphanum = true

theorem not_special_of_alphanum {c : Char} (h : c.isAlphanum = true) :
    c ≠ ' ' ∧ c ≠ '\\' ∧ c ∉ shellSpecial := by
  have hnone : (' ' :: '\\' :: shellSpecial).all (fun d => !d.isAlphanum) = true := by decide
  have hnot : c ∉ ' ' :: '\\' :: shellSpecial := fun hmem => by
    have hno := List.all_eq_true.mp hnone c hmem
    rw [h] at hno
    cases hno
  rw [List.mem_cons, List.mem_cons, not_or, not_or] at hnot
  exact hnot

theorem shellWords_word {w : List Char} (hw : IsPlain w) (word : Option (List Char))
    (cs : List Char) : shellWords word (w ++ ' ' :: cs) =
      (shellWords none cs).map ((if w = [] then word.toList else [word.getD [] ++ w]) ++ ·) := by
  induction w generalizing word with
  | nil => exact shellWords_space word cs
  | cons c w ih =>
    obtain ⟨hspace, hback, hspecial⟩ := not_special_of_alphanum (hw c List.mem_cons_self)
    rw [List.cons_append, shellWords_plain hspace hback hspecial,
      ih fun d hd => hw d (List.mem_cons_of_mem c hd), if_neg (List.cons_ne_nil _ _)]
    split
    · next hnil =>
      rw [hnil]
      rfl
    · rw [Option.getD_some, List.append_assoc]
      rfl

theorem isPlain_of_all {word : List Char} (h : word.all Char.isAlphanum = true) : IsPlain word :=
  List.all_eq_true.mp h

/-- The words of a command of `input`. -/
theorem shellWords_command {mode : List Char} (hmode : mode.all Char.isAlphanum = true)
    (hne : mode ≠ []) (arg : List Char) (args : Command) :
    shellWords none (List.intercalate [' '] ("input".toList :: mode :: arg :: args)) =
      (shellWords none (List.intercalate [' '] (arg :: args))).map
        (["input".toList, mode] ++ ·) := by
  have htext : List.intercalate [' '] ("input".toList :: mode :: arg :: args) =
      "input".toList ++ ' ' :: (mode ++ ' ' :: List.intercalate [' '] (arg :: args)) := by
    simp [List.intercalate]
  have hinput : IsPlain "input".toList := isPlain_of_all (by decide)
  rw [htext, shellWords_word hinput, shellWords_word (isPlain_of_all hmode), if_neg (by decide),
    if_neg hne, Option.map_map]
  rfl

/-- A command of another kind types nothing. -/
theorem typedBy_other {mode : List Char} (hmode : mode.all Char.isAlphanum = true)
    (hne : mode ≠ []) (htext : mode ≠ "text".toList) (arg : List Char) (args : Command) :
    typedBy ("input".toList :: mode :: arg :: args) = none := by
  rw [typedBy, shellWords_command hmode hne]
  cases shellWords none (List.intercalate [' '] (arg :: args)) with
  | none => rfl
  | some words =>
    match words with
    | [] => rfl
    | [word] => exact if_neg fun h => htext h.2
    | _ :: _ :: _ => rfl

theorem typedBy_text {arg word : List Char} (h : shellWords none arg = some [word]) :
    typedBy ["input".toList, "text".toList, arg] = some (inputText word) := by
  have harg : List.intercalate [' '] [arg] = arg := by simp [List.intercalate]
  rw [typedBy, shellWords_command (by decide) (by decide), harg, h]
  exact if_pos ⟨rfl, rfl⟩

theorem typedBy_tap (js : Js) (x y : Option Rat) :
    (tapCommand js x y).filterMap typedBy = [] := by
  unfold tapCommand
  split
  · rw [List.filterMap_cons, typedBy_other (by decide) (by decide) (by decide)]
    rfl
  · rfl

theorem typedBy_clear (works : Bool) : (clearCommands works).filterMap typedBy = [] := by
  unfold clearCommands
  rw [List.filterMap_cons, typedBy_other (by decide) (by decide) (by decide)]
  cases works with
  | true =>
    rw [if_pos rfl, List.filterMap_cons, typedBy_other (by decide) (by decide) (by decide)]
    rfl
  | false =>
    rw [if_neg (by decide), List.filterMap_cons,
      typedBy_other (by decide) (by decide) (by decide)]
    rfl

theorem typedBy_commands (js : Js) (works : Bool) (t : Printable) (x y : Option Rat)
    (overwrite enter : Bool) : ∃ commands,
      typeCommands js works t.text x y overwrite enter = .ok commands ∧
      commands.filterMap typedBy = [inputText t.text] := by
  have hne : (t.text.flatMap escapeChar).flatMap spaceOut ≠ [] := fun hnil => by
    have hwords := shellWords_arg t
    rw [hnil] at hwords
    cases hwords
  refine ⟨_, by rw [typeCommands, escapeInputText_of_printable t.printable]; rfl, ?_⟩
  have henter : ((if enter then [["input".toList, "keyevent".toList, "66".toList]] else []) :
      List Command).filterMap typedBy = [] := by
    cases enter with
    | true =>
      rw [if_pos rfl, List.filterMap_cons, typedBy_other (by decide) (by decide) (by decide)]
      rfl
    | false => rfl
  have hclear : (if overwrite then clearCommands works else []).filterMap typedBy = [] := by
    cases overwrite with
    | true => exact typedBy_clear works
    | false => rfl
  rw [List.filterMap_append, List.filterMap_append, List.filterMap_append, typedBy_tap, hclear,
    henter, if_neg hne, List.filterMap_cons, typedBy_text (shellWords_arg t), inputText_spaceOut]
  rfl

theorem refused_iff (text : List Char) :
    (∃ reason, escapeInputText text = .error reason) ↔ ∃ c ∈ text, isPrintable c = false := by
  unfold escapeInputText
  split
  · next h =>
    obtain ⟨c, hc, hno⟩ := List.any_eq_true.mp h
    exact iff_of_true ⟨_, rfl⟩ ⟨c, hc, by simpa using hno⟩
  · next h =>
    refine iff_of_false (fun ⟨_, hno⟩ => by cases hno) fun ⟨c, hc, hno⟩ => h ?_
    exact List.any_eq_true.mpr ⟨c, hc, by rw [hno]; rfl⟩

/-- What is typed is what was asked, exactly where the text has no `%s` of its own; and what cannot
be typed is refused. -/
theorem types_iff (js : Js) (works : Bool) (x y : Option Rat) (overwrite enter : Bool) :
    (∀ t : Printable, TypedAs t.text ∧ Types js works t.text x y overwrite enter ↔
      ¬ ['%', 's'] <:+: t.text) ∧
    ∀ text, (∃ reason, escapeInputText text = .error reason) ↔
      ∃ c ∈ text, isPrintable c = false := by
  refine ⟨fun t => ?_, refused_iff⟩
  obtain ⟨commands, hok, htyped⟩ := typedBy_commands js works t x y overwrite enter
  have htypes : Types js works t.text x y overwrite enter ↔ ¬ ['%', 's'] <:+: t.text := by
    rw [← inputText_eq_iff]
    constructor
    · rintro ⟨others, hothers, hsame⟩
      rw [hok] at hothers
      rw [← Except.ok.inj hothers, htyped] at hsame
      exact (List.cons.inj hsame).1
    · exact fun h => ⟨commands, hok, by rw [htyped, h]⟩
  rw [typedAs_iff, htypes, and_self_iff]

/-- The text `%s` is typed as a space. -/
theorem types_fails : escapeInputText ['%', 's'] = .ok ['%', 's'] ∧
    shellWords none ['%', 's'] = some [['%', 's']] ∧ inputText ['%', 's'] = [' '] ∧
    ¬ TypedAs ['%', 's'] := by
  refine ⟨rfl, rfl, rfl, ?_⟩
  rintro ⟨arg, word, harg, hword, htyped⟩
  obtain rfl := Except.ok.inj harg
  obtain ⟨rfl, -⟩ := List.cons.inj (Option.some.inj hword)
  exact absurd htyped (by decide)

end FleetRunner.Explore.Typing
