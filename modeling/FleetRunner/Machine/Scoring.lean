import FleetRunner.Js.Ticks
import Mathlib.Data.List.DropRight

/-!
# Scoring (`scoring.ts`)

A model answers with a JSON value and talk around it. The first of four parts of its
text that is JSON is taken for the value: what a fence holds, the whole, the first
balanced braces, the first balanced brackets.

## Implementation notes

The prose that stands around a value has no brackets, quotes or backslashes. A fence
inside the value's own strings is found all the same, and so are braces inside an
array.
-/

namespace FleetRunner.Machine.Scoring

open JsonText

/-! ## The program -/

/-- `s.trim()` -/
def trimText (cs : List Char) : List Char := (cs.dropWhile isJsSpace).rdropWhile isJsSpace

def ticks : List Char := ['\x60', '\x60', '\x60']

/-- The text before the first fence. -/
def upToFence : List Char → Option (List Char)
  | [] => none
  | c :: cs => if ticks.isPrefixOf (c :: cs) then some [] else (upToFence cs).map (c :: ·)

/-- `(?:json)?` -/
def dropJson (cs : List Char) : List Char :=
  if (cs.take 4).map Char.toLower = "json".toList then cs.drop 4 else cs

/-- The first group of `(fence)(?:json)?\s*([\s\S]*?)(fence)` -/
def fenced : List Char → Option (List Char)
  | [] => none
  | c :: cs =>
    if ticks.isPrefixOf (c :: cs) then
      (upToFence ((dropJson ((c :: cs).drop 3)).dropWhile isJsSpace)).or (fenced cs)
    else fenced cs

/-- The loop of `firstBalanced`, from a place inside the text on. -/
def balanced (opening closing : Char) : Nat → Bool → Bool → List Char → Option (List Char)
  | _, _, _, [] => none
  | depth, inString, true, c :: cs =>
    (balanced opening closing depth inString false cs).map (c :: ·)
  | depth, inString, false, c :: cs =>
    if c = '\\' then (balanced opening closing depth inString true cs).map (c :: ·)
    else if c = '"' then (balanced opening closing depth (!inString) false cs).map (c :: ·)
    else if inString then (balanced opening closing depth inString false cs).map (c :: ·)
    else if c = opening then
      (balanced opening closing (depth + 1) inString false cs).map (c :: ·)
    else if c = closing then
      if depth - 1 = 0 then some [c]
      else (balanced opening closing (depth - 1) inString false cs).map (c :: ·)
    else (balanced opening closing depth inString false cs).map (c :: ·)

def firstBalanced (s : List Char) (opening closing : Char) : Option (List Char) :=
  balanced opening closing 0 false false (s.dropWhile (· ≠ opening))

def candidates (completion : List Char) : List (Option (List Char)) :=
  [fenced completion, some completion, firstBalanced completion '\x7b' '\x7d',
    firstBalanced completion '[' ']']

/-- A candidate that is JSON. -/
def attempt (candidate : Option (List Char)) : Option Json :=
  candidate.bind fun c => if trimText c = [] then none else parse (trimText c)

def extractJson (completion : List Char) : Json :=
  ((candidates completion).findSome? attempt).getD .null

structure Judgement where
  id : String
  ok : Option Bool
  why : String

section Judge

variable (js : Js)

/-- `k in parsed` -/
def hasKey (fields : Fields) (k : String) : Bool :=
  (Fields.get? fields k).isSome || (js.inherited k).isSome

/-- How the `json` rule judges a value. -/
def judgeParsed (id : String) (requireKeys : Option (List String)) (parsed : Json) : Judgement :=
  match parsed with
  | .null => ⟨id, some false, "no parseable JSON in the completion"⟩
  | parsed =>
    let keys := requireKeys.getD []
    if keys = [] then ⟨id, some true, "parsed as JSON"⟩
    else
      match parsed with
      | .obj fields =>
        let missing := keys.filter fun k => !hasKey js fields k
        if missing = [] then ⟨id, some true, "parsed with every required key"⟩
        else ⟨id, some false, "missing keys " ++ (Json.arr (missing.map .str)).stringify js⟩
      | _ => ⟨id, some false, "JSON parsed but is not an object, so it has no keys"⟩

/-- `scoreItem`, for an item with the `json` rule -/
def scoreItem (id : String) (requireKeys : Option (List String)) (completion : List Char) :
    Judgement :=
  judgeParsed js id requireKeys (extractJson completion)

end Judge

/-! ## What is found -/

/-- The value is found in the text, and it is what is judged. -/
structure Found (js : Js) (v : Json) (text : List Char) : Prop where
  extracted : extractJson text = v
  judged : ∀ id requireKeys, scoreItem js id requireKeys text = judgeParsed js id requireKeys v

/-- A value, and what the model says around it. -/
structure Answer (js : Js) where
  value : Json
  before : List Char
  behind : List Char
  container : isContainer value = true
  writable : Writable js value
  prose : ∀ c ∈ before ++ behind, IsProse c ∧ c ≠ '\x60'

variable {js : Js}

namespace Answer

def text (a : Answer js) : List Char := a.before ++ a.value.chars js ++ a.behind

/-- The same text inside a fence. -/
def fencedText (a : Answer js) : List Char :=
  ticks ++ "json\n".toList ++ a.text ++ '\n' :: ticks

/-- There is nothing but white space around the value. -/
def Bare (a : Answer js) : Prop :=
  a.before.all isJsSpace = true ∧ a.behind.all isJsSpace = true

/-- At the first brace of the value's text there is JSON. -/
def BracesParse (a : Answer js) : Prop :=
  ∃ us tail ws x, a.value.chars js = us ++ ('\x7b' :: tail ++ ws) ∧ '\x7b' ∉ us ∧
    parse ('\x7b' :: tail) = some x

/-- The value's own strings have a fence around JSON; there is no other place for one. -/
def FenceParses (a : Answer js) : Prop := (attempt (fenced a.text)).isSome

end Answer

/-! ## The whole text -/

theorem not_space_of_opens {c : Char} {b : Bool} (h : Opens c b) : isJsSpace c = false := by
  rcases h with ⟨rfl, -⟩ | ⟨rfl, -⟩ <;> rfl

theorem isJsSpace_of_isJsonSpace {c : Char} (h : isJsonSpace c = true) : isJsSpace c = true := by
  simp only [isJsonSpace, Bool.or_eq_true, decide_eq_true_eq] at h
  rcases h with ((rfl | rfl) | rfl) | rfl <;> rfl

theorem dropWhile_append_of_not {p : Char → Bool} {c : Char} (hc : p c = false)
    (us cs : List Char) : (us ++ c :: cs).dropWhile p = us.dropWhile p ++ c :: cs := by
  rw [List.dropWhile_append]
  split
  · next hnil =>
    rw [List.isEmpty_iff.mp hnil, List.dropWhile_cons, if_neg (by simp [hc])]
    rfl
  · rfl

theorem rdropWhile_append_of_not {p : Char → Bool} {c : Char} (hc : p c = false)
    (cs ws : List Char) : (cs ++ c :: ws).rdropWhile p = cs ++ c :: ws.rdropWhile p := by
  rw [List.rdropWhile, List.reverse_append, List.reverse_cons, List.append_assoc,
    List.singleton_append, dropWhile_append_of_not hc, List.rdropWhile]
  simp

section Whole

variable {v : Json} (hw : Writable js v) (hv : isContainer v = true)

include hv

theorem trimText_around (us ws : List Char) : trimText (us ++ v.chars js ++ ws) =
    us.dropWhile isJsSpace ++ (v.chars js ++ ws.rdropWhile isJsSpace) := by
  obtain ⟨c, cs, hopen, hc⟩ := chars_opens js hv
  obtain ⟨ds, d, hclose, hd⟩ := chars_closes js hv
  have hspace : isJsSpace d = false := by
    rcases hd with rfl | rfl <;> rfl
  have hleft : (us ++ v.chars js ++ ws).dropWhile isJsSpace =
      us.dropWhile isJsSpace ++ (v.chars js ++ ws) := by
    rw [hopen, List.append_assoc, List.cons_append, dropWhile_append_of_not (not_space_of_opens hc)]
  rw [trimText, hleft, hclose, ← List.append_assoc, ← List.append_assoc, List.append_assoc _ [d],
    List.singleton_append, rdropWhile_append_of_not hspace]
  simp

include hw

/-- The text with prose around the value is JSON only when the prose is blank. -/
theorem attempt_whole {us : List Char} (hus : ∀ c ∈ us, IsProse c) (ws : List Char) :
    attempt (some (us ++ v.chars js ++ ws)) =
      if us.all isJsSpace ∧ ws.all isJsSpace then some v else none := by
  obtain ⟨c, cs, hopen, hc⟩ := chars_opens js hv
  have hne : trimText (us ++ v.chars js ++ ws) ≠ [] := by
    rw [trimText_around hv, hopen]
    simp
  rw [attempt, Option.bind_some, if_neg hne, trimText_around hv]
  cases hleft : us.dropWhile isJsSpace with
  | nil =>
    have hblank : us.all isJsSpace = true :=
      List.all_eq_true.mpr (List.dropWhile_eq_nil_iff.mp hleft)
    rw [List.nil_append, parse, run_container hw hv]
    cases hright : ws.rdropWhile isJsSpace with
    | nil =>
      have hblank' : ws.all isJsSpace = true :=
        List.all_eq_true.mpr (List.rdropWhile_eq_nil_iff.mp hright)
      rw [if_pos ⟨hblank, hblank'⟩]
      rfl
    | cons d ds =>
      have hsaid : ws.rdropWhile isJsSpace ≠ [] := by simp [hright]
      have hlast := List.rdropWhile_last_not isJsSpace ws hsaid
      have hnot : ¬ ws.all isJsSpace = true := fun hall => hlast
        (List.all_eq_true.mp hall _ ((List.rdropWhile_prefix isJsSpace _).subset
          (List.getLast_mem hsaid)))
      rw [if_neg fun h => hnot h.2, ← hright]
      cases hrun : run ⟨[], .done v⟩ (ws.rdropWhile isJsSpace) with
      | none => rfl
      | some t =>
        exact absurd (isJsSpace_of_isJsonSpace ((run_done hrun).2 _ (List.getLast_mem hsaid))) hlast
  | cons d ds =>
    have hd : isJsSpace d = false := by
      have hhead := List.head?_dropWhile_not isJsSpace us
      rw [hleft] at hhead
      simpa using hhead
    have hnot : ¬ us.all isJsSpace = true := fun hall => by
      rw [List.dropWhile_eq_nil_iff.mpr (List.all_eq_true.mp hall)] at hleft
      cases hleft
    have hprose : ∀ e ∈ d :: ds, IsProse e := fun e he =>
      hus e ((List.dropWhile_suffix isJsSpace).subset (hleft ▸ he))
    have hjson : isJsonSpace d = false := by
      by_contra hspace
      rw [Bool.not_eq_false] at hspace
      rw [isJsSpace_of_isJsonSpace hspace] at hd
      cases hd
    have hnone := run_prose hprose rfl hjson hc (cs ++ ws.rdropWhile isJsSpace)
    rw [if_neg fun h => hnot h.1, hopen, parse]
    exact congrArg (Option.bind · finish) hnone

end Whole

/-! ## Balanced spans -/

/-- The brackets of a span. -/
def Pair (o e : Char) : Prop := (o = '\x7b' ∧ e = '\x7d') ∨ (o = '[' ∧ e = ']')

/-- The scan goes through the text and is at the depth at which it came. -/
def Neutral (o e : Char) (cs : List Char) : Prop :=
  ∀ depth, 1 ≤ depth → ∀ rest, balanced o e depth false false (cs ++ rest) =
    (balanced o e depth false false rest).map (cs ++ ·)

section Scan

variable {o e : Char}

theorem neutral_nil : Neutral o e [] := fun _ _ rest => by simp

theorem Neutral.append {cs ds : List Char} (hcs : Neutral o e cs) (hds : Neutral o e ds) :
    Neutral o e (cs ++ ds) := fun depth hdepth rest => by
  rw [List.append_assoc, hcs depth hdepth, hds depth hdepth, Option.map_map]
  congr 1
  funext x
  simp

theorem neutral_char {c : Char} (hback : c ≠ '\\') (hquote : c ≠ '"') (ho : c ≠ o) (he : c ≠ e) :
    Neutral o e [c] := fun depth _ rest => by
  rw [List.singleton_append, balanced, if_neg hback, if_neg hquote, if_neg (by decide), if_neg ho,
    if_neg he]
  rfl

theorem neutral_chars {cs : List Char}
    (h : ∀ c ∈ cs, c ≠ '\\' ∧ c ≠ '"' ∧ c ≠ o ∧ c ≠ e) : Neutral o e cs := by
  induction cs with
  | nil => exact neutral_nil
  | cons c cs ih =>
    obtain ⟨hback, hquote, ho, he⟩ := h c List.mem_cons_self
    exact (neutral_char hback hquote ho he).append
      (ih fun d hd => h d (List.mem_cons_of_mem c hd))

theorem Pair.plain (h : Pair o e) {c : Char} (hc : c ∉ ['\x7b', '\x7d', '[', ']']) :
    c ≠ o ∧ c ≠ e := by
  rcases h with ⟨rfl, rfl⟩ | ⟨rfl, rfl⟩ <;>
    exact ⟨by rintro rfl; simp at hc, by rintro rfl; simp at hc⟩

theorem Pair.ne (h : Pair o e) : o ≠ '\\' ∧ o ≠ '"' ∧ e ≠ '\\' ∧ e ≠ '"' ∧ e ≠ o := by
  rcases h with ⟨rfl, rfl⟩ | ⟨rfl, rfl⟩ <;> decide

/-- What is between a bracket and its partner. -/
theorem Neutral.wrap (hpair : Pair o e) {cs : List Char} (h : Neutral o e cs) (depth : Nat)
    (rest : List Char) : balanced o e depth false false (o :: (cs ++ e :: rest)) =
      if depth = 0 then some (o :: (cs ++ [e]))
      else (balanced o e depth false false rest).map (o :: (cs ++ [e]) ++ ·) := by
  obtain ⟨hback, hquote, hback', hquote', hne⟩ := hpair.ne
  rw [balanced, if_neg hback, if_neg hquote, if_neg (by decide), if_pos rfl,
    h (depth + 1) (Nat.le_add_left 1 depth), balanced, if_neg hback', if_neg hquote',
    if_neg (by decide), if_neg hne, if_pos rfl, Nat.add_sub_cancel]
  split
  · rfl
  · rw [Option.map_map, Option.map_map]
    congr 1
    funext x
    simp

theorem neutral_wrap (hpair : Pair o e) {cs : List Char} (h : Neutral o e cs) :
    Neutral o e (o :: (cs ++ [e])) := fun depth hdepth rest => by
  have hscan := h.wrap hpair depth rest
  rw [if_neg (by omega)] at hscan
  rw [← hscan]
  simp

theorem balanced_inside_char {c : Char} (hback : c ≠ '\\') (hquote : c ≠ '"') (depth : Nat)
    (rest : List Char) : balanced o e depth true false (c :: rest) =
      (balanced o e depth true false rest).map ([c] ++ ·) := by
  rw [balanced, if_neg hback, if_neg hquote, if_pos rfl]
  rfl

theorem balanced_inside_escape (c : Char) (depth : Nat) (rest : List Char) :
    balanced o e depth true false ('\\' :: c :: rest) =
      (balanced o e depth true false rest).map (['\\', c] ++ ·) := by
  rw [balanced, if_pos rfl, balanced, Option.map_map]
  rfl

theorem balanced_inside_escapeChar (c : Char) (depth : Nat) (rest : List Char) :
    balanced o e depth true false (escapeChar c ++ rest) =
      (balanced o e depth true false rest).map (escapeChar c ++ ·) := by
  unfold escapeChar
  split
  · exact balanced_inside_escape _ _ _
  · exact balanced_inside_escape _ _ _
  · exact balanced_inside_escape _ _ _
  · exact balanced_inside_escape _ _ _
  · exact balanced_inside_escape _ _ _
  · next hquote hback _ _ _ =>
    split
    · exact balanced_inside_escape _ _ _
    · split
      · exact balanced_inside_escape _ _ _
      · split
        · next hcontrol =>
          obtain ⟨hback1, hquote1, -⟩ := hexDigit_plain (show c.toNat / 16 < 16 by omega)
          obtain ⟨hback2, hquote2, -⟩ := hexDigit_plain (show c.toNat % 16 < 16 by omega)
          change balanced o e depth true false ('\\' :: 'u' :: '0' :: '0' ::
            hexDigit (c.toNat / 16) :: hexDigit (c.toNat % 16) :: rest) = _
          rw [balanced_inside_escape, balanced_inside_char (by decide) (by decide),
            balanced_inside_char (by decide) (by decide), balanced_inside_char hback1 hquote1,
            balanced_inside_char hback2 hquote2]
          simp only [Option.map_map]
          rfl
        · exact balanced_inside_char hback hquote depth rest

/-- A scan inside a string goes on to the closing quote. -/
theorem balanced_inside (depth : Nat) (s : List Char) (rest : List Char) :
    balanced o e depth true false (s.flatMap escapeChar ++ '"' :: rest) =
      (balanced o e depth false false rest).map (s.flatMap escapeChar ++ ['"'] ++ ·) := by
  induction s with
  | nil =>
    rw [List.flatMap_nil, List.nil_append, balanced, if_neg (by decide), if_pos rfl]
    rfl
  | cons c s ih =>
    rw [List.flatMap_cons, List.append_assoc, balanced_inside_escapeChar, ih, Option.map_map]
    congr 1
    funext x
    simp

theorem neutral_quoted (s : String) : Neutral o e (quoted s) := fun depth _ rest => by
  have htext : quoted s ++ rest = '"' :: (s.toList.flatMap escapeChar ++ '"' :: rest) := by
    simp [quoted]
  rw [htext, balanced, if_neg (by decide), if_pos rfl, Bool.not_false, balanced_inside,
    Option.map_map, quoted]
  rfl

theorem neutral_mark (hpair : Pair o e) {c : Char} (hc : c ∈ [',', ':']) : Neutral o e [c] := by
  have hmark : c ≠ '\\' ∧ c ≠ '"' ∧ c ∉ ['\x7b', '\x7d', '[', ']'] := by
    simp only [List.mem_cons, List.not_mem_nil, or_false] at hc
    rcases hc with rfl | rfl <;> decide
  exact neutral_char hmark.1 hmark.2.1 (hpair.plain hmark.2.2).1 (hpair.plain hmark.2.2).2

theorem neutral_word (hpair : Pair o e) {cs : List Char} (h : ∀ c ∈ cs, isWordText c = true) :
    Neutral o e cs := by
  refine neutral_chars fun c hc => ?_
  obtain ⟨-, hclose, hquote, hbracket, hbrace, hbrace', -, hback, -⟩ :=
    not_mark_of_isWordText (h c hc)
  obtain ⟨ho, he⟩ := hpair.plain (c := c) (by simp [hclose, hbracket, hbrace, hbrace'])
  exact ⟨hback, hquote, ho, he⟩

/-- What is printed of a value is neutral between the brackets around it. -/
theorem neutral_composable (hpair : Pair o e) : Composable (Neutral o e) where
  nil := neutral_nil
  append := Neutral.append
  word := neutral_word hpair
  quoted := neutral_quoted
  mark _ := neutral_mark hpair
  arr h := by
    rcases hpair with ⟨rfl, rfl⟩ | ⟨rfl, rfl⟩
    · exact (neutral_char (c := '[') (by decide) (by decide) (by decide) (by decide)).append
        (h.append (neutral_char (by decide) (by decide) (by decide) (by decide)))
    · exact neutral_wrap (.inr ⟨rfl, rfl⟩) h
  obj h := by
    rcases hpair with ⟨rfl, rfl⟩ | ⟨rfl, rfl⟩
    · exact neutral_wrap (.inl ⟨rfl, rfl⟩) h
    · exact (neutral_char (c := '\x7b') (by decide) (by decide) (by decide) (by decide)).append
        (h.append (neutral_char (by decide) (by decide) (by decide) (by decide)))

theorem balanced_none {ws : List Char} (he : e ∉ ws) (depth : Nat) (inString escaped : Bool) :
    balanced o e depth inString escaped ws = none := by
  induction ws generalizing depth inString escaped with
  | nil => cases escaped <;> rfl
  | cons c ws ih =>
    rw [List.mem_cons, not_or] at he
    have hgo : ∀ d i esc, (balanced o e d i esc ws).map (c :: ·) = none := fun d i esc => by
      rw [ih he.2]
      rfl
    cases escaped with
    | true => exact hgo _ _ _
    | false => simp only [balanced, hgo, Ne.symm he.1, if_false, ite_self]

/-- Text that closes nothing makes no difference behind another. -/
theorem balanced_append {ws : List Char} (he : e ∉ ws) (cs : List Char) (depth : Nat)
    (inString escaped : Bool) :
    balanced o e depth inString escaped (cs ++ ws) = balanced o e depth inString escaped cs := by
  induction cs generalizing depth inString escaped with
  | nil =>
    rw [List.nil_append, balanced_none he]
    cases escaped <;> rfl
  | cons c cs ih => cases escaped <;> simp only [List.cons_append, balanced, ih]

theorem firstBalanced_around {us ws : List Char} (hus : o ∉ us) (hws : o ∉ ws) (he : e ∉ ws)
    (cs : List Char) : firstBalanced (us ++ cs ++ ws) o e = firstBalanced cs o e := by
  have hskip : ∀ {xs : List Char}, o ∉ xs → ∀ ys : List Char,
      (xs ++ ys).dropWhile (· ≠ o) = ys.dropWhile (· ≠ o) := fun hxs _ =>
    List.dropWhile_append_of_pos fun c hc => by simpa using ne_of_mem_of_not_mem hc hxs
  have hnone : ws.dropWhile (· ≠ o) = [] := by
    have hnil := hskip hws []
    rwa [List.append_nil] at hnil
  rw [firstBalanced, firstBalanced, List.append_assoc, hskip hus, List.dropWhile_append]
  split
  · next hempty => rw [hnone, List.isEmpty_iff.mp hempty]
  · exact balanced_append he _ _ _ _

/-- The value's own brackets are balanced where they close, and not before. -/
theorem firstBalanced_own {v : Json} (h : Writable js v) (hv : isContainer v = true)
    (hkind : Opens o (isObj v)) (hpair : Pair o e) :
    firstBalanced (v.chars js) o e = some (v.chars js) := by
  obtain ⟨inner, htext, hinner⟩ :
      ∃ inner, v.chars js = o :: (inner ++ [e]) ∧ Neutral o e inner := by
    cases h with
    | arr elems =>
      rcases hkind with ⟨rfl, -⟩ | ⟨-, h⟩
      · rcases hpair with ⟨h, -⟩ | ⟨-, rfl⟩
        · exact absurd h (by decide)
        · have hneutral := neutral_composable (.inr ⟨rfl, rfl⟩)
          exact ⟨_, rfl, hneutral.elems fun x hx => hneutral.json (elems x hx)⟩
      · cases h
    | obj _ values =>
      rcases hkind with ⟨-, h⟩ | ⟨rfl, -⟩
      · cases h
      · rcases hpair with ⟨-, rfl⟩ | ⟨h, -⟩
        · have hneutral := neutral_composable (.inl ⟨rfl, rfl⟩)
          exact ⟨_, rfl, hneutral.fields fun p hp => hneutral.json (values p hp)⟩
        · exact absurd h (by decide)
    | _ => cases hv
  have hscan := hinner.wrap hpair 0 []
  rw [if_pos rfl] at hscan
  rw [htext, firstBalanced, List.dropWhile_cons, if_neg (by simp), hscan]

/-- A span starts where the scan does, and goes on as the scan does. -/
theorem balanced_some {c : Char} {cs span : List Char} {depth : Nat} {inString escaped : Bool}
    (h : balanced o e depth inString escaped (c :: cs) = some span) :
    ∃ tail, span = c :: tail ∧
      (tail = [] ∨ ∃ d i esc, balanced o e d i esc cs = some tail) := by
  have hgo : ∀ {d i esc}, (balanced o e d i esc cs).map (c :: ·) = some span →
      ∃ tail, span = c :: tail ∧ (tail = [] ∨ ∃ d i esc, balanced o e d i esc cs = some tail) :=
    fun hmap => by
      obtain ⟨tail, htail, rfl⟩ := Option.map_eq_some_iff.mp hmap
      exact ⟨tail, rfl, .inr ⟨_, _, _, htail⟩⟩
  cases escaped with
  | true => exact hgo h
  | false =>
    rw [balanced] at h
    split at h
    · exact hgo h
    · split at h
      · exact hgo h
      · split at h
        · exact hgo h
        · split at h
          · exact hgo h
          · split at h
            · split at h
              · exact ⟨[], (Option.some.inj h).symm, .inl rfl⟩
              · exact hgo h
            · exact hgo h

theorem balanced_prefix {cs span : List Char} {depth : Nat} {inString escaped : Bool}
    (h : balanced o e depth inString escaped cs = some span) : span <+: cs := by
  induction cs generalizing depth inString escaped span with
  | nil => cases escaped <;> cases h
  | cons c cs ih =>
    obtain ⟨tail, rfl, rfl | ⟨d, i, esc, htail⟩⟩ := balanced_some h
    · exact ⟨cs, rfl⟩
    · exact List.cons_prefix_cons.mpr ⟨rfl, ih htail⟩

theorem firstBalanced_prefix {cs span : List Char} (h : firstBalanced cs o e = some span) :
    ∃ us tail ws, cs = us ++ (o :: tail ++ ws) ∧ o ∉ us ∧ span = o :: tail := by
  obtain ⟨ws, hws⟩ := balanced_prefix h
  cases hdrop : cs.dropWhile (· ≠ o) with
  | nil =>
    rw [firstBalanced, hdrop] at h
    cases h
  | cons c rest =>
    have hc : c = o := by
      have hhead := List.head?_dropWhile_not (fun d => decide (d ≠ o)) cs
      rw [hdrop] at hhead
      simpa using hhead
    rw [firstBalanced, hdrop, hc] at h
    obtain ⟨tail, rfl, -⟩ := balanced_some h
    have htake : o ∉ cs.takeWhile (· ≠ o) := fun hmem => by
      have hne := List.mem_takeWhile_imp hmem
      simp at hne
    exact ⟨cs.takeWhile (· ≠ o), tail, ws, by rw [hws, List.takeWhile_append_dropWhile], htake, rfl⟩

theorem trimText_opens {b : Bool} (hkind : Opens o b) (tail : List Char) :
    trimText (o :: tail) = o :: tail.rdropWhile isJsSpace := by
  have hright := rdropWhile_append_of_not (not_space_of_opens hkind) [] tail
  rw [trimText, List.dropWhile_cons, if_neg (by simp [not_space_of_opens hkind])]
  exact hright

theorem attempt_opens {b : Bool} (hkind : Opens o b) (tail : List Char) :
    attempt (some (o :: tail)) = parse (o :: tail.rdropWhile isJsSpace) := by
  rw [attempt, Option.bind_some, trimText_opens hkind, if_neg (List.cons_ne_nil _ _)]

/-- What balanced brackets are parsed as is of their kind. -/
theorem isObj_of_balanced {b : Bool} (hkind : Opens o b) {cs : List Char} {x : Json}
    (h : attempt (firstBalanced cs o e) = some x) : isObj x = b := by
  cases hspan : firstBalanced cs o e with
  | none =>
    rw [hspan] at h
    cases h
  | some span =>
    obtain ⟨_, tail, _, -, -, rfl⟩ := firstBalanced_prefix hspan
    rw [hspan, attempt_opens hkind] at h
    exact (parse_opens hkind h).2

end Scan

/-! ## Braces that are JSON -/

/-- How many objects are open. -/
def braces : List Frame → Nat
  | [] => 0
  | .arr _ :: st => braces st
  | _ :: st => braces st + 1

/-- The scan for braces, at the place where a reader is. -/
def scan (s : State) (cs : List Char) : Option (List Char) :=
  balanced '\x7b' '\x7d' (braces s.stack) s.mode.inString s.mode.isEscape cs

theorem braces_pos {st : List Frame} (h : rootKind st = some true) : 0 < braces st := by
  induction st with
  | nil => cases h
  | cons frame st ih =>
    cases frame with
    | arr xs =>
      cases st with
      | nil => cases h
      | cons f st => exact ih h
    | _ => exact Nat.succ_pos _

theorem braces_give (v : Json) (st : List Frame) : braces (give v st).stack = braces st := by
  cases st with
  | nil => rfl
  | cons frame st => cases frame <;> rfl

theorem braces_giveString (k : String) (st : List Frame) :
    braces (giveString k st).stack = braces st := by
  unfold giveString
  split
  · rfl
  · exact braces_give _ _

theorem rootKind_give {b : Bool} {st : List Frame} (h : rootKind st = some b) (v : Json) :
    rootKind (give v st).stack = some b := by
  rcases rooted_give h v with hkind | ⟨x, hx, -⟩
  · exact hkind
  · cases st with
    | nil => cases h
    | cons frame st => cases frame <;> cases hx

theorem rootKind_giveString {b : Bool} {st : List Frame} (h : rootKind st = some b) (k : String) :
    rootKind (giveString k st).stack = some b := by
  unfold giveString
  split
  · exact rootKind_head h rfl
  · exact rootKind_give h _

theorem isEscape_of_outside {m : Mode} (h : m.inString = false) : m.isEscape = false := by
  cases m with
  | escape => cases h
  | _ => rfl

section Simulation

variable {s t : State} {c : Char}

/-- A character that is no mark of the scan. -/
theorem scan_plain (houtside : s.mode.inString = false) (houtside' : t.mode.inString = false)
    (hbraces : braces t.stack = braces s.stack) (hc : c ∉ ['\\', '"', '\x7b', '\x7d'])
    (rest : List Char) : scan s (c :: rest) = (scan t rest).map (c :: ·) := by
  simp only [List.mem_cons, List.not_mem_nil, or_false, not_or] at hc
  obtain ⟨hback, hquote, hopen, hclose⟩ := hc
  rw [scan, scan, houtside, houtside', isEscape_of_outside houtside,
    isEscape_of_outside houtside', hbraces, balanced, if_neg hback, if_neg hquote,
    if_neg (by decide), if_neg hopen, if_neg hclose]

theorem scan_inside (hinside : s.mode.inString = true) (hplain : s.mode.isEscape = false)
    (hinside' : t.mode.inString = true) (hplain' : t.mode.isEscape = false)
    (hbraces : braces t.stack = braces s.stack) (hback : c ≠ '\\') (hquote : c ≠ '"')
    (rest : List Char) : scan s (c :: rest) = (scan t rest).map (c :: ·) := by
  rw [scan, scan, hinside, hplain, hinside', hplain', hbraces, balanced, if_neg hback,
    if_neg hquote, if_pos rfl]

/-- The scan goes with the reader, and ends where the object does. -/
def Scans (c : Char) (s t : State) : Prop :=
  ((∃ x, t = ⟨[], .done x⟩) ∧ c = '\x7d' ∧ ∀ rest, scan s (c :: rest) = some [c]) ∨
    (rootKind t.stack = some true ∧ ∀ rest, scan s (c :: rest) = (scan t rest).map (c :: ·))

theorem Moved.scans (h : Moved c s t) (hroot : rootKind s.stack = some true) : Scans c s t := by
  induction h with
  | same space outside =>
    have hc : c ∉ ['\\', '"', '\x7b', '\x7d'] := fun hmem => by
      simp only [List.mem_cons, List.not_mem_nil, or_false] at hmem
      rcases hmem with rfl | rfl | rfl | rfl <;> cases space
    exact .inr ⟨hroot, scan_plain outside outside rfl hc⟩
  | expects going mark plain =>
    have hc : c ∉ ['\\', '"', '\x7b', '\x7d'] := by
      rcases mark with ⟨rfl, -⟩ | ⟨rfl, -⟩ <;> decide
    refine .inr ⟨hroot, scan_plain going.2 ?_ rfl hc⟩
    rcases plain with rfl | rfl <;> rfl
  | opensArr going mark =>
    exact .inr ⟨rootKind_push hroot _, scan_plain going.2 rfl rfl (by rw [mark]; decide)⟩
  | opensObj going mark =>
    refine .inr ⟨rootKind_push hroot _, fun rest => ?_⟩
    rw [scan, going.2, isEscape_of_outside going.2, mark, balanced, if_neg (by decide),
      if_neg (by decide), if_neg (by decide), if_pos rfl]
    rfl
  | @closesArr s xs st going mark top =>
    rw [top] at hroot
    have hst : rootKind st = some true := by
      cases st with
      | nil => cases hroot
      | cons frame st => exact hroot
    have hbraces : braces (give (.arr xs) st).stack = braces s.stack := by
      rw [braces_give, top]
      rfl
    exact .inr ⟨rootKind_give hst _,
      scan_plain going.2 (sound_give _ _).1 hbraces (by rw [mark]; decide)⟩
  | @closesObj s fs st going mark top =>
    rw [top] at hroot
    have hscan : ∀ rest, scan s (c :: rest) = if braces st = 0 then some [c]
        else (scan (give (.obj fs) st) rest).map (c :: ·) := fun rest => by
      rw [scan, scan, going.2, isEscape_of_outside going.2, (sound_give _ _).1,
        isEscape_of_outside (sound_give _ _).1, braces_give, top, mark, balanced,
        if_neg (by decide), if_neg (by decide), if_neg (by decide), if_neg (by decide), if_pos rfl]
      rfl
    cases st with
    | nil => exact .inl ⟨⟨_, rfl⟩, mark, hscan⟩
    | cons frame st =>
      have hkind : rootKind (frame :: st) = some true := hroot
      refine .inr ⟨rootKind_give hkind _, fun rest => ?_⟩
      rw [hscan, if_neg (braces_pos hkind).ne']
  | word acc going text =>
    obtain ⟨-, -, hquote, -, hbrace, hbrace', -, hback, -⟩ := not_mark_of_isWordText text
    exact .inr ⟨hroot, scan_plain going.2 rfl rfl (by simp [hquote, hbrace, hbrace', hback])⟩
  | @wordEnds s t acc v mode _ _ ih =>
    have hgive : ∀ cs, scan (give v s.stack) cs = scan s cs := fun cs => by
      rw [scan, scan, (sound_give _ _).1, isEscape_of_outside (sound_give _ _).1, braces_give, mode]
      rfl
    have hscans := ih (rootKind_give hroot v)
    simp only [Scans, hgive] at hscans
    exact hscans
  | quote going mark =>
    refine .inr ⟨hroot, fun rest => ?_⟩
    rw [scan, going.2, isEscape_of_outside going.2, mark, balanced, if_neg (by decide), if_pos rfl]
    rfl
  | @strGoes s acc mode mark plain =>
    exact .inr ⟨hroot, scan_inside (by rw [mode]; rfl) (by rw [mode]; rfl) rfl rfl rfl plain mark⟩
  | @strEnds s acc mode mark =>
    have hin : s.mode.inString = true ∧ s.mode.isEscape = false := by
      rw [mode]
      exact ⟨rfl, rfl⟩
    refine .inr ⟨rootKind_giveString hroot _, fun rest => ?_⟩
    rw [scan, scan, inString_giveString, isEscape_of_outside (inString_giveString _ _),
      braces_giveString, hin.1, hin.2, mark, balanced, if_neg (by decide), if_pos rfl]
    rfl
  | @escapes s acc mode mark =>
    have hin : s.mode.inString = true ∧ s.mode.isEscape = false := by
      rw [mode]
      exact ⟨rfl, rfl⟩
    refine .inr ⟨hroot, fun rest => ?_⟩
    rw [scan, hin.1, hin.2, mark, balanced, if_pos rfl]
    rfl
  | @escaped s m acc mode inside plain =>
    refine .inr ⟨hroot, fun rest => ?_⟩
    rw [scan, scan, mode, inside, plain, Mode.inString, Mode.isEscape, balanced]
  | @digit s m acc digits mode mark inside plain =>
    exact .inr ⟨hroot, scan_inside (by rw [mode]; rfl) (by rw [mode]; rfl) inside plain rfl mark.2
      mark.1⟩

/-- The scan finds the object that is read, and nothing of what is behind it. -/
theorem scan_run {cs : List Char} {x : Json} (hroot : rootKind s.stack = some true)
    (hsound : s.Sound) (hrun : run s cs = some ⟨[], .done x⟩) : ∃ front,
      run s (front ++ ['\x7d']) = some ⟨[], .done x⟩ ∧
      ∀ rest, scan s (cs ++ rest) = some (front ++ ['\x7d']) := by
  induction cs generalizing s with
  | nil =>
    rw [Option.some.inj hrun] at hroot
    cases hroot
  | cons c cs ih =>
    rw [run_cons] at hrun
    obtain ⟨t, hstep, hrest⟩ := Option.bind_eq_some_iff.mp hrun
    have hmoved := moved_of_step hsound hstep
    rcases Moved.scans hmoved hroot with ⟨⟨y, rfl⟩, rfl, hscan⟩ | ⟨hkind, hscan⟩
    · refine ⟨[], ?_, fun rest => hscan _⟩
      rw [List.nil_append, run_step hstep, ← (run_done hrest).1]
      rfl
    · obtain ⟨front, hfront, hfound⟩ := ih hkind (hmoved.sound hsound) hrest
      refine ⟨c :: front, ?_, fun rest => ?_⟩
      · rw [List.cons_append, run_step hstep, hfront]
      · rw [List.cons_append, hscan, hfound]
        rfl

end Simulation

/-- Braces are found that are JSON where there is JSON at the first brace. -/
theorem attempt_firstBalanced_iff (cs : List Char) :
    (∃ us tail ws x, cs = us ++ ('\x7b' :: tail ++ ws) ∧ '\x7b' ∉ us ∧
      parse ('\x7b' :: tail) = some x) ↔
    (attempt (firstBalanced cs '\x7b' '\x7d')).isSome = true := by
  have hopens : Opens '\x7b' true := .inr ⟨rfl, rfl⟩
  constructor
  · rintro ⟨us, tail, ws, x, rfl, hus, hparse⟩
    have hread := (parse_opens hopens hparse).1
    rw [run_step (t := ⟨[.obj []], .keyFirst⟩) rfl] at hread
    obtain ⟨front, hfront, hfound⟩ := scan_run rfl (fun h => by cases h) hread
    have hspan : firstBalanced (us ++ ('\x7b' :: tail ++ ws)) '\x7b' '\x7d' =
        some ('\x7b' :: (front ++ ['\x7d'])) := by
      have hskip : (us ++ ('\x7b' :: tail ++ ws)).dropWhile (· ≠ '\x7b') =
          '\x7b' :: (tail ++ ws) := by
        rw [List.dropWhile_append_of_pos fun c hc => by simpa using ne_of_mem_of_not_mem hc hus]
        rfl
      have hfirst : ∀ cs, balanced '\x7b' '\x7d' 0 false false ('\x7b' :: cs) =
          (scan ⟨[.obj []], .keyFirst⟩ cs).map ('\x7b' :: ·) := fun cs => rfl
      rw [firstBalanced, hskip, hfirst, hfound]
      rfl
    have hend : (front ++ ['\x7d']).rdropWhile isJsSpace = front ++ ['\x7d'] :=
      rdropWhile_append_of_not rfl front []
    rw [hspan, attempt_opens hopens, hend, parse, run_step (t := ⟨[.obj []], .keyFirst⟩) rfl,
      hfront]
    rfl
  · intro h
    obtain ⟨x, hx⟩ := Option.isSome_iff_exists.mp h
    cases hspan : firstBalanced cs '\x7b' '\x7d' with
    | none =>
      rw [hspan] at hx
      cases hx
    | some span =>
      obtain ⟨us, tail, ws, rfl, hus, rfl⟩ := firstBalanced_prefix hspan
      rw [hspan, attempt_opens hopens] at hx
      obtain ⟨more, hmore⟩ := List.rdropWhile_prefix isJsSpace tail
      refine ⟨us, tail.rdropWhile isJsSpace, more ++ ws, x, ?_, hus, hx⟩
      rw [List.cons_append, List.cons_append, ← List.append_assoc _ more, hmore]

/-! ## Fences -/

theorem ticks_isPrefixOf_append {cs : List Char} (h : 3 ≤ cs.length) (ds : List Char) :
    ticks.isPrefixOf (cs ++ ds) = ticks.isPrefixOf cs := by
  match cs, h with
  | a :: b :: c :: rest, _ => rfl

theorem upToFence_cons_of_ne {c : Char} (hc : c ≠ '\x60') (cs : List Char) :
    upToFence (c :: cs) = (upToFence cs).map (c :: ·) := by
  have hnot : ticks.isPrefixOf (c :: cs) = false := by
    simp [ticks, List.isPrefixOf, Ne.symm hc]
  rw [upToFence, hnot, if_neg (by decide)]

theorem upToFence_prose {us : List Char} (h : '\x60' ∉ us) (cs : List Char) :
    upToFence (us ++ cs) = (upToFence cs).map (us ++ ·) := by
  induction us with
  | nil => simp
  | cons c us ih =>
    rw [List.mem_cons, not_or] at h
    rw [List.cons_append, upToFence_cons_of_ne (Ne.symm h.1), ih h.2, Option.map_map]
    rfl

/-- The text before the first fence has none, and the fence follows it. -/
theorem upToFence_some {cs front : List Char} (h : upToFence cs = some front) :
    ∃ rest, cs = front ++ (ticks ++ rest) := by
  induction cs generalizing front with
  | nil => cases h
  | cons c cs ih =>
    rw [upToFence] at h
    split at h
    · next hticks =>
      obtain ⟨rest, hrest⟩ := List.isPrefixOf_iff_prefix.mp hticks
      rw [← Option.some.inj h]
      exact ⟨rest, hrest.symm⟩
    · obtain ⟨front', hfront, rfl⟩ := Option.map_eq_some_iff.mp h
      obtain ⟨rest, hrest⟩ := ih hfront
      exact ⟨rest, congrArg (c :: ·) hrest⟩

theorem upToFence_append {cs front : List Char} (h : upToFence cs = some front) (ds : List Char) :
    upToFence (cs ++ ds) = some front := by
  induction cs generalizing front with
  | nil => cases h
  | cons c cs ih =>
    rw [upToFence] at h
    split at h
    · next hticks =>
      obtain ⟨rest, hrest⟩ := List.isPrefixOf_iff_prefix.mp hticks
      have hmore : ticks.isPrefixOf (c :: (cs ++ ds)) = true :=
        List.isPrefixOf_iff_prefix.mpr ⟨rest ++ ds, by rw [← List.append_assoc, hrest]; rfl⟩
      rw [List.cons_append, upToFence, if_pos hmore, Option.some.inj h]
    · next hticks =>
      obtain ⟨front', hfront, rfl⟩ := Option.map_eq_some_iff.mp h
      obtain ⟨rest, hrest⟩ := upToFence_some hfront
      have hlong : 3 ≤ (c :: cs).length := by
        rw [hrest]
        simp only [ticks, List.length_cons, List.length_append]
        omega
      rw [← ticks_isPrefixOf_append hlong ds, List.cons_append] at hticks
      rw [List.cons_append, upToFence, if_neg hticks, ih hfront]
      rfl

/-- A fence cannot begin in a text without one and end behind a character that is no tick. -/
theorem upToFence_none {cs : List Char} (h : upToFence cs = none) {d : Char} (hd : d ≠ '\x60')
    (ds : List Char) : upToFence (cs ++ d :: ds) = (upToFence (d :: ds)).map (cs ++ ·) := by
  induction cs with
  | nil => simp
  | cons c cs ih =>
    rw [upToFence] at h
    split at h
    · cases h
    · next hticks =>
      have hrest := ih (Option.map_eq_none_iff.mp h)
      have hnot : ¬ ticks.isPrefixOf (c :: (cs ++ d :: ds)) = true := by
        intro hmore
        match cs, hticks with
        | [], _ => simp [ticks, List.isPrefixOf, Ne.symm hd] at hmore
        | [b], _ => simp [ticks, List.isPrefixOf, Ne.symm hd] at hmore
        | a :: b :: rest, hticks => exact hticks hmore
      rw [List.cons_append, upToFence, if_neg hnot, hrest, Option.map_map]
      rfl

theorem upToFence_eq_none_iff (cs : List Char) : upToFence cs = none ↔ ¬ ticks <:+: cs := by
  induction cs with
  | nil => exact iff_of_true rfl (by decide)
  | cons c cs ih =>
    rw [upToFence, List.infix_cons_iff, not_or, ← ih, ← List.isPrefixOf_iff_prefix]
    split
    · next h => simp [h]
    · next h => simp [h]

/-- What a fence holds is behind ticks, and before ticks. -/
theorem fenced_some {cs held : List Char} (h : fenced cs = some held) :
    ∃ us body rest, cs = us ++ (ticks ++ body) ∧
      (dropJson body).dropWhile isJsSpace = held ++ (ticks ++ rest) := by
  induction cs with
  | nil => cases h
  | cons c cs ih =>
    have hlater : fenced cs = some held → ∃ us body rest, c :: cs = us ++ (ticks ++ body) ∧
        (dropJson body).dropWhile isJsSpace = held ++ (ticks ++ rest) := fun hmore => by
      obtain ⟨us, body, rest, hcs, hheld⟩ := ih hmore
      exact ⟨c :: us, body, rest, congrArg (c :: ·) hcs, hheld⟩
    rw [fenced] at h
    split at h
    · next hticks =>
      obtain ⟨body, hbody⟩ := List.isPrefixOf_iff_prefix.mp hticks
      rcases Option.or_eq_some_iff.mp h with hfront | ⟨-, hmore⟩
      · rw [← hbody] at hfront
        obtain ⟨rest, hrest⟩ := upToFence_some hfront
        exact ⟨[], body, rest, hbody.symm, hrest⟩
      · exact hlater hmore
    · exact hlater h

theorem dropJson_eq (cs : List Char) :
    ∃ word, cs = word ++ dropJson cs ∧ ∀ c ∈ word, c ≠ '"' ∧ c ≠ '\\' := by
  unfold dropJson
  split
  · next hjson =>
    refine ⟨cs.take 4, (List.take_append_drop 4 cs).symm, fun c hc => ?_⟩
    have hmem : c.toLower ∈ "json".toList := hjson ▸ List.mem_map_of_mem hc
    constructor <;> rintro rfl <;> exact absurd hmem (by decide)
  · exact ⟨[], rfl, by simp⟩

/-- A fence in tidy text opens inside a string. -/
theorem tidy_fenced {cs held : List Char} (htidy : Tidy false false cs)
    (h : fenced cs = some held) : Tidy true false held := by
  obtain ⟨us, body, rest, rfl, hheld⟩ := fenced_some h
  obtain ⟨i, e, hticks⟩ := tidy_behind htidy
  have hbody : Tidy true false body := tidy_tick (tidy_tick (tidy_tick hticks))
  obtain ⟨word, hword, hplain⟩ := dropJson_eq body
  rw [hword] at hbody
  have hjson := tidy_drop hplain hbody
  rw [← List.takeWhile_append_dropWhile (p := isJsSpace) (l := dropJson body), hheld] at hjson
  refine tidy_before (tidy_drop (fun c hc => ?_) hjson)
  have hspace := List.mem_takeWhile_imp hc
  constructor <;> rintro rfl <;> exact absurd hspace (by decide)

theorem tidy_trimText {cs : List Char} (h : Tidy true false cs) :
    Tidy true false (trimText cs) := by
  have hleft : Tidy true false (cs.dropWhile isJsSpace) := by
    rw [← List.takeWhile_append_dropWhile (p := isJsSpace) (l := cs)] at h
    refine tidy_drop (fun c hc => ?_) h
    have hspace := List.mem_takeWhile_imp hc
    constructor <;> rintro rfl <;> exact absurd hspace (by decide)
  obtain ⟨ws, hws⟩ := List.rdropWhile_prefix isJsSpace (cs.dropWhile isJsSpace)
  rw [← hws] at hleft
  exact tidy_before hleft

theorem ticks_of_fenced {cs held : List Char} (h : fenced cs = some held) : '\x60' ∈ cs := by
  obtain ⟨us, body, rest, rfl, -⟩ := fenced_some h
  simp [ticks]

/-! ## The candidates of an answer -/

theorem dropWhile_dropWhile {p : Char → Bool} (cs : List Char) :
    (cs.dropWhile p).dropWhile p = cs.dropWhile p := by
  cases hdrop : cs.dropWhile p with
  | nil => rfl
  | cons c rest =>
    have hhead := List.head?_dropWhile_not p cs
    rw [hdrop] at hhead
    rw [List.dropWhile_cons, if_neg (by simpa using hhead)]

theorem extractJson_eq (text : List Char) :
    extractJson text = ((attempt (fenced text)).or ((attempt (some text)).or
      ((attempt (firstBalanced text '\x7b' '\x7d')).or
        (attempt (firstBalanced text '[' ']'))))).getD .null := by
  simp only [extractJson, candidates, List.findSome?_cons, List.findSome?_nil]
  cases attempt (fenced text) <;> cases attempt (some text) <;>
    cases attempt (firstBalanced text '\x7b' '\x7d') <;>
    cases attempt (firstBalanced text '[' ']') <;> rfl

theorem found_iff_extracted {v : Json} {text : List Char} :
    Found js v text ↔ extractJson text = v :=
  ⟨fun h => h.extracted, fun h => ⟨h, fun id keys => by rw [scoreItem, h]⟩⟩

namespace Answer

variable (a : Answer js)

/-- The braces of the value's text, and its brackets. -/
def spans : Option Json :=
  (attempt (firstBalanced (a.value.chars js) '\x7b' '\x7d')).or
    (attempt (firstBalanced (a.value.chars js) '[' ']'))

theorem before_prose : ∀ c ∈ a.before, IsProse c := fun c hc =>
  (a.prose c (List.mem_append_left _ hc)).1

theorem behind_prose : ∀ c ∈ a.behind, IsProse c := fun c hc =>
  (a.prose c (List.mem_append_right _ hc)).1

theorem before_ticks : '\x60' ∉ a.before := fun hc =>
  (a.prose _ (List.mem_append_left _ hc)).2 rfl

theorem behind_ticks : '\x60' ∉ a.behind := fun hc =>
  (a.prose _ (List.mem_append_right _ hc)).2 rfl

theorem attempt_own : attempt (some (a.value.chars js)) = some a.value := by
  have hwhole := attempt_whole a.writable a.container (List.forall_mem_nil _) []
  simpa using hwhole

/-- The brackets find an array, and the braces an object; an array's braces come first. -/
theorem spans_eq_iff :
    a.spans.getD .null = a.value ↔ isObj a.value = true ∨ ¬ a.BracesParse := by
  rw [BracesParse, attempt_firstBalanced_iff]
  unfold spans
  cases hkind : isObj a.value with
  | true =>
    have hbraces := firstBalanced_own a.writable a.container (.inr ⟨rfl, hkind⟩) (.inl ⟨rfl, rfl⟩)
    rw [hbraces, a.attempt_own]
    exact iff_of_true rfl (.inl rfl)
  | false =>
    have hbrackets := firstBalanced_own a.writable a.container (.inl ⟨rfl, hkind⟩)
      (.inr ⟨rfl, rfl⟩)
    rw [hbrackets, a.attempt_own]
    cases hbraces : attempt (firstBalanced (a.value.chars js) '\x7b' '\x7d') with
    | none => exact iff_of_true rfl (.inr (by decide))
    | some x =>
      have hx : isObj x = true := isObj_of_balanced (.inr ⟨rfl, rfl⟩) hbraces
      refine iff_of_false (fun heq => ?_) (by simp)
      have hsame : x = a.value := heq
      rw [hsame, hkind] at hx
      cases hx

/-- Between prose the spans are the value's. -/
theorem spans_around {us ws : List Char} (hus : ∀ c ∈ us, IsProse c) (hws : ∀ c ∈ ws, IsProse c) :
    (attempt (firstBalanced (us ++ a.value.chars js ++ ws) '\x7b' '\x7d')).or
      (attempt (firstBalanced (us ++ a.value.chars js ++ ws) '[' ']')) = a.spans := by
  have hnot : ∀ {cs : List Char} {c : Char}, (∀ d ∈ cs, IsProse d) →
      c ∈ ['[', ']', '\x7b', '\x7d', '"', '\\'] → c ∉ cs := fun hcs hc hmem => hcs _ hmem hc
  rw [firstBalanced_around (hnot hus (by simp)) (hnot hws (by simp)) (hnot hws (by simp)),
    firstBalanced_around (hnot hus (by simp)) (hnot hws (by simp)) (hnot hws (by simp)), spans]

/-- In a fence the prose is trimmed in front, and the value's own fence ends it early. -/
theorem fenced_fencedText : fenced a.fencedText = some (a.before.dropWhile isJsSpace ++
    ((upToFence (a.value.chars js)).getD (a.value.chars js ++ (a.behind ++ ['\n'])))) := by
  obtain ⟨c, cs, hopen, hc⟩ := chars_opens js a.container
  have hbody : ('\n' :: (a.text ++ '\n' :: ticks)).dropWhile isJsSpace =
      a.before.dropWhile isJsSpace ++ (a.value.chars js ++ (a.behind ++ '\n' :: ticks)) := by
    have htext : a.text ++ '\n' :: ticks =
        a.before ++ (a.value.chars js ++ (a.behind ++ '\n' :: ticks)) := by
      simp [text]
    have hspace : isJsSpace '\n' = true := rfl
    rw [List.dropWhile_cons, if_pos hspace, htext, hopen, List.cons_append,
      dropWhile_append_of_not (not_space_of_opens hc)]
  have hfence : fenced a.fencedText =
      (upToFence (('\n' :: (a.text ++ '\n' :: ticks)).dropWhile isJsSpace)).or
        (fenced (a.fencedText.drop 1)) := rfl
  have hbefore : '\x60' ∉ a.before.dropWhile isJsSpace := fun hmem =>
    a.before_ticks ((List.dropWhile_suffix isJsSpace).subset hmem)
  have hend : ∀ us : List Char, '\x60' ∉ us → upToFence (us ++ ticks) = some us := fun us hus => by
    have hticks : upToFence ticks = some [] := rfl
    rw [upToFence_prose hus, hticks, Option.map_some, List.append_nil]
  rw [hfence, hbody, upToFence_prose hbefore]
  cases hown : upToFence (a.value.chars js) with
  | some front =>
    rw [upToFence_append hown]
    rfl
  | none =>
    have hbehind : '\x60' ∉ a.behind ++ ['\n'] := by
      simp [a.behind_ticks]
    obtain ⟨d, ds, hds⟩ := List.exists_cons_of_ne_nil (List.append_ne_nil_of_right_ne_nil a.behind
      (List.cons_ne_nil '\n' []))
    have hd : d ≠ '\x60' := fun heq => hbehind (hds ▸ heq ▸ List.mem_cons_self)
    have hsplit : a.behind ++ '\n' :: ticks = d :: (ds ++ ticks) := by
      rw [← List.cons_append, ← hds, List.append_assoc]
      rfl
    have hcut := hend _ hbehind
    rw [hds, List.cons_append] at hcut
    rw [hsplit, upToFence_none hown hd, hcut, ← hds]
    rfl

theorem attempt_broken {front : List Char} (h : upToFence (a.value.chars js) = some front) :
    attempt (some (a.before.dropWhile isJsSpace ++ front)) = none := by
  obtain ⟨c, cs, hopen, hc⟩ := chars_opens js a.container
  obtain ⟨rest, hrest⟩ := upToFence_some h
  obtain ⟨front, rfl⟩ : ∃ tail, front = c :: tail := by
    cases front with
    | nil =>
      rw [hopen] at hrest
      have hhead : c = '\x60' := (List.cons.inj hrest).1
      rcases hc with ⟨rfl, -⟩ | ⟨rfl, -⟩ <;> cases hhead
    | cons d front =>
      rw [hopen] at hrest
      exact ⟨front, by rw [(List.cons.inj hrest).1]⟩
  have htrim : trimText (a.before.dropWhile isJsSpace ++ c :: front) =
      a.before.dropWhile isJsSpace ++ c :: front.rdropWhile isJsSpace := by
    rw [trimText, dropWhile_append_of_not (not_space_of_opens hc), dropWhile_dropWhile,
      rdropWhile_append_of_not (not_space_of_opens hc)]
  rw [attempt, Option.bind_some, htrim, if_neg (by simp)]
  cases hleft : a.before.dropWhile isJsSpace with
  | nil =>
    obtain ⟨more, hmore⟩ := List.rdropWhile_prefix isJsSpace front
    have hpart : a.value.chars js =
        (c :: front.rdropWhile isJsSpace) ++ (more ++ (ticks ++ rest)) := by
      rw [hrest, List.cons_append, List.cons_append, ← List.append_assoc (front.rdropWhile _),
        hmore]
    exact parse_part a.writable a.container hpart (List.cons_ne_nil _ _) (by simp [ticks])
  | cons d ds =>
    have hprose : ∀ e ∈ d :: ds, IsProse e := fun e he =>
      a.before_prose e ((List.dropWhile_suffix isJsSpace).subset (hleft ▸ he))
    have hd : isJsonSpace d = false := by
      have hhead := List.head?_dropWhile_not isJsSpace a.before
      rw [hleft] at hhead
      by_contra hspace
      rw [Bool.not_eq_false] at hspace
      simp [isJsSpace_of_isJsonSpace hspace] at hhead
    rw [parse, run_prose hprose rfl hd hc]
    rfl

theorem attempt_fencedText : attempt (some a.fencedText) = none := by
  have htrim : ∃ rest, trimText a.fencedText = '\x60' :: rest := by
    have hleft : a.fencedText.dropWhile isJsSpace =
        [] ++ '\x60' :: a.fencedText.drop 1 := rfl
    rw [trimText, hleft, rdropWhile_append_of_not rfl]
    exact ⟨_, rfl⟩
  obtain ⟨rest, hrest⟩ := htrim
  rw [attempt, Option.bind_some, hrest, if_neg (List.cons_ne_nil _ _)]
  rfl

/-- What a fence in the value's own strings holds is not the value. -/
theorem ne_of_attempt_fenced {x : Json} (h : attempt (fenced a.text) = some x) : x ≠ a.value := by
  obtain ⟨held, hheld, hparse⟩ := Option.bind_eq_some_iff.mp h
  split at hparse
  · cases hparse
  · have hplain : ∀ cs : List Char, (∀ c ∈ cs, IsProse c ∧ c ≠ '\x60') →
        ∀ c ∈ cs, c ≠ '"' ∧ c ≠ '\\' ∧ c ≠ '\x60' := fun cs hcs c hc =>
      ⟨fun heq => (hcs c hc).1 (by simp [heq]), fun heq => (hcs c hc).1 (by simp [heq]),
        (hcs c hc).2⟩
    have hbefore := leads_chars (hplain a.before fun c hc => a.prose c (List.mem_append_left _ hc))
    have hbehind := leads_chars (hplain a.behind fun c hc => a.prose c (List.mem_append_right _ hc))
    have hleads : Leads a.text := (hbefore.append (leads_composable.json a.writable)).append hbehind
    have htidy : Tidy false false a.text := by
      have hnil := hleads [] (by rw [Tidy]; trivial)
      rwa [List.append_nil] at hnil
    have hquiet : Quiet x := quiet_of_parse (tidy_trimText (tidy_fenced htidy hheld)) hparse
    intro heq
    have hmem : '\x60' ∈ a.text := ticks_of_fenced hheld
    simp only [text, List.mem_append] at hmem
    rcases hmem with (hmem | hmem) | hmem
    · exact a.before_ticks hmem
    · exact tick_not_mem_chars a.writable (heq ▸ hquiet) hmem
    · exact a.behind_ticks hmem

theorem isProse_of_all {cs : List Char}
    (h : cs.all (fun c => decide (c ∉ ['[', ']', '\x7b', '\x7d', '"', '\\'])) = true) :
    ∀ c ∈ cs, IsProse c := fun c hc => by
  have hnot := List.all_eq_true.mp h c hc
  rwa [decide_eq_true_eq] at hnot

/-- The fence around is prose like the rest. -/
theorem spans_fencedText : (attempt (firstBalanced a.fencedText '\x7b' '\x7d')).or
    (attempt (firstBalanced a.fencedText '[' ']')) = a.spans := by
  have htext : a.fencedText = (ticks ++ "json\n".toList ++ a.before) ++ a.value.chars js ++
      (a.behind ++ '\n' :: ticks) := by
    simp only [fencedText, text, List.append_assoc]
  have hopening : ∀ c ∈ ticks ++ "json\n".toList, IsProse c := isProse_of_all (by decide)
  have hclosing : ∀ c ∈ '\n' :: ticks, IsProse c := isProse_of_all (by decide)
  rw [htext]
  refine a.spans_around (fun c hc => ?_) fun c hc => ?_
  · exact (List.mem_append.mp hc).elim (hopening c) (a.before_prose c)
  · exact (List.mem_append.mp hc).elim (a.behind_prose c) (hclosing c)

/-- In its fence the value is the whole when there is only white space with it. -/
theorem attempt_fenced (hticks : upToFence (a.value.chars js) = none) :
    attempt (fenced a.fencedText) =
      if a.before.all isJsSpace ∧ a.behind.all isJsSpace then some a.value else none := by
  have hprose : ∀ c ∈ a.before.dropWhile isJsSpace, IsProse c := fun c hc =>
    a.before_prose c ((List.dropWhile_suffix isJsSpace).subset hc)
  have hbefore : (a.before.dropWhile isJsSpace).all isJsSpace = a.before.all isJsSpace := by
    rw [Bool.eq_iff_iff, List.all_eq_true, List.all_eq_true]
    refine ⟨fun h c hc => ?_, fun h c hc => h c ((List.dropWhile_suffix isJsSpace).subset hc)⟩
    rw [← List.takeWhile_append_dropWhile (p := isJsSpace) (l := a.before)] at hc
    exact (List.mem_append.mp hc).elim List.mem_takeWhile_imp (h c)
  have hbehind : (a.behind ++ ['\n']).all isJsSpace = a.behind.all isJsSpace := by
    rw [List.all_append]
    exact Bool.and_true _
  have hwhole := attempt_whole a.writable a.container hprose (a.behind ++ ['\n'])
  rw [hbefore, hbehind] at hwhole
  rw [fenced_fencedText, hticks, Option.getD_none, ← List.append_assoc]
  exact hwhole

/-- What is found in the text. -/
theorem extractJson_text : extractJson a.text = a.value ↔
    ¬ a.FenceParses ∧ (a.Bare ∨ isObj a.value = true ∨ ¬ a.BracesParse) := by
  rw [extractJson_eq, text, spans_around a a.before_prose a.behind_prose,
    attempt_whole a.writable a.container a.before_prose, ← spans_eq_iff]
  unfold FenceParses Bare
  cases hfence : attempt (fenced a.text) with
  | some x =>
    have hne := a.ne_of_attempt_fenced hfence
    rw [text] at hfence
    rw [hfence]
    exact iff_of_false hne fun h => h.1 rfl
  | none =>
    rw [text] at hfence
    rw [hfence, Option.none_or]
    have hnot : ¬ (none : Option Json).isSome = true := by decide
    split
    · next hbare => exact iff_of_true rfl ⟨hnot, .inl hbare⟩
    · next hbare =>
      rw [Option.none_or, or_iff_right hbare]
      exact ⟨fun h => ⟨hnot, h⟩, fun h => h.2⟩

/-- What is found in the fence around it. -/
theorem extractJson_fencedText : extractJson a.fencedText = a.value ↔
    (a.Bare ∧ ¬ ticks <:+: a.value.chars js) ∨ isObj a.value = true ∨ ¬ a.BracesParse := by
  rw [extractJson_eq, attempt_fencedText, Option.none_or, spans_fencedText, ← spans_eq_iff,
    ← upToFence_eq_none_iff]
  unfold Bare
  cases hticks : upToFence (a.value.chars js) with
  | some front =>
    have hnone : attempt (fenced a.fencedText) = none := by
      rw [fenced_fencedText, hticks]
      exact a.attempt_broken hticks
    rw [hnone, Option.none_or]
    exact ⟨.inr, fun h => h.resolve_left fun hno => by cases hno.2⟩
  | none =>
    rw [a.attempt_fenced hticks]
    split
    · next hbare => exact iff_of_true rfl (.inl ⟨hbare, rfl⟩)
    · next hbare =>
      rw [Option.none_or]
      exact ⟨.inr, fun h => h.resolve_left fun hno => hbare hno.1⟩

/-- The value is found exactly where no fence inside it is JSON, and no braces inside an array
that has something around it; in a fence of its own any fence inside an array counts as well. -/
theorem found_iff :
    (Found js a.value a.text ↔
      ¬ a.FenceParses ∧ (a.Bare ∨ isObj a.value = true ∨ ¬ a.BracesParse)) ∧
    (Found js a.value a.fencedText ↔
      (a.Bare ∧ ¬ ticks <:+: a.value.chars js) ∨ isObj a.value = true ∨ ¬ a.BracesParse) :=
  ⟨found_iff_extracted.trans a.extractJson_text, found_iff_extracted.trans a.extractJson_fencedText⟩

end Answer

/-- A list of one object, and a word in front. -/
def listed : Answer Js.plain where
  value := .arr [.obj [("a", .str "b")]]
  before := "So: ".toList
  behind := []
  container := rfl
  writable := .arr fun x hx => by
    rw [List.mem_singleton.mp hx]
    exact .obj (by decide) fun p hp => by
      rw [List.mem_singleton.mp hp]
      exact .str "b"
  prose := fun c hc => by
    have hall : "So: ".toList.all
        (fun c => decide (c ∉ ['[', ']', '\x7b', '\x7d', '"', '\\']) && c != '\x60') = true := by
      decide
    have hplain := List.all_eq_true.mp hall c (by simpa using hc)
    simpa [IsProse] using hplain

/-- An object that has a fence in a string, and nothing around it. -/
def ticked : Answer Js.plain where
  value := .obj [("a", .str "\x60\x60\x60true\x60\x60\x60")]
  before := []
  behind := []
  container := rfl
  writable := .obj (by decide) fun p hp => by
    rw [List.mem_singleton.mp hp]
    exact .str _
  prose := by simp

/-- The object is found for the list, and the fence's word for the object. -/
theorem found_fails :
    (extractJson listed.text = .obj [("a", .str "b")] ∧ ¬ Found Js.plain listed.value listed.text) ∧
    (extractJson ticked.text = .bool true ∧ ¬ Found Js.plain ticked.value ticked.text) := by
  have hlisted : extractJson listed.text = .obj [("a", .str "b")] := rfl
  have hticked : extractJson ticked.text = .bool true := rfl
  refine ⟨⟨hlisted, fun h => ?_⟩, hticked, fun h => ?_⟩
  · cases hlisted.symm.trans h.extracted
  · cases hticked.symm.trans h.extracted

end FleetRunner.Machine.Scoring
