import FleetRunner.Js.Number
import FleetRunner.Js.Value
import Mathlib.Tactic.IntervalCases

/-!
# Text as a value (`JSON.parse`)

A text is read character by character. What has been read is the arrays and objects
that are still open, and what is expected next, so that a text that goes on from
another is read on from where that one leads.

## Implementation notes

Numbers and the three names are runs of the same characters, and told apart at their
end. Half of a surrogate pair that stands alone is the replacement character here, and
a number out of range is `null`, as which it is printed.
-/

namespace FleetRunner.JsonText

/-! ## The grammar -/

def isJsonSpace (c : Char) : Bool := c = ' ' || c = '\t' || c = '\n' || c = '\r'

/-- The characters of numbers and of the three names. -/
def isWordText (c : Char) : Bool := c.isAlphanum || c = '-' || c = '+' || c = '.'

/-- `-?(0|[1-9]\d*)(\.\d+)?([eE][+-]?\d+)?` -/
def isNumberText (cs : List Char) : Bool :=
  let rest := cs.drop (if cs.head? = some '-' then 1 else 0)
  let int := rest.takeWhile Char.isDigit
  decide (int ≠ [] ∧ (int.head? = some '0' → int.length = 1)) &&
    match rest.dropWhile Char.isDigit with
    | '.' :: frac => decide (frac.takeWhile Char.isDigit ≠ []) &&
        (exponent? (frac.dropWhile Char.isDigit)).isSome
    | after => (exponent? after).isSome

/-- A number that is not finite has no JSON. -/
def numberJson : JsNum → Json
  | .fin q => .num q
  | _ => .null

/-- The value of a word or a number. -/
def wordValue (cs : List Char) : Option Json :=
  if cs = "true".toList then some (.bool true)
  else if cs = "false".toList then some (.bool false)
  else if cs = "null".toList then some .null
  else if isNumberText cs then some (numberJson (numberOf (String.ofList cs)))
  else none

def isHigh (n : Nat) : Bool := decide (0xd800 ≤ n) && decide (n < 0xdc00)

def isLow (n : Nat) : Bool := decide (0xdc00 ≤ n) && decide (n < 0xe000)

/-- The character of a unit; a surrogate by itself is none. -/
def charOf (n : Nat) : Char := if isHigh n || isLow n then Char.ofNat 0xfffd else Char.ofNat n

/-- The characters of codes that may be halves of surrogate pairs. -/
def joinHalves : List Nat → List Char
  | [] => []
  | [n] => [charOf n]
  | n :: m :: rest =>
    if isHigh n && isLow m then
      Char.ofNat (0x10000 + (n - 0xd800) * 0x400 + (m - 0xdc00)) :: joinHalves rest
    else charOf n :: joinHalves (m :: rest)

/-- The code that a character names behind a backslash. -/
def escaped? : Char → Option Nat
  | '"' => some 34
  | '\\' => some 92
  | '/' => some 47
  | 'b' => some 8
  | 'f' => some 12
  | 'n' => some 10
  | 'r' => some 13
  | 't' => some 9
  | _ => none

/-- An array or an object that is still open; `field` waits for the value of its key. -/
inductive Frame where
  | arr (elems : List Json)
  | obj (fields : Fields)
  | field (fields : Fields) (key : String)

/-- Where in a value the reader is. -/
inductive Mode where
  | value
  | first
  | keyFirst
  | key
  | colon
  | after
  | done (v : Json)
  | word (acc : List Char)
  | str (acc : List Nat)
  | escape (acc : List Nat)
  | hex (acc digits : List Nat)

/-- The values that are open, and where the reader is. -/
structure State where
  stack : List Frame
  mode : Mode

/-- Before the first character. -/
def start : State := ⟨[], .value⟩

/-- A value is complete. -/
def give (v : Json) : List Frame → State
  | [] => ⟨[], .done v⟩
  | .arr xs :: st => ⟨.arr (xs ++ [v]) :: st, .after⟩
  | .obj fs :: st => ⟨.obj fs :: st, .after⟩
  | .field fs k :: st => ⟨.obj (Fields.set fs k v) :: st, .after⟩

/-- A string is complete: a key where an object is open, and a value elsewhere. -/
def giveString (s : String) : List Frame → State
  | .obj fs :: st => ⟨.field fs s :: st, .colon⟩
  | st => give (.str s) st

/-- The end of an array. -/
def closeBracket : List Frame → Option State
  | .arr xs :: st => some (give (.arr xs) st)
  | _ => none

/-- The end of an object. -/
def closeBrace : List Frame → Option State
  | .obj fs :: st => some (give (.obj fs) st)
  | _ => none

/-- The first character of a value. -/
def begin (st : List Frame) (c : Char) : Option State :=
  if c = '"' then some ⟨st, .str []⟩
  else if c = '[' then some ⟨.arr [] :: st, .first⟩
  else if c = '\x7b' then some ⟨.obj [] :: st, .keyFirst⟩
  else if isWordText c then some ⟨st, .word [c]⟩
  else none

/-- What may follow a value. -/
def stepAfter (s : State) (c : Char) : Option State :=
  if isJsonSpace c then some s
  else
    match s.stack with
    | .arr xs :: st =>
      if c = ',' then some ⟨.arr xs :: st, .value⟩
      else if c = ']' then closeBracket s.stack else none
    | .obj fs :: st =>
      if c = ',' then some ⟨.obj fs :: st, .key⟩
      else if c = '\x7d' then closeBrace s.stack else none
    | _ => none

def hexValue? (c : Char) : Option Nat :=
  if c.isDigit then some (c.toNat - 48)
  else if isHexText c then some (c.toLower.toNat - 87)
  else none

/-- One character. -/
def step (s : State) (c : Char) : Option State :=
  match s.mode with
  | .value => if isJsonSpace c then some s else begin s.stack c
  | .first =>
    if isJsonSpace c then some s else if c = ']' then closeBracket s.stack else begin s.stack c
  | .keyFirst =>
    if isJsonSpace c then some s
    else if c = '\x7d' then closeBrace s.stack
    else if c = '"' then some ⟨s.stack, .str []⟩ else none
  | .key => if isJsonSpace c then some s else if c = '"' then some ⟨s.stack, .str []⟩ else none
  | .colon => if isJsonSpace c then some s else if c = ':' then some ⟨s.stack, .value⟩ else none
  | .after | .done _ => stepAfter s c
  | .word acc =>
    if isWordText c then some ⟨s.stack, .word (acc ++ [c])⟩
    else (wordValue acc).bind fun v => stepAfter (give v s.stack) c
  | .str acc =>
    if c = '"' then some (giveString (String.ofList (joinHalves acc)) s.stack)
    else if c = '\\' then some ⟨s.stack, .escape acc⟩
    else if c.toNat < 32 then none
    else some ⟨s.stack, .str (acc ++ [c.toNat])⟩
  | .escape acc =>
    if c = 'u' then some ⟨s.stack, .hex acc []⟩
    else (escaped? c).map fun n => ⟨s.stack, .str (acc ++ [n])⟩
  | .hex acc digits =>
    (hexValue? c).map fun d =>
      match digits with
      | [x, y, z] => ⟨s.stack, .str (acc ++ [((x * 16 + y) * 16 + z) * 16 + d])⟩
      | _ => ⟨s.stack, .hex acc (digits ++ [d])⟩

/-- A text, character by character. -/
def run (s : State) (cs : List Char) : Option State := cs.foldlM step s

/-- The value, if it has ended. -/
def finish : State → Option Json
  | ⟨[], .done v⟩ => some v
  | ⟨[], .word acc⟩ => wordValue acc
  | _ => none

/-- `JSON.parse(text)` -/
def parse (cs : List Char) : Option Json := (run start cs).bind finish

/-! ## Reading on -/

@[simp] theorem run_nil (s : State) : run s [] = some s := rfl

theorem run_cons (s : State) (c : Char) (cs : List Char) :
    run s (c :: cs) = (step s c).bind fun t => run t cs := rfl

theorem run_append (s : State) (cs ds : List Char) :
    run s (cs ++ ds) = (run s cs).bind fun t => run t ds := List.foldlM_append

theorem run_step {s t : State} {c : Char} (h : step s c = some t) (cs : List Char) :
    run s (c :: cs) = run t cs := by
  rw [run_cons, h, Option.bind_some]

variable {st : List Frame}

theorem step_give (v : Json) (st : List Frame) (c : Char) :
    step (give v st) c = stepAfter (give v st) c := by
  cases st with
  | nil => rfl
  | cons frame st => cases frame <;> rfl

/-! ## Strings -/

theorem joinHalves_toNat (cs : List Char) : joinHalves (cs.map Char.toNat) = cs := by
  have hhalf : ∀ c : Char, isHigh c.toNat = false ∧ isLow c.toNat = false := fun c => by
    have hvalid := c.valid
    simp only [isHigh, isLow, Bool.and_eq_false_imp, decide_eq_true_eq, decide_eq_false_iff_not]
    rcases hvalid with h | ⟨h, -⟩
    · have hlt : c.toNat < 0xd800 := h
      omega
    · have hlt : 0xdfff < c.toNat := h
      omega
  have hchar : ∀ c : Char, charOf c.toNat = c := fun c => by
    rw [charOf, (hhalf c).1, (hhalf c).2]
    exact Char.ofNat_toNat c
  induction cs with
  | nil => rfl
  | cons c cs ih =>
    cases cs with
    | nil => rw [List.map_cons, List.map_nil, joinHalves, hchar]
    | cons d cs =>
      rw [List.map_cons, List.map_cons, joinHalves, (hhalf c).1, hchar]
      exact congrArg (List.cons c) ih

theorem hexValue?_hexDigit {n : Nat} (h : n < 16) : hexValue? (hexDigit n) = some n := by
  interval_cases n <;> rfl

/-- What is printed for a character is read as its code. -/
theorem run_escapeChar (acc : List Nat) (c : Char) (rest : List Char) :
    run ⟨st, .str acc⟩ (escapeChar c ++ rest) = run ⟨st, .str (acc ++ [c.toNat])⟩ rest := by
  unfold escapeChar
  split
  · rfl
  · rfl
  · rfl
  · rfl
  · rfl
  · next hquote hback _ _ _ =>
    split
    · next h8 => rw [h8]; rfl
    · split
      · next h12 => rw [h12]; rfl
      · split
        · next hcontrol =>
          have hlow : hexValue? (hexDigit (c.toNat / 16)) = some (c.toNat / 16) :=
            hexValue?_hexDigit (by omega)
          have hhigh : hexValue? (hexDigit (c.toNat % 16)) = some (c.toNat % 16) :=
            hexValue?_hexDigit (by omega)
          have hcode : ((0 * 16 + 0) * 16 + c.toNat / 16) * 16 + c.toNat % 16 = c.toNat := by omega
          have hstart : run ⟨st, .str acc⟩ ('\\' :: 'u' :: '0' :: '0' :: hexDigit (c.toNat / 16) ::
              hexDigit (c.toNat % 16) :: rest) = run ⟨st, .hex acc [0, 0]⟩
                (hexDigit (c.toNat / 16) :: hexDigit (c.toNat % 16) :: rest) := rfl
          have hthird : step ⟨st, .hex acc [0, 0]⟩ (hexDigit (c.toNat / 16)) =
              some ⟨st, .hex acc [0, 0, c.toNat / 16]⟩ := by
            simp only [step, hlow, Option.map_some]
            rfl
          have hfourth : step ⟨st, .hex acc [0, 0, c.toNat / 16]⟩ (hexDigit (c.toNat % 16)) =
              some ⟨st, .str (acc ++ [c.toNat])⟩ := by
            simp only [step, hhigh, Option.map_some, hcode]
          exact hstart.trans ((run_step hthird _).trans (run_step hfourth _))
        · next hplain =>
          have hstep : step ⟨st, .str acc⟩ c = some ⟨st, .str (acc ++ [c.toNat])⟩ := by
            simp only [step]
            rw [if_neg hquote, if_neg hback, if_neg hplain]
          exact run_step hstep rest

theorem run_string (acc : List Nat) (s : List Char) (rest : List Char) :
    run ⟨st, .str acc⟩ (s.flatMap escapeChar ++ '"' :: rest) =
      run (giveString (String.ofList (joinHalves (acc ++ s.map Char.toNat))) st) rest := by
  induction s generalizing acc with
  | nil =>
    rw [List.map_nil, List.append_nil]
    exact run_step rfl rest
  | cons c s ih =>
    rw [List.flatMap_cons, List.append_assoc, run_escapeChar, ih, List.map_cons, List.append_assoc]
    rfl

/-- A quoted text, from where a string may start. -/
theorem run_quoted {m : Mode} (h : step ⟨st, m⟩ '"' = some ⟨st, .str []⟩) (s : String)
    (rest : List Char) : run ⟨st, m⟩ (quoted s ++ rest) = run (giveString s st) rest := by
  have htext : quoted s ++ rest = '"' :: (s.toList.flatMap escapeChar ++ '"' :: rest) := by
    simp [quoted]
  rw [htext, run_step h, run_string, List.nil_append, joinHalves_toNat, String.ofList_toList]

/-! ## Words -/

theorem run_word {cs : List Char} (h : ∀ c ∈ cs, isWordText c = true) (acc rest : List Char) :
    run ⟨st, .word acc⟩ (cs ++ rest) = run ⟨st, .word (acc ++ cs)⟩ rest := by
  induction cs generalizing acc with
  | nil => rw [List.nil_append, List.append_nil]
  | cons c cs ih =>
    have hstep : step ⟨st, .word acc⟩ c = some ⟨st, .word (acc ++ [c])⟩ :=
      if_pos (h c List.mem_cons_self)
    rw [List.cons_append, run_step hstep, ih fun d hd => h d (List.mem_cons_of_mem c hd),
      List.append_assoc]
    rfl

/-- Where a value is expected: at the start, behind a bracket, a comma or a colon. -/
def Expects (m : Mode) : Prop := m = .value ∨ m = .first

theorem not_mark_of_isWordText {c : Char} (h : isWordText c = true) :
    isJsonSpace c = false ∧ c ≠ ']' ∧ c ≠ '"' ∧ c ≠ '[' ∧ c ≠ '\x7b' ∧ c ≠ '\x7d' ∧ c ≠ ',' ∧
      c ≠ '\\' ∧ c ≠ '\x60' := by
  refine ⟨?_, ?_, ?_, ?_, ?_, ?_, ?_, ?_, ?_⟩
  · by_contra hspace
    simp only [isJsonSpace, Bool.not_eq_false, Bool.or_eq_true, decide_eq_true_eq] at hspace
    rcases hspace with ((rfl | rfl) | rfl) | rfl <;> exact absurd h (by decide)
  all_goals
    rintro rfl
    exact absurd h (by decide)

theorem step_begin {m : Mode} (hm : Expects m) {c : Char} (hspace : isJsonSpace c = false)
    (hclose : c ≠ ']') : step ⟨st, m⟩ c = begin st c := by
  rcases hm with rfl | rfl
  · simp only [step, hspace, Bool.false_eq_true, if_false]
  · simp only [step, hspace, Bool.false_eq_true, if_false, if_neg hclose]

theorem run_wordValue {m : Mode} (hm : Expects m) {cs : List Char} {v : Json} (hne : cs ≠ [])
    (hword : ∀ c ∈ cs, isWordText c = true) (hv : wordValue cs = some v) {d : Char}
    (hd : isWordText d = false) (rest : List Char) :
    run ⟨st, m⟩ (cs ++ d :: rest) = run (give v st) (d :: rest) := by
  obtain ⟨c, cs, rfl⟩ := List.exists_cons_of_ne_nil hne
  have hc := hword c List.mem_cons_self
  obtain ⟨hspace, hclose, hquote, hbracket, hbrace, -⟩ := not_mark_of_isWordText hc
  have hbegin : begin st c = some ⟨st, .word [c]⟩ := by
    rw [begin, if_neg hquote, if_neg hbracket, if_neg hbrace, if_pos hc]
  have hend : step ⟨st, .word (c :: cs)⟩ d = stepAfter (give v st) d := by
    simp only [step, hd, Bool.false_eq_true, if_false, hv, Option.bind_some]
  rw [List.cons_append, run_step ((step_begin hm hspace hclose).trans hbegin),
    run_word fun x hx => hword x (List.mem_cons_of_mem c hx), List.singleton_append, run_cons, hend,
    run_cons, step_give]

/-! ## Values -/

/-- A value that text stands for: its numbers are read as they are printed, and no object has a key
twice. -/
inductive Writable (js : Js) : Json → Prop where
  | null : Writable js .null
  | bool (b : Bool) : Writable js (.bool b)
  | num {q : Rat} (text : isNumberText (js.showNum q).toList = true)
      (back : numberOf (js.showNum q) = .fin q) : Writable js (.num q)
  | str (s : String) : Writable js (.str s)
  | arr {xs : List Json} (elems : ∀ x ∈ xs, Writable js x) : Writable js (.arr xs)
  | obj {fs : Fields} (keys : (fs.map Prod.fst).Nodup) (values : ∀ p ∈ fs, Writable js p.2) :
      Writable js (.obj fs)

/-- An array or an object. -/
def isContainer : Json → Bool
  | .arr _ | .obj _ => true
  | _ => false

theorem isWordText_of_isDigit {c : Char} (h : c.isDigit = true) : isWordText c = true := by
  simp [isWordText, Char.isAlphanum, h]

theorem all_exponent {cs : List Char} (h : (exponent? cs).isSome) :
    ∀ c ∈ cs, isWordText c = true := by
  cases cs with
  | nil => simp
  | cons e rest =>
    have hmark : e = 'e' ∨ e = 'E' := by
      by_contra hne
      simp [exponent?, hne] at h
    have hdigits :
        (rest.drop (if rest.head?.any isSign then 1 else 0)).all Char.isDigit = true := by
      by_contra hne
      simp [exponent?, hmark, hne] at h
    have hrest : ∀ c ∈ rest, isWordText c = true := by
      cases rest with
      | nil => simp
      | cons s rest =>
        have hall := List.all_eq_true.mp hdigits
        rw [List.head?_cons, Option.any_some] at hall
        cases hs : isSign s with
        | true =>
          rw [hs] at hall
          have hsign : isWordText s = true := by
            simp only [isSign, Bool.or_eq_true, decide_eq_true_eq] at hs
            rcases hs with rfl | rfl <;> decide
          exact List.forall_mem_cons.mpr ⟨hsign, fun c hc => isWordText_of_isDigit (hall c hc)⟩
        | false =>
          rw [hs] at hall
          exact fun c hc => isWordText_of_isDigit (hall c hc)
    refine List.forall_mem_cons.mpr ⟨?_, hrest⟩
    rcases hmark with rfl | rfl <;> decide

theorem all_numberText {cs : List Char} (h : isNumberText cs = true) :
    cs ≠ [] ∧ ∀ c ∈ cs, isWordText c = true := by
  rw [isNumberText, Bool.and_eq_true, decide_eq_true_eq] at h
  obtain ⟨⟨hint, -⟩, hafter⟩ := h
  have hrun : ∀ (p : Char → Bool) (ds : List Char), ds.takeWhile p ++ ds.dropWhile p = ds :=
    fun p ds => List.takeWhile_append_dropWhile
  have hdigits : ∀ ds : List Char, ∀ c ∈ ds.takeWhile Char.isDigit, isWordText c = true :=
    fun ds c hc => isWordText_of_isDigit (List.mem_takeWhile_imp hc)
  have hrest : ∀ c ∈ cs.drop (if cs.head? = some '-' then 1 else 0), isWordText c = true := by
    rw [← hrun Char.isDigit (cs.drop _)]
    refine List.forall_mem_append.mpr ⟨hdigits _, ?_⟩
    split at hafter
    · next frac hfrac =>
      rw [Bool.and_eq_true] at hafter
      rw [hfrac, ← hrun Char.isDigit frac]
      exact List.forall_mem_cons.mpr ⟨by decide,
        List.forall_mem_append.mpr ⟨hdigits _, all_exponent hafter.2⟩⟩
    · exact all_exponent hafter
  cases cs with
  | nil => exact absurd rfl hint
  | cons c cs =>
    refine ⟨List.cons_ne_nil c cs, ?_⟩
    by_cases hminus : c = '-'
    · subst hminus
      exact List.forall_mem_cons.mpr ⟨by decide, hrest⟩
    · rw [List.head?_cons, if_neg (by simpa using hminus)] at hrest
      exact hrest

theorem wordValue_number {cs : List Char} (h : isNumberText cs = true) :
    wordValue cs = some (numberJson (numberOf (String.ofList cs))) := by
  have hne : ∀ name : String, isNumberText name.toList = false → cs ≠ name.toList := by
    rintro name hname rfl
    rw [hname] at h
    cases h
  rw [wordValue, if_neg (hne "true" (by decide)), if_neg (hne "false" (by decide)),
    if_neg (hne "null" (by decide)), if_pos h]

variable {js : Js}

/-- No key is expected. -/
def TakesValue : List Frame → Prop
  | .obj _ :: _ => False
  | _ => True

/-- The text of a value is read as that value, where one is expected and the text ends with it. -/
def ReadAs (js : Js) (v : Json) : Prop :=
  ∀ (st : List Frame) (m : Mode) (rest : List Char), TakesValue st → Expects m →
    (isContainer v = true ∨ ∃ d r, rest = d :: r ∧ isWordText d = false) →
    run ⟨st, m⟩ (v.chars js ++ rest) = run (give v st) rest

theorem run_elems {x : Json} {xs : List Json} (h : ∀ y ∈ x :: xs, ReadAs js y) {m : Mode}
    (hm : Expects m) (ys : List Json) (rest : List Char) :
    run ⟨.arr ys :: st, m⟩ (elemChars js (x :: xs) ++ ']' :: rest) =
      run (give (.arr (ys ++ x :: xs)) st) rest := by
  induction xs generalizing x ys m with
  | nil =>
    have hclose : step ⟨.arr (ys ++ [x]) :: st, .after⟩ ']' =
        some (give (.arr (ys ++ [x])) st) := rfl
    rw [elemChars, h x List.mem_cons_self (.arr ys :: st) m _ trivial hm (.inr ⟨_, _, rfl, rfl⟩)]
    exact run_step hclose rest
  | cons z zs ih =>
    have hcomma : step ⟨.arr (ys ++ [x]) :: st, .after⟩ ',' =
        some ⟨.arr (ys ++ [x]) :: st, .value⟩ := rfl
    rw [elemChars, List.append_assoc, List.cons_append,
      h x List.mem_cons_self (.arr ys :: st) m _ trivial hm (.inr ⟨_, _, rfl, rfl⟩)]
    refine (run_step hcomma _).trans ?_
    rw [ih (fun y hy => h y (List.mem_cons_of_mem x hy)) (.inl rfl), List.append_assoc]
    rfl

theorem set_new {fs : Fields} {k : String} (h : k ∉ fs.map Prod.fst) (v : Json) :
    Fields.set fs k v = fs ++ [(k, v)] := by
  induction fs with
  | nil => rfl
  | cons p fs ih =>
    rw [List.map_cons, List.mem_cons, not_or] at h
    rw [Fields.set, if_neg (Ne.symm h.1), ih h.2]
    rfl

theorem new_key {fs ps : Fields} {k : String} {v : Json}
    (h : ((fs ++ (k, v) :: ps).map Prod.fst).Nodup) : k ∉ fs.map Prod.fst := by
  rw [List.map_append, List.map_cons] at h
  exact fun hmem => (List.nodup_append.mp h).2.2 k hmem k List.mem_cons_self rfl

/-- One field, and what follows it. -/
theorem run_field {v : Json} (hv : ReadAs js v) {m : Mode} (hm : m = .keyFirst ∨ m = .key)
    {fs : Fields} {k : String} (hnew : k ∉ fs.map Prod.fst) {d : Char} (hd : isWordText d = false)
    (rest : List Char) :
    run ⟨.obj fs :: st, m⟩ (quoted k ++ ':' :: (v.chars js ++ d :: rest)) =
      run ⟨.obj (fs ++ [(k, v)]) :: st, .after⟩ (d :: rest) := by
  have hquote : step ⟨.obj fs :: st, m⟩ '"' = some ⟨.obj fs :: st, .str []⟩ := by
    rcases hm with rfl | rfl <;> rfl
  have hcolon : step ⟨.field fs k :: st, .colon⟩ ':' = some ⟨.field fs k :: st, .value⟩ := rfl
  rw [run_quoted hquote]
  refine (run_step hcolon _).trans ?_
  rw [hv (.field fs k :: st) .value _ trivial (.inl rfl) (.inr ⟨d, rest, rfl, hd⟩), give,
    set_new hnew]

theorem run_fields {p : String × Json} {ps : Fields} (h : ∀ q ∈ p :: ps, ReadAs js q.2)
    {m : Mode} (hm : m = .keyFirst ∨ m = .key) (fs : Fields)
    (hkeys : ((fs ++ p :: ps).map Prod.fst).Nodup) (rest : List Char) :
    run ⟨.obj fs :: st, m⟩ (fieldChars js (p :: ps) ++ '\x7d' :: rest) =
      run (give (.obj (fs ++ p :: ps)) st) rest := by
  induction ps generalizing p fs m with
  | nil =>
    obtain ⟨k, v⟩ := p
    have hclose : step ⟨.obj (fs ++ [(k, v)]) :: st, .after⟩ '\x7d' =
        some (give (.obj (fs ++ [(k, v)])) st) := rfl
    rw [fieldChars, List.append_assoc, List.cons_append,
      run_field (h _ List.mem_cons_self) hm (new_key hkeys) (by decide)]
    exact run_step hclose rest
  | cons q qs ih =>
    obtain ⟨k, v⟩ := p
    have hcomma : step ⟨.obj (fs ++ [(k, v)]) :: st, .after⟩ ',' =
        some ⟨.obj (fs ++ [(k, v)]) :: st, .key⟩ := rfl
    have hmore : fs ++ (k, v) :: q :: qs = (fs ++ [(k, v)]) ++ q :: qs := by simp
    rw [fieldChars, List.append_assoc, List.append_assoc, List.cons_append, List.cons_append,
      run_field (h _ List.mem_cons_self) hm (new_key hkeys) (by decide)]
    refine (run_step hcomma _).trans ?_
    rw [hmore] at hkeys ⊢
    exact ih (fun r hr => h r (List.mem_cons_of_mem _ hr)) (.inr rfl) _ hkeys

theorem readAs {v : Json} (h : Writable js v) : ReadAs js v := by
  have hword : ∀ (w : Json) (cs : List Char), isContainer w = false → w.chars js = cs → cs ≠ [] →
      (∀ c ∈ cs, isWordText c = true) → wordValue cs = some w → ReadAs js w := by
    rintro w cs hw rfl hne hall hvalue st m rest - hm hrest
    obtain ⟨d, r, rfl, hd⟩ := hrest.resolve_left (by rw [hw]; decide)
    exact run_wordValue hm hne hall hvalue hd r
  induction h with
  | null =>
    exact hword .null "null".toList rfl rfl (by decide) (List.all_eq_true.mp (by decide)) rfl
  | bool b =>
    cases b with
    | true =>
      exact hword (.bool true) "true".toList rfl rfl (by decide)
        (List.all_eq_true.mp (by decide)) rfl
    | false =>
      exact hword (.bool false) "false".toList rfl rfl (by decide)
        (List.all_eq_true.mp (by decide)) rfl
  | @num q text back =>
    obtain ⟨hne, hall⟩ := all_numberText text
    refine hword (.num q) (js.showNum q).toList rfl rfl hne hall ?_
    rw [wordValue_number text, String.ofList_toList, back]
    rfl
  | str s =>
    intro st m rest hst hm _
    have hquote : step ⟨st, m⟩ '"' = some ⟨st, .str []⟩ := step_begin hm (by decide) (by decide)
    have hgive : giveString s st = give (.str s) st := by
      cases st with
      | nil => rfl
      | cons frame st => cases frame <;> first | rfl | cases hst
    rw [Json.chars, run_quoted hquote, hgive]
  | @arr xs _ ih =>
    intro st m rest _ hm _
    have hopen : step ⟨st, m⟩ '[' = some ⟨.arr [] :: st, .first⟩ :=
      step_begin hm (by decide) (by decide)
    rw [Json.chars, List.append_assoc, List.cons_append, run_step hopen]
    cases xs with
    | nil =>
      have hclose : step ⟨.arr [] :: st, .first⟩ ']' = some (give (.arr []) st) := rfl
      exact run_step hclose rest
    | cons x xs => exact run_elems ih (.inr rfl) [] rest
  | @obj fs keys _ ih =>
    intro st m rest _ hm _
    have hopen : step ⟨st, m⟩ '\x7b' = some ⟨.obj [] :: st, .keyFirst⟩ :=
      step_begin hm (by decide) (by decide)
    have htext : (Json.obj fs).chars js ++ rest =
        '\x7b' :: (fieldChars js fs ++ '\x7d' :: rest) := by
      simp [Json.chars]
    rw [htext, run_step hopen]
    cases fs with
    | nil =>
      have hclose : step ⟨.obj [] :: st, .keyFirst⟩ '\x7d' = some (give (.obj []) st) := rfl
      exact run_step hclose rest
    | cons p ps => exact run_fields ih (.inl rfl) [] keys rest

/-- What is printed of an array or an object is parsed as it. -/
theorem run_container {v : Json} (h : Writable js v) (hv : isContainer v = true)
    (rest : List Char) : run start (v.chars js ++ rest) = run ⟨[], .done v⟩ rest :=
  readAs h [] .value rest trivial (.inl rfl) (.inl hv)

theorem parse_chars {v : Json} (h : Writable js v) (hv : isContainer v = true) :
    parse (v.chars js) = some v := by
  have hrun := run_container h hv []
  rw [List.append_nil] at hrun
  rw [parse, hrun]
  rfl

/-! ## Moves -/

def Mode.inString : Mode → Bool
  | .str _ | .escape _ | .hex _ _ => true
  | _ => false

/-- What a backslash stands before is read next. -/
def Mode.isEscape : Mode → Bool
  | .escape _ => true
  | _ => false

def Mode.isDone : Mode → Bool
  | .done _ => true
  | _ => false

/-- A mark is read as such: the value is not complete, and there is no string around. -/
def State.Open (s : State) : Prop := s.mode.isDone = false ∧ s.mode.inString = false

/-- A value is only complete where nothing is open. -/
def State.Sound (s : State) : Prop := s.mode.isDone = true → s.stack = []

/-- What a character can do. -/
inductive Moved (c : Char) : State → State → Prop where
  | same {s : State} (space : isJsonSpace c = true) (outside : s.mode.inString = false) :
      Moved c s s
  | expects {s : State} {m : Mode} (going : s.Open)
      (mark : (c = ',' ∧ s.stack ≠ []) ∨ (c = ':' ∧ s.mode = .colon))
      (plain : m = .value ∨ m = .key) : Moved c s ⟨s.stack, m⟩
  | opensArr {s : State} (going : s.Open) (mark : c = '[') : Moved c s ⟨.arr [] :: s.stack, .first⟩
  | opensObj {s : State} (going : s.Open) (mark : c = '\x7b') :
      Moved c s ⟨.obj [] :: s.stack, .keyFirst⟩
  | closesArr {s : State} {xs : List Json} {st : List Frame} (going : s.Open) (mark : c = ']')
      (top : s.stack = .arr xs :: st) : Moved c s (give (.arr xs) st)
  | closesObj {s : State} {fs : Fields} {st : List Frame} (going : s.Open) (mark : c = '\x7d')
      (top : s.stack = .obj fs :: st) : Moved c s (give (.obj fs) st)
  | word {s : State} (acc : List Char) (going : s.Open) (text : isWordText c = true) :
      Moved c s ⟨s.stack, .word acc⟩
  | wordEnds {s t : State} {acc : List Char} {v : Json} (mode : s.mode = .word acc)
      (value : wordValue acc = some v) (next : Moved c (give v s.stack) t) : Moved c s t
  | quote {s : State} (going : s.Open) (mark : c = '"') : Moved c s ⟨s.stack, .str []⟩
  | strGoes {s : State} {acc : List Nat} (mode : s.mode = .str acc) (mark : c ≠ '"')
      (plain : c ≠ '\\') : Moved c s ⟨s.stack, .str (acc ++ [c.toNat])⟩
  | strEnds {s : State} {acc : List Nat} (mode : s.mode = .str acc) (mark : c = '"') :
      Moved c s (giveString (String.ofList (joinHalves acc)) s.stack)
  | escapes {s : State} {acc : List Nat} (mode : s.mode = .str acc) (mark : c = '\\') :
      Moved c s ⟨s.stack, .escape acc⟩
  | escaped {s : State} {m : Mode} {acc : List Nat} (mode : s.mode = .escape acc)
      (inside : m.inString = true) (plain : m.isEscape = false) : Moved c s ⟨s.stack, m⟩
  | digit {s : State} {m : Mode} {acc digits : List Nat} (mode : s.mode = .hex acc digits)
      (mark : c ≠ '"' ∧ c ≠ '\\') (inside : m.inString = true) (plain : m.isEscape = false) :
      Moved c s ⟨s.stack, m⟩

variable {s t : State} {c : Char}

theorem moved_stepAfter (houtside : s.mode.inString = false) (hsound : s.Sound)
    (h : stepAfter s c = some t) : Moved c s t := by
  unfold stepAfter at h
  split at h
  · next hspace => exact Option.some.inj h ▸ .same hspace houtside
  · have hgoing : s.stack ≠ [] → s.Open := fun hne =>
      ⟨by simpa using mt hsound hne, houtside⟩
    split at h
    · next xs st hstack =>
      have hopen := hgoing (by simp [hstack])
      split at h
      · next hcomma =>
        exact Option.some.inj h ▸ hstack ▸
          .expects hopen (.inl ⟨hcomma, by simp [hstack]⟩) (.inl rfl)
      · split at h
        · next hclose =>
          rw [hstack] at h
          exact Option.some.inj h ▸ .closesArr hopen hclose hstack
        · cases h
    · next fs st hstack =>
      have hopen := hgoing (by simp [hstack])
      split at h
      · next hcomma =>
        exact Option.some.inj h ▸ hstack ▸
          .expects hopen (.inl ⟨hcomma, by simp [hstack]⟩) (.inr rfl)
      · split at h
        · next hclose =>
          rw [hstack] at h
          exact Option.some.inj h ▸ .closesObj hopen hclose hstack
        · cases h
    · cases h

theorem moved_begin (hgoing : s.Open) (h : begin s.stack c = some t) : Moved c s t := by
  unfold begin at h
  split at h
  · next hc => exact Option.some.inj h ▸ .quote hgoing hc
  · split at h
    · next hc => exact Option.some.inj h ▸ .opensArr hgoing hc
    · split at h
      · next hc => exact Option.some.inj h ▸ .opensObj hgoing hc
      · split at h
        · next hc => exact Option.some.inj h ▸ .word [c] hgoing hc
        · cases h

theorem moved_closeBracket (hgoing : s.Open) (hc : c = ']')
    (h : closeBracket s.stack = some t) : Moved c s t := by
  unfold closeBracket at h
  split at h
  · next xs st hstack => exact Option.some.inj h ▸ .closesArr hgoing hc hstack
  · cases h

theorem moved_closeBrace (hgoing : s.Open) (hc : c = '\x7d')
    (h : closeBrace s.stack = some t) : Moved c s t := by
  unfold closeBrace at h
  split at h
  · next fs st hstack => exact Option.some.inj h ▸ .closesObj hgoing hc hstack
  · cases h

theorem sound_give (v : Json) (st : List Frame) :
    (give v st).mode.inString = false ∧ (give v st).Sound := by
  cases st with
  | nil => exact ⟨rfl, fun _ => rfl⟩
  | cons frame st => cases frame <;> exact ⟨rfl, fun h => by cases h⟩

theorem moved_of_step (hsound : s.Sound) (h : step s c = some t) : Moved c s t := by
  obtain ⟨st, m⟩ := s
  cases m with
  | value =>
    have hgoing : State.Open ⟨st, .value⟩ := ⟨rfl, rfl⟩
    simp only [step] at h
    split at h
    · next hspace => exact Option.some.inj h ▸ .same hspace rfl
    · exact moved_begin hgoing h
  | first =>
    have hgoing : State.Open ⟨st, .first⟩ := ⟨rfl, rfl⟩
    simp only [step] at h
    split at h
    · next hspace => exact Option.some.inj h ▸ .same hspace rfl
    · split at h
      · next hc => exact moved_closeBracket hgoing hc h
      · exact moved_begin hgoing h
  | keyFirst =>
    have hgoing : State.Open ⟨st, .keyFirst⟩ := ⟨rfl, rfl⟩
    simp only [step] at h
    split at h
    · next hspace => exact Option.some.inj h ▸ .same hspace rfl
    · split at h
      · next hc => exact moved_closeBrace hgoing hc h
      · split at h
        · next hc => exact Option.some.inj h ▸ .quote hgoing hc
        · cases h
  | key =>
    have hgoing : State.Open ⟨st, .key⟩ := ⟨rfl, rfl⟩
    simp only [step] at h
    split at h
    · next hspace => exact Option.some.inj h ▸ .same hspace rfl
    · split at h
      · next hc => exact Option.some.inj h ▸ .quote hgoing hc
      · cases h
  | colon =>
    have hgoing : State.Open ⟨st, .colon⟩ := ⟨rfl, rfl⟩
    simp only [step] at h
    split at h
    · next hspace => exact Option.some.inj h ▸ .same hspace rfl
    · split at h
      · next hc => exact Option.some.inj h ▸ .expects hgoing (.inr ⟨hc, rfl⟩) (.inl rfl)
      · cases h
  | after => exact moved_stepAfter rfl (fun h => by cases h) h
  | done v => exact moved_stepAfter rfl hsound h
  | word acc =>
    have hgoing : State.Open ⟨st, .word acc⟩ := ⟨rfl, rfl⟩
    simp only [step] at h
    split at h
    · next hc => exact Option.some.inj h ▸ .word _ hgoing hc
    · obtain ⟨v, hv, hafter⟩ := Option.bind_eq_some_iff.mp h
      exact .wordEnds rfl hv (moved_stepAfter (sound_give v st).1 (sound_give v st).2 hafter)
  | str acc =>
    simp only [step] at h
    split at h
    · next hc => exact Option.some.inj h ▸ .strEnds rfl hc
    · next hquote =>
      split at h
      · next hc => exact Option.some.inj h ▸ .escapes rfl hc
      · next hback =>
        split at h
        · cases h
        · exact Option.some.inj h ▸ .strGoes rfl hquote hback
  | escape acc =>
    simp only [step] at h
    split at h
    · exact Option.some.inj h ▸ .escaped rfl rfl rfl
    · obtain ⟨n, -, rfl⟩ := Option.map_eq_some_iff.mp h
      exact .escaped rfl rfl rfl
  | hex acc digits =>
    simp only [step] at h
    obtain ⟨d, hd, rfl⟩ := Option.map_eq_some_iff.mp h
    have hmark : c ≠ '"' ∧ c ≠ '\\' := by
      constructor <;> rintro rfl <;> cases hd
    split <;> exact .digit rfl hmark rfl rfl

theorem isDone_of_inString {m : Mode} (h : m.inString = true) : m.isDone = false := by
  cases m with
  | done => cases h
  | _ => rfl

theorem sound_of_going {m : Mode} (h : m.isDone = false) (st : List Frame) :
    State.Sound ⟨st, m⟩ := fun hdone => by
  rw [h] at hdone
  cases hdone

theorem sound_giveString (k : String) (st : List Frame) : (giveString k st).Sound := by
  unfold giveString
  split
  · exact sound_of_going rfl _
  · exact (sound_give _ _).2

theorem Moved.sound (h : Moved c s t) (hs : s.Sound) : t.Sound := by
  induction h with
  | same => exact hs
  | expects _ _ plain => rcases plain with rfl | rfl <;> exact sound_of_going rfl _
  | opensArr => exact sound_of_going rfl _
  | opensObj => exact sound_of_going rfl _
  | closesArr => exact (sound_give _ _).2
  | closesObj => exact (sound_give _ _).2
  | word => exact sound_of_going rfl _
  | wordEnds _ _ _ ih => exact ih (sound_give _ _).2
  | quote => exact sound_of_going rfl _
  | strGoes => exact sound_of_going rfl _
  | strEnds => exact sound_giveString _ _
  | escapes => exact sound_of_going rfl _
  | escaped _ inside => exact sound_of_going (isDone_of_inString inside) _
  | digit _ _ inside => exact sound_of_going (isDone_of_inString inside) _

/-- What each move keeps, a run keeps. -/
theorem run_keeps {P : State → Prop} {cs : List Char}
    (hkeep : ∀ c ∈ cs, ∀ s t, Moved c s t → P s → P t) (hs : P s) (hsound : s.Sound)
    (hrun : run s cs = some t) : P t := by
  induction cs generalizing s with
  | nil => exact Option.some.inj hrun ▸ hs
  | cons c cs ih =>
    rw [run_cons] at hrun
    obtain ⟨u, hstep, hrest⟩ := Option.bind_eq_some_iff.mp hrun
    have hmoved := moved_of_step hsound hstep
    exact ih (fun d hd => hkeep d (List.mem_cons_of_mem c hd))
      (hkeep c List.mem_cons_self s u hmoved hs) (hmoved.sound hsound) hrest

/-! ## What a bracket starts -/

def isObj : Json → Bool
  | .obj _ => true
  | _ => false

def Frame.isObj : Frame → Bool
  | .arr _ => false
  | _ => true

/-- Whether what was opened first is an object. -/
def rootKind : List Frame → Option Bool
  | [] => none
  | [frame] => some frame.isObj
  | _ :: frame :: st => rootKind (frame :: st)

/-- What was opened first is still open, or is the value that was read. -/
def Rooted (b : Bool) (s : State) : Prop :=
  rootKind s.stack = some b ∨ ∃ v, s = ⟨[], .done v⟩ ∧ isObj v = b

variable {b : Bool}

theorem Rooted.kind (h : Rooted b s) (hgoing : s.mode.isDone = false) :
    rootKind s.stack = some b := by
  rcases h with h | ⟨v, rfl, -⟩
  · exact h
  · cases hgoing

theorem isDone_of_mode {m : Mode} (hmode : s.mode = m) (hm : m.isDone = false) :
    s.mode.isDone = false := hmode ▸ hm

theorem rootKind_head {f g : Frame} {st : List Frame} (h : rootKind (f :: st) = some b)
    (hkind : f.isObj = g.isObj) : rootKind (g :: st) = some b := by
  cases st with
  | nil => rwa [rootKind, ← hkind]
  | cons x st => exact h

theorem rootKind_push {st : List Frame} (h : rootKind st = some b) (frame : Frame) :
    rootKind (frame :: st) = some b := by
  cases st with
  | nil => cases h
  | cons x st => exact h

theorem rooted_give {st : List Frame} (h : rootKind st = some b) (v : Json) :
    Rooted b (give v st) := by
  cases st with
  | nil => cases h
  | cons frame st =>
    left
    cases frame with
    | arr xs => exact rootKind_head h rfl
    | obj fs => exact h
    | field fs k => exact rootKind_head h rfl

/-- Closing gives what was open to what is around it. -/
theorem rooted_close {frame : Frame} {st : List Frame} (h : rootKind (frame :: st) = some b)
    {v : Json} (hv : isObj v = frame.isObj) : Rooted b (give v st) := by
  cases st with
  | nil => exact .inr ⟨v, rfl, hv.trans (Option.some.inj h)⟩
  | cons x st =>
    have hkind : rootKind (x :: st) = some b := h
    exact rooted_give hkind v

theorem Moved.rooted (h : Moved c s t) (hs : Rooted b s) : Rooted b t := by
  induction h with
  | same => exact hs
  | expects going => exact .inl (hs.kind going.1)
  | opensArr going => exact .inl (rootKind_push (hs.kind going.1) _)
  | opensObj going => exact .inl (rootKind_push (hs.kind going.1) _)
  | closesArr going _ top => exact rooted_close (top ▸ hs.kind going.1) rfl
  | closesObj going _ top => exact rooted_close (top ▸ hs.kind going.1) rfl
  | word _ going => exact .inl (hs.kind going.1)
  | wordEnds mode _ _ ih => exact ih (rooted_give (hs.kind (isDone_of_mode mode rfl)) _)
  | quote going => exact .inl (hs.kind going.1)
  | strGoes mode => exact .inl (hs.kind (isDone_of_mode mode rfl))
  | @strEnds s acc mode _ =>
    have hkind := hs.kind (isDone_of_mode mode rfl)
    unfold giveString
    split
    · next hstack =>
      rw [hstack] at hkind
      exact .inl (rootKind_head hkind rfl)
    · exact rooted_give hkind _
  | escapes mode => exact .inl (hs.kind (isDone_of_mode mode rfl))
  | escaped mode => exact .inl (hs.kind (isDone_of_mode mode rfl))
  | digit mode => exact .inl (hs.kind (isDone_of_mode mode rfl))

/-- The bracket at the head of a text, and whether it is an object's. -/
def Opens (c : Char) (b : Bool) : Prop := (c = '[' ∧ b = false) ∨ (c = '\x7b' ∧ b = true)

theorem rooted_start {cs : List Char} (hc : Opens c b) (hrun : run start (c :: cs) = some t) :
    Rooted b t := by
  have hkeep : ∀ d ∈ cs, ∀ s t, Moved d s t → Rooted b s → Rooted b t :=
    fun _ _ _ _ hmoved hs => hmoved.rooted hs
  rcases hc with ⟨rfl, rfl⟩ | ⟨rfl, rfl⟩
  · exact run_keeps (s := ⟨[.arr []], .first⟩) hkeep (.inl rfl) (sound_of_going rfl _) hrun
  · exact run_keeps (s := ⟨[.obj []], .keyFirst⟩) hkeep (.inl rfl) (sound_of_going rfl _) hrun

/-- A text that starts with a bracket is of that kind, and complete where it is parsed. -/
theorem parse_opens {cs : List Char} {x : Json} (hc : Opens c b) (h : parse (c :: cs) = some x) :
    run start (c :: cs) = some ⟨[], .done x⟩ ∧ isObj x = b := by
  obtain ⟨s, hrun, hfinish⟩ := Option.bind_eq_some_iff.mp h
  rcases rooted_start hc hrun with hkind | ⟨v, rfl, hv⟩
  · unfold finish at hfinish
    split at hfinish
    · cases hkind
    · cases hkind
    · cases hfinish
  · obtain rfl := Option.some.inj hfinish
    exact ⟨hrun, hv⟩

/-! ## Text around a value -/

/-- A complete value is only followed by white space. -/
theorem Moved.of_done {v : Json} (h : Moved c s t) (hs : s.mode = .done v) :
    isJsonSpace c = true ∧ t = s := by
  have hnot : ¬ s.Open := fun hopen => by
    rw [State.Open, hs] at hopen
    cases hopen.1
  cases h with
  | same space => exact ⟨space, rfl⟩
  | expects going => exact absurd going hnot
  | opensArr going => exact absurd going hnot
  | opensObj going => exact absurd going hnot
  | closesArr going => exact absurd going hnot
  | closesObj going => exact absurd going hnot
  | word _ going => exact absurd going hnot
  | wordEnds mode => cases mode.symm.trans hs
  | quote going => exact absurd going hnot
  | strGoes mode => cases mode.symm.trans hs
  | strEnds mode => cases mode.symm.trans hs
  | escapes mode => cases mode.symm.trans hs
  | escaped mode => cases mode.symm.trans hs
  | digit mode => cases mode.symm.trans hs

theorem run_done {x : Json} {cs : List Char} (h : run ⟨[], .done x⟩ cs = some t) :
    t = ⟨[], .done x⟩ ∧ ∀ c ∈ cs, isJsonSpace c = true := by
  induction cs with
  | nil => exact ⟨(Option.some.inj h).symm, by simp⟩
  | cons c cs ih =>
    rw [run_cons] at h
    obtain ⟨u, hstep, hrest⟩ := Option.bind_eq_some_iff.mp h
    obtain ⟨hspace, rfl⟩ := (moved_of_step (fun _ => rfl) hstep).of_done rfl
    exact ⟨(ih hrest).1, List.forall_mem_cons.mpr ⟨hspace, (ih hrest).2⟩⟩

/-- A character of prose: no bracket, no quote, no backslash. -/
def IsProse (c : Char) : Prop := c ∉ ['[', ']', '\x7b', '\x7d', '"', '\\']

/-- Outside all brackets, behind something that is no white space. -/
def Said (s : State) : Prop := s.stack = [] ∧ ((∃ acc, s.mode = .word acc) ∨ ∃ v, s.mode = .done v)

theorem said_give (v : Json) : Said (give v []) := ⟨rfl, .inr ⟨v, rfl⟩⟩

theorem Said.mode_cases (hs : Said s) {m : Mode} (hm : s.mode = m) :
    (∃ acc, m = .word acc) ∨ ∃ v, m = .done v := hm ▸ hs.2

theorem Moved.said (h : Moved c s t) (hc : IsProse c) (hs : Said s) : Said t := by
  induction h with
  | same => exact hs
  | expects _ mark =>
    rcases mark with ⟨-, hne⟩ | ⟨-, hmode⟩
    · exact absurd hs.1 hne
    · rcases hs.mode_cases hmode with ⟨_, h⟩ | ⟨_, h⟩ <;> cases h
  | opensArr _ mark => exact absurd (by simp [mark]) hc
  | opensObj _ mark => exact absurd (by simp [mark]) hc
  | closesArr _ mark => exact absurd (by simp [mark]) hc
  | closesObj _ mark => exact absurd (by simp [mark]) hc
  | word acc => exact ⟨hs.1, .inl ⟨acc, rfl⟩⟩
  | @wordEnds s t acc v _ _ _ ih => exact ih (hs.1 ▸ said_give v)
  | quote _ mark => exact absurd (by simp [mark]) hc
  | strGoes mode => rcases hs.mode_cases mode with ⟨_, h⟩ | ⟨_, h⟩ <;> cases h
  | strEnds mode => rcases hs.mode_cases mode with ⟨_, h⟩ | ⟨_, h⟩ <;> cases h
  | escapes mode => rcases hs.mode_cases mode with ⟨_, h⟩ | ⟨_, h⟩ <;> cases h
  | escaped mode => rcases hs.mode_cases mode with ⟨_, h⟩ | ⟨_, h⟩ <;> cases h
  | digit mode => rcases hs.mode_cases mode with ⟨_, h⟩ | ⟨_, h⟩ <;> cases h

/-- Behind something that was said nothing opens. -/
theorem not_opens_of_said {b : Bool} (hs : Said s) (hc : Opens c b) (rest : List Char) :
    run s (c :: rest) = none := by
  have hnone : ∀ v : Json, stepAfter ⟨[], .done v⟩ c = none := fun v => by
    rcases hc with ⟨rfl, -⟩ | ⟨rfl, -⟩ <;> rfl
  obtain ⟨st, m⟩ := s
  obtain ⟨hstack, hmode⟩ := hs
  obtain rfl : st = [] := hstack
  have hstep : step ⟨[], m⟩ c = none := by
    rcases hmode with ⟨acc, hm⟩ | ⟨v, hm⟩
    · obtain rfl : m = .word acc := hm
      have hword : isWordText c = false := by
        rcases hc with ⟨rfl, -⟩ | ⟨rfl, -⟩ <;> decide
      simp only [step, hword, Bool.false_eq_true, if_false, give, hnone]
      cases wordValue acc <;> rfl
    · obtain rfl : m = .done v := hm
      exact hnone v
  rw [run_cons, hstep]
  rfl

/-- A bracket behind prose is no value's, so that the whole text is none. -/
theorem run_prose {cs : List Char} (hprose : ∀ d ∈ cs, IsProse d) {d : Char} {ds : List Char}
    (hcs : cs = d :: ds) (hd : isJsonSpace d = false) {b : Bool} (hc : Opens c b)
    (rest : List Char) : run start (cs ++ c :: rest) = none := by
  rw [run_append]
  cases hrun : run start cs with
  | none => rfl
  | some s =>
    rw [Option.bind_some]
    subst hcs
    rw [run_cons] at hrun
    obtain ⟨u, hstep, hrest⟩ := Option.bind_eq_some_iff.mp hrun
    have hmark := hprose d List.mem_cons_self
    simp only [IsProse, List.mem_cons, List.not_mem_nil, or_false, not_or] at hmark
    obtain ⟨hbracket, hclose, hbrace, -, hquote, -⟩ := hmark
    have hu : u = ⟨[], .word [d]⟩ := by
      rw [start, step_begin (.inl rfl) hd hclose, begin, if_neg hquote, if_neg hbracket,
        if_neg hbrace] at hstep
      split at hstep
      · exact (Option.some.inj hstep).symm
      · cases hstep
    have hkeep : ∀ e ∈ ds, ∀ s t, Moved e s t → Said s → Said t := fun e he s t hmoved hs =>
      hmoved.said (hprose e (List.mem_cons_of_mem d he)) hs
    have hsaid : Said u := hu ▸ ⟨rfl, .inl ⟨[d], rfl⟩⟩
    exact not_opens_of_said (run_keeps hkeep hsaid (fun _ => hsaid.1) hrest) hc rest

/-! ## The text of an array or an object -/

theorem chars_opens (js : Js) {v : Json} (hv : isContainer v = true) :
    ∃ c cs, v.chars js = c :: cs ∧ Opens c (isObj v) := by
  cases v with
  | arr xs => exact ⟨_, _, rfl, .inl ⟨rfl, rfl⟩⟩
  | obj fs => exact ⟨_, _, rfl, .inr ⟨rfl, rfl⟩⟩
  | _ => cases hv

theorem chars_closes (js : Js) {v : Json} (hv : isContainer v = true) :
    ∃ cs c, v.chars js = cs ++ [c] ∧ (c = ']' ∨ c = '\x7d') := by
  cases v with
  | arr xs => exact ⟨'[' :: elemChars js xs, ']', rfl, .inl rfl⟩
  | obj fs => exact ⟨'\x7b' :: fieldChars js fs, '\x7d', rfl, .inr rfl⟩
  | _ => cases hv

/-- The text of a value that breaks off is none. -/
theorem parse_part {v : Json} (h : Writable js v) (hv : isContainer v = true) {cs ds : List Char}
    (htext : v.chars js = cs ++ ds) (hcs : cs ≠ []) (hds : ds ≠ []) : parse cs = none := by
  by_contra hparse
  obtain ⟨x, hx⟩ := Option.ne_none_iff_exists'.mp hparse
  obtain ⟨c, cs', rfl⟩ := List.exists_cons_of_ne_nil hcs
  have hopens : Opens c (isObj v) := by
    obtain ⟨d, rest, hchars, hd⟩ := chars_opens js hv
    rw [hchars] at htext
    exact (List.cons.inj htext).1 ▸ hd
  obtain ⟨hrun, -⟩ := parse_opens hopens hx
  have hwhole := run_container h hv []
  rw [List.append_nil, htext, run_append, hrun, Option.bind_some] at hwhole
  obtain ⟨-, hspace⟩ := run_done hwhole
  obtain ⟨front, last, hlast, hclose⟩ := chars_closes js hv
  have hmem : last ∈ ds := by
    rw [hlast] at htext
    have hend := congrArg List.getLast? htext
    rw [List.getLast?_concat, List.getLast?_append, List.getLast?_eq_some_getLast hds,
      Option.some_or, Option.some.injEq] at hend
    exact hend ▸ List.getLast_mem hds
  have hbad := hspace last hmem
  rcases hclose with rfl | rfl <;> exact absurd hbad (by decide)

/-! ## What holds of all printed text -/

/-- Holds of the parts that texts of values are put together from, and of what they make. -/
structure Composable (P : List Char → Prop) : Prop where
  nil : P []
  append : ∀ {cs ds}, P cs → P ds → P (cs ++ ds)
  word : ∀ {cs}, (∀ c ∈ cs, isWordText c = true) → P cs
  quoted : ∀ s, P (quoted s)
  mark : ∀ c ∈ [',', ':'], P [c]
  arr : ∀ {cs}, P cs → P ('[' :: (cs ++ [']']))
  obj : ∀ {cs}, P cs → P ('\x7b' :: (cs ++ ['\x7d']))

namespace Composable

variable {P : List Char → Prop} (hP : Composable P)

include hP

theorem elems {xs : List Json} (h : ∀ x ∈ xs, P (x.chars js)) : P (elemChars js xs) := by
  induction xs with
  | nil => exact hP.nil
  | cons x xs ih =>
    have hx := h x List.mem_cons_self
    have hxs := ih fun y hy => h y (List.mem_cons_of_mem x hy)
    cases xs with
    | nil => exact hx
    | cons y ys => exact hP.append hx (hP.append (hP.mark ',' (by simp)) hxs)

theorem fields {fs : Fields} (h : ∀ p ∈ fs, P (p.2.chars js)) : P (fieldChars js fs) := by
  induction fs with
  | nil => exact hP.nil
  | cons p fs ih =>
    obtain ⟨k, v⟩ := p
    have hv := h _ List.mem_cons_self
    have hfield : P (FleetRunner.quoted k ++ ':' :: v.chars js) :=
      hP.append (hP.quoted k) (hP.append (hP.mark ':' (by simp)) hv)
    have hfs := ih fun q hq => h q (List.mem_cons_of_mem _ hq)
    cases fs with
    | nil => exact hfield
    | cons q qs => exact hP.append hfield (hP.append (hP.mark ',' (by simp)) hfs)

theorem json {v : Json} (h : Writable js v) : P (v.chars js) := by
  induction h with
  | null =>
    have hall : ∀ c ∈ "null".toList, isWordText c = true := List.all_eq_true.mp (by decide)
    exact hP.word hall
  | bool b =>
    have hall : ∀ c ∈ (boolText b).toList, isWordText c = true := by
      cases b <;> exact List.all_eq_true.mp (by decide)
    exact hP.word hall
  | num text => exact hP.word (all_numberText text).2
  | str s => exact hP.quoted s
  | arr _ ih => exact hP.arr (hP.elems ih)
  | obj _ _ ih => exact hP.obj (hP.fields ih)

end Composable

end FleetRunner.JsonText
