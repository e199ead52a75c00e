import FleetRunner.Js.Text
import Mathlib.Data.List.TakeWhile

/-!
# Text as a number (`Number(s)`)

The grammar of numeric text: decimals with a fraction and an exponent, the three
radix prefixes, `Infinity`, and blank text, which is zero.

## Implementation notes

A number is kept exactly, and is infinite from where the engine rounds it to
infinity on.
-/

namespace FleetRunner

def digitsValue (base : Nat) (cs : List Char) : Nat :=
  cs.foldl (fun n c => base * n + (if c.isDigit then c.toNat - 48 else c.toLower.toNat - 87)) 0

/-- The least number that rounds to infinity. -/
@[irreducible] def numberLimit : Nat := 2 ^ 1024 - 2 ^ 970

theorem sixty_lt_numberLimit : 60 < numberLimit := by
  unfold numberLimit
  decide +kernel

def JsNum.ofRat (q : Rat) : JsNum :=
  if (numberLimit : Rat) ≤ q then .inf false
  else if q ≤ -(numberLimit : Rat) then .inf true
  else .fin q

def isHexText (c : Char) : Bool := c.isDigit || decide (c.toLower ∈ ['a', 'b', 'c', 'd', 'e', 'f'])

def radixNumber (base : Nat) (isDigit : Char → Bool) (cs : List Char) : JsNum :=
  if cs ≠ [] ∧ cs.all isDigit then .ofRat (digitsValue base cs) else .nan

def isSign (c : Char) : Bool := c = '+' || c = '-'

/-- The exponent of a decimal, when the rest of the text is one. -/
def exponent? : List Char → Option Int
  | [] => some 0
  | e :: rest =>
    if e = 'e' ∨ e = 'E' then
      let digits := rest.drop (if rest.head?.any isSign then 1 else 0)
      if digits ≠ [] ∧ digits.all Char.isDigit then
        some ((if rest.head? = some '-' then -1 else 1) * (digitsValue 10 digits : Int))
      else none
    else none

def fractionOf : List Char → List Char
  | '.' :: rest => rest
  | _ => []

/-- Digits with a fraction and an exponent; `none` when the text is not such a number. -/
def decimal? (cs : List Char) : Option Rat :=
  let int := cs.takeWhile Char.isDigit
  let afterInt := cs.dropWhile Char.isDigit
  let frac := (fractionOf afterInt).takeWhile Char.isDigit
  let rest := if afterInt.head? = some '.' then (fractionOf afterInt).dropWhile Char.isDigit
    else afterInt
  if int = [] ∧ frac = [] then none
  else (exponent? rest).map fun (e : Int) =>
    (digitsValue 10 (int ++ frac) : Rat) * (10 : Rat) ^ (e - frac.length)

def signedNumber (cs : List Char) : JsNum :=
  let negative := decide (cs.head? = some '-')
  let rest := cs.drop (if cs.head?.any isSign then 1 else 0)
  if rest = "Infinity".toList then .inf negative
  else
    match decimal? rest with
    | none => .nan
    | some q => .ofRat (if negative then -q else q)

/-- `Number(s)` -/
def numberOf (s : String) : JsNum :=
  match (jsTrim s).toList with
  | [] => .fin 0
  | '0' :: c :: rest =>
    if c = 'x' ∨ c = 'X' then radixNumber 16 isHexText rest
    else if c = 'o' ∨ c = 'O' then radixNumber 8 (fun d => decide ('0' ≤ d ∧ d ≤ '7')) rest
    else if c = 'b' ∨ c = 'B' then radixNumber 2 (fun d => decide (d = '0' ∨ d = '1')) rest
    else signedNumber ('0' :: c :: rest)
  | cs => signedNumber cs

/-! ## Digits alone -/

theorem isDigit_iff {c : Char} : c.isDigit = true ↔ 48 ≤ c.toNat ∧ c.toNat ≤ 57 := by
  simp only [Char.isDigit, Bool.and_eq_true, decide_eq_true_eq, ge_iff_le, UInt32.le_iff_toNat_le]
  exact Iff.rfl

theorem not_isJsSpace_of_isDigit {c : Char} (h : c.isDigit = true) : isJsSpace c = false := by
  obtain ⟨hlo, hhi⟩ := isDigit_iff.mp h
  simp only [isJsSpace, Bool.or_eq_false_iff, Bool.and_eq_false_imp, decide_eq_true_eq,
    decide_eq_false_iff_not]
  omega

theorem dropWhile_eq_self {α : Type} {p : α → Bool} {xs : List α} (h : ∀ x ∈ xs, p x = false) :
    xs.dropWhile p = xs := by
  cases xs with
  | nil => rfl
  | cons x rest => rw [List.dropWhile_cons, if_neg (by simp [h x List.mem_cons_self])]

/-- Text without white space is trimmed already. -/
theorem jsTrim_ofList {cs : List Char} (h : ∀ c ∈ cs, isJsSpace c = false) :
    jsTrim (String.ofList cs) = String.ofList cs := by
  have hrev : ∀ c ∈ cs.reverse, isJsSpace c = false := fun c hc => h c (List.mem_reverse.mp hc)
  rw [jsTrim, String.toList_ofList, dropWhile_eq_self h, dropWhile_eq_self hrev,
    List.reverse_reverse]

theorem takeWhile_isDigit {cs : List Char} (h : ∀ c ∈ cs, c.isDigit = true) :
    cs.takeWhile Char.isDigit = cs := List.takeWhile_eq_self_iff.mpr h

theorem decimal?_digits {cs : List Char} (hne : cs ≠ []) (h : ∀ c ∈ cs, c.isDigit = true) :
    decimal? cs = some (digitsValue 10 cs : Rat) := by
  have hdrop : cs.dropWhile Char.isDigit = [] := List.dropWhile_eq_nil_iff.mpr h
  simp [decimal?, takeWhile_isDigit h, hdrop, fractionOf, exponent?, hne]

theorem isDigit_ne {c d : Char} (hc : c.isDigit = true) (hd : d.isDigit = false) : c ≠ d := by
  rintro rfl
  rw [hc] at hd
  cases hd

theorem signedNumber_digits {cs : List Char} (hne : cs ≠ []) (h : ∀ c ∈ cs, c.isDigit = true) :
    signedNumber cs = JsNum.ofRat (digitsValue 10 cs) := by
  obtain ⟨c, rest, rfl⟩ := List.exists_cons_of_ne_nil hne
  have hc : c.isDigit = true := h c List.mem_cons_self
  have hminus : c ≠ '-' := isDigit_ne hc (by decide)
  have hsign : isSign c = false := by
    have hplus : c ≠ '+' := isDigit_ne hc (by decide)
    simp [isSign, hplus, hminus]
  have hinf : c :: rest ≠ "Infinity".toList := by
    intro heq
    have hhead : c = 'I' := (List.cons.inj heq).1
    exact isDigit_ne hc (by decide) hhead
  simp only [signedNumber, List.head?_cons, Option.any_some, hsign, Bool.false_eq_true, if_false,
    List.drop_zero, if_neg hinf, decimal?_digits hne h, Option.some.injEq, hminus, decide_false]

/-- Digits read as the number they write. -/
theorem numberOf_digits {cs : List Char} (hne : cs ≠ []) (h : ∀ c ∈ cs, c.isDigit = true) :
    numberOf (String.ofList cs) = JsNum.ofRat (digitsValue 10 cs) := by
  have hspace : ∀ c ∈ cs, isJsSpace c = false := fun c hc => not_isJsSpace_of_isDigit (h c hc)
  have hsigned : signedNumber cs = JsNum.ofRat (digitsValue 10 cs) := signedNumber_digits hne h
  rw [numberOf, jsTrim_ofList hspace, String.toList_ofList]
  split
  · exact absurd rfl hne
  · rename_i c rest
    have hc : c.isDigit = true := h c (by simp)
    have hletter : ∀ d e : Char, d.isDigit = false → e.isDigit = false → ¬ (c = d ∨ c = e) :=
      fun d e hd he => not_or.mpr ⟨isDigit_ne hc hd, isDigit_ne hc he⟩
    rw [if_neg (hletter 'x' 'X' (by decide) (by decide)),
      if_neg (hletter 'o' 'O' (by decide) (by decide)),
      if_neg (hletter 'b' 'B' (by decide) (by decide))]
    exact hsigned
  · exact hsigned

end FleetRunner
