import FleetRunner.Js.Number
import Mathlib.Algebra.Order.Ring.Rat
import Mathlib.Data.Nat.Cast.Order.Ring
import Mathlib.Tactic.Linarith

/-!
# Cron expressions (`cron.ts`)

Five fields, each a comma list of `*`, numbers and ranges with optional steps.
The matcher splits a field as it goes; the validator checks the characters and
then calls the matcher, which always answers.
-/

namespace FleetRunner

namespace Cron

/-- Minute, hour, day of month, month, day of week (0 = Sunday). -/
def BOUNDS : List (Int × Int) := [(0, 59), (0, 23), (1, 31), (1, 12), (0, 6)]

def bounds (index : Nat) : Int × Int := BOUNDS.getD index (0, 0)

def number (cs : List Char) : JsNum := numberOf (String.ofList cs)

/-- `Number.isInteger(n)`, with the integer -/
def asInteger? : JsNum → Option Int
  | .fin q => if q.den = 1 then some q.num else none
  | _ => none

/-- Is the value on the steps from `lo` to `hi`? -/
def onSteps (value lo hi step : Int) : Bool :=
  decide (lo ≤ value) && decide (value ≤ hi) && decide ((value - lo) % step = 0)

/-- The range of an item, for a step that is a whole number from 1 on. -/
def rangeMatches (rangePart : List Char) (stepped : Bool) (step value : Int) (index : Nat) :
    Bool :=
  if rangePart = ['*'] then onSteps value (bounds index).1 (bounds index).2 step
  else if '-' ∈ rangePart then
    match rangePart.splitOn '-' with
    | a :: b :: _ =>
      match asInteger? (number a), asInteger? (number b) with
      | some lo, some hi => onSteps value lo hi step
      | _, _ => false
    | _ => false
  else
    (asInteger? (number rangePart)).any fun n =>
      if stepped then onSteps value n (bounds index).2 step else decide (value = n)

def partMatches (part : List Char) (value : Int) (index : Nat) : Bool :=
  let pieces := part.splitOn '/'
  let rangePart := pieces.headD []
  let stepPart := pieces[1]?
  (asInteger? ((stepPart.map number).getD (.fin 1))).any fun step =>
    if step < 1 then false else rangeMatches rangePart stepPart.isSome step value index

def fieldMatches (field : List Char) (value : Int) (index : Nat) : Bool :=
  (field.splitOn ',').any fun part => partMatches part value index

/-- `expr.trim().split(/\s+/)`: blank text is one empty field. -/
def fields (expr : String) : List (List Char) :=
  match (expr.toList.splitOnP isJsSpace).filter fun f => f ≠ [] with
  | [] => [[]]
  | fs => fs

/-- Only digits, `*`, commas, slashes and dashes, and at least one. -/
def isCronText (f : List Char) : Bool :=
  f ≠ [] && f.all fun c => c.isDigit || c = '*' || c = ',' || c = '/' || c = '-'

/-- `v !== undefined` for a boolean -/
def isDefined (_ : Bool) : Bool := true

def isValidCron (expr : String) : Bool :=
  (fields expr).length = 5 &&
    (fields expr).zipIdx.all fun p =>
      isCronText p.1 && isDefined (fieldMatches p.1 (bounds p.2).1 p.2)

/-! ## What an item should be -/

/-- Digits, and at least one. -/
structure Numeral where
  digits : List Char
  ne_nil : digits ≠ []
  isDigit : ∀ c ∈ digits, c.isDigit = true

def Numeral.value (n : Numeral) : Nat := digitsValue 10 n.digits

inductive RangeText where
  | star
  | one (n : Numeral)
  | between (a b : Numeral)

structure Item where
  range : RangeText
  step : Option Numeral

def RangeText.text : RangeText → List Char
  | .star => ['*']
  | .one n => n.digits
  | .between a b => a.digits ++ '-' :: b.digits

def Item.text (it : Item) : List Char :=
  match it.step with
  | none => it.range.text
  | some s => it.range.text ++ '/' :: s.digits

def Numeral.Within (n : Numeral) (index : Nat) : Prop :=
  (bounds index).1 ≤ n.value ∧ (n.value : Int) ≤ (bounds index).2

def RangeText.Within (index : Nat) : RangeText → Prop
  | .star => True
  | .one n => n.Within index
  | .between a b => a.Within index ∧ b.Within index ∧ a.value ≤ b.value

def Item.Within (index : Nat) (it : Item) : Prop :=
  it.range.Within index ∧ ∀ s, it.step = some s → 1 ≤ s.value

/-- A comma list of items whose numbers are in bounds. -/
def Written (index : Nat) (field : List Char) : Prop :=
  ∃ items : List Item, items ≠ [] ∧ field = [','].intercalate (items.map Item.text) ∧
    ∀ it ∈ items, it.Within index

/-- Some value in bounds matches. -/
def Fires (index : Nat) (field : List Char) : Prop :=
  ∃ v, (bounds index).1 ≤ v ∧ v ≤ (bounds index).2 ∧ fieldMatches field v index = true

/-- Five written fields that all fire. -/
def Sound (expr : String) : Prop :=
  (fields expr).length = 5 ∧
    ∀ i f, (fields expr)[i]? = some f → Written i f ∧ Fires i f

/-! ## The same, by splitting -/

def isNumeral (cs : List Char) : Bool := cs ≠ [] && cs.all Char.isDigit

def numeralWithin (index : Nat) (cs : List Char) : Bool :=
  isNumeral cs && decide ((bounds index).1 ≤ (digitsValue 10 cs : Int)) &&
    decide ((digitsValue 10 cs : Int) ≤ (bounds index).2)

def rangeClean (index : Nat) (r : List Char) : Bool :=
  r = ['*'] ||
    match r.splitOn '-' with
    | [n] => numeralWithin index n
    | [a, b] => numeralWithin index a && numeralWithin index b &&
        decide (digitsValue 10 a ≤ digitsValue 10 b)
    | _ => false

def itemClean (index : Nat) (part : List Char) : Bool :=
  match part.splitOn '/' with
  | [r] => rangeClean index r
  | [r, s] => rangeClean index r && isNumeral s && decide (1 ≤ digitsValue 10 s)
  | _ => false

/-- A step the engine does not read as infinite. -/
def stepFinite (part : List Char) : Bool :=
  match (part.splitOn '/')[1]? with
  | none => true
  | some s => decide (digitsValue 10 s < numberLimit)

/-- Every item is clean, and one has a step that is finite. -/
def fieldClean (index : Nat) (field : List Char) : Bool :=
  ((field.splitOn ',').all fun part => itemClean index part) &&
    (field.splitOn ',').any stepFinite

/-- Five fields of the right characters. -/
def fiveFields (expr : String) : Bool :=
  (fields expr).length = 5 && (fields expr).all isCronText

def clean (expr : String) : Bool := (fields expr).zipIdx.all fun p => fieldClean p.2 p.1

theorem isValidCron_eq_fiveFields (expr : String) : isValidCron expr = fiveFields expr := by
  have hall : ∀ (fs : List (List Char)) (n : Nat),
      (fs.zipIdx n).all (fun p => isCronText p.1 &&
        isDefined (fieldMatches p.1 (bounds p.2).1 p.2)) = fs.all isCronText := by
    intro fs
    induction fs with
    | nil => exact fun _ => rfl
    | cons f rest ih =>
        intro n
        rw [List.zipIdx_cons, List.all_cons, List.all_cons, ih]
        simp [isDefined]
  rw [isValidCron, fiveFields, hall]

theorem all_zipIdx_iff {fs : List (List Char)} {p : List Char × Nat → Bool} :
    fs.zipIdx.all p = true ↔ ∀ i f, fs[i]? = some f → p (f, i) = true := by
  rw [List.all_eq_true]
  constructor
  · intro h i f hf
    exact h (f, i) (List.mem_zipIdx_iff_getElem?.mpr hf)
  · rintro h ⟨f, i⟩ hmem
    exact h i f (List.mem_zipIdx_iff_getElem?.mp hmem)

/-! ## Taking an item apart -/

section Pieces

variable {index : Nat}

theorem Numeral.not_mem (n : Numeral) {c : Char} (hc : c.isDigit = false) : c ∉ n.digits := by
  intro hmem
  rw [n.isDigit c hmem] at hc
  cases hc

theorem Numeral.isNumeral (n : Numeral) : isNumeral n.digits = true := by
  simp only [Cron.isNumeral, n.ne_nil, ne_eq, not_false_eq_true, decide_true, Bool.true_and,
    List.all_eq_true]
  exact n.isDigit

/-- Digits, as a numeral. -/
theorem exists_numeral {cs : List Char} (h : isNumeral cs = true) :
    ∃ n : Numeral, n.digits = cs := by
  simp only [isNumeral, ne_eq, Bool.and_eq_true, decide_eq_true_eq, List.all_eq_true] at h
  exact ⟨⟨cs, h.1, h.2⟩, rfl⟩

theorem Numeral.within_iff (n : Numeral) :
    numeralWithin index n.digits = true ↔ n.Within index := by
  simp [numeralWithin, n.isNumeral, Numeral.Within, Numeral.value]

theorem RangeText.not_mem_text (r : RangeText) {c : Char} (hc : c.isDigit = false) (hstar : c ≠ '*')
    (hdash : c ≠ '-') : c ∉ r.text := by
  cases r with
  | star => simpa [RangeText.text] using hstar
  | one n => exact n.not_mem hc
  | between a b =>
      simp only [RangeText.text, List.mem_append, List.mem_cons, not_or]
      exact ⟨a.not_mem hc, hdash, b.not_mem hc⟩

theorem RangeText.splitOn_text (r : RangeText) :
    r.text.splitOn '-' = match r with
      | .star => [['*']]
      | .one n => [n.digits]
      | .between a b => [a.digits, b.digits] := by
  cases r with
  | star => exact List.splitOn_eq_singleton (by decide)
  | one n => exact List.splitOn_eq_singleton (n.not_mem (by decide))
  | between a b =>
      rw [RangeText.text, List.splitOn_append_cons_self_of_not_mem (a.not_mem (by decide)),
        List.splitOn_eq_singleton (b.not_mem (by decide))]

theorem Item.splitOn_text (it : Item) :
    it.text.splitOn '/' = it.range.text :: (it.step.map Numeral.digits).toList := by
  have hrange : '/' ∉ it.range.text :=
    it.range.not_mem_text (by decide) (by decide) (by decide)
  unfold Item.text
  cases it.step with
  | none => exact List.splitOn_eq_singleton hrange
  | some s =>
      simp only
      rw [List.splitOn_append_cons_self_of_not_mem hrange,
        List.splitOn_eq_singleton (s.not_mem (by decide))]
      rfl

theorem Item.not_mem_text (it : Item) : ',' ∉ it.text := by
  have hrange : ',' ∉ it.range.text :=
    it.range.not_mem_text (by decide) (by decide) (by decide)
  unfold Item.text
  cases it.step with
  | none => exact hrange
  | some s =>
      simp only [List.mem_append, List.mem_cons, not_or]
      exact ⟨hrange, by decide, s.not_mem (by decide)⟩

theorem Numeral.ne_star (n : Numeral) : n.digits ≠ ['*'] := by
  intro h
  exact n.not_mem (c := '*') (by decide) (h ▸ List.mem_singleton_self _)

theorem RangeText.dash_mem (a b : Numeral) : '-' ∈ (RangeText.between a b).text :=
  List.mem_append_right _ List.mem_cons_self

theorem RangeText.between_ne_star (a b : Numeral) : (RangeText.between a b).text ≠ ['*'] := by
  intro h
  have hmem := RangeText.dash_mem a b
  rw [h] at hmem
  exact absurd hmem (by decide)

theorem rangeClean_iff {cs : List Char} :
    rangeClean index cs = true ↔ ∃ r : RangeText, r.text = cs ∧ r.Within index := by
  constructor
  · intro h
    by_cases hstar : cs = ['*']
    · exact ⟨.star, hstar.symm, trivial⟩
    · have hjoin : ['-'].intercalate (cs.splitOn '-') = cs := List.intercalate_splitOn '-'
      simp only [rangeClean, hstar, decide_false, Bool.false_or] at h
      split at h
      · rename_i n hsplit
        obtain ⟨m, rfl⟩ : ∃ m : Numeral, m.digits = n := by
          simp only [numeralWithin, Bool.and_eq_true] at h
          exact exists_numeral h.1.1
        rw [hsplit] at hjoin
        exact ⟨.one m, by simpa [RangeText.text] using hjoin, m.within_iff.mp h⟩
      · rename_i a b hsplit
        simp only [Bool.and_eq_true, decide_eq_true_eq] at h
        obtain ⟨⟨ha, hb⟩, hle⟩ := h
        obtain ⟨m, rfl⟩ : ∃ m : Numeral, m.digits = a := by
          simp only [numeralWithin, Bool.and_eq_true] at ha
          exact exists_numeral ha.1.1
        obtain ⟨n, rfl⟩ : ∃ n : Numeral, n.digits = b := by
          simp only [numeralWithin, Bool.and_eq_true] at hb
          exact exists_numeral hb.1.1
        rw [hsplit] at hjoin
        refine ⟨.between m n, by simpa [RangeText.text] using hjoin, ?_⟩
        exact ⟨m.within_iff.mp ha, n.within_iff.mp hb, hle⟩
      · cases h
  · rintro ⟨r, rfl, hr⟩
    cases r with
    | star => rfl
    | one n =>
        have hsplit : n.digits.splitOn '-' = [n.digits] := RangeText.splitOn_text (.one n)
        simp only [rangeClean, RangeText.text, n.ne_star, decide_false, Bool.false_or, hsplit]
        exact n.within_iff.mpr hr
    | between a b =>
        obtain ⟨ha, hb, hle⟩ := hr
        simp only [rangeClean, RangeText.between_ne_star a b, decide_false, Bool.false_or,
          RangeText.splitOn_text,
          a.within_iff.mpr ha, b.within_iff.mpr hb, Bool.true_and, decide_eq_true_eq]
        exact hle

theorem itemClean_iff {part : List Char} :
    itemClean index part = true ↔ ∃ it : Item, it.text = part ∧ it.Within index := by
  constructor
  · intro h
    have hjoin : ['/'].intercalate (part.splitOn '/') = part := List.intercalate_splitOn '/'
    unfold itemClean at h
    split at h
    · rename_i r hsplit
      obtain ⟨range, rfl, hrange⟩ := rangeClean_iff.mp h
      rw [hsplit] at hjoin
      exact ⟨⟨range, none⟩, by simpa [Item.text] using hjoin, hrange, fun _ h => by cases h⟩
    · rename_i r s hsplit
      simp only [Bool.and_eq_true, decide_eq_true_eq] at h
      obtain ⟨⟨hr, hs⟩, hpos⟩ := h
      obtain ⟨range, rfl, hrange⟩ := rangeClean_iff.mp hr
      obtain ⟨step, rfl⟩ := exists_numeral hs
      rw [hsplit] at hjoin
      refine ⟨⟨range, some step⟩, by simpa [Item.text] using hjoin, hrange, ?_⟩
      rintro _ ⟨⟩
      exact hpos
    · cases h
  · rintro ⟨⟨range, step⟩, rfl, hrange, hstep⟩
    have hclean : rangeClean index range.text = true := rangeClean_iff.mpr ⟨range, rfl, hrange⟩
    unfold itemClean
    rw [Item.splitOn_text]
    cases step with
    | none => exact hclean
    | some s =>
        have hpos : 1 ≤ digitsValue 10 s.digits := hstep s rfl
        simp [hclean, s.isNumeral, hpos]

/-- The clean items of a field are the items it is written with. -/
theorem written_iff {field : List Char} :
    Written index field ↔ ∀ part ∈ field.splitOn ',', itemClean index part = true := by
  constructor
  · rintro ⟨items, hne, rfl, hwithin⟩ part hpart
    have hcomma : ∀ l ∈ items.map Item.text, ',' ∉ l := by
      intro l hl
      obtain ⟨it, -, rfl⟩ := List.mem_map.mp hl
      exact it.not_mem_text
    rw [List.splitOn_intercalate ',' hcomma (by simpa using hne)] at hpart
    obtain ⟨it, hit, rfl⟩ := List.mem_map.mp hpart
    exact itemClean_iff.mpr ⟨it, rfl, hwithin it hit⟩
  · intro h
    obtain ⟨items, hitems, hwithin⟩ : ∃ items : List Item,
        items.map Item.text = field.splitOn ',' ∧ ∀ it ∈ items, it.Within index := by
      generalize field.splitOn ',' = parts at h
      induction parts with
      | nil => exact ⟨[], rfl, by simp⟩
      | cons part rest ih =>
          obtain ⟨it, rfl, hit⟩ := itemClean_iff.mp (h _ List.mem_cons_self)
          obtain ⟨items, rfl, hall⟩ := ih fun p hp => h p (List.mem_cons_of_mem _ hp)
          refine ⟨it :: items, rfl, ?_⟩
          simpa using ⟨hit, hall⟩
    refine ⟨items, ?_, ?_, hwithin⟩
    · rintro rfl
      exact List.splitOn_ne_nil ',' field hitems.symm
    · rw [hitems, List.intercalate_splitOn]

end Pieces

/-! ## What an item matches -/

section Matching

variable {index : Nat} {v : Int}

theorem asInteger?_number (n : Numeral) :
    asInteger? (number n.digits) =
      if n.value < numberLimit then some (n.value : Int) else none := by
  have hnonneg : ¬ (n.value : Rat) ≤ -(numberLimit : Rat) := by
    have hpos : (0 : Rat) < numberLimit :=
      Nat.cast_pos.mpr (Nat.lt_trans (by decide) sixty_lt_numberLimit)
    have hvalue : (0 : Rat) ≤ n.value := Nat.cast_nonneg _
    intro hle
    linarith
  rw [number, numberOf_digits n.ne_nil n.isDigit]
  change asInteger? (JsNum.ofRat (n.value : Rat)) = _
  by_cases hlt : n.value < numberLimit
  · have hnot : ¬ (numberLimit : Rat) ≤ n.value := by
      rw [Nat.cast_le]
      exact Nat.not_le.mpr hlt
    rw [JsNum.ofRat, if_neg hnot, if_neg hnonneg, if_pos hlt]
    rfl
  · have hle : (numberLimit : Rat) ≤ n.value := Nat.cast_le.mpr (Nat.le_of_not_lt hlt)
    rw [JsNum.ofRat, if_pos hle, if_neg hlt]
    rfl

theorem bounds_le (index : Nat) :
    (bounds index).1 ≤ (bounds index).2 ∧ (bounds index).2 < 60 := by
  match index with
  | 0 => decide
  | 1 => decide
  | 2 => decide
  | 3 => decide
  | 4 => decide
  | n + 5 => exact ⟨Int.le_refl 0, Int.ofNat_lt.mpr (Nat.succ_pos 59)⟩

theorem Numeral.asInteger? {n : Numeral} (h : n.Within index) :
    asInteger? (number n.digits) = some (n.value : Int) := by
  have hlt : n.value < numberLimit := by
    have hbound := (bounds_le index).2
    have hlimit := sixty_lt_numberLimit
    have hn := h.2
    omega
  rw [asInteger?_number, if_pos hlt]

/-- The first value an item asks for. -/
def RangeText.first (index : Nat) : RangeText → Int
  | .star => (bounds index).1
  | .one n => n.value
  | .between a _ => a.value

theorem RangeText.first_within {r : RangeText} (h : r.Within index) :
    (bounds index).1 ≤ r.first index ∧ r.first index ≤ (bounds index).2 := by
  cases r with
  | star => exact ⟨le_refl _, (bounds_le index).1⟩
  | one n => exact h
  | between a b => exact h.1

theorem RangeText.matches_first {r : RangeText} (h : r.Within index) (stepped : Bool) (step : Int) :
    rangeMatches r.text stepped step (r.first index) index = true := by
  have hself : ∀ lo hi : Int, lo ≤ hi → onSteps lo lo hi step = true := by
    intro lo hi hle
    simp [onSteps, hle]
  cases r with
  | star => exact hself _ _ (bounds_le index).1
  | one n =>
      have hdash : '-' ∉ n.digits := n.not_mem (by decide)
      simp only [rangeMatches, RangeText.text, n.ne_star, if_false, hdash, Numeral.asInteger? h,
        RangeText.first, Option.any_some]
      cases stepped with
      | true => exact hself _ _ h.2
      | false => simp
  | between a b =>
      obtain ⟨ha, hb, hle⟩ := h
      simp only [rangeMatches, RangeText.between_ne_star a b, if_false, RangeText.dash_mem a b,
        if_true, RangeText.splitOn_text, Numeral.asInteger? ha, Numeral.asInteger? hb]
      exact hself _ _ (Int.ofNat_le.mpr hle)

theorem partMatches_unstepped (range : RangeText) :
    partMatches (Item.text ⟨range, none⟩) v index = rangeMatches range.text false 1 v index := by
  have hone : asInteger? (.fin 1) = some 1 := rfl
  have hstep : ¬ (1 : Int) < 1 := Int.lt_irrefl 1
  simp only [partMatches, Item.splitOn_text, Option.map_none, Option.toList_none, List.headD_cons,
    List.getElem?_cons_succ, List.getElem?_nil, Option.getD_none, hone, Option.any_some,
    if_neg hstep, Option.isSome_none]

/-- A step that is read as infinite lets an item match nothing. -/
theorem partMatches_stepped (range : RangeText) {s : Numeral} (hs : 1 ≤ s.value) :
    partMatches (Item.text ⟨range, some s⟩) v index =
      if s.value < numberLimit then rangeMatches range.text true s.value v index else false := by
  have hstep : ¬ (s.value : Int) < 1 := by omega
  simp only [partMatches, Item.splitOn_text, Option.map_some, Option.toList_some, List.headD_cons,
    List.getElem?_cons_succ, List.getElem?_cons_zero, Option.getD_some, asInteger?_number]
  split
  · rw [Option.any_some, if_neg hstep, Option.isSome_some]
  · rfl

theorem stepFinite_text (it : Item) :
    stepFinite it.text = true ↔ ∀ s, it.step = some s → s.value < numberLimit := by
  obtain ⟨range, step⟩ := it
  simp only [stepFinite, Item.splitOn_text]
  cases step with
  | none => simp
  | some s =>
      simp only [Option.map_some, Option.toList_some, List.getElem?_cons_succ,
        List.getElem?_cons_zero, decide_eq_true_eq, Option.some.injEq, forall_eq']
      exact Iff.rfl

/-- An item with a finite step matches the first value it asks for. -/
theorem partMatches_first {it : Item} (h : it.Within index) (hstep : stepFinite it.text = true) :
    partMatches it.text (it.range.first index) index = true := by
  obtain ⟨range, step⟩ := it
  obtain ⟨hrange, hpos⟩ := h
  have hlimit := (stepFinite_text _).mp hstep
  cases step with
  | none =>
      rw [partMatches_unstepped]
      exact RangeText.matches_first hrange false 1
  | some s =>
      rw [partMatches_stepped range (hpos s rfl), if_pos (hlimit s rfl)]
      exact RangeText.matches_first hrange true s.value

/-- Only an item with a finite step matches anything. -/
theorem stepFinite_of_partMatches {it : Item} (hit : it.Within index)
    (h : partMatches it.text v index = true) : stepFinite it.text = true := by
  obtain ⟨range, step⟩ := it
  rw [stepFinite_text]
  rintro s ⟨⟩
  rw [partMatches_stepped range (hit.2 s rfl)] at h
  by_contra hlt
  rw [if_neg hlt] at h
  cases h

end Matching

/-- A field is clean when it is written as it should be and fires. -/
theorem fieldClean_iff {index : Nat} {field : List Char} :
    fieldClean index field = true ↔ Written index field ∧ Fires index field := by
  simp only [fieldClean, Bool.and_eq_true, List.all_eq_true, List.any_eq_true, written_iff]
  constructor
  · rintro ⟨hall, part, hpart, hstep⟩
    refine ⟨hall, ?_⟩
    obtain ⟨it, rfl, hit⟩ := itemClean_iff.mp (hall part hpart)
    obtain ⟨hlo, hhi⟩ := RangeText.first_within hit.1
    refine ⟨it.range.first index, hlo, hhi, ?_⟩
    exact List.any_eq_true.mpr ⟨it.text, hpart, partMatches_first hit hstep⟩
  · rintro ⟨hall, v, -, -, hmatch⟩
    obtain ⟨part, hpart, hv⟩ := List.any_eq_true.mp hmatch
    obtain ⟨it, rfl, hit⟩ := itemClean_iff.mp (hall part hpart)
    exact ⟨hall, it.text, hpart, stepFinite_of_partMatches hit hv⟩

/-- What the validator accepts is sound exactly when five fields of the right characters are
also clean. -/
theorem valid_sound_iff (expr : String) :
    (isValidCron expr = true → Sound expr) ↔ (fiveFields expr = true → clean expr = true) := by
  rw [isValidCron_eq_fiveFields]
  refine imp_congr_right fun hfive => ?_
  have hlen : (fields expr).length = 5 := by
    simp only [fiveFields, Bool.and_eq_true, decide_eq_true_eq] at hfive
    exact hfive.1
  rw [clean, all_zipIdx_iff, Sound]
  constructor
  · rintro ⟨-, h⟩ i f hf
    exact fieldClean_iff.mpr (h i f hf)
  · intro h
    exact ⟨hlen, fun i f hf => fieldClean_iff.mp (h i f hf)⟩

/-- Minute 99 is accepted. -/
theorem minute_99_accepted :
    ¬ (isValidCron "99 * * * *" = true → Sound "99 * * * *") := by
  intro h
  have hsound : Sound "99 * * * *" := h (by decide)
  obtain ⟨items, hne, htext, hwithin⟩ := (hsound.2 0 ['9', '9'] (by decide)).1
  have hclean : itemClean 0 ['9', '9'] = true :=
    written_iff.mp ⟨items, hne, htext, hwithin⟩ _ (by decide)
  exact absurd hclean (by decide)

end Cron

end FleetRunner
