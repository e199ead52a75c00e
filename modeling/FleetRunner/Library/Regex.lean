import Mathlib.Data.List.Basic

/-!
# Phrases in a text

Regular expressions of words and white space, matched without regard to the case
of ASCII letters, and the boundary between a word and what is around it. What
matches in a text still matches where other text stands around it and some of
its separators have become white space.
-/

namespace FleetRunner.Library

/-- `\w` -/
def isWordChar (c : Char) : Bool := c.isAlphanum || c = '_'

/-- The character's code, an upper-case letter's that of the lower-case one. -/
def foldCase (c : Char) : Nat := if 65 ≤ c.toNat ∧ c.toNat ≤ 90 then c.toNat + 32 else c.toNat

inductive Regex where
  | lit (cs : List Char)
  | spaces
  | alt (a b : Regex)
  | seq (a b : Regex)
  | opt (a : Regex)

/-- `a|b|…` -/
def Regex.oneOf (a : Regex) : List Regex → Regex
  | [] => a
  | b :: rest => .alt a (b.oneOf rest)

def Regex.word (s : String) : Regex := .lit s.toList

/-- A literal at the head of a text, and what follows. -/
def splitLit : List Char → List Char → Option (List Char × List Char)
  | [], cs => some ([], cs)
  | l :: ls, c :: cs =>
    if foldCase l = foldCase c then (splitLit ls cs).map fun p => (c :: p.1, p.2) else none
  | _ :: _, [] => none

section

variable (space : Char → Bool)

/-- All runs of white space at the head of a text, the shorter ones first. -/
def splitSpaces : List Char → List (List Char × List Char)
  | [] => []
  | c :: cs =>
    if space c then ([c], cs) :: (splitSpaces cs).map fun p => (c :: p.1, p.2) else []

/-- All matches at the head of a text, each with what follows it. -/
def Regex.splits : Regex → List Char → List (List Char × List Char)
  | .lit ls, cs => (splitLit ls cs).toList
  | .spaces, cs => splitSpaces space cs
  | .alt a b, cs => a.splits cs ++ b.splits cs
  | .seq a b, cs => (a.splits cs).flatMap fun p => (b.splits p.2).map fun q => (p.1 ++ q.1, q.2)
  | .opt a, cs => a.splits cs ++ [([], cs)]

/-- A regular expression, with `\b` in front of it or behind it. -/
structure Phrase where
  left : Bool
  body : Regex
  right : Bool

def boundary (before after : Option Char) : Bool := before.any isWordChar != after.any isWordChar

def Phrase.testAt (p : Phrase) (pre suf : List Char) : Bool :=
  (!p.left || boundary pre.getLast? suf.head?) &&
    (p.body.splits space suf).any fun q => !p.right || boundary (pre ++ q.1).getLast? q.2.head?

/-- `re.test(text)` -/
def Phrase.test (p : Phrase) (text : List Char) : Bool :=
  (List.range (text.length + 1)).any fun i => p.testAt space (text.take i) (text.drop i)

def testAny (ps : List Phrase) (text : List Char) : Bool := ps.any fun p => p.test space text

end

/-! ## Where a match begins and ends -/

/-- Every match begins with a word character. -/
def Regex.startsWord : Regex → Bool
  | .lit ls => ls.head?.any isWordChar
  | .spaces => false
  | .alt a b => a.startsWord && b.startsWord
  | .seq a _ => a.startsWord
  | .opt _ => false

/-- Every match ends with a word character. -/
def Regex.endsWord : Regex → Bool
  | .lit ls => ls.getLast?.any isWordChar
  | .spaces => false
  | .alt a b => a.endsWord && b.endsWord
  | .seq _ b => b.endsWord
  | .opt _ => false

/-- All characters of its literals. -/
def Regex.letters : Regex → List Char
  | .lit ls => ls
  | .spaces => []
  | .alt a b => a.letters ++ b.letters
  | .seq a b => a.letters ++ b.letters
  | .opt a => a.letters

theorem isWordChar_iff {c : Char} : isWordChar c = true ↔
    48 ≤ c.toNat ∧ c.toNat ≤ 57 ∨ 65 ≤ c.toNat ∧ c.toNat ≤ 90 ∨ 97 ≤ c.toNat ∧ c.toNat ≤ 122 ∨
      c.toNat = 95 := by
  have hline : c = '_' ↔ c.toNat = 95 := by
    rw [← Char.toNat_inj]
    rfl
  have hupper : c.isUpper = decide (c.val ≥ 65 ∧ c.val ≤ 90) := rfl
  have hlower : c.isLower = (decide (c.val ≥ 97) && decide (c.val ≤ 122)) := rfl
  have halpha : c.isAlpha = (c.isUpper || c.isLower) := rfl
  simp only [isWordChar, Char.isAlphanum, halpha, hupper, hlower, Char.isDigit,
    Bool.or_eq_true, Bool.and_eq_true, decide_eq_true_eq, hline, UInt32.le_iff_toNat_le, ge_iff_le]
  change ((65 ≤ c.toNat ∧ c.toNat ≤ 90 ∨ 97 ≤ c.toNat ∧ c.toNat ≤ 122) ∨
    48 ≤ c.toNat ∧ c.toNat ≤ 57) ∨ c.toNat = 95 ↔ _
  omega

theorem isWordChar_of_foldCase {c d : Char} (h : foldCase c = foldCase d) :
    isWordChar c = isWordChar d := by
  rw [Bool.eq_iff_iff, isWordChar_iff, isWordChar_iff]
  unfold foldCase at h
  split at h <;> split at h <;> omega

/-- The matched text has the literal's characters, up to their case. -/
theorem splitLit_eq_some {ls cs : List Char} {q : List Char × List Char} :
    splitLit ls cs = some q ↔ cs = q.1 ++ q.2 ∧ ls.map foldCase = q.1.map foldCase := by
  induction ls generalizing cs q with
  | nil =>
      simp only [splitLit, Option.some.injEq, List.map_nil, List.nil_eq, List.map_eq_nil_iff]
      constructor
      · rintro rfl
        exact ⟨rfl, rfl⟩
      · rintro ⟨h, hnil⟩
        rw [hnil] at h
        rw [h, List.nil_append, ← hnil]
  | cons l ls ih =>
      cases cs with
      | nil =>
          simp only [splitLit, List.map_cons, reduceCtorEq, false_iff, not_and]
          intro hnil
          rw [(List.append_eq_nil_iff.mp hnil.symm).1]
          exact List.cons_ne_nil _ _
      | cons c cs =>
          simp only [splitLit]
          constructor
          · intro h
            split at h
            · rename_i hfold
              obtain ⟨p, hp, rfl⟩ := Option.map_eq_some_iff.mp h
              obtain ⟨hcs, hls⟩ := ih.mp hp
              simp [hfold, ← hcs, hls]
            · cases h
          · rintro ⟨hcs, hls⟩
            cases hq : q.1 with
            | nil =>
                rw [hq] at hls
                cases hls
            | cons d ds =>
                rw [hq] at hcs hls
                obtain ⟨rfl, hrest⟩ := List.cons.inj hcs
                obtain ⟨hfold, hmore⟩ := List.cons.inj hls
                rw [if_pos hfold, (@ih cs (ds, q.2)).mpr ⟨hrest, hmore⟩]
                simp [← hq]

theorem any_isWordChar_of_foldCase {o o' : Option Char} (h : o.map foldCase = o'.map foldCase) :
    o.any isWordChar = o'.any isWordChar := by
  cases o <;> cases o'
  · rfl
  · cases h
  · cases h
  · exact isWordChar_of_foldCase (Option.some.inj h)

section

variable {space : Char → Bool}

theorem mem_splits_seq {a b : Regex} {cs : List Char} {q : List Char × List Char} :
    q ∈ (Regex.seq a b).splits space cs ↔
      ∃ p ∈ a.splits space cs, ∃ r ∈ b.splits space p.2, q = (p.1 ++ r.1, r.2) := by
  simp only [Regex.splits, List.mem_flatMap, List.mem_map, eq_comm]

theorem mem_splits_lit {ls cs : List Char} {q : List Char × List Char} :
    q ∈ (Regex.lit ls).splits space cs ↔ cs = q.1 ++ q.2 ∧ ls.map foldCase = q.1.map foldCase := by
  simp only [Regex.splits, Option.mem_toList, splitLit_eq_some]

/-- A match and what follows it are the text. -/
theorem splits_append {re : Regex} {cs : List Char} {q : List Char × List Char}
    (hq : q ∈ re.splits space cs) : cs = q.1 ++ q.2 := by
  induction re generalizing cs q with
  | lit ls => exact (mem_splits_lit.mp hq).1
  | spaces =>
      induction cs generalizing q with
      | nil => cases hq
      | cons c cs ih =>
          simp only [Regex.splits, splitSpaces] at hq ih
          split at hq
          · rcases List.mem_cons.mp hq with rfl | hmore
            · rfl
            · obtain ⟨p, hp, rfl⟩ := List.mem_map.mp hmore
              exact congrArg (c :: ·) (ih hp)
          · cases hq
  | alt a b iha ihb => exact (List.mem_append.mp hq).elim iha ihb
  | seq a b iha ihb =>
      obtain ⟨p, hp, r, hr, rfl⟩ := mem_splits_seq.mp hq
      rw [iha hp, ihb hr, List.append_assoc]
  | opt a iha =>
      rcases List.mem_append.mp hq with ha | hnone
      · exact iha ha
      · obtain rfl := List.mem_singleton.mp hnone
        rfl

theorem startsWord_spec {re : Regex} (h : re.startsWord = true) {cs : List Char}
    {q : List Char × List Char} (hq : q ∈ re.splits space cs) : q.1.head?.any isWordChar = true := by
  induction re generalizing cs q with
  | lit ls =>
      have hfold := congrArg List.head? (mem_splits_lit.mp hq).2
      rw [List.head?_map, List.head?_map] at hfold
      rw [← any_isWordChar_of_foldCase hfold]
      exact h
  | spaces => cases h
  | alt a b iha ihb =>
      simp only [Regex.startsWord, Bool.and_eq_true] at h
      rcases List.mem_append.mp hq with ha | hb
      · exact iha h.1 ha
      · exact ihb h.2 hb
  | seq a b iha _ =>
      obtain ⟨p, hp, r, -, rfl⟩ := mem_splits_seq.mp hq
      have hhead := iha h hp
      cases hp1 : p.1 with
      | nil =>
          rw [hp1] at hhead
          cases hhead
      | cons c m =>
          rw [hp1] at hhead
          exact hhead
  | opt a _ => cases h

theorem endsWord_spec {re : Regex} (h : re.endsWord = true) {cs : List Char}
    {q : List Char × List Char} (hq : q ∈ re.splits space cs) (pre : List Char) :
    (pre ++ q.1).getLast?.any isWordChar = true := by
  induction re generalizing cs q pre with
  | lit ls =>
      have hfold := congrArg List.getLast? (mem_splits_lit.mp hq).2
      rw [List.getLast?_map, List.getLast?_map] at hfold
      have hlast : q.1.getLast?.any isWordChar = true := by
        rw [← any_isWordChar_of_foldCase hfold]
        exact h
      cases hq1 : q.1.getLast? with
      | none =>
          rw [hq1] at hlast
          cases hlast
      | some c =>
          rw [List.getLast?_append, hq1]
          rw [hq1] at hlast
          exact hlast
  | spaces => cases h
  | alt a b iha ihb =>
      simp only [Regex.endsWord, Bool.and_eq_true] at h
      rcases List.mem_append.mp hq with ha | hb
      · exact iha h.1 ha pre
      · exact ihb h.2 hb pre
  | seq a b _ ihb =>
      obtain ⟨p, -, r, hr, rfl⟩ := mem_splits_seq.mp hq
      have hlast := ihb h hr (pre ++ p.1)
      rwa [List.append_assoc] at hlast
  | opt a _ => cases h

/-! ## A text among others -/

theorem splitSpaces_blur {sub : Char → Char} (hsub : ∀ c, space c = true → space (sub c) = true)
    (more : List Char) {cs : List Char} {q : List Char × List Char} (hq : q ∈ splitSpaces space cs) :
    (q.1.map sub, q.2.map sub ++ more) ∈ splitSpaces space (cs.map sub ++ more) := by
  induction cs generalizing q with
  | nil => cases hq
  | cons c cs ih =>
      simp only [splitSpaces] at hq
      split at hq
      · rename_i hc
        simp only [List.map_cons, List.cons_append, splitSpaces, hsub c hc, if_true]
        rcases List.mem_cons.mp hq with rfl | hmore
        · exact List.mem_cons_self
        · obtain ⟨p, hp, rfl⟩ := List.mem_map.mp hmore
          exact List.mem_cons_of_mem _ (List.mem_map.mpr ⟨_, ih hp, rfl⟩)
      · cases hq

/-- A rewriting of characters that leaves the literals' own and makes no character a word's. -/
structure Blurs (space : Char → Bool) (sub : Char → Char) (letters : List Char) : Prop where
  space : ∀ c, space c = true → space (sub c) = true
  word : ∀ c, isWordChar c = false → isWordChar (sub c) = false
  letters : ∀ l ∈ letters, ∀ c, foldCase l = foldCase c → sub c = c

theorem Regex.splits_blur {sub : Char → Char} {re : Regex} (h : Blurs space sub re.letters)
    (more : List Char) {cs : List Char} {q : List Char × List Char} (hq : q ∈ re.splits space cs) :
    (q.1.map sub, q.2.map sub ++ more) ∈ re.splits space (cs.map sub ++ more) := by
  induction re generalizing cs q with
  | lit ls =>
      obtain ⟨rfl, hfold⟩ := mem_splits_lit.mp hq
      have hsame : q.1.map sub = q.1 := by
        refine (List.map_congr_left fun c hc => ?_).trans (List.map_id _)
        have hin : foldCase c ∈ ls.map foldCase := by
          rw [hfold]
          exact List.mem_map.mpr ⟨c, hc, rfl⟩
        obtain ⟨l, hl, heq⟩ := List.mem_map.mp hin
        exact h.letters l hl c heq
      refine mem_splits_lit.mpr ⟨?_, ?_⟩
      · rw [List.map_append, List.append_assoc]
      · rw [hsame, hfold]
  | spaces => exact splitSpaces_blur h.space more hq
  | alt a b iha ihb =>
      have ha : Blurs space sub a.letters :=
        ⟨h.space, h.word, fun l hl => h.letters l (List.mem_append_left _ hl)⟩
      have hb : Blurs space sub b.letters :=
        ⟨h.space, h.word, fun l hl => h.letters l (List.mem_append_right _ hl)⟩
      exact List.mem_append.mpr ((List.mem_append.mp hq).imp (iha ha) (ihb hb))
  | seq a b iha ihb =>
      have ha : Blurs space sub a.letters :=
        ⟨h.space, h.word, fun l hl => h.letters l (List.mem_append_left _ hl)⟩
      have hb : Blurs space sub b.letters :=
        ⟨h.space, h.word, fun l hl => h.letters l (List.mem_append_right _ hl)⟩
      obtain ⟨p, hp, r, hr, rfl⟩ := mem_splits_seq.mp hq
      refine mem_splits_seq.mpr ⟨_, iha ha hp, _, ihb hb hr, ?_⟩
      rw [List.map_append]
  | opt a iha =>
      rcases List.mem_append.mp hq with ha | hnone
      · exact List.mem_append_left _ (iha h ha)
      · obtain rfl := List.mem_singleton.mp hnone
        exact List.mem_append_right _ (List.mem_singleton.mpr rfl)

theorem Phrase.test_iff {p : Phrase} {text : List Char} :
    p.test space text = true ↔ ∃ pre suf, text = pre ++ suf ∧ p.testAt space pre suf = true := by
  rw [Phrase.test, List.any_eq_true]
  constructor
  · rintro ⟨i, -, h⟩
    exact ⟨_, _, (List.take_append_drop i text).symm, h⟩
  · rintro ⟨pre, suf, rfl, h⟩
    refine ⟨pre.length, ?_, by rwa [List.take_left, List.drop_left]⟩
    rw [List.mem_range, List.length_append]
    omega

/-- The boundaries of the phrase are the ends of its words. -/
def Phrase.bounded (p : Phrase) : Bool := p.body.startsWord && p.body.endsWord

theorem head?_any_of_match {re : Regex} {cs : List Char} {q : List Char × List Char}
    (hq : q ∈ re.splits space cs) (hstart : q.1.head?.any isWordChar = true) :
    cs.head?.any isWordChar = true := by
  rw [splits_append hq]
  cases h : q.1 with
  | nil =>
      rw [h] at hstart
      cases hstart
  | cons c m =>
      rw [h] at hstart
      exact hstart

/-- Behind text that no word ends, no word ends in a rewriting of text that no word ends. -/
theorem getLast?_any_blur {sub : Char → Char} {letters : List Char} (h : Blurs space sub letters)
    {before pre : List Char} (hbefore : before.getLast?.any isWordChar = false)
    (hpre : pre.getLast?.any isWordChar = false) :
    (before ++ pre.map sub).getLast?.any isWordChar = false := by
  rw [List.getLast?_append, List.getLast?_map]
  cases hlast : pre.getLast? with
  | none => simpa using hbefore
  | some c =>
      rw [hlast] at hpre
      exact h.word c hpre

theorem head?_any_blur {sub : Char → Char} {letters : List Char} (h : Blurs space sub letters)
    {after suf : List Char} (hafter : after.head?.any isWordChar = false)
    (hsuf : suf.head?.any isWordChar = false) :
    (suf.map sub ++ after).head?.any isWordChar = false := by
  cases suf with
  | nil => exact hafter
  | cons c suf => exact h.word c hsuf

/-- A phrase in a text is one in every text that has this one between separators. -/
theorem Phrase.test_blur {sub : Char → Char} {p : Phrase} (h : Blurs space sub p.body.letters)
    (hp : p.bounded = true) {text before after : List Char}
    (hbefore : before.getLast?.any isWordChar = false)
    (hafter : after.head?.any isWordChar = false) (htest : p.test space text = true) :
    p.test space (before ++ text.map sub ++ after) = true := by
  rw [Phrase.bounded, Bool.and_eq_true] at hp
  obtain ⟨pre, suf, rfl, hat⟩ := Phrase.test_iff.mp htest
  rw [Phrase.testAt, Bool.and_eq_true, List.any_eq_true] at hat
  obtain ⟨hleft, q, hq, hright⟩ := hat
  have hq' := Regex.splits_blur h after hq
  have hstart := startsWord_spec hp.1 hq
  have hstart' := startsWord_spec hp.1 hq'
  refine Phrase.test_iff.mpr ⟨before ++ pre.map sub, suf.map sub ++ after, by simp, ?_⟩
  rw [Phrase.testAt, Bool.and_eq_true, List.any_eq_true]
  refine ⟨?_, _, hq', ?_⟩
  · rw [Bool.or_eq_true] at hleft ⊢
    refine hleft.imp_right fun hbound => ?_
    rw [boundary, head?_any_of_match hq' hstart']
    rw [boundary, head?_any_of_match hq hstart] at hbound
    rw [getLast?_any_blur h hbefore (by simpa using hbound)]
    rfl
  · rw [Bool.or_eq_true] at hright ⊢
    refine hright.imp_right fun hbound => ?_
    rw [boundary, endsWord_spec hp.2 hq']
    rw [boundary, endsWord_spec hp.2 hq] at hbound
    rw [head?_any_blur h hafter (by simpa using hbound)]
    rfl

end

end FleetRunner.Library
