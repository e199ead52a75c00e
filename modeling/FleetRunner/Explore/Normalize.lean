import Mathlib.Data.List.DropRight
import FleetRunner.Findings.Schema
import FleetRunner.Js.Text
import FleetRunner.Library.Regex
import FleetRunner.Library.Replace

/-!
# Messages that fingerprint alike (`workloads/explore/loop.ts`)

A crash is known by its message. Numbers, addresses, ids and quoted strings are
taken out of it, by five rewritings one after the other and a cut, so that the
same crash has the same message.
-/

namespace FleetRunner.Explore.Normalize

open Library

def isHexDigit (c : Char) : Bool := c.isDigit || decide ('a' ≤ c) && decide (c ≤ 'f')

/-- `/0x[0-9a-f]+/` -/
def findAddress (_ : Option Char) : List Char → Nat
  | '0' :: 'x' :: rest =>
    match (rest.takeWhile isHexDigit).length with
    | 0 => 0
    | n + 1 => n + 3
  | _ => 0

/-- `/\b[0-9a-f]{8,}\b/` -/
def findId (prev : Option Char) (cs : List Char) : Nat :=
  let n := (cs.takeWhile isHexDigit).length
  if 8 ≤ n ∧ prev.any isWordChar = false ∧ (cs.drop n).head?.any isWordChar = false then n else 0

def isQuote (c : Char) : Bool := c = '\'' || c = '"'

/-- `/'[^']*'|"[^"]*"/` -/
def findQuoted (_ : Option Char) : List Char → Nat
  | [] => 0
  | c :: rest => if isQuote c && rest.contains c then (rest.takeWhile fun x => x ≠ c).length + 2 else 0

def mark : List Char := ['#']

/-- The three rewritings of words. -/
def words (cs : List Char) : List Char :=
  replaceAll (findRun Char.isDigit) mark 0 none
    (replaceAll findId mark 0 none (replaceAll findAddress mark 0 none cs))

def gap : List Char := ['\'', '…', '\'']

def quotes (cs : List Char) : List Char := replaceAll findQuoted gap 0 none cs

def blanks (cs : List Char) : List Char := replaceAll (findRun isJsSpace) [' '] 0 none cs

def normalizeMessage (js : Js) (s : String) : String :=
  jsSlice (jsTrim (String.ofList (blanks (quotes (words (js.lower s).toList))))) 200

/-! ## Words -/

theorem isWordChar_of_isDigit {c : Char} (h : c.isDigit = true) : isWordChar c = true := by
  simp [isWordChar, Char.isAlphanum, h]

theorem isWordChar_of_isHexDigit {c : Char} (h : isHexDigit c = true) : isWordChar c = true := by
  simp only [isHexDigit, Bool.or_eq_true, Bool.and_eq_true, decide_eq_true_eq] at h
  rcases h with hdigit | ⟨hlo, hhi⟩
  · exact isWordChar_of_isDigit hdigit
  · rw [isWordChar_iff]
    have hlo' : 97 ≤ c.toNat := UInt32.le_iff_toNat_le.mp hlo
    have hhi' : c.toNat ≤ 102 := UInt32.le_iff_toNat_le.mp hhi
    omega

theorem within_findAddress : Within isWordChar findAddress := by
  refine ⟨fun prev cs => ?_, fun prev u v hu huv => ?_, fun _ _ _ _ => rfl⟩
  · unfold findAddress
    split
    · rename_i rest
      have hzero : isWordChar '0' = true := by decide
      have hx : isWordChar 'x' = true := by decide
      have hle := length_takeWhile_le (fun c => isWordChar_of_isHexDigit (c := c)) rest
      rw [List.takeWhile_cons, if_pos hzero, List.takeWhile_cons, if_pos hx]
      simp only [List.length_cons]
      split <;> omega
    · exact Nat.zero_le _
  · have hzero : isWordChar '0' = true := by decide
    have hx : isWordChar 'x' = true := by decide
    cases u with
    | nil => exact absurd rfl hu
    | cons c u =>
        cases u with
        | nil =>
            by_cases hc : c = '0'
            · subst hc
              have hhead := huv hzero
              cases v with
              | nil => rfl
              | cons d v =>
                  have hd : d ≠ 'x' := by
                    rintro rfl
                    change isWordChar 'x' = false at hhead
                    rw [hx] at hhead
                    cases hhead
                  simp [findAddress, hd]
            · simp [findAddress, hc]
        | cons d rest =>
            by_cases hcd : c = '0' ∧ d = 'x'
            · obtain ⟨rfl, rfl⟩ := hcd
              have hrun : (rest ++ v).takeWhile isHexDigit = rest.takeWhile isHexDigit := by
                cases rest with
                | nil =>
                    have hhead := huv hx
                    cases v with
                    | nil => rfl
                    | cons e v =>
                        have he : ¬ isHexDigit e = true := by
                          intro he
                          have hword : isWordChar e = false := hhead
                          rw [isWordChar_of_isHexDigit he] at hword
                          cases hword
                        simp [he]
                | cons e rest =>
                    exact takeWhile_apart (fun c => isWordChar_of_isHexDigit) huv.tail.tail
                      (List.cons_ne_nil e rest)
              simp only [List.cons_append, findAddress, hrun]
            · rw [not_and] at hcd
              by_cases hc : c = '0'
              · simp [findAddress, hc, hcd hc]
              · simp [findAddress, hc]

theorem within_findId : Within isWordChar findId := by
  refine ⟨fun prev cs => ?_, fun prev u v hu huv => ?_, fun prev prev' cs hprev => ?_⟩
  · simp only [findId]
    split
    · exact length_takeWhile_le (fun c => isWordChar_of_isHexDigit) cs
    · exact Nat.zero_le _
  · have hrun := takeWhile_apart (fun c => isWordChar_of_isHexDigit (c := c)) huv hu
    have hnext : ((u ++ v).drop (u.takeWhile isHexDigit).length).head?.any isWordChar =
        (u.drop (u.takeWhile isHexDigit).length).head?.any isWordChar := by
      rcases Nat.lt_or_ge (u.takeWhile isHexDigit).length u.length with hlt | hge
      · rw [List.drop_append_of_le_length hlt.le, List.head?_append_of_ne_nil]
        simpa using hlt
      · have hall : u.takeWhile isHexDigit = u :=
          (List.takeWhile_prefix isHexDigit).eq_of_length_le hge
        rw [hall, List.drop_left, List.drop_length]
        refine huv ?_
        rw [List.getLast?_eq_some_getLast hu]
        exact isWordChar_of_isHexDigit (List.takeWhile_eq_self_iff.mp hall _ (List.getLast_mem hu))
    simp only [findId, hrun, hnext]
  · simp only [findId, hprev]

theorem within_digits : Within isWordChar (findRun Char.isDigit) :=
  within_findRun fun _ => isWordChar_of_isDigit

/-- A text is rewritten word by word. -/
theorem words_append {u v : List Char} (h : Apart isWordChar u v) :
    words (u ++ v) = words u ++ words v := by
  have hone := @apart_replaceAll _ _ mark within_findAddress _ _ h
  have htwo := @apart_replaceAll _ _ mark within_findId _ _ hone
  rw [words, replaceAll_apart within_findAddress h, replaceAll_apart within_findId hone,
    replaceAll_apart within_digits htwo]
  rfl

theorem words_separator {c : Char} (h : isWordChar c = false) : words [c] = [c] := by
  rw [words, replaceAll_of_not_inner within_findAddress h, replaceAll,
    replaceAll_of_not_inner within_findId h, replaceAll,
    replaceAll_of_not_inner within_digits h, replaceAll]

theorem words_cons {c : Char} (h : isWordChar c = false) (cs : List Char) :
    words (c :: cs) = c :: words cs := by
  have happart : Apart isWordChar [c] cs := fun hlast => by
    have hword : isWordChar c = true := hlast
    rw [h] at hword
    cases hword
  have hcons := words_append happart
  rwa [words_separator h] at hcons

theorem mem_words {cs : List Char} {x : Char} (h : x ∈ words cs) : x ∈ cs ∨ x = '#' := by
  have hmark : ∀ y : Char, y ∈ mark → y = '#' := fun y => List.mem_singleton.mp
  rcases mem_replaceAll 0 none _ x h with hin | hin
  · rcases mem_replaceAll 0 none _ x hin with hin | hin
    · exact (mem_replaceAll 0 none _ x hin).imp_right (hmark x)
    · exact Or.inr (hmark x hin)
  · exact Or.inr (hmark x hin)

theorem words_ne_nil {cs : List Char} (h : cs ≠ []) : words cs ≠ [] := by
  have hmark : mark ≠ [] := List.cons_ne_nil _ _
  exact replaceAll_ne_nil hmark none
    (replaceAll_ne_nil hmark none (replaceAll_ne_nil hmark none h))

/-! ### Values -/

theorem findAddress_of_not_mem {cs : List Char} (h : 'x' ∉ cs) (prev : Option Char) :
    findAddress prev cs = 0 := by
  unfold findAddress
  split
  · simp at h
  · rfl

theorem addresses_of_not_mem {cs : List Char} (h : 'x' ∉ cs) :
    replaceAll findAddress mark 0 none cs = cs :=
  replaceAll_none none fun prev _ hsuffix =>
    findAddress_of_not_mem (fun hx => h (hsuffix.subset hx)) prev

/-- Digits alone. -/
def IsNumber (v : List Char) : Prop := v ≠ [] ∧ ∀ c ∈ v, c.isDigit = true

/-- `0x` and hexadecimal digits. -/
def IsAddress (v : List Char) : Prop :=
  ∃ h, v = '0' :: 'x' :: h ∧ h ≠ [] ∧ ∀ c ∈ h, isHexDigit c = true

/-- Eight hexadecimal digits or more. -/
def IsHexId (v : List Char) : Prop := 8 ≤ v.length ∧ ∀ c ∈ v, isHexDigit c = true

theorem not_mem_x {v : List Char} (h : ∀ c ∈ v, isHexDigit c = true) : 'x' ∉ v := fun hx =>
  absurd (h 'x' hx) (by decide)

theorem takeWhile_length {p : Char → Bool} {v : List Char} (h : ∀ c ∈ v, p c = true) :
    (v.takeWhile p).length = v.length := by
  rw [List.takeWhile_eq_self_iff.mpr h]

theorem words_hexId {v : List Char} (h : IsHexId v) : words v = mark := by
  obtain ⟨hlength, hhex⟩ := h
  have hne : v ≠ [] := by
    rintro rfl
    simp at hlength
  have hid : findId none v = v.length := by
    simp only [findId, takeWhile_length hhex, List.drop_length]
    rw [if_pos ⟨hlength, rfl, rfl⟩]
  rw [words, addresses_of_not_mem (not_mem_x hhex), replaceAll_whole hne hid]
  decide

theorem words_address {v : List Char} (h : IsAddress v) : words v = mark := by
  obtain ⟨hex, rfl, hne, hhex⟩ := h
  have hfind : findAddress none ('0' :: 'x' :: hex) = ('0' :: 'x' :: hex).length := by
    simp only [findAddress, takeWhile_length hhex, List.length_cons]
    cases hn : hex.length with
    | zero => exact absurd (List.length_eq_zero_iff.mp hn) hne
    | succ n => rfl
  rw [words, replaceAll_whole (List.cons_ne_nil _ _) hfind]
  decide

theorem words_number {v : List Char} (h : IsNumber v) : words v = mark := by
  obtain ⟨hne, hdigits⟩ := h
  have hhex : ∀ c ∈ v, isHexDigit c = true := fun c hc => by simp [isHexDigit, hdigits c hc]
  rcases Nat.lt_or_ge v.length 8 with hshort | hlong
  · have hnone : replaceAll findId mark 0 none v = v := by
      refine replaceAll_none none fun prev rest hsuffix => ?_
      have hrest : rest.length < 8 := Nat.lt_of_le_of_lt hsuffix.length_le hshort
      have hrun : (rest.takeWhile isHexDigit).length ≤ rest.length :=
        (List.takeWhile_prefix isHexDigit).length_le
      simp only [findId]
      rw [if_neg (by omega)]
    rw [words, addresses_of_not_mem (not_mem_x hhex), hnone,
      replaceAll_whole hne (takeWhile_length hdigits)]
  · exact words_hexId ⟨hlong, hhex⟩

/-! ## Quotes -/

theorem quotes_prev (skip : Nat) (prev : Option Char) (cs : List Char) :
    replaceAll findQuoted gap skip prev cs = replaceAll findQuoted gap skip none cs := by
  refine replaceAll_prev (fun _ cs => ?_) skip prev cs
  cases cs <;> rfl

theorem quotes_cons {c : Char} (h : isQuote c = false) (cs : List Char) :
    quotes (c :: cs) = c :: quotes cs := by
  rw [quotes, replaceAll, findQuoted, h]
  simp only [Bool.false_and, Bool.false_eq_true, if_false]
  rw [quotes_prev]
  rfl

theorem quotes_append {u : List Char} (h : ∀ c ∈ u, isQuote c = false) (cs : List Char) :
    quotes (u ++ cs) = u ++ quotes cs := by
  induction u with
  | nil => rfl
  | cons c u ih =>
      rw [List.cons_append, quotes_cons (h c List.mem_cons_self),
        ih fun d hd => h d (List.mem_cons_of_mem c hd), List.cons_append]

theorem quotes_lone {q : Char} {cs : List Char} (h : q ∉ cs) :
    quotes (q :: cs) = q :: quotes cs := by
  have hcontains : cs.contains q = false := by simpa using h
  rw [quotes, replaceAll, findQuoted, hcontains, Bool.and_false]
  simp only [Bool.false_eq_true, if_false]
  rw [quotes_prev]
  rfl

theorem quotes_closed {q : Char} (hq : isQuote q = true) {c : List Char} (hc : q ∉ c)
    (cs : List Char) : quotes (q :: (c ++ q :: cs)) = gap ++ quotes cs := by
  have hrun : (c ++ q :: cs).takeWhile (fun x => x ≠ q) = c := by
    have hne : ∀ x ∈ c, decide (x ≠ q) = true := fun x hx =>
      decide_eq_true (ne_of_mem_of_not_mem hx hc)
    rw [List.takeWhile_append_of_pos hne]
    simp
  have hcontains : (c ++ q :: cs).contains q = true := by simp
  have hshape : c ++ q :: cs = (c ++ [q]) ++ cs := by simp
  have hlength : c.length + 1 = (c ++ [q]).length := by simp
  rw [quotes, replaceAll, findQuoted, hq, hcontains, Bool.and_self, if_pos rfl, hrun]
  simp only
  rw [hshape, hlength, replaceAll_skip, quotes_prev]
  rfl

/-! ## Messages that are cut alike -/

/-- Numbers, addresses, ids and quoted strings taken out, before white space and the cut. -/
def masked (cs : List Char) : List Char := quotes (words cs)

theorem isWordChar_of_isQuote {c : Char} (h : isQuote c = true) : isWordChar c = false := by
  simp only [isQuote, Bool.or_eq_true, decide_eq_true_eq] at h
  rcases h with rfl | rfl <;> decide

theorem isQuote_mark : isQuote '#' = false := by decide

/-- Two messages cut into the same pieces: text without quotes whose words are rewritten to the
same, quoted strings, and quotes that never close. -/
inductive Alike : List Char → List Char → Prop
  | nil : Alike [] []
  | words {u v s t : List Char} (hu : ∀ c ∈ u, isQuote c = false) (hv : ∀ c ∈ v, isQuote c = false)
      (hus : Apart isWordChar u s) (hvt : Apart isWordChar v t) (hsame : words u = words v)
      (h : Alike s t) : Alike (u ++ s) (v ++ t)
  | quoted {q q' : Char} {c d s t : List Char} (hq : isQuote q = true) (hq' : isQuote q' = true)
      (hc : q ∉ c) (hd : q' ∉ d) (h : Alike s t) :
      Alike (q :: (c ++ q :: s)) (q' :: (d ++ q' :: t))
  | lone {q : Char} {s t : List Char} (hq : isQuote q = true) (hs : q ∉ s) (ht : q ∉ t)
      (h : Alike s t) : Alike (q :: s) (q :: t)

theorem isQuote_of_mem_words {u : List Char} (hu : ∀ c ∈ u, isQuote c = false) :
    ∀ x ∈ words u, isQuote x = false := by
  intro x hx
  rcases mem_words hx with hin | rfl
  · exact hu x hin
  · exact isQuote_mark

theorem masked_words {u s : List Char} (hu : ∀ c ∈ u, isQuote c = false)
    (hus : Apart isWordChar u s) : masked (u ++ s) = words u ++ masked s := by
  rw [masked, words_append hus]
  exact quotes_append (isQuote_of_mem_words hu) _

theorem not_mem_words {q : Char} (hq : isQuote q = true) {cs : List Char} (h : q ∉ cs) :
    q ∉ words cs := by
  intro hin
  rcases mem_words hin with hmem | rfl
  · exact h hmem
  · exact absurd hq (by decide)

theorem masked_quoted {q : Char} (hq : isQuote q = true) {c : List Char} (hc : q ∉ c)
    (s : List Char) : masked (q :: (c ++ q :: s)) = gap ++ masked s := by
  have hword := isWordChar_of_isQuote hq
  have hcut : Apart isWordChar c (q :: s) := fun _ => hword
  rw [masked, words_cons hword, words_append hcut, words_cons hword,
    quotes_closed hq (not_mem_words hq hc)]
  rfl

theorem masked_lone {q : Char} (hq : isQuote q = true) {s : List Char} (hs : q ∉ s) :
    masked (q :: s) = q :: masked s := by
  rw [masked, words_cons (isWordChar_of_isQuote hq), quotes_lone (not_mem_words hq hs)]
  rfl

/-- What is cut alike is rewritten to the same. -/
theorem masked_of_alike {s t : List Char} (h : Alike s t) : masked s = masked t := by
  induction h with
  | nil => rfl
  | words hu hv hus hvt hsame _ ih => rw [masked_words hu hus, masked_words hv hvt, hsame, ih]
  | quoted hq hq' hc hd _ ih => rw [masked_quoted hq hc, masked_quoted hq' hd, ih]
  | lone hq hs ht _ ih => rw [masked_lone hq hs, masked_lone hq ht, ih]

/-- A number, an address or an id of hexadecimal digits. -/
def IsValue (v : List Char) : Prop := IsNumber v ∨ IsAddress v ∨ IsHexId v

theorem words_value {v : List Char} (h : IsValue v) : words v = mark := by
  rcases h with hnumber | haddress | hid
  · exact words_number hnumber
  · exact words_address haddress
  · exact words_hexId hid

theorem IsValue.isWordChar {v : List Char} (h : IsValue v) : ∀ c ∈ v, isWordChar c = true := by
  intro c hc
  rcases h with ⟨-, hdigits⟩ | ⟨hex, rfl, -, hhex⟩ | ⟨-, hhex⟩
  · exact isWordChar_of_isDigit (hdigits c hc)
  · rcases List.mem_cons.mp hc with rfl | hc
    · decide
    · rcases List.mem_cons.mp hc with rfl | hc
      · decide
      · exact isWordChar_of_isHexDigit (hhex c hc)
  · exact isWordChar_of_isHexDigit (hhex c hc)

/-- A value that stands by itself may be any other. -/
theorem alike_value {v w s t : List Char} (hv : IsValue v) (hw : IsValue w)
    (hs : s.head?.any isWordChar = false) (ht : t.head?.any isWordChar = false)
    (h : Alike s t) : Alike (v ++ s) (w ++ t) := by
  have hclean : ∀ {x : List Char}, IsValue x → ∀ c ∈ x, isQuote c = false := by
    intro x hx c hc
    by_contra hquote
    have hword := hx.isWordChar c hc
    rw [isWordChar_of_isQuote (Bool.not_eq_false _ ▸ hquote)] at hword
    cases hword
  exact .words (hclean hv) (hclean hw) (fun _ => hs) (fun _ => ht)
    ((words_value hv).trans (words_value hw).symm) h

/-! ### Nothing else is rewritten to the same -/

/-- A message, cut as the rewritings cut it. -/
inductive Cut : List Char → Prop
  | nil : Cut []
  | text {u s : List Char} (hne : u ≠ []) (hu : ∀ c ∈ u, isQuote c = false)
      (hs : ∀ c ∈ s.head?, isQuote c = true) (h : Cut s) : Cut (u ++ s)
  | quoted {q : Char} {c s : List Char} (hq : isQuote q = true) (hc : q ∉ c) (h : Cut s) :
      Cut (q :: (c ++ q :: s))
  | lone {q : Char} {s : List Char} (hq : isQuote q = true) (hs : q ∉ s) (h : Cut s) : Cut (q :: s)

theorem cut (s : List Char) : Cut s := by
  induction hn : s.length using Nat.strong_induction_on generalizing s with
  | _ n ih =>
      subst hn
      cases s with
      | nil => exact .nil
      | cons c s =>
          cases hquote : isQuote c with
          | false =>
              let p : Char → Bool := fun x => !isQuote x
              have hc : p c = true := by simp [p, hquote]
              have hlength : ((c :: s).dropWhile p).length < (c :: s).length := by
                rw [List.dropWhile_cons, if_pos hc]
                exact Nat.lt_succ_of_le (List.dropWhile_suffix p).length_le
              rw [← List.takeWhile_append_dropWhile (p := p) (l := c :: s)]
              refine .text ?_ (fun x hx => ?_) (fun x hx => ?_) (ih _ hlength _ rfl)
              · rw [List.takeWhile_cons, if_pos hc]
                exact List.cons_ne_nil _ _
              · simpa [p] using List.mem_takeWhile_imp hx
              · have hx' := List.head?_dropWhile_not p (c :: s)
                rw [hx] at hx'
                simpa [p] using hx'
          | true =>
              by_cases hin : c ∈ s
              · obtain ⟨u, v, rfl, hu⟩ := List.eq_append_cons_of_mem hin
                refine .quoted hquote hu (ih _ ?_ v rfl)
                simp only [List.length_cons, List.length_append]
                omega
              · exact .lone hquote hin (ih _ (Nat.lt_succ_self _) s rfl)

/-- Words end where text does. -/
theorem apart_of_quote {u s : List Char} (hs : ∀ c ∈ s.head?, isQuote c = true) :
    Apart isWordChar u s := apart_of_head u fun c hc => isWordChar_of_isQuote (hs c hc)

/-- What starts with a quote, or is nothing, still does when it is rewritten. -/
theorem head_masked {s : List Char} (hs : ∀ c ∈ s.head?, isQuote c = true) :
    ∀ c ∈ (masked s).head?, isQuote c = true := by
  cases cut s with
  | nil => exact hs
  | @text u s hne hu _ _ =>
      obtain ⟨c, u, rfl⟩ := List.exists_cons_of_ne_nil hne
      have hc := hs c rfl
      rw [hu c List.mem_cons_self] at hc
      cases hc
  | quoted hq hc _ =>
      rw [masked_quoted hq hc]
      rintro _ ⟨⟩
      rfl
  | lone hq hin _ =>
      rw [masked_lone hq hin]
      rintro _ ⟨⟩
      exact hq

theorem alike_refl (s : List Char) : Alike s s := by
  induction cut s with
  | nil => exact .nil
  | text hne hu hhead _ ih =>
      exact .words hu hu (apart_of_quote hhead) (apart_of_quote hhead) rfl ih
  | quoted hq hc _ ih => exact .quoted hq hq hc hc ih
  | lone hq hin _ ih => exact .lone hq hin hin ih

/-- The first piece of a rewritten message. -/
inductive Shape where
  | over
  | text
  | gap
  | quote (q : Char)

def shapeOf : List Char → Shape
  | '\'' :: '…' :: _ => .gap
  | c :: _ => if isQuote c then .quote c else .text
  | [] => .over

/-- What the first piece of a message is, told from its rewriting. -/
def Fits (s : List Char) : Shape → Prop
  | .over => s = []
  | .text => ∃ u s', s = u ++ s' ∧ (∀ c ∈ u, isQuote c = false) ∧ ∀ c ∈ s'.head?, isQuote c = true
  | .gap => ∃ q c s', s = q :: (c ++ q :: s') ∧ isQuote q = true ∧ q ∉ c
  | .quote q => ∃ s', s = q :: s' ∧ isQuote q = true ∧ q ∉ s'

theorem shapeOf_text {u : List Char} (hne : u ≠ []) (hu : ∀ c ∈ u, isQuote c = false)
    (more : List Char) : shapeOf (words u ++ more) = .text := by
  obtain ⟨x, xs, hwords⟩ := List.exists_cons_of_ne_nil (words_ne_nil hne)
  have hquote : isQuote x = false :=
    isQuote_of_mem_words hu x (by rw [hwords]; exact List.mem_cons_self)
  have hx : x ≠ '\'' := by
    rintro rfl
    exact absurd hquote (by decide)
  rw [hwords]
  simp [shapeOf, hx, hquote]

theorem shapeOf_quote {q : Char} (hq : isQuote q = true) {more : List Char}
    (hmore : '…' ∉ more.head?) : shapeOf (q :: more) = .quote q := by
  cases more with
  | nil => simp [shapeOf, hq]
  | cons x more =>
      have hx : x ≠ '…' := fun heq => hmore (by rw [heq]; rfl)
      simp [shapeOf, hq, hx]

/-- The mark of a quoted string is told from text that has no `…`. -/
theorem head_masked_ne {s : List Char} (hs : '…' ∉ s) : '…' ∉ (masked s).head? := by
  cases cut s with
  | nil => exact fun h => by cases h
  | @text u s hne hu _ h =>
      intro hhead
      rw [masked_words hu (apart_of_quote ‹_›)] at hhead
      obtain ⟨x, xs, hwords⟩ := List.exists_cons_of_ne_nil (words_ne_nil hne)
      rw [hwords] at hhead
      obtain rfl : x = '…' := Option.some.inj hhead
      have hmem : '…' ∈ words u := by
        rw [hwords]
        exact List.mem_cons_self
      rcases mem_words hmem with hin | heq
      · exact hs (List.mem_append_left s hin)
      · exact absurd heq (by decide)
  | quoted hq hc _ =>
      rw [masked_quoted hq hc]
      exact fun h => by cases h
  | lone hq hin _ =>
      rw [masked_lone hq hin]
      rintro ⟨⟩
      exact hs List.mem_cons_self

/-- The first piece is told from the rewriting. -/
theorem fits {s : List Char} (hs : '…' ∉ s) : Fits s (shapeOf (masked s)) := by
  cases cut s with
  | nil => rfl
  | @text u s hne hu hhead _ =>
      rw [masked_words hu (apart_of_quote hhead), shapeOf_text hne hu]
      exact ⟨u, s, rfl, hu, hhead⟩
  | @quoted q c s hq hc _ =>
      rw [masked_quoted hq hc]
      exact ⟨q, c, s, rfl, hq, hc⟩
  | @lone q s hq hin _ =>
      have hrest : '…' ∉ s := fun h => hs (List.mem_cons_of_mem q h)
      rw [masked_lone hq hin, shapeOf_quote hq (head_masked_ne hrest)]
      exact ⟨s, rfl, hq, hin⟩

/-- Text is told from what follows it. -/
theorem words_append_inj {u v m n : List Char} (hu : ∀ c ∈ u, isQuote c = false)
    (hv : ∀ c ∈ v, isQuote c = false) (hm : ∀ c ∈ m.head?, isQuote c = true)
    (hn : ∀ c ∈ n.head?, isQuote c = true) (h : words u ++ m = words v ++ n) :
    words u = words v ∧ m = n := by
  have hrun : ∀ {w r : List Char}, (∀ c ∈ w, isQuote c = false) →
      (∀ c ∈ r.head?, isQuote c = true) →
      (words w ++ r).takeWhile (fun x => !isQuote x) = words w := by
    intro w r hw hr
    rw [List.takeWhile_append_of_pos fun x hx => by simp [isQuote_of_mem_words hw x hx]]
    cases r with
    | nil => exact List.append_nil _
    | cons c r => simp [hr c rfl]
  have hsame : words u = words v := by
    rw [← hrun hu hm, h, hrun hv hn]
  refine ⟨hsame, ?_⟩
  rw [hsame] at h
  exact List.append_cancel_left h

/-- Messages that are rewritten to the same are cut alike. -/
theorem alike_of_masked {s t : List Char} (hs : '…' ∉ s) (ht : '…' ∉ t)
    (h : masked s = masked t) : Alike s t := by
  have hcut := cut s
  induction hcut generalizing t with
  | nil =>
      have hfits := fits ht
      rw [← h] at hfits
      obtain rfl : t = [] := hfits
      exact .nil
  | @text u s hne hu hhead _ ih =>
      have hfits := fits ht
      rw [← h, masked_words hu (apart_of_quote hhead), shapeOf_text hne hu] at hfits
      obtain ⟨v, t, rfl, hv, hhead'⟩ := hfits
      rw [masked_words hu (apart_of_quote hhead), masked_words hv (apart_of_quote hhead')] at h
      obtain ⟨hsame, hrest⟩ := words_append_inj hu hv (head_masked hhead) (head_masked hhead') h
      exact .words hu hv (apart_of_quote hhead) (apart_of_quote hhead') hsame
        (ih (fun hin => hs (List.mem_append_right u hin))
          (fun hin => ht (List.mem_append_right v hin)) hrest)
  | @quoted q c s hq hc _ ih =>
      have hfits := fits ht
      rw [← h, masked_quoted hq hc] at hfits
      obtain ⟨q', c', t, rfl, hq', hc'⟩ := hfits
      rw [masked_quoted hq hc, masked_quoted hq' hc'] at h
      exact .quoted hq hq' hc hc'
        (ih (fun hin => hs (by simp [hin])) (fun hin => ht (by simp [hin]))
          (List.append_cancel_left h))
  | @lone q s hq hin _ ih =>
      have hrest : '…' ∉ s := fun h => hs (List.mem_cons_of_mem q h)
      have hfits := fits ht
      rw [← h, masked_lone hq hin, shapeOf_quote hq (head_masked_ne hrest)] at hfits
      obtain ⟨t, rfl, -, hin'⟩ := hfits
      rw [masked_lone hq hin, masked_lone hq hin'] at h
      exact .lone hq hin hin'
        (ih hrest (fun hmem => ht (List.mem_cons_of_mem q hmem)) (List.cons.inj h).2)

/-! ## White space -/

theorem within_spaces : Within isJsSpace (findRun isJsSpace) := within_findRun fun _ h => h

theorem isJsSpace_of_isQuote {c : Char} (h : isQuote c = true) : isJsSpace c = false := by
  simp only [isQuote, Bool.or_eq_true, decide_eq_true_eq] at h
  rcases h with rfl | rfl <;> decide

theorem isQuote_of_isJsSpace {c : Char} (h : isJsSpace c = true) : isQuote c = false := by
  by_contra hquote
  rw [Bool.not_eq_false] at hquote
  rw [isJsSpace_of_isQuote hquote] at h
  cases h

theorem isWordChar_of_isJsSpace {c : Char} (h : isJsSpace c = true) : isWordChar c = false := by
  by_contra hword
  rw [Bool.not_eq_false, isWordChar_iff] at hword
  simp [isJsSpace] at h
  omega

theorem blanks_append {u v : List Char} (h : Apart isJsSpace u v) :
    blanks (u ++ v) = blanks u ++ blanks v := replaceAll_apart within_spaces h

theorem blanks_cons {c : Char} (h : isJsSpace c = false) (cs : List Char) :
    blanks (c :: cs) = c :: blanks cs := by
  rw [blanks, replaceAll_of_not_inner within_spaces h, replaceAll_prev fun _ _ => rfl]
  rfl

theorem blanks_of_none {u : List Char} (h : ∀ c ∈ u, isJsSpace c = false) : blanks u = u := by
  induction u with
  | nil => rfl
  | cons c u ih =>
      rw [blanks_cons (h c List.mem_cons_self), ih fun d hd => h d (List.mem_cons_of_mem c hd)]

theorem blanks_append_left {u : List Char} (h : ∀ c ∈ u, isJsSpace c = false) (v : List Char) :
    blanks (u ++ v) = u ++ blanks v := by
  have hlast : Apart isJsSpace u v :=
    apart_of_last (fun c hc => h c (List.mem_of_mem_getLast? hc)) v
  rw [blanks_append hlast, blanks_of_none h]

theorem blanks_run {u : List Char} (hne : u ≠ []) (h : ∀ c ∈ u, isJsSpace c = true) :
    blanks u = [' '] := replaceAll_whole hne (takeWhile_length h)

theorem mem_blanks {cs : List Char} {x : Char} (h : x ∈ blanks cs) : x ∈ cs ∨ x = ' ' :=
  (mem_replaceAll 0 none cs x h).imp_right List.mem_singleton.mp

theorem head_blanks {cs : List Char} : ∀ x ∈ (blanks cs).head?, cs.head? = some x ∨ x = ' ' := by
  intro x hx
  rcases head?_replaceAll (List.cons_ne_nil _ _) none cs x hx with hhead | hput
  · exact Or.inl hhead
  · exact Or.inr (Option.some.inj hput).symm

theorem isJsSpace_of_mem_gap : ∀ c ∈ gap, isJsSpace c = false := by
  intro c hc
  simp only [gap, List.mem_cons, List.not_mem_nil, or_false] at hc
  rcases hc with rfl | rfl | rfl <;> decide

theorem isJsSpace_of_mem_words {u : List Char} (hu : ∀ c ∈ u, isJsSpace c = false) :
    ∀ x ∈ words u, isJsSpace x = false := by
  intro x hx
  rcases mem_words hx with hin | rfl
  · exact hu x hin
  · decide

theorem words_of_spaces {u : List Char} (h : ∀ c ∈ u, isJsSpace c = true) : words u = u := by
  induction u with
  | nil => rfl
  | cons c u ih =>
      rw [words_cons (isWordChar_of_isJsSpace (h c List.mem_cons_self)),
        ih fun d hd => h d (List.mem_cons_of_mem c hd)]

theorem head_words {cs : List Char} : ∀ x ∈ (words cs).head?, cs.head? = some x ∨ x = '#' := by
  intro x hx
  have hmark : mark ≠ [] := List.cons_ne_nil _ _
  have hput : mark.head? = some x → x = '#' := fun h => (Option.some.inj h).symm
  rcases head?_replaceAll hmark none _ x hx with hthree | hin
  · rcases head?_replaceAll hmark none _ x hthree with htwo | hin
    · exact (head?_replaceAll hmark none _ x htwo).imp_right hput
    · exact Or.inr (hput hin)
  · exact Or.inr (hput hin)

/-- Words are rewritten alike whatever white space is between them. -/
theorem words_blanks (s : List Char) : words (blanks s) = blanks (words s) := by
  induction s using runs_induction isJsSpace with
  | nil => rfl
  | run b u v hne hu hv ih =>
      cases b with
      | true =>
          have hspace : Apart isJsSpace u v := apart_of_head u hv
          have hword : Apart isWordChar u v := apart_of_last
            (fun c hc => isWordChar_of_isJsSpace (hu c (List.mem_of_mem_getLast? hc))) v
          have hafter : Apart isJsSpace u (words v) := by
            refine apart_of_head u fun c hc => ?_
            rcases head_words c hc with hhead | rfl
            · exact hv c hhead
            · decide
          rw [blanks_append hspace, blanks_run hne hu, words_append hword, words_of_spaces hu,
            blanks_append hafter, blanks_run hne hu, ← ih]
          exact words_cons (by decide) (blanks v)
      | false =>
          have hword : Apart isWordChar u v :=
            apart_of_head u fun c hc => isWordChar_of_isJsSpace (hv c hc)
          have hblank : Apart isWordChar u (blanks v) := by
            refine apart_of_head u fun c hc => ?_
            rcases head_blanks c hc with hhead | rfl
            · exact isWordChar_of_isJsSpace (hv c hhead)
            · decide
          rw [blanks_append_left hu, words_append hblank, words_append hword,
            blanks_append_left (isJsSpace_of_mem_words hu), ih]

/-- Messages are rewritten alike whatever white space is in them. -/
theorem masked_blanks (s : List Char) : masked (blanks s) = blanks (masked s) := by
  induction cut s with
  | nil => rfl
  | @text u s hne hu hhead _ ih =>
      have hspace : Apart isJsSpace u s :=
        apart_of_head u fun c hc => isJsSpace_of_isQuote (hhead c hc)
      have hclean : ∀ c ∈ blanks u, isQuote c = false := by
        intro c hc
        rcases mem_blanks hc with hin | rfl
        · exact hu c hin
        · decide
      have hword : Apart isWordChar (blanks u) (blanks s) := by
        refine apart_of_head _ fun c hc => ?_
        rcases head_blanks c hc with hin | rfl
        · exact isWordChar_of_isQuote (hhead c hin)
        · decide
      have hafter : Apart isJsSpace (words u) (masked s) :=
        apart_of_head _ fun c hc => isJsSpace_of_isQuote (head_masked hhead c hc)
      rw [blanks_append hspace, masked_words hclean hword, masked_words hu (apart_of_quote hhead),
        blanks_append hafter, words_blanks, ih]
  | @quoted q c s hq hc _ ih =>
      have hspace := isJsSpace_of_isQuote hq
      have hcut : Apart isJsSpace c (q :: s) := apart_of_head c fun x hx => by
        obtain rfl := Option.some.inj hx
        exact hspace
      have hclean : q ∉ blanks c := by
        intro hin
        rcases mem_blanks hin with hmem | rfl
        · exact hc hmem
        · exact absurd hq (by decide)
      rw [blanks_cons hspace, blanks_append hcut, blanks_cons hspace, masked_quoted hq hclean,
        masked_quoted hq hc, blanks_append_left isJsSpace_of_mem_gap, ih]
  | @lone q s hq hin _ ih =>
      have hspace := isJsSpace_of_isQuote hq
      have hclean : q ∉ blanks s := by
        intro hmem
        rcases mem_blanks hmem with hmem | rfl
        · exact hin hmem
        · exact absurd hq (by decide)
      rw [blanks_cons hspace, masked_lone hq hclean, masked_lone hq hin, blanks_cons hspace, ih]

/-- A blank behind a message stays behind it. -/
theorem masked_concat {c : Char} (h : isJsSpace c = true) (s : List Char) :
    masked (s ++ [c]) = masked s ++ [c] := by
  have hquote := isQuote_of_isJsSpace h
  have hword := isWordChar_of_isJsSpace h
  have hone : masked [c] = [c] := by
    rw [masked, words_separator hword, quotes_cons hquote]
    rfl
  induction cut s with
  | nil => exact hone
  | @text u s hne hu hhead _ ih =>
      have hcut : Apart isWordChar u (s ++ [c]) := by
        refine apart_of_head u fun x hx => ?_
        rw [List.head?_append] at hx
        cases hs : s.head? with
        | none =>
            rw [hs] at hx
            obtain rfl := Option.some.inj hx
            exact hword
        | some y =>
            rw [hs] at hx
            obtain rfl := Option.some.inj hx
            exact isWordChar_of_isQuote (hhead y hs)
      rw [List.append_assoc, masked_words hu hcut, ih, masked_words hu (apart_of_quote hhead),
        List.append_assoc]
  | @quoted q d s hq hd _ ih =>
      rw [List.cons_append, List.append_assoc, List.cons_append, masked_quoted hq hd, ih,
        masked_quoted hq hd, List.append_assoc]
  | @lone q s hq hin _ ih =>
      have hmore : q ∉ s ++ [c] := by
        rw [List.mem_append, List.mem_singleton]
        rintro (hmem | rfl)
        · exact hin hmem
        · rw [hq] at hquote
          cases hquote
      rw [List.cons_append, masked_lone hq hmore, ih, masked_lone hq hin, List.cons_append]

/-- White space taken off both ends. -/
def trimmed (cs : List Char) : List Char := (cs.dropWhile isJsSpace).rdropWhile isJsSpace

theorem head?_masked {s : List Char} : ∀ x ∈ (masked s).head?,
    s.head? = some x ∨ x = '#' ∨ x = '\'' := by
  intro x hx
  rcases head?_replaceAll (List.cons_ne_nil _ _) none _ x hx with hhead | hput
  · exact (head_words x hhead).imp_right Or.inl
  · exact Or.inr (Or.inr (Option.some.inj hput).symm)

theorem getLast?_masked {s : List Char} : ∀ x ∈ (masked s).getLast?,
    s.getLast? = some x ∨ x = '#' ∨ x = '\'' := by
  intro x hx
  have hmark : mark ≠ [] := List.cons_ne_nil _ _
  have hput : mark.getLast? = some x → x = '#' := fun h => (Option.some.inj h).symm
  rcases getLast?_replaceAll (List.cons_ne_nil _ _) 0 none _ x hx with hlast | hgap
  · rcases getLast?_replaceAll hmark 0 none _ x hlast with hthree | hin
    · rcases getLast?_replaceAll hmark 0 none _ x hthree with htwo | hin
      · exact (getLast?_replaceAll hmark 0 none _ x htwo).imp_right fun h => Or.inl (hput h)
      · exact Or.inr (Or.inl (hput hin))
    · exact Or.inr (Or.inl (hput hin))
  · exact Or.inr (Or.inr (Option.some.inj hgap).symm)

theorem masked_dropWhile (s : List Char) :
    masked (s.dropWhile isJsSpace) = (masked s).dropWhile isJsSpace := by
  induction s with
  | nil => rfl
  | cons c s ih =>
      by_cases hc : isJsSpace c = true
      · have hmasked : masked (c :: s) = c :: masked s := by
          rw [masked, words_cons (isWordChar_of_isJsSpace hc),
            quotes_cons (isQuote_of_isJsSpace hc)]
          rfl
        rw [hmasked, List.dropWhile_cons_of_pos hc, List.dropWhile_cons_of_pos hc, ih]
      · rw [List.dropWhile_cons_of_neg hc]
        have hhead := @head?_masked (c :: s)
        cases hmasked : masked (c :: s) with
        | nil => rfl
        | cons d more =>
            rw [hmasked] at hhead
            have hd : ¬ isJsSpace d = true := by
              rcases hhead d rfl with heq | rfl | rfl
              · rwa [← Option.some.inj heq]
              · decide
              · decide
            rw [List.dropWhile_cons_of_neg hd]

theorem masked_rdropWhile (s : List Char) :
    masked (s.rdropWhile isJsSpace) = (masked s).rdropWhile isJsSpace := by
  induction s using List.reverseRecOn with
  | nil => rfl
  | append_singleton s c ih =>
      by_cases hc : isJsSpace c = true
      · rw [List.rdropWhile_concat_pos _ _ _ hc, masked_concat hc,
          List.rdropWhile_concat_pos _ _ _ hc, ih]
      · rw [List.rdropWhile_concat_neg _ _ _ hc, eq_comm, List.rdropWhile_eq_self_iff]
        intro hne hspace
        rcases getLast?_masked _ (List.getLast?_eq_some_getLast hne) with heq | heq | heq
        · rw [List.getLast?_concat] at heq
          rw [← Option.some.inj heq] at hspace
          exact hc hspace
        · rw [heq] at hspace
          exact absurd hspace (by decide)
        · rw [heq] at hspace
          exact absurd hspace (by decide)

/-- A message with its white space as the rewritings leave it. -/
def tidy (cs : List Char) : List Char := trimmed (blanks cs)

/-- White space is tidied alike before the words and quotes are rewritten and after. -/
theorem masked_tidy (s : List Char) : masked (tidy s) = tidy (masked s) := by
  rw [tidy, tidy, trimmed, trimmed, masked_rdropWhile, masked_dropWhile, masked_blanks]

theorem mem_tidy {s : List Char} {x : Char} (h : x ∈ tidy s) : x ∈ s ∨ x = ' ' := by
  have hdrop : x ∈ (blanks s).dropWhile isJsSpace :=
    (List.rdropWhile_prefix isJsSpace _).subset h
  exact mem_blanks ((List.dropWhile_suffix isJsSpace).subset hdrop)

theorem jsTrim_ofList (cs : List Char) :
    jsTrim (String.ofList cs) = String.ofList (trimmed cs) := by
  rw [jsTrim, String.toList_ofList]
  rfl

/-! ## Crashes -/

variable (js : Js)

/-- Crashes are fingerprinted without the screen. -/
def fingerprint (sha1 : String → String) (app surface screen : String) (check : CheckName)
    (key : String) : String :=
  let place := if check = .crash ∨ check = .anr then "*" else screen
  sha1 ("|".intercalate [app, surface, place, check.text, normalizeMessage js key])

/-- `checkAgain` for a crash or an ANR: some crash of the replay has the same message. -/
def crashAgain (check : CheckName) (key : String) (count : Nat) (signatures : List String) : Bool :=
  let same := signatures.any fun s => decide (normalizeMessage js s = normalizeMessage js key)
  decide (0 < count) && (same || decide (check = .anr))

/-- A message in lower case, its white space tidied. -/
def tidied (m : String) : List Char := tidy (js.lower m).toList

/-- The two messages are cut alike once they are in lower case and their white space is tidied. -/
def CutAlike (m m' : String) : Prop := Alike (tidied js m) (tidied js m')

/-- A text without the character that stands for a quoted string. -/
def Plain (m : String) : Prop := '…' ∉ (js.lower m).toList

/-- What is left of the message is all within the cut. -/
def Short (m : String) : Prop := unitsOf (masked (tidied js m)) ≤ 200

theorem normalizeMessage_eq (m : String) :
    normalizeMessage js m = jsSlice (String.ofList (masked (tidied js m))) 200 := by
  rw [normalizeMessage, jsTrim_ofList, tidied, masked_tidy]
  rfl

theorem crashAgain_crash {count : Nat} (hcount : 0 < count) (m m' : String) :
    crashAgain js .crash m count [m'] = true ↔ normalizeMessage js m = normalizeMessage js m' := by
  simp [crashAgain, hcount, eq_comm]

theorem normalizeMessage_of_short {m : String} (h : Short js m) :
    normalizeMessage js m = String.ofList (masked (tidied js m)) := by
  rw [normalizeMessage_eq, jsSlice_of_le]
  rwa [jsLength, String.toList_ofList]

theorem plain_tidied {m : String} (h : Plain js m) : '…' ∉ tidied js m := by
  intro hin
  rcases mem_tidy hin with hmem | heq
  · exact h hmem
  · exact absurd heq (by decide)

/-- Messages that are cut alike are normalized to the same, so a crash with either has one
fingerprint and is recognised by the other. Of the messages that the cut leaves whole, no others
are. -/
theorem normalize_iff_cutAlike (m m' : String) :
    (CutAlike js m m' →
      normalizeMessage js m = normalizeMessage js m' ∧
        (∀ sha1 app surface screen check, fingerprint js sha1 app surface screen check m =
          fingerprint js sha1 app surface screen check m') ∧
        ∀ check count signatures, 0 < count → m' ∈ signatures →
          crashAgain js check m count signatures = true) ∧
      (Plain js m → Plain js m' → Short js m → Short js m' →
        (normalizeMessage js m = normalizeMessage js m' ↔ CutAlike js m m') ∧
        ∀ count, 0 < count → (crashAgain js .crash m count [m'] = true ↔ CutAlike js m m')) := by
  have hforward : CutAlike js m m' → normalizeMessage js m = normalizeMessage js m' := by
    intro h
    rw [normalizeMessage_eq, normalizeMessage_eq, masked_of_alike h]
  refine ⟨fun h => ⟨hforward h, fun sha1 app surface screen check => ?_,
    fun check count signatures hcount hin => ?_⟩, fun hm hm' hs hs' => ?_⟩
  · rw [fingerprint, fingerprint, hforward h]
  · have hany : (signatures.any fun s =>
        decide (normalizeMessage js s = normalizeMessage js m)) = true :=
      List.any_eq_true.mpr ⟨m', hin, decide_eq_true (hforward h).symm⟩
    simp [crashAgain, hcount, hany]
  · have hiff : normalizeMessage js m = normalizeMessage js m' ↔ CutAlike js m m' := by
      refine ⟨fun h => ?_, hforward⟩
      rw [normalizeMessage_of_short js hs, normalizeMessage_of_short js hs'] at h
      exact alike_of_masked (plain_tidied js hm) (plain_tidied js hm') (String.ofList_injective h)
    exact ⟨hiff, fun count hcount => (crashAgain_crash js hcount m m').trans hiff⟩

/-- Two timeouts of different length are one crash; two files that could not be opened are two,
since the apostrophe of the text closes the quote before the name. -/
theorem normalize_iff_cutAlike_timeouts :
    normalizeMessage Js.plain "Timeout after 30 ms" =
        normalizeMessage Js.plain "Timeout after 5000 ms" ∧
      ¬ CutAlike Js.plain "Can't open 'a'" "Can't open 'b'" := by
  have hcut : CutAlike Js.plain "Timeout after 30 ms" "Timeout after 5000 ms" := by
    have hleft : tidied Js.plain "Timeout after 30 ms" =
        "timeout after ".toList ++ ("30".toList ++ " ms".toList) := by decide +kernel
    have hright : tidied Js.plain "Timeout after 5000 ms" =
        "timeout after ".toList ++ ("5000".toList ++ " ms".toList) := by decide +kernel
    rw [CutAlike, hleft, hright]
    have hclean : "timeout after ".toList.any isQuote = false := by decide +kernel
    have hquote : ∀ c ∈ "timeout after ".toList, isQuote c = false := fun c hc => by
      simpa using List.any_eq_false.mp hclean c hc
    have hnumber : ∀ {v : List Char}, v ≠ [] → v.all Char.isDigit = true → IsValue v :=
      fun hne hall => Or.inl ⟨hne, List.all_eq_true.mp hall⟩
    have hlast : ("timeout after ".toList.getLast?.any isWordChar) = false := by decide +kernel
    have hapart : ∀ s, Apart isWordChar "timeout after ".toList s := fun s h => by
      rw [hlast] at h
      cases h
    exact .words hquote hquote (hapart _) (hapart _) rfl
      (alike_value (hnumber (by decide) (by decide)) (hnumber (by decide) (by decide))
        (by decide) (by decide) (alike_refl _))
  refine ⟨((normalize_iff_cutAlike Js.plain _ _).1 hcut).1, fun hcut => ?_⟩
  have hiff := (normalize_iff_cutAlike Js.plain "Can't open 'a'" "Can't open 'b'").2
    (by unfold Plain; decide +kernel) (by unfold Plain; decide +kernel)
    (by unfold Short; decide +kernel) (by unfold Short; decide +kernel)
  have hsame := hiff.1.mpr hcut
  revert hsame
  decide +kernel

/-- What stands in a hole of a message's text. -/
inductive Kind where
  | number
  | address
  | id
  | quoted

/-- A hexadecimal digit of a message, before it is put in lower case. -/
def IsHex (c : Char) : Prop := isHexDigit c.toLower = true

def IsUuid (v : List Char) : Prop :=
  ∃ a b c d e, v = a ++ '-' :: (b ++ '-' :: (c ++ '-' :: (d ++ '-' :: e))) ∧
    [a, b, c, d, e].map List.length = [8, 4, 4, 4, 12] ∧ ∀ x ∈ a ++ b ++ c ++ d ++ e, IsHex x

/-- The values of a kind. -/
def Kind.Holds : Kind → List Char → Prop
  | .number, v => IsNumber v ∨ ∃ a b, v = a ++ '.' :: b ∧ IsNumber a ∧ IsNumber b
  | .address, v => ∃ h, v = '0' :: 'x' :: h ∧ h ≠ [] ∧ ∀ c ∈ h, IsHex c
  | .id, v => 8 ≤ v.length ∧ (∀ c ∈ v, IsHex c) ∨ IsUuid v
  | .quoted, v => ∃ q c, isQuote q = true ∧ v = q :: (c ++ [q])

inductive Part where
  | text (u : List Char)
  | hole (k : Kind)

/-- Two messages of one template, whose holes are filled each in its own way. -/
inductive Filled : List Part → List Char → List Char → Prop
  | nil : Filled [] [] []
  | text {u s t : List Char} {more : List Part} (h : Filled more s t) :
      Filled (.text u :: more) (u ++ s) (u ++ t)
  | hole {k : Kind} {v w s t : List Char} {more : List Part} (hv : k.Holds v) (hw : k.Holds w)
      (h : Filled more s t) : Filled (.hole k :: more) (v ++ s) (w ++ t)

/-- Filled so that the rewritings find each hole as a whole: a number, an address or an id stands
between other characters, and a quoted string does not hold its own mark. -/
inductive FilledApart : List Part → List Char → List Char → Prop
  | nil : FilledApart [] [] []
  | text {u s t : List Char} {more : List Part} (hu : ∀ c ∈ u, isQuote c = false)
      (hs : Apart isWordChar u s) (ht : Apart isWordChar u t) (h : FilledApart more s t) :
      FilledApart (.text u :: more) (u ++ s) (u ++ t)
  | value {k : Kind} {v w s t : List Char} {more : List Part} (hv : k.Holds v ∧ IsValue v)
      (hw : k.Holds w ∧ IsValue w) (hs : s.head?.any isWordChar = false)
      (ht : t.head?.any isWordChar = false) (h : FilledApart more s t) :
      FilledApart (.hole k :: more) (v ++ s) (w ++ t)
  | quoted {q q' : Char} {c d s t : List Char} {more : List Part} (hq : isQuote q = true)
      (hq' : isQuote q' = true) (hc : q ∉ c) (hd : q' ∉ d) (h : FilledApart more s t) :
      FilledApart (.hole .quoted :: more) (q :: (c ++ [q]) ++ s) (q' :: (d ++ [q']) ++ t)

theorem FilledApart.filled {template : List Part} {s t : List Char}
    (h : FilledApart template s t) : Filled template s t := by
  induction h with
  | nil => exact .nil
  | text hu hs ht _ ih => exact .text ih
  | value hv hw hs ht _ ih => exact .hole hv.1 hw.1 ih
  | quoted hq hq' hc hd _ ih => exact .hole ⟨_, _, hq, rfl⟩ ⟨_, _, hq', rfl⟩ ih

theorem FilledApart.alike {template : List Part} {s t : List Char}
    (h : FilledApart template s t) : Alike s t := by
  induction h with
  | nil => exact .nil
  | text hu hs ht _ ih => exact .words hu hu hs ht rfl ih
  | value hv hw hs ht _ ih => exact alike_value hv.2 hw.2 hs ht ih
  | quoted hq hq' hc hd _ ih => simpa using Alike.quoted hq hq' hc hd ih

/-- A template so filled in two ways is one crash. -/
theorem normalizeMessage_filledApart {js : Js} {template : List Part} {m m' : String}
    (h : FilledApart template (tidied js m) (tidied js m')) :
    normalizeMessage js m = normalizeMessage js m' := by
  rw [normalizeMessage_eq, normalizeMessage_eq, masked_of_alike h.alike]

/-- Two messages of one template that are normalized apart. -/
theorem apostrophe_splits_crash :
    ¬ ∀ template m m', Filled template m m' →
      normalizeMessage Js.plain (String.ofList m) =
        normalizeMessage Js.plain (String.ofList m') := by
  intro hall
  have hfilled : Filled [.text "can't open ".toList, .hole .quoted]
      ("can't open ".toList ++ ("'a'".toList ++ []))
      ("can't open ".toList ++ ("'b'".toList ++ [])) :=
    .text (.hole ⟨'\'', ['a'], by decide, rfl⟩ ⟨'\'', ['b'], by decide, rfl⟩ .nil)
  have hsame := hall _ _ _ hfilled
  revert hsame
  decide +kernel

end FleetRunner.Explore.Normalize
