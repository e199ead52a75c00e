import FleetRunner.Library.Regex
import Mathlib.Logic.Relation

/-!
# Expressions with groups

An expression of a backtracking engine, with all its matches at a place in the
order in which the engine tries them. What the engine finds is the first match at
the first place that has one. An expression that asks only what is left to read
finds something exactly where it reads something.

## Implementation notes

A loop goes on only while it reads something. Groups are numbered in the order in
which they close.
-/

namespace FleetRunner.Library.Backtrack

inductive Re where
  | eps
  | chr (p : Char → Bool)
  | seq (a b : Re)
  | alt (a b : Re)
  | star (greedy : Bool) (a : Re)
  | group (a : Re)
  | wordBoundary
  | lineStart (isBreak : Char → Bool)
  | textEnd

/-- Where a match has got to: the character before, what is left, and what the groups hold. -/
structure Cursor where
  prev : Option Char
  rest : List Char
  groups : List (List Char)

/-- The matches of a loop, each round with the step's. -/
def repeated (step : Cursor → List Cursor) (greedy : Bool) : Nat → Cursor → List Cursor
  | 0, s => [s]
  | k + 1, s =>
    let more := ((step s).filter fun t => decide (t.rest.length < s.rest.length)).flatMap
      (repeated step greedy k)
    if greedy then more ++ [s] else s :: more

namespace Re

/-- The matches at a place, the engine's first choice first. -/
def run : Re → Cursor → List Cursor
  | .eps, s => [s]
  | .chr p, s =>
    match s.rest with
    | [] => []
    | c :: tail => if p c then [{ s with prev := some c, rest := tail }] else []
  | .seq a b, s => (a.run s).flatMap b.run
  | .alt a b, s => a.run s ++ b.run s
  | .star greedy a, s => repeated a.run greedy s.rest.length s
  | .group a, s => (a.run s).map fun t =>
      { t with groups := t.groups ++ [s.rest.take (s.rest.length - t.rest.length)] }
  | .wordBoundary, s => if boundary s.prev s.rest.head? then [s] else []
  | .lineStart isBreak, s => if s.prev.all isBreak then [s] else []
  | .textEnd, s => if s.rest = [] then [s] else []

/-- The first match from a place on: the text where it starts, and where it ends. -/
def search (r : Re) : Option Char → List Char → Option (List Char × Cursor)
  | prev, [] => (r.run ⟨prev, [], []⟩).head?.map ([], ·)
  | prev, c :: tail =>
    match (r.run ⟨prev, c :: tail, []⟩).head? with
    | some s => some (c :: tail, s)
    | none => r.search (some c) tail

/-- `re.test(text)` -/
def test (r : Re) (text : List Char) : Bool := (r.search none text).isSome

/-- `re.exec(text)?.[1]` -/
def exec1 (r : Re) (text : List Char) : Option (List Char) :=
  (r.search none text).bind fun m => m.2.groups.head?

/-! ## Shorthands -/

def lit (cs : List Char) : Re := cs.foldr (fun c r => .seq (.chr (· = c)) r) .eps

def many (p : Char → Bool) : Re := .star true (.chr p)

def many1 (p : Char → Bool) : Re := .seq (.chr p) (many p)

/-- The expressions one after the other. -/
def all (rs : List Re) : Re := rs.foldr .seq .eps

def opt (r : Re) : Re := .alt r .eps

end Re

/-! ## What an expression reads -/

namespace Re

/-- The expression asks nothing of what stands before it or of the end of the text. -/
def Plain : Re → Prop
  | .eps | .chr _ => True
  | .seq a b | .alt a b => a.Plain ∧ b.Plain
  | .star _ a | .group a => a.Plain
  | .wordBoundary | .lineStart _ | .textEnd => False

/-- The expression reads the first text down to the second. -/
def Reads : Re → List Char → List Char → Prop
  | .eps, t, u => t = u
  | .chr p, t, u => ∃ c, p c = true ∧ t = c :: u
  | .seq a b, t, u => ∃ m, a.Reads t m ∧ b.Reads m u
  | .alt a b, t, u => a.Reads t u ∨ b.Reads t u
  | .star _ a, t, u => Relation.ReflTransGen a.Reads t u
  | .group a, t, u => a.Reads t u
  | .wordBoundary, _, _ | .lineStart _, _, _ | .textEnd, _, _ => False

theorem Reads.suffix {r : Re} {t u : List Char} (h : r.Reads t u) : u <:+ t := by
  induction r generalizing t u with
  | eps => exact h ▸ List.suffix_rfl
  | chr p =>
    obtain ⟨c, -, rfl⟩ := h
    exact List.suffix_cons c u
  | seq a b iha ihb =>
    obtain ⟨m, ha, hb⟩ := h
    exact (ihb hb).trans (iha ha)
  | alt a b iha ihb => exact h.elim iha ihb
  | star g a iha =>
    induction h with
    | refl => exact List.suffix_rfl
    | tail _ hlast ih => exact (iha hlast).trans ih
  | group a iha => exact iha h
  | wordBoundary | lineStart _ | textEnd => exact h.elim

end Re

section Loop

variable {step : Cursor → List Cursor} {greedy : Bool}

theorem mem_repeated_succ {k : Nat} {s v : Cursor} : v ∈ repeated step greedy (k + 1) s ↔
    v = s ∨ ∃ w ∈ step s, w.rest.length < s.rest.length ∧ v ∈ repeated step greedy k w := by
  cases greedy <;> simp [repeated, and_assoc, or_comm]

/-- The rounds that read nothing are not needed. -/
theorem mem_repeated_iff {R : List Char → List Char → Prop}
    (hstep : ∀ s u, (∃ v ∈ step s, v.rest = u) ↔ R s.rest u)
    (hsuffix : ∀ t u, R t u → u <:+ t) {k : Nat} {s : Cursor} (hk : s.rest.length ≤ k)
    (u : List Char) :
    (∃ v ∈ repeated step greedy k s, v.rest = u) ↔ Relation.ReflTransGen R s.rest u := by
  constructor
  · rintro ⟨v, hv, rfl⟩
    clear hk
    induction k generalizing s with
    | zero => exact List.mem_singleton.mp hv ▸ .refl
    | succ k ih =>
      obtain rfl | ⟨w, hw, -, hv⟩ := mem_repeated_succ.mp hv
      · exact .refl
      · exact .head ((hstep s w.rest).mp ⟨w, hw, rfl⟩) (ih hv)
  · intro hread
    generalize ht : s.rest = t at hread
    induction hread using Relation.ReflTransGen.head_induction_on generalizing s k with
    | refl =>
      refine ⟨s, ?_, ht⟩
      cases k with
      | zero => exact List.mem_singleton_self s
      | succ k => exact mem_repeated_succ.mpr (Or.inl rfl)
    | @head t m hfirst _ ih =>
      by_cases hm : m = t
      · exact ih hk (ht.trans hm.symm)
      · subst ht
        have hlt : m.length < s.rest.length :=
          Nat.lt_of_le_of_ne (hsuffix _ _ hfirst).length_le
            fun hlen => hm ((hsuffix _ _ hfirst).eq_of_length hlen)
        obtain ⟨w, hw, rfl⟩ := (hstep s m).mpr hfirst
        obtain ⟨j, rfl⟩ : ∃ j, k = j + 1 := ⟨k - 1, by omega⟩
        obtain ⟨v, hv, hrest⟩ := ih (k := j) (s := w) (by omega) rfl
        exact ⟨v, mem_repeated_succ.mpr (Or.inr ⟨w, hw, hlt, hv⟩), hrest⟩

end Loop

namespace Re

/-- The engine's matches are what the expression reads. -/
theorem exists_mem_run_iff {r : Re} (hr : r.Plain) (s : Cursor) (u : List Char) :
    (∃ v ∈ r.run s, v.rest = u) ↔ r.Reads s.rest u := by
  induction r generalizing s u with
  | eps => simp [run, Reads]
  | chr p =>
    obtain ⟨prev, rest, groups⟩ := s
    cases rest with
    | nil => simp [run, Reads]
    | cons c tail =>
      cases hp : p c with
      | false => simp [run, Reads, hp]
      | true => simp [run, Reads, hp]
  | seq a b iha ihb =>
    constructor
    · rintro ⟨v, hv, rfl⟩
      obtain ⟨w, hw, hv⟩ := List.mem_flatMap.mp hv
      exact ⟨w.rest, (iha hr.1 s w.rest).mp ⟨w, hw, rfl⟩, (ihb hr.2 w v.rest).mp ⟨v, hv, rfl⟩⟩
    · rintro ⟨m, ha, hb⟩
      obtain ⟨w, hw, rfl⟩ := (iha hr.1 s m).mpr ha
      obtain ⟨v, hv, rfl⟩ := (ihb hr.2 w u).mpr hb
      exact ⟨v, List.mem_flatMap.mpr ⟨w, hw, hv⟩, rfl⟩
  | alt a b iha ihb =>
    rw [Reads, ← iha hr.1 s u, ← ihb hr.2 s u]
    simp only [run, List.mem_append, or_and_right, exists_or]
  | star g a iha =>
    exact mem_repeated_iff (iha hr) (fun _ _ => Reads.suffix) (Nat.le_refl _) u
  | group a iha =>
    rw [Reads, ← iha hr s u]
    simp [run]
  | wordBoundary | lineStart _ | textEnd => exact hr.elim

theorem search_isSome_iff {r : Re} (hr : r.Plain) (prev : Option Char) (text : List Char) :
    (r.search prev text).isSome = true ↔ ∃ pre t u, text = pre ++ t ∧ r.Reads t u := by
  have hhead : ∀ prev t, (r.run ⟨prev, t, []⟩).head?.isSome = true ↔ ∃ u, r.Reads t u := by
    intro prev t
    rw [List.isSome_head?]
    constructor
    · intro hne
      obtain ⟨v, hv⟩ := List.exists_mem_of_ne_nil _ hne
      exact ⟨v.rest, (exists_mem_run_iff hr _ _).mp ⟨v, hv, rfl⟩⟩
    · rintro ⟨u, hu⟩
      obtain ⟨v, hv, -⟩ := (exists_mem_run_iff hr ⟨prev, t, []⟩ u).mpr hu
      exact List.ne_nil_of_mem hv
  induction text generalizing prev with
  | nil =>
    rw [search, Option.isSome_map, hhead]
    constructor
    · rintro ⟨u, hu⟩
      exact ⟨[], [], u, rfl, hu⟩
    · rintro ⟨pre, t, u, htext, hu⟩
      rw [(List.append_eq_nil_iff.mp htext.symm).2] at hu
      exact ⟨u, hu⟩
  | cons c tail ih =>
    have hcons : (r.search prev (c :: tail)).isSome = true ↔
        (∃ u, r.Reads (c :: tail) u) ∨ (r.search (some c) tail).isSome = true := by
      rw [← hhead prev, search]
      cases (r.run ⟨prev, c :: tail, []⟩).head? <;> simp
    refine (hcons.trans (or_congr_right (ih (some c)))).trans ?_
    constructor
    · rintro (⟨u, hu⟩ | ⟨pre, t, u, rfl, hu⟩)
      · exact ⟨[], _, u, rfl, hu⟩
      · exact ⟨c :: pre, t, u, rfl, hu⟩
    · rintro ⟨_ | ⟨d, pre⟩, t, u, htext, hu⟩
      · exact Or.inl ⟨u, htext ▸ hu⟩
      · exact Or.inr ⟨pre, t, u, (List.cons.inj htext).2, hu⟩

theorem test_iff {r : Re} (hr : r.Plain) (text : List Char) :
    r.test text = true ↔ ∃ pre t u, text = pre ++ t ∧ r.Reads t u :=
  search_isSome_iff hr none text

/-! ## The shorthands -/

theorem plain_lit (cs : List Char) : (lit cs).Plain := by
  induction cs with
  | nil => trivial
  | cons c cs ih => exact ⟨trivial, ih⟩

theorem plain_many (p : Char → Bool) : (many p).Plain := trivial

theorem plain_many1 (p : Char → Bool) : (many1 p).Plain := ⟨trivial, trivial⟩

theorem plain_all {rs : List Re} (h : ∀ r ∈ rs, r.Plain) : (all rs).Plain := by
  induction rs with
  | nil => trivial
  | cons r rs ih =>
    rw [List.forall_mem_cons] at h
    exact ⟨h.1, ih h.2⟩

theorem reads_lit {cs t u : List Char} : (lit cs).Reads t u ↔ t = cs ++ u := by
  induction cs generalizing t with
  | nil => exact Iff.rfl
  | cons c cs ih =>
    constructor
    · rintro ⟨m, ⟨d, hd, rfl⟩, hm⟩
      rw [ih.mp hm, of_decide_eq_true hd]
      rfl
    · rintro rfl
      exact ⟨cs ++ u, ⟨c, decide_eq_true rfl, rfl⟩, ih.mpr rfl⟩

theorem reads_many {p : Char → Bool} {t u : List Char} :
    (many p).Reads t u ↔ ∃ xs, (∀ c ∈ xs, p c = true) ∧ t = xs ++ u := by
  constructor
  · intro h
    induction h using Relation.ReflTransGen.head_induction_on with
    | refl => exact ⟨[], List.forall_mem_nil _, rfl⟩
    | head hfirst _ ih =>
      obtain ⟨c, hc, rfl⟩ := hfirst
      obtain ⟨xs, hxs, rfl⟩ := ih
      exact ⟨c :: xs, List.forall_mem_cons.mpr ⟨hc, hxs⟩, rfl⟩
  · rintro ⟨xs, hxs, rfl⟩
    induction xs with
    | nil => exact .refl
    | cons c xs ih =>
      rw [List.forall_mem_cons] at hxs
      exact .head ⟨c, hxs.1, rfl⟩ (ih hxs.2)

end Re

end FleetRunner.Library.Backtrack
