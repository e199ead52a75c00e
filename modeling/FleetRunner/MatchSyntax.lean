import FleetRunner.Match

/-!
# What a match expression says

The evaluator of `match.ts` has no syntax tree: it evaluates while it parses.
Here the two are taken apart. An expression is parsed once, whatever the device
is, and its meaning is a combination of tests of the descriptor. `orExpr_ok_iff`
says that the evaluator computes this meaning.
-/

namespace FleetRunner

open Library

namespace Match

mutual

inductive Operand where
  | num (v : JsNum)
  | str (v : String)
  | id (v : String)
  | group (e : Expr)
  | not (p : Operand)

inductive Expr where
  | test (p : Operand)
  | cmp (op : Op) (l r : Operand)
  | and (a b : Expr)
  | or (a b : Expr)

end

section Meaning

variable (js : Js) (d : Fields)

mutual

def Operand.eval : Operand → Except JsError Val
  | .num v => .ok (.num v)
  | .str v => .ok (.str v)
  | .id v => value js d v
  | .group e => do .ok (.bool (← e.eval))
  | .not p => do .ok (.bool (!truthy (← p.eval)))

/-- Both sides of `&&` and `||` are evaluated, the left one first. -/
def Expr.eval : Expr → Except JsError Bool
  | .test p => do .ok (truthy (← p.eval))
  | .cmp op l r => do
    let l ← l.eval
    let r ← r.eval
    compare js op l r
  | .and a b => do
    let v ← a.eval
    let w ← b.eval
    .ok (w && v)
  | .or a b => do
    let v ← a.eval
    let w ← b.eval
    .ok (w || v)

end

end Meaning

/-! ## Parsing -/

mutual

def parsePrimary : Nat → List Tok → Option (Operand × List Tok)
  | 0, _ => none
  | _ + 1, [] => none
  | _ + 1, .num v :: rest => some (.num v, rest)
  | _ + 1, .str v :: rest => some (.str v, rest)
  | _ + 1, .id v :: rest => some (.id v, rest)
  | n + 1, .op op :: rest =>
    match op with
    | .lparen => do
      let (e, rest) ← parseOr n rest
      match rest with
      | [] => none
      | c :: rest => if c.closes then some (.group e, rest) else none
    | .bang => do
      let (p, rest) ← parsePrimary n rest
      some (.not p, rest)
    | _ => none

def parseCmp : Nat → List Tok → Option (Expr × List Tok)
  | 0, _ => none
  | n + 1, toks => do
    let (l, rest) ← parsePrimary n toks
    match rest with
    | .op op :: after =>
      if op.isComparison then do
        let (r, rest) ← parsePrimary n after
        some (.cmp op l r, rest)
      else some (.test l, rest)
    | _ => some (.test l, rest)

def parseAnd : Nat → List Tok → Option (Expr × List Tok)
  | 0, _ => none
  | n + 1, toks => do
    let (e, rest) ← parseCmp n toks
    parseAndRest n e rest

def parseAndRest : Nat → Expr → List Tok → Option (Expr × List Tok)
  | 0, _, _ => none
  | n + 1, e, toks =>
    match toks with
    | .op .and :: after => do
      let (b, rest) ← parseCmp n after
      parseAndRest n (.and e b) rest
    | _ => some (e, toks)

def parseOr : Nat → List Tok → Option (Expr × List Tok)
  | 0, _ => none
  | n + 1, toks => do
    let (e, rest) ← parseAnd n toks
    parseOrRest n e rest

def parseOrRest : Nat → Expr → List Tok → Option (Expr × List Tok)
  | 0, _, _ => none
  | n + 1, e, toks =>
    match toks with
    | .op .or :: after => do
      let (b, rest) ← parseAnd n after
      parseOrRest n (.or e b) rest
    | _ => some (e, toks)

end

section

variable {js : Js} {d : Fields}

theorem some_bind_eq {α β : Type} {x : Option α} {f : α → Option β} {b : β}
    (h : (x >>= f) = some b) : ∃ a, x = some a ∧ f a = some b :=
  Option.bind_eq_some_iff.mp h

/-- The evaluator and the parser of one bound: it answers what the parsed text means. -/
structure Means (js : Js) (d : Fields) (n : Nat) : Prop where
  primary : ∀ {toks v rest}, primary js n d toks = .ok (v, rest) ↔
    ∃ p, parsePrimary n toks = some (p, rest) ∧ p.eval js d = .ok v
  cmp : ∀ {toks v rest}, cmp js n d toks = .ok (v, rest) ↔
    ∃ e, parseCmp n toks = some (e, rest) ∧ e.eval js d = .ok v
  andExpr : ∀ {toks v rest}, andExpr js n d toks = .ok (v, rest) ↔
    ∃ e, parseAnd n toks = some (e, rest) ∧ e.eval js d = .ok v
  andRest : ∀ {e w toks v rest}, Expr.eval js d e = .ok w →
    (andRest js n d w toks = .ok (v, rest) ↔
      ∃ e', parseAndRest n e toks = some (e', rest) ∧ e'.eval js d = .ok v)
  andFirst : ∀ {e toks e' rest v}, parseAndRest n e toks = some (e', rest) →
    e'.eval js d = .ok v → ∃ w, Expr.eval js d e = .ok w
  orExpr : ∀ {toks v rest}, orExpr js n d toks = .ok (v, rest) ↔
    ∃ e, parseOr n toks = some (e, rest) ∧ e.eval js d = .ok v
  orRest : ∀ {e w toks v rest}, Expr.eval js d e = .ok w →
    (orRest js n d w toks = .ok (v, rest) ↔
      ∃ e', parseOrRest n e toks = some (e', rest) ∧ e'.eval js d = .ok v)
  orFirst : ∀ {e toks e' rest v}, parseOrRest n e toks = some (e', rest) →
    e'.eval js d = .ok v → ∃ w, Expr.eval js d e = .ok w

theorem some_bind_iff {α β : Type} {x : Option α} {f : α → Option β} {b : β} :
    (x >>= f) = some b ↔ ∃ a, x = some a ∧ f a = some b := Option.bind_eq_some_iff

theorem Means.step_primary {n : Nat} (ih : Means js d n) {toks : List Tok} {v : Val}
    {rest : List Tok} : Match.primary js (n + 1) d toks = .ok (v, rest) ↔
      ∃ p, parsePrimary (n + 1) toks = some (p, rest) ∧ p.eval js d = .ok v := by
  cases toks with
  | nil => simp [Match.primary, parsePrimary]
  | cons t ts =>
      cases t with
      | num x => simp [Match.primary, parsePrimary, Operand.eval, and_comm]
      | str x => simp [Match.primary, parsePrimary, Operand.eval, and_comm]
      | id x =>
          simp only [Match.primary, parsePrimary, bind_ok_iff, Option.some.injEq, Prod.mk.injEq]
          constructor
          · rintro ⟨w, hw, h⟩
            cases h
            exact ⟨_, ⟨rfl, rfl⟩, hw⟩
          · rintro ⟨p, ⟨rfl, rfl⟩, h⟩
            exact ⟨v, h, rfl⟩
      | op o =>
          cases o
          case lparen =>
            simp only [Match.primary, parsePrimary, bind_ok_iff, some_bind_iff]
            constructor
            · rintro ⟨⟨b, inner⟩, hinner, h⟩
              obtain ⟨e, he, hb⟩ := ih.orExpr.mp hinner
              cases inner with
              | nil => cases h
              | cons c after =>
                  simp only at h
                  split at h
                  · rename_i hc
                    cases h
                    refine ⟨.group e, ⟨(e, c :: rest), he, by simp [hc]⟩, ?_⟩
                    simp only [Operand.eval, hb]
                    rfl
                  · cases h
            · rintro ⟨p, ⟨⟨e, inner⟩, he, h⟩, hv⟩
              cases inner with
              | nil => cases h
              | cons c after =>
                  simp only at h
                  split at h
                  · rename_i hc
                    cases h
                    simp only [Operand.eval, bind_ok_iff] at hv
                    obtain ⟨b, hb, hv⟩ := hv
                    cases hv
                    exact ⟨(b, c :: rest), ih.orExpr.mpr ⟨e, he, hb⟩, by simp [hc]⟩
                  · cases h
          case bang =>
            simp only [Match.primary, parsePrimary, bind_ok_iff, some_bind_iff]
            constructor
            · rintro ⟨⟨u, inner⟩, hinner, h⟩
              obtain ⟨p, hp, hu⟩ := ih.primary.mp hinner
              cases h
              refine ⟨.not p, ⟨(p, _), hp, rfl⟩, ?_⟩
              simp only [Operand.eval, hu]
              rfl
            · rintro ⟨q, ⟨⟨p, inner⟩, hp, h⟩, hv⟩
              cases h
              simp only [Operand.eval, bind_ok_iff] at hv
              obtain ⟨u, hu, hv⟩ := hv
              cases hv
              exact ⟨(u, _), ih.primary.mpr ⟨p, hp, hu⟩, rfl⟩
          all_goals simp [Match.primary, parsePrimary]

theorem Means.step_cmp {n : Nat} (ih : Means js d n) {toks : List Tok} {v : Bool}
    {rest : List Tok} : Match.cmp js (n + 1) d toks = .ok (v, rest) ↔
      ∃ e, parseCmp (n + 1) toks = some (e, rest) ∧ e.eval js d = .ok v := by
  simp only [Match.cmp, parseCmp, bind_ok_iff, some_bind_iff]
  constructor
  · rintro ⟨⟨l, mid⟩, hmid, h⟩
    obtain ⟨p, hp, hl⟩ := ih.primary.mp hmid
    have htest : Expr.eval js d (.test p) = .ok (truthy l) := by
      simp only [Expr.eval, hl]
      rfl
    simp only at h
    split at h
    · rename_i op after
      split at h
      · rename_i hop
        obtain ⟨⟨r, last⟩, hlast, h⟩ := bind_eq_ok h
        obtain ⟨q, hq, hr⟩ := ih.primary.mp hlast
        obtain ⟨b, hb, h⟩ := bind_eq_ok h
        cases h
        refine ⟨.cmp op p q, ⟨_, hp, ?_⟩, ?_⟩
        · simp only [if_pos hop, hq]
          rfl
        · simp only [Expr.eval, hl, hr]
          exact hb
      · rename_i hop
        cases h
        exact ⟨.test p, ⟨_, hp, by simp [hop]⟩, htest⟩
    · rename_i hno
      cases h
      refine ⟨.test p, ⟨_, hp, ?_⟩, htest⟩
      split
      · rename_i op after heq
        exact absurd heq (hno op after)
      · rfl
  · rintro ⟨e, ⟨⟨p, mid⟩, hp, h⟩, hv⟩
    simp only at h
    split at h
    · rename_i op after
      split at h
      · rename_i hop
        obtain ⟨⟨q, last⟩, hq, h⟩ := some_bind_eq h
        cases h
        simp only [Expr.eval, bind_ok_iff] at hv
        obtain ⟨l, hl, r, hr, hb⟩ := hv
        refine ⟨(l, .op op :: after), ih.primary.mpr ⟨p, hp, hl⟩, ?_⟩
        simp only [if_pos hop]
        rw [ih.primary.mpr ⟨q, hq, hr⟩]
        simp only [bind, Except.bind]
        rw [hb]
      · rename_i hop
        cases h
        simp only [Expr.eval, bind_ok_iff] at hv
        obtain ⟨l, hl, hv⟩ := hv
        cases hv
        exact ⟨(l, .op op :: after), ih.primary.mpr ⟨p, hp, hl⟩, by simp [hop]⟩
    · rename_i hno
      cases h
      simp only [Expr.eval, bind_ok_iff] at hv
      obtain ⟨l, hl, hv⟩ := hv
      cases hv
      refine ⟨(l, rest), ih.primary.mpr ⟨p, hp, hl⟩, ?_⟩
      split
      · rename_i op after heq
        exact absurd heq (hno op after)
      · rfl

theorem eval_and {a b : Expr} {v w : Bool} (ha : a.eval js d = .ok v) (hb : b.eval js d = .ok w) :
    Expr.eval js d (.and a b) = .ok (w && v) := by
  simp only [Expr.eval, ha, hb]
  rfl

theorem eval_or {a b : Expr} {v w : Bool} (ha : a.eval js d = .ok v) (hb : b.eval js d = .ok w) :
    Expr.eval js d (.or a b) = .ok (w || v) := by
  simp only [Expr.eval, ha, hb]
  rfl

theorem of_eval_and {a b : Expr} {v : Bool} (h : Expr.eval js d (.and a b) = .ok v) :
    (∃ u, a.eval js d = .ok u) ∧ ∃ u, b.eval js d = .ok u := by
  simp only [Expr.eval, bind_ok_iff] at h
  obtain ⟨u, hu, w, hw, -⟩ := h
  exact ⟨⟨u, hu⟩, w, hw⟩

theorem of_eval_or {a b : Expr} {v : Bool} (h : Expr.eval js d (.or a b) = .ok v) :
    (∃ u, a.eval js d = .ok u) ∧ ∃ u, b.eval js d = .ok u := by
  simp only [Expr.eval, bind_ok_iff] at h
  obtain ⟨u, hu, w, hw, -⟩ := h
  exact ⟨⟨u, hu⟩, w, hw⟩

/-- No operator of this level follows. -/
theorem rest_iff {e : Expr} {w v : Bool} {toks rest : List Tok} (he : e.eval js d = .ok w) :
    (Except.ok (w, toks) : Except JsError (Bool × List Tok)) = .ok (v, rest) ↔
      ∃ e', some (e, toks) = some (e', rest) ∧ e'.eval js d = .ok v := by
  constructor
  · intro h
    cases h
    exact ⟨e, rfl, he⟩
  · rintro ⟨e', h, hv⟩
    cases h
    rw [he] at hv
    cases hv
    rfl

/-- The evaluator answers what the parsed text means, at every level. -/
theorem means (n : Nat) : Means js d n := by
  induction n with
  | zero =>
      constructor <;> intros <;>
        simp_all [Match.primary, Match.cmp, Match.andExpr, Match.andRest, Match.orExpr,
          Match.orRest, expired, parsePrimary, parseCmp, parseAnd, parseAndRest, parseOr,
          parseOrRest]
  | succ n ih =>
      constructor
      · exact ih.step_primary
      · exact ih.step_cmp
      · intro toks v rest
        simp only [Match.andExpr, parseAnd, bind_ok_iff, some_bind_iff]
        constructor
        · rintro ⟨⟨w, mid⟩, hmid, h⟩
          obtain ⟨e, he, hw⟩ := ih.cmp.mp hmid
          obtain ⟨e', he', hv⟩ := (ih.andRest hw).mp h
          exact ⟨e', ⟨(e, mid), he, he'⟩, hv⟩
        · rintro ⟨e', ⟨⟨e, mid⟩, he, he'⟩, hv⟩
          obtain ⟨w, hw⟩ := ih.andFirst he' hv
          exact ⟨(w, mid), ih.cmp.mpr ⟨e, he, hw⟩, (ih.andRest hw).mpr ⟨e', he', hv⟩⟩
      · intro e w toks v rest he
        simp only [Match.andRest]
        split
        · rename_i after
          simp only [parseAndRest, bind_ok_iff, some_bind_iff]
          constructor
          · rintro ⟨⟨u, mid⟩, hmid, h⟩
            obtain ⟨b, hb, hu⟩ := ih.cmp.mp hmid
            obtain ⟨e', he', hv⟩ := (ih.andRest (eval_and he hu)).mp h
            exact ⟨e', ⟨(b, mid), hb, he'⟩, hv⟩
          · rintro ⟨e', ⟨⟨b, mid⟩, hb, he'⟩, hv⟩
            obtain ⟨w', hw'⟩ := ih.andFirst he' hv
            obtain ⟨u, hu⟩ := (of_eval_and hw').2
            exact ⟨(u, mid), ih.cmp.mpr ⟨b, hb, hu⟩,
              (ih.andRest (eval_and he hu)).mpr ⟨e', he', hv⟩⟩
        · rename_i hno
          have hrest : parseAndRest (n + 1) e toks = some (e, toks) := by
            simp only [parseAndRest]
          rw [hrest]
          exact rest_iff he
      · intro e toks e' rest v h hv
        simp only [parseAndRest] at h
        split at h
        · obtain ⟨⟨b, mid⟩, -, h⟩ := some_bind_eq h
          obtain ⟨w', hw'⟩ := ih.andFirst h hv
          exact (of_eval_and hw').1
        · cases h
          exact ⟨v, hv⟩
      · intro toks v rest
        simp only [Match.orExpr, parseOr, bind_ok_iff, some_bind_iff]
        constructor
        · rintro ⟨⟨w, mid⟩, hmid, h⟩
          obtain ⟨e, he, hw⟩ := ih.andExpr.mp hmid
          obtain ⟨e', he', hv⟩ := (ih.orRest hw).mp h
          exact ⟨e', ⟨(e, mid), he, he'⟩, hv⟩
        · rintro ⟨e', ⟨⟨e, mid⟩, he, he'⟩, hv⟩
          obtain ⟨w, hw⟩ := ih.orFirst he' hv
          exact ⟨(w, mid), ih.andExpr.mpr ⟨e, he, hw⟩, (ih.orRest hw).mpr ⟨e', he', hv⟩⟩
      · intro e w toks v rest he
        simp only [Match.orRest]
        split
        · rename_i after
          simp only [parseOrRest, bind_ok_iff, some_bind_iff]
          constructor
          · rintro ⟨⟨u, mid⟩, hmid, h⟩
            obtain ⟨b, hb, hu⟩ := ih.andExpr.mp hmid
            obtain ⟨e', he', hv⟩ := (ih.orRest (eval_or he hu)).mp h
            exact ⟨e', ⟨(b, mid), hb, he'⟩, hv⟩
          · rintro ⟨e', ⟨⟨b, mid⟩, hb, he'⟩, hv⟩
            obtain ⟨w', hw'⟩ := ih.orFirst he' hv
            obtain ⟨u, hu⟩ := (of_eval_or hw').2
            exact ⟨(u, mid), ih.andExpr.mpr ⟨b, hb, hu⟩,
              (ih.orRest (eval_or he hu)).mpr ⟨e', he', hv⟩⟩
        · rename_i hno
          have hrest : parseOrRest (n + 1) e toks = some (e, toks) := by
            simp only [parseOrRest]
          rw [hrest]
          exact rest_iff he
      · intro e toks e' rest v h hv
        simp only [parseOrRest] at h
        split at h
        · obtain ⟨⟨b, mid⟩, -, h⟩ := some_bind_eq h
          obtain ⟨w', hw'⟩ := ih.orFirst h hv
          exact (of_eval_or hw').1
        · cases h
          exact ⟨v, hv⟩

end

/-! ## The tests of an expression -/

/-- What an expression combines: its comparisons and the values it reads as conditions. A
group, also a negated one, is what it holds. -/
def Expr.tests : Expr → List Expr
  | .test p => operandTests p
  | .cmp op l r => [.cmp op l r]
  | .and a b => a.tests ++ b.tests
  | .or a b => a.tests ++ b.tests
where
  operandTests : Operand → List Expr
    | .group e => e.tests
    | .not p => operandTests p
    | p => [.test p]

mutual

/-- The fields an expression reads. -/
def Operand.ids : Operand → List String
  | .id v => [v]
  | .group e => e.ids
  | .not p => p.ids
  | _ => []

def Expr.ids : Expr → List String
  | .test p => p.ids
  | .cmp _ l r => l.ids ++ r.ids
  | .and a b => a.ids ++ b.ids
  | .or a b => a.ids ++ b.ids

end

section

variable {js : Js} {d d' : Fields}

mutual

/-- An expression is a function of the fields it reads. -/
theorem Expr.eval_of_ids : ∀ e : Expr, (∀ a ∈ e.ids, value js d a = value js d' a) →
    e.eval js d = e.eval js d'
  | .test p, h => by
      simp only [Expr.eval, Operand.eval_of_ids p h]
  | .cmp op l r, h => by
      have hl := Operand.eval_of_ids l fun a ha => h a (List.mem_append_left _ ha)
      have hr := Operand.eval_of_ids r fun a ha => h a (List.mem_append_right _ ha)
      simp only [Expr.eval, hl, hr]
  | .and a b, h => by
      have ha := Expr.eval_of_ids a fun v hv => h v (List.mem_append_left _ hv)
      have hb := Expr.eval_of_ids b fun v hv => h v (List.mem_append_right _ hv)
      simp only [Expr.eval, ha, hb]
  | .or a b, h => by
      have ha := Expr.eval_of_ids a fun v hv => h v (List.mem_append_left _ hv)
      have hb := Expr.eval_of_ids b fun v hv => h v (List.mem_append_right _ hv)
      simp only [Expr.eval, ha, hb]

theorem Operand.eval_of_ids : ∀ p : Operand, (∀ a ∈ p.ids, value js d a = value js d' a) →
    p.eval js d = p.eval js d'
  | .num v, h => rfl
  | .str v, h => rfl
  | .id v, h => h v (List.mem_singleton_self _)
  | .group e, h => by
      simp only [Operand.eval, Expr.eval_of_ids e h]
  | .not p, h => by
      simp only [Operand.eval, Operand.eval_of_ids p h]

end

mutual

/-- Where its tests come out the same, so does the expression. -/
theorem Expr.eval_congr : ∀ e : Expr,
    (∀ a ∈ e.tests, a.eval js d = a.eval js d') → e.eval js d = e.eval js d'
  | .test p, h => Operand.test_congr p h
  | .cmp op l r, h => h _ (List.mem_singleton_self _)
  | .and a b, h => by
      have ha := Expr.eval_congr a fun t ht => h t (List.mem_append_left _ ht)
      have hb := Expr.eval_congr b fun t ht => h t (List.mem_append_right _ ht)
      simp only [Expr.eval, ha, hb]
  | .or a b, h => by
      have ha := Expr.eval_congr a fun t ht => h t (List.mem_append_left _ ht)
      have hb := Expr.eval_congr b fun t ht => h t (List.mem_append_right _ ht)
      simp only [Expr.eval, ha, hb]

theorem Operand.test_congr : ∀ p : Operand,
    (∀ a ∈ Expr.tests.operandTests p, a.eval js d = a.eval js d') →
      (Expr.test p).eval js d = (Expr.test p).eval js d'
  | .num v, h => rfl
  | .str v, h => rfl
  | .id v, h => h _ (List.mem_singleton_self _)
  | .group e, h => by
      have he := Expr.eval_congr e h
      simp only [Expr.eval, Operand.eval, he]
  | .not p, h => by
      have hp := Operand.test_congr p h
      simp only [Expr.eval, Operand.eval] at hp ⊢
      cases hd : p.eval js d <;> cases hd' : p.eval js d' <;>
        simp_all [bind, Except.bind, truthy]

end

end

end Match

open Match

variable (js : Js)

/-- The parsed text of an expression, when all of it is one. -/
def parseMatch (expr : String) : Option Expr :=
  match lex js expr with
  | .error _ => none
  | .ok toks =>
    match parseOr (4 * toks.length + 4) toks with
    | some (e, []) => some e
    | _ => none

/-- Evaluating while parsing is parsing and then evaluating. -/
theorem evalMatch_ok_iff {expr : String} {d : Fields} {v : Bool} :
    evalMatch js expr d = .ok v ↔ ∃ e, parseMatch js expr = some e ∧ e.eval js d = .ok v := by
  unfold evalMatch parseMatch
  cases lex js expr with
  | error err => simp [bind, Except.bind]
  | ok toks =>
      have hmeans : Means js d (4 * toks.length + 4) := means _
      simp only [bind_ok_iff]
      constructor
      · rintro ⟨ts, hts, ⟨w, rest⟩, hw, h⟩
        cases hts
        obtain ⟨e, he, hv⟩ := hmeans.orExpr.mp hw
        simp only at h
        split at h
        · rename_i hrest
          cases h
          exact ⟨e, by rw [he, hrest], hv⟩
        · cases h
      · rintro ⟨e, he, hv⟩
        refine ⟨toks, rfl, ?_⟩
        split at he
        · rename_i e' hparse
          cases he
          exact ⟨(v, []), hmeans.orExpr.mpr ⟨_, hparse, hv⟩, rfl⟩
        · cases he

end FleetRunner
