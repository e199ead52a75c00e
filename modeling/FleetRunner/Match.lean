import FleetRunner.Js.Value
import FleetRunner.Library.Fallible
import Mathlib.Data.Nat.Init

/-!
# `targets.match` (`match.ts`)

A match expression is read into tokens and evaluated while it is parsed: there
is no syntax tree, `&&` and `||` evaluate both sides, and an error raised by a
value (an object that has no string) surfaces like a syntax error.

## Implementation notes

The mutual recursion is on a bound that `evalMatch` sets from the number of
tokens; `orExpr_bound` shows that a larger bound changes nothing, so the bound
is never what stops an evaluation.
-/

namespace FleetRunner

open Library

namespace Match

/-- The operators of an expression. -/
inductive Op where
  | eq | ne | le | ge | and | or | lt | gt | tilde | bang | lparen | rparen
  deriving DecidableEq

/-- An operator as it is written. -/
def Op.text : Op → String
  | .eq => "=="
  | .ne => "!="
  | .le => "<="
  | .ge => ">="
  | .and => "&&"
  | .or => "||"
  | .lt => "<"
  | .gt => ">"
  | .tilde => "~"
  | .bang => "!"
  | .lparen => "("
  | .rparen => ")"

/-- A token. -/
inductive Tok where
  | num (v : JsNum)
  | str (v : String)
  | id (v : String)
  | op (v : Op)
  deriving DecidableEq

/-! ## Lexer -/

def isDigitChar (c : Char) : Bool := decide ('0' ≤ c) && decide (c ≤ '9')

def isNumChar (c : Char) : Bool := isDigitChar c || c = '.'

def isIdStart (c : Char) : Bool :=
  (decide ('A' ≤ c) && decide (c ≤ 'Z')) || (decide ('a' ≤ c) && decide (c ≤ 'z')) || c = '_'

def isIdChar (c : Char) : Bool := isIdStart c || isDigitChar c

/-- The six operators of two characters. -/
def twoCharOp : Char → List Char → Option (Op × List Char)
  | '=', '=' :: rest => some (.eq, rest)
  | '!', '=' :: rest => some (.ne, rest)
  | '<', '=' :: rest => some (.le, rest)
  | '>', '=' :: rest => some (.ge, rest)
  | '&', '&' :: rest => some (.and, rest)
  | '|', '|' :: rest => some (.or, rest)
  | _, _ => none

def oneCharOp : Char → Option Op
  | '<' => some .lt
  | '>' => some .gt
  | '~' => some .tilde
  | '!' => some .bang
  | '(' => some .lparen
  | ')' => some .rparen
  | _ => none

variable (js : Js)

/-- One token or blank a step; the bound is the number of characters left. -/
def lexAux : Nat → List Char → Except JsError (List Tok)
  | 0, _ => .ok []
  | _ + 1, [] => .ok []
  | n + 1, c :: cs =>
    if isJsSpace c then lexAux n cs
    else if isNumChar c then do
      let v := js.parseNum (String.ofList (c :: cs.takeWhile isNumChar))
      .ok (.num v :: (← lexAux n (cs.dropWhile isNumChar)))
    else if c = '\'' ∨ c = '"' then
      match cs.dropWhile (fun x => x ≠ c) with
      | [] => .error (.error "unterminated string")
      | _ :: rest => do
        .ok (.str (String.ofList (cs.takeWhile fun x => x ≠ c)) :: (← lexAux n rest))
    else if isIdStart c then do
      .ok (.id (String.ofList (c :: cs.takeWhile isIdChar)) ::
        (← lexAux n (cs.dropWhile isIdChar)))
    else
      match twoCharOp c cs with
      | some (op, rest) => do .ok (.op op :: (← lexAux n rest))
      | none =>
        match oneCharOp c with
        | some op => do .ok (.op op :: (← lexAux n cs))
        | none => .error (.error ("unexpected '" ++ String.singleton c ++ "'"))

/-- The tokens of an expression. -/
def lex (src : String) : Except JsError (List Tok) := lexAux js src.toList.length src.toList

/-! ## Evaluation -/

/-- A list field is joined so that `~` can find one entry in it. -/
def joined (v : Option Json) : Except JsError Val :=
  match v with
  | none => .ok (.str "")
  | some .null => .ok (.str "")
  | some (.arr xs) => do .ok (.str (← joinElems js xs))
  | some _ => .error .typeError

/-- `d[id]`: an own field, else what `Object.prototype` has. -/
def member (d : Fields) (id : String) : Val :=
  match Fields.get? d id with
  | some v => v.toVal
  | none =>
    match js.inherited id with
    | some t => .native t
    | none => .undef

def value (d : Fields) (id : String) : Except JsError Val :=
  if id = "pools" then joined js (Fields.get? d "pools")
  else if id = "capabilities" then joined js (Fields.get? d "capabilities")
  else .ok (member js d id)

/-- Is the value taken for true? -/
def truthy : Val → Bool
  | .undef => false
  | .null => false
  | .bool b => b
  | .num n => n ≠ .fin 0
  | .str s => s ≠ ""
  | _ => true

def Op.isComparison : Op → Bool
  | .eq | .ne | .lt | .le | .gt | .ge | .tilde => true
  | _ => false

/-- `String(v ?? "")` -/
def textOrEmpty (v : Val) : Except JsError String :=
  match v with
  | .undef => .ok ""
  | .null => .ok ""
  | v => v.text js

/-- Compares two values. -/
def compare (op : Op) (l r : Val) : Except JsError Bool :=
  match op with
  | .eq => do .ok (decide ((← l.text js) = (← r.text js)))
  | .ne => do .ok (decide ((← l.text js) ≠ (← r.text js)))
  | .lt => do .ok (JsNum.lt (← l.number js) (← r.number js))
  | .le => do .ok (JsNum.le (← l.number js) (← r.number js))
  | .gt => do .ok (JsNum.lt (← r.number js) (← l.number js))
  | .ge => do .ok (JsNum.le (← r.number js) (← l.number js))
  | .tilde => do
    let source ← r.text js
    let text ← textOrEmpty js l
    -- a pattern the engine refuses is read as plain text
    match js.regexTest source text with
    | some hit => .ok hit
    | none => .ok (strIncludes (js.lower text) (js.lower source))
  | _ => .ok (truthy l)

/-- `next().v !== ")"`: a quoted parenthesis closes a group too. -/
def Tok.closes : Tok → Bool
  | .op .rparen => true
  | .str v => v = ")"
  | _ => false

def expired {α : Type} : Except JsError α := .error (.error "bound")

mutual

/-- A literal, a name, a negation or a bracket. -/
def primary : Nat → Fields → List Tok → Except JsError (Val × List Tok)
  | 0, _, _ => expired
  | _ + 1, _, [] => .error (.error "unexpected end")
  | _ + 1, _, .num v :: rest => .ok (.num v, rest)
  | _ + 1, _, .str v :: rest => .ok (.str v, rest)
  | _ + 1, d, .id v :: rest => do .ok (← value js d v, rest)
  | n + 1, d, .op op :: rest =>
    match op with
    | .lparen => do
      let (v, rest) ← orExpr n d rest
      match rest with
      | [] => .error (.error "expected )")
      | c :: rest => if c.closes then .ok (.bool v, rest) else .error (.error "expected )")
    | .bang => do
      let (v, rest) ← primary n d rest
      .ok (.bool (!truthy v), rest)
    | op => .error (.error ("unexpected " ++ op.text))

/-- A comparison, or one operand alone. -/
def cmp : Nat → Fields → List Tok → Except JsError (Bool × List Tok)
  | 0, _, _ => expired
  | n + 1, d, toks => do
    let (l, rest) ← primary n d toks
    match rest with
    | .op op :: after =>
      if op.isComparison then do
        let (r, rest) ← primary n d after
        .ok (← compare js op l r, rest)
      else .ok (truthy l, rest)
    | _ => .ok (truthy l, rest)

/-- Comparisons joined by `&&`. -/
def andExpr : Nat → Fields → List Tok → Except JsError (Bool × List Tok)
  | 0, _, _ => expired
  | n + 1, d, toks => do
    let (v, rest) ← cmp n d toks
    andRest n d v rest

def andRest : Nat → Fields → Bool → List Tok → Except JsError (Bool × List Tok)
  | 0, _, _, _ => expired
  | n + 1, d, v, toks =>
    match toks with
    | .op .and :: after => do
      let (w, rest) ← cmp n d after
      andRest n d (w && v) rest
    | _ => .ok (v, toks)

/-- The same joined by `||`. -/
def orExpr : Nat → Fields → List Tok → Except JsError (Bool × List Tok)
  | 0, _, _ => expired
  | n + 1, d, toks => do
    let (v, rest) ← andExpr n d toks
    orRest n d v rest

def orRest : Nat → Fields → Bool → List Tok → Except JsError (Bool × List Tok)
  | 0, _, _, _ => expired
  | n + 1, d, v, toks =>
    match toks with
    | .op .or :: after => do
      let (w, rest) ← andExpr n d after
      orRest n d (w || v) rest
    | _ => .ok (v, toks)

end

/-! ## The bound is never reached -/

/-- What each level leaves of the tokens it is given. -/
structure Consumes (n : Nat) : Prop where
  primary : ∀ {d toks v rest}, primary js n d toks = .ok (v, rest) → rest.length < toks.length
  cmp : ∀ {d toks v rest}, cmp js n d toks = .ok (v, rest) → rest.length < toks.length
  andExpr : ∀ {d toks v rest}, andExpr js n d toks = .ok (v, rest) → rest.length < toks.length
  andRest : ∀ {d w toks v rest}, andRest js n d w toks = .ok (v, rest) → rest.length ≤ toks.length
  orExpr : ∀ {d toks v rest}, orExpr js n d toks = .ok (v, rest) → rest.length < toks.length
  orRest : ∀ {d w toks v rest}, orRest js n d w toks = .ok (v, rest) → rest.length ≤ toks.length

theorem consumes (n : Nat) : Consumes js n := by
  induction n with
  | zero =>
      constructor <;> intros <;>
        simp_all [primary, cmp, andExpr, andRest, orExpr, orRest, expired]
  | succ n ih =>
      constructor
      · intro d toks v rest h
        cases toks with
        | nil => simp [primary] at h
        | cons t ts =>
            cases t with
            | num x => simp only [primary, Except.ok.injEq, Prod.mk.injEq] at h; simp [← h.2]
            | str x => simp only [primary, Except.ok.injEq, Prod.mk.injEq] at h; simp [← h.2]
            | id x =>
                simp only [primary] at h
                obtain ⟨a, -, h⟩ := bind_eq_ok h
                cases h
                simp
            | op o =>
                cases o
                case lparen =>
                  simp only [primary] at h
                  obtain ⟨⟨b, inner⟩, hinner, h⟩ := bind_eq_ok h
                  have hlt : inner.length < ts.length := ih.orExpr hinner
                  cases inner with
                  | nil => cases h
                  | cons c after =>
                      simp only at h
                      split at h
                      · cases h
                        simp only [List.length_cons] at hlt ⊢
                        omega
                      · cases h
                case bang =>
                  simp only [primary] at h
                  obtain ⟨⟨b, inner⟩, hinner, h⟩ := bind_eq_ok h
                  have hlt : inner.length < ts.length := ih.primary hinner
                  cases h
                  simp only [List.length_cons]
                  omega
                all_goals simp [primary] at h
      · intro d toks v rest h
        simp only [cmp] at h
        obtain ⟨⟨l, mid⟩, hmid, h⟩ := bind_eq_ok h
        have hlt : mid.length < toks.length := ih.primary hmid
        simp only at h
        split at h
        · split at h
          · obtain ⟨⟨w, last⟩, hlast, h⟩ := bind_eq_ok h
            have hlt' : last.length < _ := ih.primary hlast
            obtain ⟨_, _, h⟩ := bind_eq_ok h
            cases h
            simp only [List.length_cons] at hlt
            change last.length < toks.length
            omega
          · cases h
            exact hlt
        · cases h
          exact hlt
      · intro d toks v rest h
        simp only [andExpr] at h
        obtain ⟨⟨l, mid⟩, hmid, h⟩ := bind_eq_ok h
        have hlt : mid.length < toks.length := ih.cmp hmid
        have hle : rest.length ≤ mid.length := ih.andRest h
        omega
      · intro d w toks v rest h
        simp only [andRest] at h
        split at h
        · obtain ⟨⟨l, mid⟩, hmid, h⟩ := bind_eq_ok h
          have hlt := ih.cmp hmid
          have hle : rest.length ≤ mid.length := ih.andRest h
          simp only [List.length_cons]
          omega
        · cases h
          exact Nat.le_refl _
      · intro d toks v rest h
        simp only [orExpr] at h
        obtain ⟨⟨l, mid⟩, hmid, h⟩ := bind_eq_ok h
        have hlt : mid.length < toks.length := ih.andExpr hmid
        have hle : rest.length ≤ mid.length := ih.orRest h
        omega
      · intro d w toks v rest h
        simp only [orRest] at h
        split at h
        · obtain ⟨⟨l, mid⟩, hmid, h⟩ := bind_eq_ok h
          have hlt := ih.andExpr hmid
          have hle : rest.length ≤ mid.length := ih.orRest h
          simp only [List.length_cons]
          omega
        · cases h
          exact Nat.le_refl _

/-- From its bound on, each level no longer depends on it. -/
structure Stable (n : Nat) : Prop where
  primary : ∀ d toks, 4 * toks.length + 1 ≤ n → primary js (n + 1) d toks = primary js n d toks
  cmp : ∀ d toks, 4 * toks.length + 2 ≤ n → cmp js (n + 1) d toks = cmp js n d toks
  andExpr : ∀ d toks, 4 * toks.length + 3 ≤ n → andExpr js (n + 1) d toks = andExpr js n d toks
  andRest : ∀ d w toks, 4 * toks.length + 1 ≤ n →
    andRest js (n + 1) d w toks = andRest js n d w toks
  orExpr : ∀ d toks, 4 * toks.length + 4 ≤ n → orExpr js (n + 1) d toks = orExpr js n d toks
  orRest : ∀ d w toks, 4 * toks.length + 1 ≤ n →
    orRest js (n + 1) d w toks = orRest js n d w toks

theorem stable (n : Nat) : Stable js n := by
  induction n with
  | zero => constructor <;> intros <;> omega
  | succ n ih =>
      have hc := consumes js n
      constructor
      · intro d toks hn
        cases toks with
        | nil => rfl
        | cons t ts =>
            simp only [List.length_cons] at hn
            cases t with
            | num x => rfl
            | str x => rfl
            | id x => rfl
            | op o =>
                cases o
                case lparen => simp only [primary]; rw [ih.orExpr _ _ (by omega)]
                case bang => simp only [primary]; rw [ih.primary _ _ (by omega)]
                all_goals rfl
      · intro d toks hn
        simp only [cmp]
        rw [ih.primary _ _ (by omega)]
        apply bind_congr_ok
        rintro ⟨l, mid⟩ hmid
        have hlt : mid.length < toks.length := hc.primary hmid
        simp only
        split
        · split
          · rw [ih.primary]
            simp only [List.length_cons] at hlt
            omega
          · rfl
        · rfl
      · intro d toks hn
        simp only [andExpr]
        rw [ih.cmp _ _ (by omega)]
        apply bind_congr_ok
        rintro ⟨l, mid⟩ hmid
        have hlt : mid.length < toks.length := hc.cmp hmid
        exact ih.andRest d l mid (by omega)
      · intro d w toks hn
        simp only [andRest]
        split
        · rename_i after
          simp only [List.length_cons] at hn
          rw [ih.cmp _ _ (by omega)]
          apply bind_congr_ok
          rintro ⟨l, mid⟩ hmid
          have hlt : mid.length < after.length := hc.cmp hmid
          exact ih.andRest d _ mid (by omega)
        · rfl
      · intro d toks hn
        simp only [orExpr]
        rw [ih.andExpr _ _ (by omega)]
        apply bind_congr_ok
        rintro ⟨l, mid⟩ hmid
        have hlt : mid.length < toks.length := hc.andExpr hmid
        exact ih.orRest d l mid (by omega)
      · intro d w toks hn
        simp only [orRest]
        split
        · rename_i after
          simp only [List.length_cons] at hn
          rw [ih.andExpr _ _ (by omega)]
          apply bind_congr_ok
          rintro ⟨l, mid⟩ hmid
          have hlt : mid.length < after.length := hc.andExpr hmid
          exact ih.orRest d _ mid (by omega)
        · rfl

/-- Any bound from four for each token and four more gives the same evaluation. -/
theorem orExpr_bound (d : Fields) (toks : List Tok) {n : Nat} (hn : 4 * toks.length + 4 ≤ n) :
    orExpr js n d toks = orExpr js (4 * toks.length + 4) d toks := by
  induction n, hn using Nat.le_induction with
  | base => rfl
  | succ n hn ih => rw [(stable js n).orExpr d toks hn, ih]

end Match

open Match

variable (js : Js)

/-- Every call consumes a token within four nested calls. -/
def evalMatch (expr : String) (d : Fields) : Except JsError Bool := do
  let toks ← lex js expr
  let (result, rest) ← orExpr js (4 * toks.length + 4) d toks
  if rest = [] then .ok result else .error (.error "trailing tokens")

/-- A `targets.match` that is not a string is not an expression. -/
def evalMatchJson (expr : Json) (d : Fields) : Except JsError Bool :=
  match expr with
  | .str s => evalMatch js s d
  | _ => .error .typeError

/-- An expression that throws selects nothing. -/
def matches? (expr : Json) (d : Fields) : Bool :=
  match evalMatchJson js expr d with
  | .ok b => b
  | .error _ => false

/-- Does the expression evaluate on an empty descriptor? -/
def isValidMatch (expr : Json) : Bool :=
  match evalMatchJson js expr [] with
  | .ok _ => true
  | .error _ => false

end FleetRunner
