import FleetRunner.Match

/-!
# Match expressions on paper (`match.ts`)

A match expression as a tree, its text with the parentheses the precedence of
its operators asks for, and what it means: an atom is its value, everything else
is true or false, and a pair of parentheses changes nothing. The evaluator reads
every such text, but to it a pair of parentheses holds a truth value.
-/

namespace FleetRunner

open Library

namespace Match

/-! ## Written tokens -/

structure Numeral where
  first : Char
  more : List Char
  digits : ∀ c ∈ first :: more, isNumChar c = true

structure Quoted where
  quote : Char
  content : List Char
  quotes : quote = '\'' ∨ quote = '"'
  unquoted : quote ∉ content

structure Ident where
  first : Char
  more : List Char
  starts : isIdStart first = true
  goes_on : ∀ c ∈ more, isIdChar c = true

/-- A token as it is written. -/
inductive Piece where
  | num (v : Numeral)
  | str (v : Quoted)
  | id (v : Ident)
  | op (v : Op)

def Numeral.text (v : Numeral) : String := String.ofList (v.first :: v.more)

def Quoted.text (v : Quoted) : String := String.ofList v.content

def Ident.text (v : Ident) : String := String.ofList (v.first :: v.more)

def Op.chars : Op → List Char
  | .eq => ['=', '=']
  | .ne => ['!', '=']
  | .le => ['<', '=']
  | .ge => ['>', '=']
  | .and => ['&', '&']
  | .or => ['|', '|']
  | .lt => ['<']
  | .gt => ['>']
  | .tilde => ['~']
  | .bang => ['!']
  | .lparen => ['(']
  | .rparen => [')']

def Piece.chars : Piece → List Char
  | .num v => v.first :: v.more
  | .str v => v.quote :: v.content ++ [v.quote]
  | .id v => v.first :: v.more
  | .op v => v.chars

/-- The token is over where the text goes on with `cs`. -/
def Piece.Ends (cs : List Char) : Piece → Prop
  | .num _ => ∀ c ∈ cs.head?, isNumChar c = false
  | .id _ => ∀ c ∈ cs.head?, isIdChar c = false
  | .op .lt | .op .gt | .op .bang => ∀ c ∈ cs.head?, c ≠ '='
  | _ => True

/-- A text of these tokens, with blanks between them. -/
inductive Spells : List Piece → List Char → Prop
  | nil : Spells [] []
  | blank {ps : List Piece} {c : Char} {cs : List Char} (hc : isJsSpace c = true)
      (h : Spells ps cs) : Spells ps (c :: cs)
  | token {p : Piece} {ps : List Piece} {cs : List Char} (hp : p.Ends cs) (h : Spells ps cs) :
      Spells (p :: ps) (p.chars ++ cs)

section

variable (js : Js)

def Piece.tok : Piece → Tok
  | .num v => .num (js.parseNum v.text)
  | .str v => .str v.text
  | .id v => .id v.text
  | .op v => .op v

theorem takeWhile_token {p : Char → Bool} {more cs : List Char} (hmore : ∀ c ∈ more, p c = true)
    (hcs : ∀ c ∈ cs.head?, p c = false) :
    (more ++ cs).takeWhile p = more ∧ (more ++ cs).dropWhile p = cs := by
  rw [List.takeWhile_append_of_pos hmore, List.dropWhile_append_of_pos hmore]
  cases cs with
  | nil => simp
  | cons c rest =>
      have hc : p c = false := hcs c rfl
      simp [hc]

theorem char_le_iff {a b : Char} : a ≤ b ↔ a.toNat ≤ b.toNat := UInt32.le_iff_toNat_le

theorem isIdStart_code {c : Char} (h : isIdStart c = true) : 65 ≤ c.toNat ∧ c.toNat ≤ 122 := by
  simp only [isIdStart, Bool.or_eq_true, Bool.and_eq_true, decide_eq_true_eq, char_le_iff] at h
  rcases h with (⟨hlo, hhi⟩ | ⟨hlo, hhi⟩) | rfl
  · change 65 ≤ c.toNat at hlo
    change c.toNat ≤ 90 at hhi
    omega
  · change 97 ≤ c.toNat at hlo
    change c.toNat ≤ 122 at hhi
    omega
  · decide

/-- Neither a numeral nor an identifier begins with white space. -/
theorem not_space {c : Char} (h : isNumChar c = true ∨ isIdStart c = true) :
    isJsSpace c = false := by
  have hdot : '.'.toNat = 46 := rfl
  have hrange : 46 ≤ c.toNat ∧ c.toNat ≤ 122 := by
    rcases h with hnum | hid
    · simp only [isNumChar, isDigitChar, Bool.or_eq_true, Bool.and_eq_true, decide_eq_true_eq,
        char_le_iff] at hnum
      rcases hnum with ⟨hlo, hhi⟩ | rfl
      · change 48 ≤ c.toNat at hlo
        change c.toNat ≤ 57 at hhi
        omega
      · omega
    · have hcode := isIdStart_code hid
      omega
  simp only [isJsSpace, Bool.or_eq_false_iff, Bool.and_eq_false_imp, decide_eq_true_eq,
    decide_eq_false_iff_not]
  omega

/-- An identifier begins with neither a digit nor a quote. -/
theorem isIdStart_apart {c : Char} (h : isIdStart c = true) :
    isNumChar c = false ∧ ¬ (c = '\'' ∨ c = '"') := by
  have hcode := isIdStart_code h
  have hne : ∀ x : Char, x.toNat < 65 → c ≠ x := by
    rintro x hx rfl
    omega
  constructor
  · simp only [isNumChar, isDigitChar, Bool.or_eq_false_iff, Bool.and_eq_false_imp,
      decide_eq_true_eq, decide_eq_false_iff_not, char_le_iff]
    have hnine : '9'.toNat = 57 := rfl
    exact ⟨fun _ => by omega, hne '.' (by decide)⟩
  · rintro (hquote | hquote)
    · exact hne '\'' (by decide) hquote
    · exact hne '"' (by decide) hquote

theorem lexAux_op (n : Nat) {op : Op} {cs : List Char} (hend : Piece.Ends cs (.op op)) :
    lexAux js (n + 1) (op.chars ++ cs) =
      (lexAux js n cs >>= fun toks => .ok (.op op :: toks)) := by
  have hsingle : ∀ c : Char, (∀ x ∈ cs.head?, x ≠ '=') → c = '<' ∨ c = '>' ∨ c = '!' →
      twoCharOp c cs = none := by
    intro c hcs hc
    cases cs with
    | nil => rcases hc with rfl | rfl | rfl <;> rfl
    | cons x rest =>
        have hx : x ≠ '=' := hcs x rfl
        rcases hc with rfl | rfl | rfl <;> simp [twoCharOp, hx]
  cases op with
  | lt | gt | bang =>
      have htwo := fun c => hsingle c hend
      simp [lexAux, Op.chars, htwo, oneCharOp, isJsSpace, isNumChar, isDigitChar, isIdStart]
  | _ => simp [lexAux, Op.chars, twoCharOp, oneCharOp, isJsSpace, isNumChar, isDigitChar, isIdStart]

/-- The lexer reads a token and goes on behind it. -/
theorem lexAux_token (n : Nat) {p : Piece} {cs : List Char} (hend : p.Ends cs) :
    lexAux js (n + 1) (p.chars ++ cs) =
      (lexAux js n cs >>= fun toks => .ok (p.tok js :: toks)) := by
  cases p with
  | num v =>
      have hfirst := v.digits v.first List.mem_cons_self
      obtain ⟨htake, hdrop⟩ :=
        takeWhile_token (fun c hc => v.digits c (List.mem_cons_of_mem _ hc)) hend
      simp only [Piece.chars, List.cons_append, lexAux, not_space (Or.inl hfirst), hfirst, htake,
        hdrop, if_true, Bool.false_eq_true, if_false]
      rfl
  | id v =>
      obtain ⟨hnum, hquote⟩ := isIdStart_apart v.starts
      obtain ⟨htake, hdrop⟩ := takeWhile_token v.goes_on hend
      simp only [Piece.chars, List.cons_append, lexAux, not_space (Or.inr v.starts), hnum, hquote,
        v.starts, htake, hdrop, if_true, Bool.false_eq_true, if_false]
      rfl
  | str v =>
      have hspace : isJsSpace v.quote = false := by rcases v.quotes with h | h <;> rw [h] <;> decide
      have hnum : isNumChar v.quote = false := by rcases v.quotes with h | h <;> rw [h] <;> decide
      have hmore : ∀ c ∈ v.content, decide (c ≠ v.quote) = true := by
        intro c hc
        exact decide_eq_true fun heq => v.unquoted (heq ▸ hc)
      have hcs : ∀ c ∈ (v.quote :: cs).head?, decide (c ≠ v.quote) = false := by simp
      obtain ⟨htake, hdrop⟩ := takeWhile_token hmore hcs
      have hshape : Piece.chars (.str v) ++ cs = v.quote :: (v.content ++ v.quote :: cs) := by
        simp [Piece.chars]
      rw [hshape]
      simp only [lexAux, hspace, hnum, v.quotes, htake, hdrop, if_true, Bool.false_eq_true, if_false]
      rfl
  | op v => exact lexAux_op js n hend

theorem lexAux_spells {ps : List Piece} {cs : List Char} (h : Spells ps cs) (n : Nat)
    (hn : cs.length ≤ n) : lexAux js n cs = .ok (ps.map (Piece.tok js)) := by
  induction h generalizing n with
  | nil => cases n <;> rfl
  | @blank ps c cs hc _ ih =>
      cases n with
      | zero => simp at hn
      | succ n =>
          rw [lexAux, if_pos hc]
          exact ih n (Nat.le_of_succ_le_succ hn)
  | @token p ps cs hp _ ih =>
      have hpos : 0 < p.chars.length := by
        cases p with
        | op v => cases v <;> decide
        | _ => simp [Piece.chars]
      rw [List.length_append] at hn
      cases n with
      | zero => omega
      | succ n =>
          rw [lexAux_token js n hp, ih n (by omega)]
          rfl

theorem lex_spells {ps : List Piece} {text : String} (h : Spells ps text.toList) :
    lex js text = .ok (ps.map (Piece.tok js)) :=
  lexAux_spells js h _ (Nat.le_refl _)

end

/-- Every sequence of tokens can be written. -/
theorem exists_spelling (ps : List Piece) : ∃ text : String, Spells ps text.toList := by
  have hchars : ∃ cs, Spells ps cs := by
    induction ps with
    | nil => exact ⟨[], .nil⟩
    | cons p rest ih =>
        obtain ⟨cs, hcs⟩ := ih
        refine ⟨p.chars ++ ' ' :: cs, .token ?_ (.blank (by decide) hcs)⟩
        cases p with
        | num v => simp [Piece.Ends, isNumChar, isDigitChar]
        | str v => trivial
        | id v => simp [Piece.Ends, isIdChar, isIdStart, isDigitChar]
        | op v => cases v <;> simp [Piece.Ends]
  obtain ⟨cs, hcs⟩ := hchars
  exact ⟨String.ofList cs, by rwa [String.toList_ofList]⟩

/-! ## Trees -/

abbrev Comparison := { op : Op // op.isComparison = true }

inductive Tree where
  | num (v : Numeral)
  | str (v : Quoted)
  | id (v : Ident)
  | not (t : Tree)
  | cmp (op : Comparison) (l r : Tree)
  | and (a b : Tree)
  | or (a b : Tree)
  | group (t : Tree)

/-- How tightly an operator binds. -/
def Tree.level : Tree → Nat
  | .or _ _ => 0
  | .and _ _ => 1
  | .cmp _ _ _ => 2
  | _ => 3

/-- Parentheses where a looser operator stands in a tighter one's place. -/
def enclosed (level place : Nat) (ps : List Piece) : List Piece :=
  if place ≤ level then ps else .op .lparen :: ps ++ [.op .rparen]

def Tree.pieces : Tree → List Piece
  | .num v => [.num v]
  | .str v => [.str v]
  | .id v => [.id v]
  | .not t => .op .bang :: enclosed t.level 3 t.pieces
  | .cmp op l r => enclosed l.level 3 l.pieces ++ .op op.1 :: enclosed r.level 3 r.pieces
  | .and a b => enclosed a.level 1 a.pieces ++ .op .and :: enclosed b.level 1 b.pieces
  | .or a b => a.pieces ++ .op .or :: b.pieces
  | .group t => .op .lparen :: t.pieces ++ [.op .rparen]

/-- A text of the tree, with as many blanks as one likes. -/
def Tree.Prints (t : Tree) (text : String) : Prop := Spells t.pieces text.toList

/-- The tree and its subexpressions. -/
def Tree.parts : Tree → List Tree
  | .not t => .not t :: t.parts
  | .cmp op l r => .cmp op l r :: (l.parts ++ r.parts)
  | .and a b => .and a b :: (a.parts ++ b.parts)
  | .or a b => .or a b :: (a.parts ++ b.parts)
  | .group t => .group t :: t.parts
  | t => [t]

/-- The tree without its redundant parentheses. -/
def Tree.bare : Tree → Tree
  | .not t => .not t.bare
  | .cmp op l r => .cmp op l.bare r.bare
  | .and a b => .and a.bare b.bare
  | .or a b => .or a.bare b.bare
  | .group t => t.bare
  | t => t

section

variable (js : Js) (d : Fields)

/-- What a tree means where parentheses make `g v` of the value `v`. -/
def Tree.mean (g : Val → Val) : Tree → Except JsError Val
  | .num v => .ok (.num (js.parseNum v.text))
  | .str v => .ok (.str v.text)
  | .id v => value js d v.text
  | .not t => do .ok (.bool (!truthy (← t.mean g)))
  | .cmp op l r => do
    let v ← l.mean g
    let w ← r.mean g
    .ok (.bool (← compare js op.1 v w))
  | .and a b => do
    let v ← a.mean g
    let w ← b.mean g
    .ok (.bool (truthy v && truthy w))
  | .or a b => do
    let v ← a.mean g
    let w ← b.mean g
    .ok (.bool (truthy v || truthy w))
  | .group t => do .ok (g (← t.mean g))

/-- The denotation: parentheses only group. -/
def Tree.denote (t : Tree) : Except JsError Val := t.mean js d fun v => v

/-- What the evaluator makes of the tree: parentheses hold a truth value. -/
def Tree.read (t : Tree) : Except JsError Val := t.mean js d fun v => .bool (truthy v)

end

/-! ## The evaluator on a printed tree -/

def Tree.toks (js : Js) (place : Nat) (t : Tree) : List Tok :=
  (enclosed t.level place t.pieces).map (Piece.tok js)

theorem toks_zero (js : Js) (t : Tree) : t.toks js 0 = t.pieces.map (Piece.tok js) := by
  rw [Tree.toks, enclosed, if_pos (Nat.zero_le _)]

/-- A comparison does not go on here. -/
def NoCmp (rest : List Tok) : Prop := ∀ op, rest.head? = some (.op op) → op.isComparison = false

section

variable (js : Js) (d : Fields)

/-- Each level reads the tree from its text, whatever follows it, with one bound for all. -/
structure Reads (t : Tree) : Prop where
  primary : ∀ (n : Nat) (rest : List Tok), 4 * (t.toks js 3 ++ rest).length + 1 ≤ n →
    primary js n d (t.toks js 3 ++ rest) = (t.read js d >>= fun v => .ok (v, rest))
  cmp : ∀ (n : Nat) (rest : List Tok), NoCmp rest → 4 * (t.toks js 2 ++ rest).length + 2 ≤ n →
    cmp js n d (t.toks js 2 ++ rest) = (t.read js d >>= fun v => .ok (truthy v, rest))
  and : ∀ (n : Nat) (w : Bool) (rest : List Tok), NoCmp rest →
    4 * (t.toks js 1 ++ rest).length + 2 ≤ n →
    (Match.cmp js n d (t.toks js 1 ++ rest) >>= fun p => andRest js n d (p.1 && w) p.2) =
      (t.read js d >>= fun v => andRest js n d (truthy v && w) rest)
  or : ∀ (n : Nat) (w : Bool) (rest : List Tok), NoCmp rest → rest.head? ≠ some (.op .and) →
    4 * (t.toks js 0 ++ rest).length + 3 ≤ n →
    (andExpr js n d (t.toks js 0 ++ rest) >>= fun p => orRest js n d (p.1 || w) p.2) =
      (t.read js d >>= fun v => orRest js n d (truthy v || w) rest)

variable {js d}

theorem bind_assoc_ok {α β γ : Type} (x : Except JsError α) (f : α → Except JsError β)
    (g : β → Except JsError γ) : ((x >>= f) >>= g) = (x >>= fun a => f a >>= g) := by
  cases x <;> rfl

theorem ok_bind {α β : Type} (a : α) (f : α → Except JsError β) :
    ((Except.ok a : Except JsError α) >>= f) = f a := rfl

theorem andRest_of_head {n : Nat} {w : Bool} {rest : List Tok} (hn : 0 < n)
    (hrest : rest.head? ≠ some (.op .and)) : andRest js n d w rest = .ok (w, rest) := by
  cases n with
  | zero => omega
  | succ n =>
      unfold andRest
      split
      · exact absurd rfl hrest
      · rfl

theorem orRest_of_head {n : Nat} {w : Bool} {rest : List Tok} (hn : 0 < n)
    (hrest : rest.head? ≠ some (.op .or)) : orRest js n d w rest = .ok (w, rest) := by
  cases n with
  | zero => omega
  | succ n =>
      unfold orRest
      split
      · exact absurd rfl hrest
      · rfl

variable {t : Tree}

theorem cmp_of_primary (hlevel : t.toks js 2 = t.toks js 3)
    (h : ∀ (n : Nat) (rest : List Tok), 4 * (t.toks js 3 ++ rest).length + 1 ≤ n →
      Match.primary js n d (t.toks js 3 ++ rest) = (t.read js d >>= fun v => .ok (v, rest)))
    (n : Nat) (rest : List Tok) (hrest : NoCmp rest)
    (hn : 4 * (t.toks js 2 ++ rest).length + 2 ≤ n) :
    Match.cmp js n d (t.toks js 2 ++ rest) =
      (t.read js d >>= fun v => .ok (truthy v, rest)) := by
  cases n with
  | zero => omega
  | succ n =>
      rw [hlevel] at hn ⊢
      rw [Match.cmp, h n rest (by omega), bind_assoc_ok]
      apply bind_congr_ok
      intro v _
      rw [ok_bind]
      simp only
      split
      · rename_i op after
        have hop : op.isComparison = false := hrest op rfl
        simp [hop]
      · rfl

theorem and_of_cmp (hlevel : t.toks js 1 = t.toks js 2)
    (h : ∀ (n : Nat) (rest : List Tok), NoCmp rest → 4 * (t.toks js 2 ++ rest).length + 2 ≤ n →
      Match.cmp js n d (t.toks js 2 ++ rest) = (t.read js d >>= fun v => .ok (truthy v, rest)))
    (n : Nat) (w : Bool) (rest : List Tok) (hrest : NoCmp rest)
    (hn : 4 * (t.toks js 1 ++ rest).length + 2 ≤ n) :
    (Match.cmp js n d (t.toks js 1 ++ rest) >>= fun p => andRest js n d (p.1 && w) p.2) =
      (t.read js d >>= fun v => andRest js n d (truthy v && w) rest) := by
  rw [hlevel] at hn ⊢
  rw [h n rest hrest hn, bind_assoc_ok]
  rfl

theorem or_of_and (hlevel : t.toks js 0 = t.toks js 1)
    (h : ∀ (n : Nat) (w : Bool) (rest : List Tok), NoCmp rest →
      4 * (t.toks js 1 ++ rest).length + 2 ≤ n →
      (Match.cmp js n d (t.toks js 1 ++ rest) >>= fun p => andRest js n d (p.1 && w) p.2) =
        (t.read js d >>= fun v => andRest js n d (truthy v && w) rest))
    (n : Nat) (w : Bool) (rest : List Tok) (hrest : NoCmp rest)
    (hand : rest.head? ≠ some (.op .and)) (hn : 4 * (t.toks js 0 ++ rest).length + 3 ≤ n) :
    (andExpr js n d (t.toks js 0 ++ rest) >>= fun p => orRest js n d (p.1 || w) p.2) =
      (t.read js d >>= fun v => orRest js n d (truthy v || w) rest) := by
  cases n with
  | zero => omega
  | succ n =>
      rw [hlevel] at hn ⊢
      have hcmp := h n true rest hrest (by omega)
      simp only [Bool.and_true] at hcmp
      rw [andExpr, hcmp, bind_assoc_ok]
      apply bind_congr_ok
      intro v _
      rw [andRest_of_head (by omega) hand]
      rfl

/-- In parentheses any expression is an operand, and a truth value. -/
theorem primary_paren
    (h : ∀ (n : Nat) (w : Bool) (rest : List Tok), NoCmp rest → rest.head? ≠ some (.op .and) →
      4 * (t.toks js 0 ++ rest).length + 3 ≤ n →
      (andExpr js n d (t.toks js 0 ++ rest) >>= fun p => orRest js n d (p.1 || w) p.2) =
        (t.read js d >>= fun v => orRest js n d (truthy v || w) rest))
    (n : Nat) (rest : List Tok)
    (hn : 4 * (.op .lparen :: (t.toks js 0 ++ .op .rparen :: rest)).length + 1 ≤ n) :
    Match.primary js n d (.op .lparen :: (t.toks js 0 ++ .op .rparen :: rest)) =
      (t.read js d >>= fun v => .ok (.bool (truthy v), rest)) := by
  rw [List.length_cons] at hn
  obtain ⟨m, rfl⟩ : ∃ m, n = m + 2 := ⟨n - 2, by omega⟩
  have hor := h m false (.op .rparen :: rest) (by rintro op ⟨⟩; rfl) (by simp) (by omega)
  simp only [Bool.or_false] at hor
  rw [Match.primary, orExpr]
  change ((andExpr js m d _ >>= fun p => orRest js m d p.1 p.2) >>= _) = _
  rw [hor, bind_assoc_ok]
  apply bind_congr_ok
  intro v _
  rw [orRest_of_head (by omega) (by simp)]
  rfl

/-- An operand by itself is read at every level. -/
theorem Reads.of_primary (htwo : t.toks js 2 = t.toks js 3) (hone : t.toks js 1 = t.toks js 2)
    (hzero : t.toks js 0 = t.toks js 1)
    (h : ∀ (n : Nat) (rest : List Tok), 4 * (t.toks js 3 ++ rest).length + 1 ≤ n →
      Match.primary js n d (t.toks js 3 ++ rest) = (t.read js d >>= fun v => .ok (v, rest))) :
    Reads js d t :=
  ⟨h, cmp_of_primary htwo h, and_of_cmp hone (cmp_of_primary htwo h),
    or_of_and hzero (and_of_cmp hone (cmp_of_primary htwo h))⟩

theorem toks_loose {place : Nat} (hplace : t.level < place) :
    t.toks js place = .op .lparen :: t.toks js 0 ++ [.op .rparen] := by
  rw [toks_zero, Tree.toks, enclosed, if_neg (by omega)]
  simp [Piece.tok]

/-- Whatever an operator makes is a truth value. -/
theorem read_truth (ht : t.level < 3) :
    (t.read js d >>= fun v => .ok (.bool (truthy v))) = t.read js d := by
  cases t with
  | cmp op l r =>
      simp only [Tree.read, Tree.mean, bind_assoc_ok]
      rfl
  | and a b =>
      simp only [Tree.read, Tree.mean, bind_assoc_ok]
      rfl
  | or a b =>
      simp only [Tree.read, Tree.mean, bind_assoc_ok]
      rfl
  | _ => simp [Tree.level] at ht

theorem primary_of_loose (ht : t.level < 3)
    (h : ∀ (n : Nat) (w : Bool) (rest : List Tok), NoCmp rest → rest.head? ≠ some (.op .and) →
      4 * (t.toks js 0 ++ rest).length + 3 ≤ n →
      (andExpr js n d (t.toks js 0 ++ rest) >>= fun p => orRest js n d (p.1 || w) p.2) =
        (t.read js d >>= fun v => orRest js n d (truthy v || w) rest))
    (n : Nat) (rest : List Tok) (hn : 4 * (t.toks js 3 ++ rest).length + 1 ≤ n) :
    Match.primary js n d (t.toks js 3 ++ rest) = (t.read js d >>= fun v => .ok (v, rest)) := by
  have hshape : t.toks js 3 ++ rest = .op .lparen :: (t.toks js 0 ++ .op .rparen :: rest) := by
    rw [toks_loose ht]
    simp
  rw [hshape] at hn ⊢
  rw [primary_paren h n rest hn]
  conv_rhs => rw [← read_truth ht, bind_assoc_ok]
  rfl

theorem reads_not (h : Reads js d t) : Reads js d (.not t) := by
  refine .of_primary rfl rfl rfl fun n rest hn => ?_
  have hshape : Tree.toks js 3 (.not t) ++ rest = .op .bang :: (t.toks js 3 ++ rest) := rfl
  rw [hshape, List.length_cons] at hn
  rw [hshape]
  cases n with
  | zero => omega
  | succ n =>
      rw [Match.primary, h.primary n rest (by omega), bind_assoc_ok]
      simp only [Tree.read, Tree.mean, bind_assoc_ok]
      rfl

theorem reads_group (h : Reads js d t) : Reads js d (.group t) := by
  refine .of_primary rfl rfl rfl fun n rest hn => ?_
  have hshape : Tree.toks js 3 (.group t) ++ rest =
      .op .lparen :: (t.toks js 0 ++ .op .rparen :: rest) := by
    simp [Tree.toks, Tree.pieces, enclosed, Tree.level, Piece.tok]
  rw [hshape] at hn ⊢
  rw [primary_paren h.or n rest hn]
  simp only [Tree.read, Tree.mean, bind_assoc_ok]
  rfl

theorem reads_cmp {op : Comparison} {l r : Tree} (hl : Reads js d l) (hr : Reads js d r) :
    Reads js d (.cmp op l r) := by
  have hcmp : ∀ (n : Nat) (rest : List Tok), NoCmp rest →
      4 * (Tree.toks js 2 (.cmp op l r) ++ rest).length + 2 ≤ n →
      Match.cmp js n d (Tree.toks js 2 (.cmp op l r) ++ rest) =
        (Tree.read js d (.cmp op l r) >>= fun v => .ok (truthy v, rest)) := by
    intro n rest hrest hn
    have hshape : Tree.toks js 2 (.cmp op l r) ++ rest =
        l.toks js 3 ++ .op op.1 :: (r.toks js 3 ++ rest) := by
      simp [Tree.toks, Tree.pieces, enclosed, Tree.level, Piece.tok]
    rw [hshape] at hn ⊢
    simp only [List.length_append, List.length_cons] at hn
    cases n with
    | zero => omega
    | succ n =>
        rw [Match.cmp, hl.primary n _ (by simp only [List.length_append, List.length_cons]; omega),
          bind_assoc_ok]
        simp only [Tree.read, Tree.mean, bind_assoc_ok]
        apply bind_congr_ok
        intro v _
        rw [ok_bind]
        simp only [if_pos op.2]
        rw [hr.primary n rest (by simp only [List.length_append]; omega), bind_assoc_ok]
        rfl
  have hand := @and_of_cmp js d (.cmp op l r) rfl hcmp
  have hor := @or_of_and js d (.cmp op l r) rfl hand
  exact ⟨primary_of_loose (by simp [Tree.level]) hor, hcmp, hand, hor⟩

theorem reads_and {a b : Tree} (ha : Reads js d a) (hb : Reads js d b) :
    Reads js d (.and a b) := by
  have hand : ∀ (n : Nat) (w : Bool) (rest : List Tok), NoCmp rest →
      4 * (Tree.toks js 1 (.and a b) ++ rest).length + 2 ≤ n →
      (Match.cmp js n d (Tree.toks js 1 (.and a b) ++ rest) >>=
          fun p => andRest js n d (p.1 && w) p.2) =
        (Tree.read js d (.and a b) >>= fun v => andRest js n d (truthy v && w) rest) := by
    intro n w rest hrest hn
    have hshape : Tree.toks js 1 (.and a b) ++ rest =
        a.toks js 1 ++ .op .and :: (b.toks js 1 ++ rest) := by
      simp [Tree.toks, Tree.pieces, enclosed, Tree.level, Piece.tok]
    rw [hshape] at hn ⊢
    have hlen : (a.toks js 1 ++ .op .and :: (b.toks js 1 ++ rest)).length =
        (a.toks js 1).length + ((b.toks js 1 ++ rest).length + 1) := by simp
    have hrest' : rest.length ≤ (b.toks js 1 ++ rest).length := by simp
    rw [ha.and n w _ (by rintro op ⟨⟩; rfl) hn]
    simp only [Tree.read, Tree.mean, bind_assoc_ok]
    apply bind_congr_ok
    intro v _
    cases n with
    | zero => omega
    | succ n =>
        rw [andRest]
        change (Match.cmp js n d _ >>= fun p => andRest js n d (p.1 && (truthy v && w)) p.2) = _
        rw [hb.and n _ rest hrest (by omega)]
        apply bind_congr_ok
        intro u _
        rw [ok_bind, (stable js n).andRest _ _ _ (by omega)]
        simp only [truthy]
        congr 1
        grind
  have hor := @or_of_and js d (.and a b) rfl hand
  have hprimary := primary_of_loose (by simp [Tree.level]) hor
  exact ⟨hprimary, cmp_of_primary rfl hprimary, hand, hor⟩

theorem reads_or {a b : Tree} (ha : Reads js d a) (hb : Reads js d b) :
    Reads js d (.or a b) := by
  have hor : ∀ (n : Nat) (w : Bool) (rest : List Tok), NoCmp rest →
      rest.head? ≠ some (.op .and) → 4 * (Tree.toks js 0 (.or a b) ++ rest).length + 3 ≤ n →
      (andExpr js n d (Tree.toks js 0 (.or a b) ++ rest) >>=
          fun p => orRest js n d (p.1 || w) p.2) =
        (Tree.read js d (.or a b) >>= fun v => orRest js n d (truthy v || w) rest) := by
    intro n w rest hrest hnext hn
    have hshape : Tree.toks js 0 (.or a b) ++ rest =
        a.toks js 0 ++ .op .or :: (b.toks js 0 ++ rest) := by
      simp [Tree.toks, Tree.pieces, enclosed, Piece.tok]
    rw [hshape] at hn ⊢
    have hlen : (a.toks js 0 ++ .op .or :: (b.toks js 0 ++ rest)).length =
        (a.toks js 0).length + ((b.toks js 0 ++ rest).length + 1) := by simp
    have hrest' : rest.length ≤ (b.toks js 0 ++ rest).length := by simp
    rw [ha.or n w _ (by rintro op ⟨⟩; rfl) (by simp) hn]
    simp only [Tree.read, Tree.mean, bind_assoc_ok]
    apply bind_congr_ok
    intro v _
    cases n with
    | zero => omega
    | succ n =>
        rw [orRest]
        change (andExpr js n d _ >>= fun p => orRest js n d (p.1 || (truthy v || w)) p.2) = _
        rw [hb.or n _ rest hrest hnext (by omega)]
        apply bind_congr_ok
        intro u _
        rw [ok_bind, (stable js n).orRest _ _ _ (by omega)]
        simp only [truthy]
        congr 1
        grind
  have hprimary := primary_of_loose (by simp [Tree.level]) hor
  have hcmp := @cmp_of_primary js d (.or a b) rfl hprimary
  exact ⟨hprimary, hcmp, and_of_cmp rfl hcmp, hor⟩

/-- The evaluator reads every tree from its text. -/
theorem reads (t : Tree) : Reads js d t := by
  induction t with
  | num v => exact .of_primary rfl rfl rfl fun n rest hn => by cases n with
      | zero => omega
      | succ n => rfl
  | str v => exact .of_primary rfl rfl rfl fun n rest hn => by cases n with
      | zero => omega
      | succ n => rfl
  | id v => exact .of_primary rfl rfl rfl fun n rest hn => by cases n with
      | zero => omega
      | succ n => rfl
  | not t ih => exact reads_not ih
  | cmp op l r ihl ihr => exact reads_cmp ihl ihr
  | and a b iha ihb => exact reads_and iha ihb
  | or a b iha ihb => exact reads_or iha ihb
  | group t ih => exact reads_group ih

/-- Evaluating a printed tree. -/
theorem evalMatch_print {text : String} (h : t.Prints text) :
    evalMatch js text d = (t.read js d >>= fun v => .ok (truthy v)) := by
  have hread := (@reads js d t).or (4 * (t.toks js 0).length + 3) false []
    (by rintro op ⟨⟩) (by simp) (by simp)
  simp only [Bool.or_false, List.append_nil] at hread
  rw [evalMatch, lex_spells js h, ← toks_zero, ok_bind, orExpr]
  change ((andExpr js _ d _ >>= fun p => orRest js _ d p.1 p.2) >>= _) = _
  rw [hread, bind_assoc_ok]
  apply bind_congr_ok
  intro v _
  rw [orRest_of_head (by omega) (by simp)]
  rfl

end

/-! ## Parentheses around an atom -/

def Tree.isAtom : Tree → Bool
  | .num _ | .str _ | .id _ => true
  | _ => false

/-- An atom in parentheses. -/
def Tree.parenAtom : Tree → Bool
  | .group t => t.isAtom || t.parenAtom
  | _ => false

def truth (x : Except JsError Val) : Except JsError Bool := x >>= fun v => .ok (truthy v)

def boxed (x : Except JsError Val) : Except JsError Val := x >>= fun v => .ok (.bool (truthy v))

section

variable (js : Js) (d : Fields)

/-- What a comparison gets for an operand: of an atom in parentheses, its truth value. -/
def Tree.operand (t : Tree) : Except JsError Val :=
  if t.parenAtom then boxed (t.denote js d) else t.denote js d

def compared (op : Comparison) (x y : Except JsError Val) : Except JsError Bool := do
  let v ← x
  let w ← y
  compare js op.1 v w

/-- Every comparison comes out as if its parenthesised atoms were their own truth values. -/
def AtomsAlike (t : Tree) : Prop :=
  ∀ (op : Comparison) (l r : Tree), .cmp op l r ∈ t.parts →
    compared js op (l.operand js d) (r.operand js d) =
      compared js op (l.denote js d) (r.denote js d)

/-- The tree and its subexpressions mean what is written, also with fewer parentheses. -/
def MeansItsTree (t : Tree) : Prop :=
  ∀ s ∈ t.parts, ∀ text, s.Prints text →
    evalMatch js text d = truth (s.denote js d) ∧
      ∀ text', s.bare.Prints text' → evalMatch js text' d = evalMatch js text d

variable {js d}

@[simp] theorem truth_boxed (x : Except JsError Val) : truth (boxed x) = truth x := by
  cases x <;> rfl

theorem boxed_of_truth {x y : Except JsError Val} (h : truth x = truth y) : boxed x = boxed y := by
  have hbox : ∀ z, boxed z = (truth z >>= fun b => .ok (.bool b)) := by
    intro z
    cases z <;> rfl
  rw [hbox, hbox, h]

@[simp] theorem truth_operand (t : Tree) : truth (t.operand js d) = truth (t.denote js d) := by
  unfold Tree.operand
  split
  · exact truth_boxed _
  · rfl

theorem denote_group (t : Tree) : Tree.denote js d (.group t) = t.denote js d := by
  simp only [Tree.denote, Tree.mean]
  cases t.mean js d (fun v => v) <;> rfl

/-- Parentheses make no difference to a tree that has none but the necessary ones. -/
theorem mean_bare (g : Val → Val) (t : Tree) : t.bare.mean js d g = t.denote js d := by
  induction t with
  | group t ih =>
      rw [Tree.bare, ih, denote_group]
  | _ => simp_all [Tree.bare, Tree.mean, Tree.denote]

/-- Where no atom is bare or just in parentheses, the meaning is a truth value. -/
theorem boxed_denote {t : Tree} (hatom : t.isAtom = false) (hparen : t.parenAtom = false) :
    boxed (t.denote js d) = t.denote js d := by
  induction t with
  | num | str | id => cases hatom
  | group t ih =>
      rw [Tree.parenAtom, Bool.or_eq_false_iff] at hparen
      rw [denote_group]
      exact ih hparen.1 hparen.2
  | not t =>
      simp only [Tree.denote, Tree.mean, boxed]
      cases t.mean js d (fun v => v) <;> rfl
  | cmp op l r =>
      simp only [Tree.denote, Tree.mean, boxed, bind_assoc_ok]
      rfl
  | and a b | or a b =>
      simp only [Tree.denote, Tree.mean, boxed, bind_assoc_ok]
      rfl

theorem read_group (t : Tree) : Tree.read js d (.group t) = boxed (t.read js d) := rfl

theorem read_not_congr {t : Tree} (h : truth (t.read js d) = truth (t.denote js d)) :
    Tree.read js d (.not t) = Tree.denote js d (.not t) := by
  have hnot : ∀ g, Tree.mean js d g (.not t) =
      (truth (t.mean js d g) >>= fun b => .ok (.bool (!b))) := by
    intro g
    simp only [Tree.mean, truth, bind_assoc_ok]
    rfl
  simp only [Tree.read, Tree.denote, hnot] at h ⊢
  rw [h]

theorem read_and_congr {a b : Tree} (ha : truth (a.read js d) = truth (a.denote js d))
    (hb : truth (b.read js d) = truth (b.denote js d)) :
    Tree.read js d (.and a b) = Tree.denote js d (.and a b) := by
  have hand : ∀ g, Tree.mean js d g (.and a b) = (truth (a.mean js d g) >>= fun v =>
      truth (b.mean js d g) >>= fun w => .ok (.bool (v && w))) := by
    intro g
    simp only [Tree.mean, truth, bind_assoc_ok]
    rfl
  simp only [Tree.read, Tree.denote, hand] at ha hb ⊢
  rw [ha, hb]

theorem read_or_congr {a b : Tree} (ha : truth (a.read js d) = truth (a.denote js d))
    (hb : truth (b.read js d) = truth (b.denote js d)) :
    Tree.read js d (.or a b) = Tree.denote js d (.or a b) := by
  have hor : ∀ g, Tree.mean js d g (.or a b) = (truth (a.mean js d g) >>= fun v =>
      truth (b.mean js d g) >>= fun w => .ok (.bool (v || w))) := by
    intro g
    simp only [Tree.mean, truth, bind_assoc_ok]
    rfl
  simp only [Tree.read, Tree.denote, hor] at ha hb ⊢
  rw [ha, hb]

theorem mean_cmp (g : Val → Val) (op : Comparison) (l r : Tree) :
    Tree.mean js d g (.cmp op l r) =
      (compared js op (l.mean js d g) (r.mean js d g) >>= fun b => .ok (.bool b)) := by
  simp only [Tree.mean, compared, bind_assoc_ok]

/-- A tree whose comparisons come out alike is read as an operand of a comparison is. -/
theorem read_eq_operand {t : Tree} (h : AtomsAlike js d t) : t.read js d = t.operand js d := by
  induction t with
  | num | str | id => rfl
  | not t ih =>
      have ht := ih fun op l r hmem => h op l r (List.mem_cons_of_mem _ hmem)
      exact read_not_congr (by rw [ht, truth_operand])
  | cmp op l r ihl ihr =>
      have hl := ihl fun op' l' r' hmem =>
        h op' l' r' (List.mem_cons_of_mem _ (List.mem_append_left _ hmem))
      have hr := ihr fun op' l' r' hmem =>
        h op' l' r' (List.mem_cons_of_mem _ (List.mem_append_right _ hmem))
      have hcmp := h op l r List.mem_cons_self
      rw [← hl, ← hr] at hcmp
      change Tree.mean js d _ _ = Tree.mean js d _ _
      rw [mean_cmp, mean_cmp]
      simp only [Tree.read, Tree.denote] at hcmp
      rw [hcmp]
  | and a b iha ihb =>
      have ha := iha fun op l r hmem =>
        h op l r (List.mem_cons_of_mem _ (List.mem_append_left _ hmem))
      have hb := ihb fun op l r hmem =>
        h op l r (List.mem_cons_of_mem _ (List.mem_append_right _ hmem))
      exact read_and_congr (by rw [ha, truth_operand]) (by rw [hb, truth_operand])
  | or a b iha ihb =>
      have ha := iha fun op l r hmem =>
        h op l r (List.mem_cons_of_mem _ (List.mem_append_left _ hmem))
      have hb := ihb fun op l r hmem =>
        h op l r (List.mem_cons_of_mem _ (List.mem_append_right _ hmem))
      exact read_or_congr (by rw [ha, truth_operand]) (by rw [hb, truth_operand])
  | group t ih =>
      have ht := ih fun op l r hmem => h op l r (List.mem_cons_of_mem _ hmem)
      have hbox : boxed (t.operand js d) = boxed (t.denote js d) :=
        boxed_of_truth (truth_operand t)
      rw [read_group, ht, hbox, Tree.operand, denote_group]
      split
      · rfl
      · rename_i hparen
        rw [Bool.not_eq_true, Tree.parenAtom, Bool.or_eq_false_iff] at hparen
        exact boxed_denote hparen.1 hparen.2

/-- Where every part reads as it should, the comparisons come out alike. -/
theorem atomsAlike_of_read {t : Tree}
    (h : ∀ s ∈ t.parts, truth (s.read js d) = truth (s.denote js d)) : AtomsAlike js d t := by
  induction t with
  | num | str | id =>
      intro op l r hmem
      simp [Tree.parts] at hmem
  | not t ih | group t ih =>
      have ht := ih fun s hs => h s (List.mem_cons_of_mem _ hs)
      intro op l r hmem
      rcases List.mem_cons.mp hmem with heq | hin
      · cases heq
      · exact ht op l r hin
  | and a b iha ihb | or a b iha ihb =>
      have ha := iha fun s hs => h s (List.mem_cons_of_mem _ (List.mem_append_left _ hs))
      have hb := ihb fun s hs => h s (List.mem_cons_of_mem _ (List.mem_append_right _ hs))
      intro op l r hmem
      rcases List.mem_cons.mp hmem with heq | hin
      · cases heq
      · exact (List.mem_append.mp hin).elim (ha op l r) (hb op l r)
  | cmp op' l' r' ihl ihr =>
      have hl := ihl fun s hs => h s (List.mem_cons_of_mem _ (List.mem_append_left _ hs))
      have hr := ihr fun s hs => h s (List.mem_cons_of_mem _ (List.mem_append_right _ hs))
      intro op l r hmem
      rcases List.mem_cons.mp hmem with heq | hin
      · cases heq
        have hself := h _ List.mem_cons_self
        have htruth : ∀ x : Except JsError Bool, truth (x >>= fun b => .ok (.bool b)) = x := by
          intro x
          cases x <;> rfl
        simp only [Tree.read, Tree.denote, mean_cmp, htruth] at hself
        rw [← read_eq_operand hl, ← read_eq_operand hr]
        exact hself
      · exact (List.mem_append.mp hin).elim (hl op l r) (hr op l r)

theorem parts_trans {s t : Tree} (h : s ∈ t.parts) : ∀ u ∈ s.parts, u ∈ t.parts := by
  induction t with
  | num | str | id =>
      obtain rfl := List.mem_singleton.mp h
      exact fun u hu => hu
  | not t ih | group t ih =>
      rcases List.mem_cons.mp h with rfl | hin
      · exact fun u hu => hu
      · exact fun u hu => List.mem_cons_of_mem _ (ih hin u hu)
  | cmp op a b iha ihb | and a b iha ihb | or a b iha ihb =>
      rcases List.mem_cons.mp h with rfl | hin
      · exact fun u hu => hu
      · intro u hu
        apply List.mem_cons_of_mem
        rcases List.mem_append.mp hin with hina | hinb
        · exact List.mem_append_left _ (iha hina u hu)
        · exact List.mem_append_right _ (ihb hinb u hu)

theorem parenAtom_of_bare {s t : Tree} (h : s ∈ t.bare.parts) : s.parenAtom = false := by
  induction t with
  | num | str | id =>
      obtain rfl := List.mem_singleton.mp h
      rfl
  | group t ih => exact ih h
  | not t ih =>
      rcases List.mem_cons.mp h with rfl | hin
      · rfl
      · exact ih hin
  | cmp op a b iha ihb | and a b iha ihb | or a b iha ihb =>
      rcases List.mem_cons.mp h with rfl | hin
      · rfl
      · exact (List.mem_append.mp hin).elim iha ihb

theorem self_mem_parts (t : Tree) : t ∈ t.parts := by
  cases t <;> exact List.mem_cons_self

/-- With no parentheses but the necessary ones, no atom stands in any. -/
theorem atomsAlike_bare (t : Tree) : AtomsAlike js d t.bare := by
  intro op l r hmem
  have hl : l ∈ t.bare.parts := parts_trans hmem _
    (List.mem_cons_of_mem _ (List.mem_append_left _ (self_mem_parts l)))
  have hr : r ∈ t.bare.parts := parts_trans hmem _
    (List.mem_cons_of_mem _ (List.mem_append_right _ (self_mem_parts r)))
  simp [Tree.operand, parenAtom_of_bare hl, parenAtom_of_bare hr]

/-- A tree and its subexpressions mean what is written, exactly where every comparison of an atom
in parentheses comes out as for the atom's truth value. -/
theorem meansItsTree_iff (js : Js) (d : Fields) (t : Tree) :
    MeansItsTree js d t ↔ AtomsAlike js d t := by
  constructor
  · intro h
    apply atomsAlike_of_read
    intro s hs
    obtain ⟨text, htext⟩ := exists_spelling s.pieces
    have heval := (h s hs text htext).1
    rwa [evalMatch_print htext] at heval
  · intro h s hs text htext
    have hread : truth (s.read js d) = truth (s.denote js d) := by
      rw [read_eq_operand fun op l r hmem => h op l r (parts_trans hs _ hmem), truth_operand]
    have heval : evalMatch js text d = truth (s.denote js d) := by
      rw [evalMatch_print htext]
      exact hread
    refine ⟨heval, fun text' htext' => ?_⟩
    rw [heval, evalMatch_print htext', Tree.read, mean_bare]
    rfl

end

/-- `(ram_mb) >= 4000` -/
def roomy : Tree :=
  .cmp ⟨.ge, rfl⟩
    (.group (.id ⟨'r', ['a', 'm', '_', 'm', 'b'], rfl, List.all_eq_true.mp (by decide)⟩))
    (.num ⟨'4', ['0', '0', '0'], List.all_eq_true.mp (by decide)⟩)

/-- A device with 8000 MB has more than 4000, unless `ram_mb` stands in parentheses. -/
theorem roomy_misread :
    ¬ MeansItsTree Js.plain [("ram_mb", .num 8000)] roomy ∧
      evalMatch Js.plain "(ram_mb) >= 4000" [("ram_mb", .num 8000)] = .ok false ∧
      evalMatch Js.plain "ram_mb >= 4000" [("ram_mb", .num 8000)] = .ok true := by
  refine ⟨fun h => ?_, by decide +kernel, by decide +kernel⟩
  obtain ⟨text, htext⟩ := exists_spelling roomy.pieces
  have heval := (h roomy List.mem_cons_self text htext).1
  rw [evalMatch_print htext] at heval
  exact absurd heval (by decide +kernel)

end Match

end FleetRunner
