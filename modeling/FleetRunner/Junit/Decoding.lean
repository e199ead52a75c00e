import FleetRunner.Junit.Reader
import FleetRunner.Library.Xml

/-!
# What is decoded of a written text

`decode` undoes CDATA sections, named references, decimal ones and hexadecimal ones,
in four passes. A pass reads what the ones before it wrote: a text is decoded to what
it says as long as no character that is read already makes a reference with what
stands behind it.
-/

namespace FleetRunner.Junit

open Library Library.Xml

/-! ## The passes -/

/-- The pass in which a piece is read. -/
def level : Piece → Nat
  | .raw _ => 0
  | .named _ => 1
  | .numeric n => if n.base = .ten then 2 else 3

/-- What is left of a piece after so many passes. -/
def after (k : Nat) (p : Piece) : List Char := if level p ≤ k then [p.char] else p.print

/-- The pass that reads the pieces of a level. -/
def pass (k : Nat) : List Char → Option (Nat × Option (List Char)) :=
  if k = 1 then entityAt else if k = 2 then decimalAt else hexAt

/-- In no pass does a character that is read already make a reference with what follows. -/
def onePass : List Piece → Bool
  | [] => true
  | p :: rest =>
    (decide (p.char ≠ '&') || [1, 2, 3].all fun k =>
      decide (k ≤ level p) || (pass k ('&' :: rest.flatMap (after (k - 1)))).isNone) &&
        onePass rest

theorem after_zero (p : Piece) : after 0 p = p.print := by
  unfold after
  split
  · cases p with
    | raw c => rfl
    | named e => simp [level] at *
    | numeric n =>
      have hlevel : level (.numeric n) ≠ 0 := by
        rw [level]
        split <;> decide
      omega
  · rfl

theorem level_le (p : Piece) : level p ≤ 3 := by
  cases p with
  | raw c | named e => simp [level]
  | numeric n =>
    rw [level]
    split <;> decide

theorem after_three (p : Piece) : after 3 p = [p.char] := if_pos (level_le p)

theorem entityAt_cons {c : Char} (hc : c ≠ '&') (rest : List Char) :
    entityAt (c :: rest) = none := by
  have hne : ∀ cs : List Char, ('&' :: cs).isPrefixOf (c :: rest) = false := by
    intro cs
    rw [List.isPrefixOf_cons_cons, Bool.and_eq_false_imp, beq_iff_eq]
    exact fun heq => absurd heq.symm hc
  simp [entityAt, hne]

theorem decimalAt_cons {c : Char} (hc : c ≠ '&') (rest : List Char) :
    decimalAt (c :: rest) = none := by
  unfold decimalAt
  split
  · next heq => exact absurd (List.cons.inj heq).1 hc
  · rfl

theorem hexAt_cons {c : Char} (hc : c ≠ '&') (rest : List Char) : hexAt (c :: rest) = none := by
  unfold hexAt
  split
  · next heq => exact absurd (List.cons.inj heq).1 hc
  · rfl

/-- Every match of a pass starts with the sign of a reference. -/
theorem pass_cons {c : Char} (hc : c ≠ '&') (k : Nat) (rest : List Char) :
    pass k (c :: rest) = none := by
  unfold pass
  split
  · exact entityAt_cons hc rest
  · split
    · exact decimalAt_cons hc rest
    · exact hexAt_cons hc rest

/-! ## References that are read -/

theorem entityAt_named (e : Entity) (rest : List Char) :
    entityAt (Piece.print (.named e) ++ rest) =
      some ((Piece.print (.named e)).length, some [e.char]) := by
  cases e <;> rfl

theorem charOf_char (n : Numeral) : fromCodePoint (n.base.value n.digits) = some [n.char] := by
  have hvalid := n.valid
  have hle : n.base.value n.digits ≤ 0x10ffff := by
    rcases hvalid with h | h <;> omega
  have hhalf : (JsonText.isHigh (n.base.value n.digits) ||
      JsonText.isLow (n.base.value n.digits)) = false := by
    simp only [JsonText.isHigh, JsonText.isLow, Bool.or_eq_false_iff, Bool.and_eq_false_imp,
      decide_eq_true_eq, decide_eq_false_iff_not]
    rcases hvalid with h | h <;> omega
  rw [fromCodePoint, if_pos hle, JsonText.charOf, if_neg (by simp [hhalf])]
  rfl

theorem digitsAt_numeral (n : Numeral) {isDigit : Char → Bool} (hdigit : n.base.isDigit = isDigit)
    (hend : isDigit ';' = false) (rest : List Char) :
    digitsAt n.base.radix isDigit (n.digits ++ (';' :: rest)) =
      some (n.digits.length + 1, some [n.char]) := by
  have hall : ∀ c ∈ n.digits, isDigit c = true := by
    rw [← hdigit]
    exact List.all_eq_true.mp n.isDigit
  have htake : (n.digits ++ (';' :: rest)).takeWhile isDigit = n.digits := by
    rw [List.takeWhile_append_of_pos hall, List.takeWhile_cons, if_neg (by simp [hend]),
      List.append_nil]
  have hvalue : digitsValue n.base.radix n.digits = n.base.value n.digits := rfl
  simp only [digitsAt, htake, List.drop_left, List.head?_cons]
  rw [if_pos ⟨n.nonempty, trivial⟩, hvalue, charOf_char]

theorem decimalAt_numeric {n : Numeral} (hn : n.base = .ten) (rest : List Char) :
    decimalAt (Piece.print (.numeric n) ++ rest) =
      some ((Piece.print (.numeric n)).length, some [n.char]) := by
  have hdigit : n.base.isDigit = Char.isDigit := by
    rw [hn]
    rfl
  have hradix : n.base.radix = 10 := by
    rw [hn]
    rfl
  have hread := digitsAt_numeral n hdigit (by decide) rest
  rw [hradix] at hread
  have htext : Piece.print (.numeric n) ++ rest = '&' :: '#' :: (n.digits ++ (';' :: rest)) := by
    simp [Piece.print, hn, Base.mark]
  rw [htext, decimalAt, hread]
  simp [Piece.print, hn, Base.mark]

theorem hexAt_numeric {n : Numeral} (hn : n.base = .sixteen) (rest : List Char) :
    hexAt (Piece.print (.numeric n) ++ rest) =
      some ((Piece.print (.numeric n)).length, some [n.char]) := by
  have hdigit : n.base.isDigit = isHexText := by
    rw [hn]
    rfl
  have hradix : n.base.radix = 16 := by
    rw [hn]
    rfl
  have hread := digitsAt_numeral n hdigit (by decide) rest
  rw [hradix] at hread
  have htext : Piece.print (.numeric n) ++ rest =
      '&' :: '#' :: 'x' :: (n.digits ++ (';' :: rest)) := by
    simp [Piece.print, hn, Base.mark]
  rw [htext, hexAt, if_pos (Or.inl rfl), hread]
  simp [Piece.print, hn, Base.mark]

/-- A pass reads the pieces of its level. -/
theorem pass_level {p : Piece} (hp : level p ≠ 0) (rest : List Char) :
    pass (level p) (p.print ++ rest) = some (p.print.length, some [p.char]) := by
  cases p with
  | raw c => exact absurd rfl hp
  | named e => exact entityAt_named e rest
  | numeric n =>
    cases hbase : n.base with
    | ten =>
      rw [level, if_pos hbase]
      exact decimalAt_numeric hbase rest
    | sixteen =>
      rw [level, if_neg (by simp [hbase])]
      exact hexAt_numeric hbase rest

/-! ## References that are left -/

theorem entityAt_number (rest : List Char) : entityAt ('&' :: '#' :: rest) = none := by
  rfl

theorem decimalAt_hex (rest : List Char) : decimalAt ('&' :: '#' :: 'x' :: rest) = none := by
  have hnone : digitsAt 10 Char.isDigit ('x' :: rest) = none := by
    have htake : ('x' :: rest).takeWhile Char.isDigit = [] := by
      rw [List.takeWhile_cons, if_neg (by decide)]
    rw [digitsAt, htake]
    exact if_neg fun h => h.1 rfl
  rw [decimalAt, hnone, Option.map_none]

/-- A pass does not read the references of a later one. -/
theorem pass_later {p : Piece} {k : Nat} (hk : k ≠ 0) (hp : k < level p) (rest : List Char) :
    pass k (p.print ++ rest) = none := by
  cases p with
  | raw c => exact absurd hp (Nat.not_lt_zero k)
  | named e =>
    rw [level] at hp
    omega
  | numeric n =>
    have htext : Piece.print (.numeric n) ++ rest =
        '&' :: '#' :: (n.base.mark ++ (n.digits ++ (';' :: rest))) := by simp [Piece.print]
    rw [htext]
    rw [level] at hp
    unfold pass
    split
    · exact entityAt_number _
    · split at hp
      · omega
      · next hbase =>
        have hsixteen : n.base = .sixteen := by
          cases h : n.base with
          | ten => exact absurd h hbase
          | sixteen => rfl
        rw [if_pos (by omega), hsixteen]
        exact decimalAt_hex _

/-- Behind its sign a reference has none. -/
theorem not_mem_tail_print {p : Piece} (hp : level p ≠ 0) :
    ∃ cs, p.print = '&' :: cs ∧ '&' ∉ cs := by
  cases p with
  | raw c => exact absurd rfl hp
  | named e => cases e <;> exact ⟨_, rfl, by decide⟩
  | numeric n =>
    refine ⟨_, rfl, ?_⟩
    have hdigits : '&' ∉ n.digits := n.not_mem (by cases n.base <;> decide)
    cases hbase : n.base <;> simp [Base.mark, hdigits]

theorem onePass_suffix {ps : List Piece} (h : onePass ps = true) {p : Piece} {rest : List Piece}
    (hsuffix : p :: rest <:+ ps) (hp : p.char = '&') {k : Nat} (hk : k ∈ [1, 2, 3])
    (hlevel : level p < k) : pass k ('&' :: rest.flatMap (after (k - 1))) = none := by
  induction ps with
  | nil => exact absurd (List.suffix_nil.mp hsuffix) (List.cons_ne_nil p rest)
  | cons q ps ih =>
    rw [onePass, Bool.and_eq_true] at h
    rcases List.suffix_cons_iff.mp hsuffix with heq | hmore
    · obtain ⟨rfl, rfl⟩ := List.cons.inj heq
      have hall := h.1
      rw [hp, Bool.or_eq_true, List.all_eq_true] at hall
      have hhere := (hall.resolve_left (by simp)) k hk
      rw [Bool.or_eq_true, decide_eq_true_eq, Option.isNone_iff_eq_none] at hhere
      exact hhere.resolve_left (by omega)
    · exact ih h.2 hmore

/-- Without the sign there is nothing to read. -/
theorem onePass_of_ne {ps : List Piece} (h : ∀ p ∈ ps, p.char ≠ '&') : onePass ps = true := by
  induction ps with
  | nil => rfl
  | cons p ps ih =>
    rw [onePass, Bool.and_eq_true, Bool.or_eq_true]
    exact ⟨Or.inl (decide_eq_true (h p List.mem_cons_self)),
      ih fun q hq => h q (List.mem_cons_of_mem p hq)⟩

/-- What a pass makes of a text that is read in one. -/
theorem rewriteAll_pass {ps : List Piece} (h : onePass ps = true) {k : Nat} (hk : k ∈ [1, 2, 3]) :
    rewriteAll (pass k) 0 (ps.flatMap (after (k - 1))) = some (ps.flatMap (after k)) := by
  have hpos : k ≠ 0 := by
    rintro rfl
    revert hk
    decide
  refine rewriteAll_codes ps fun p rest hsuffix => ?_
  rcases Nat.lt_trichotomy (level p) k with hlt | heq | hgt
  · refine Or.inr ?_
    rw [after, if_pos (by omega), after, if_pos (by omega)]
    refine ⟨rfl, fun t ht htail => ?_⟩
    obtain rfl : t = [p.char] := by
      rcases List.suffix_cons_iff.mp htail with rfl | hnil
      · rfl
      · exact absurd (List.suffix_nil.mp hnil) ht
    by_cases hamp : p.char = '&'
    · rw [hamp]
      exact onePass_suffix h hsuffix hamp hk hlt
    · exact pass_cons hamp k _
  · refine Or.inl ?_
    have hlevel : level p ≠ 0 := heq ▸ hpos
    obtain ⟨cs, hprint, -⟩ := not_mem_tail_print hlevel
    have hread := pass_level hlevel (rest.flatMap (after (k - 1)))
    rw [heq] at hread
    rw [after, if_neg (by omega), after, if_pos (by omega)]
    exact ⟨by rw [hprint]; exact List.cons_ne_nil _ _, hread⟩
  · refine Or.inr ?_
    rw [after, if_neg (by omega), after, if_neg (by omega)]
    refine ⟨rfl, fun t ht htail => ?_⟩
    obtain ⟨cs, hprint, hcs⟩ := not_mem_tail_print (p := p) (by omega)
    have hlater := pass_later hpos hgt (rest.flatMap (after (k - 1)))
    rw [hprint] at htail hlater
    rcases List.suffix_cons_iff.mp htail with rfl | hmore
    · exact hlater
    · obtain ⟨c, t, rfl⟩ := List.exists_cons_of_ne_nil ht
      refine pass_cons ?_ k _
      rintro rfl
      exact hcs (hmore.subset List.mem_cons_self)

/-! ## CDATA sections -/

theorem cdataAt_cons {c : Char} (hc : c ≠ '<') (rest : List Char) : cdataAt (c :: rest) = none := by
  have hne : "<![CDATA[".toList.isPrefixOf (c :: rest) = false := by
    change ('<' :: "![CDATA[".toList).isPrefixOf (c :: rest) = false
    rw [List.isPrefixOf_cons_cons, Bool.and_eq_false_imp, beq_iff_eq]
    exact fun heq => absurd heq.symm hc
  rw [cdataAt, hne, if_neg Bool.false_ne_true]

/-- The end of a section is the first one there is. -/
theorem before?_section {cs : List Char} (h : ¬ "]]>".toList <:+: cs) (rest : List Char) :
    before? "]]>".toList (cs ++ ("]]>".toList ++ rest)) = some cs := by
  refine before?_append fun t ht hsuffix hpre => ?_
  have hends : "]]>".toList = [']', ']', '>'] := rfl
  rw [hends] at h hpre
  match t, ht with
  | [a], _ => simp at hpre
  | [a, b], _ => simp at hpre
  | a :: b :: c :: t, _ =>
    obtain ⟨more, hmore⟩ := hpre
    simp only [List.cons_append, List.nil_append, List.cons.injEq] at hmore
    obtain ⟨rfl, rfl, rfl, -⟩ := hmore
    exact h (List.IsInfix.trans ⟨[], t, rfl⟩ hsuffix.isInfix)

theorem cdataAt_section {cs : List Char} (h : ¬ "]]>".toList <:+: cs) (rest : List Char) :
    cdataAt ("<![CDATA[".toList ++ (cs ++ "]]>".toList) ++ rest) =
      some (("<![CDATA[".toList ++ (cs ++ "]]>".toList)).length, some cs) := by
  have hopens : "<![CDATA[".toList.isPrefixOf
      ("<![CDATA[".toList ++ (cs ++ "]]>".toList) ++ rest) = true := by
    rw [List.isPrefixOf_iff_prefix, List.append_assoc]
    exact List.prefix_append _ _
  have hdrop : ("<![CDATA[".toList ++ (cs ++ "]]>".toList) ++ rest).drop 9 =
      cs ++ ("]]>".toList ++ rest) := by
    rw [List.append_assoc, List.append_assoc]
    exact List.drop_left' rfl
  rw [cdataAt, if_pos hopens, hdrop, before?_section h, Option.map_some]
  simp only [List.length_append, Option.some.injEq, Prod.mk.injEq, and_true]
  change cs.length + 12 = 9 + (cs.length + 3)
  omega

theorem rewriteAll_cdata (ss : List Span) :
    rewriteAll cdataAt 0 (ss.flatMap Span.print) =
      some ((ss.flatMap Span.pieces).flatMap Piece.print) := by
  rw [List.flatMap_assoc]
  refine rewriteAll_codes ss fun s rest _ => ?_
  cases s with
  | piece p h =>
    refine Or.inr ⟨List.flatMap_singleton Piece.print p, fun t ht hsuffix => ?_⟩
    obtain ⟨c, t, rfl⟩ := List.exists_cons_of_ne_nil ht
    refine cdataAt_cons ?_ _
    rintro rfl
    exact Piece.not_mem_print h List.mem_cons_self (by decide) (by decide)
      (hsuffix.subset List.mem_cons_self)
  | cdata cs h =>
    have hplain : (cs.map Piece.raw).flatMap Piece.print = cs := by
      rw [List.flatMap_map]
      exact List.flatMap_singleton' cs
    rw [Span.pieces, hplain]
    exact Or.inl ⟨List.append_ne_nil_of_left_ne_nil (by simp) _, cdataAt_section h _⟩

/-- A text that is read in one pass is decoded to what it says. -/
theorem decode_spans {ss : List Span} (h : onePass (ss.flatMap Span.pieces) = true) :
    decode (ss.flatMap Span.print) = some (said (ss.flatMap Span.pieces)) := by
  have hone := rewriteAll_pass h (k := 1) (by decide)
  have htwo := rewriteAll_pass h (k := 2) (by decide)
  have hthree := rewriteAll_pass h (k := 3) (by decide)
  have hprint : (ss.flatMap Span.pieces).flatMap (after 0) =
      (ss.flatMap Span.pieces).flatMap Piece.print := by simp only [funext after_zero]
  have hsaid : (ss.flatMap Span.pieces).flatMap (after 3) = said (ss.flatMap Span.pieces) := by
    simp only [funext after_three, said]
    exact List.flatMap_pure_eq_map _ _
  rw [hprint] at hone
  rw [hsaid] at hthree
  rw [decode, rewriteAll_cdata]
  change (rewriteAll (pass 1) 0 _).bind (fun s => (rewriteAll (pass 2) 0 s).bind
    (rewriteAll (pass 3) 0)) = _
  rw [hone, Option.bind_some, htwo, Option.bind_some, hthree]

/-- An attribute's value is text without sections. -/
theorem decode_pieces {ps : List Piece} (hno : ps.all (Piece.avoids ['<', '&']) = true)
    (h : onePass ps = true) : decode (ps.flatMap Piece.print) = some (said ps) := by
  have hspan : ∃ ss : List Span, ss.flatMap Span.pieces = ps ∧
      ss.flatMap Span.print = ps.flatMap Piece.print := by
    clear h
    induction ps with
    | nil => exact ⟨[], rfl, rfl⟩
    | cons p ps ih =>
      rw [List.all_cons, Bool.and_eq_true] at hno
      obtain ⟨ss, hpieces, hprint⟩ := ih hno.2
      refine ⟨.piece p hno.1 :: ss, ?_, ?_⟩
      · rw [List.flatMap_cons, hpieces]
        rfl
      · rw [List.flatMap_cons, List.flatMap_cons, hprint]
        rfl
  obtain ⟨ss, rfl, hprint⟩ := hspan
  rw [← hprint]
  exact decode_spans h

/-! ## Blanks round a text -/

def isSpaceSpan : Span → Bool
  | .piece (.raw c) _ => isJsSpace c
  | .piece _ _ | .cdata _ _ => false

/-- The text between the blanks round it. -/
def trimmed (ss : List Span) : List Span := (ss.dropWhile isSpaceSpan).rdropWhile isSpaceSpan

theorem dropWhile_flatMap {β : Type} {p : Char → Bool} {q : β → Bool} {code : β → List Char}
    (hpos : ∀ x, q x = true → ∃ c, code x = [c] ∧ p c = true)
    (hneg : ∀ x, q x = false → ∃ c cs, code x = c :: cs ∧ p c = false) (xs : List β) :
    (xs.flatMap code).dropWhile p = (xs.dropWhile q).flatMap code := by
  induction xs with
  | nil => rfl
  | cons x xs ih =>
    rw [List.flatMap_cons, List.dropWhile_cons]
    cases hq : q x with
    | true =>
      obtain ⟨c, hcode, hc⟩ := hpos x hq
      rw [hcode, List.singleton_append, List.dropWhile_cons, if_pos hc, if_pos rfl]
      exact ih
    | false =>
      obtain ⟨c, cs, hcode, hc⟩ := hneg x hq
      rw [hcode, List.cons_append, List.dropWhile_cons, if_neg (by simp [hc]),
        if_neg (by simp), List.flatMap_cons, hcode, List.cons_append]

/-- A text that is no blank starts and ends with a character that is none. -/
theorem Span.ends {s : Span} (h : isSpaceSpan s = false) :
    (∃ c cs, s.print = c :: cs ∧ isJsSpace c = false) ∧
      ∃ c cs, s.print.reverse = c :: cs ∧ isJsSpace c = false := by
  cases s with
  | piece p hp =>
    cases p with
    | raw c => exact ⟨⟨c, [], rfl, h⟩, c, [], rfl, h⟩
    | named e =>
      refine ⟨⟨'&', _, rfl, by decide⟩, ';', ('&' :: e.name).reverse, ?_, by decide⟩
      simp [Piece.print]
    | numeric n =>
      refine ⟨⟨'&', _, rfl, by decide⟩, ';', ('&' :: '#' :: (n.base.mark ++ n.digits)).reverse, ?_,
        by decide⟩
      simp [Piece.print]
  | cdata cs hcs =>
    rw [Span.print_cdata]
    refine ⟨⟨'<', _, rfl, by decide⟩, '>', ("<![CDATA[".toList ++ (cs ++ [']', ']'])).reverse, ?_,
      by decide⟩
    simp

theorem trim_spans (ss : List Span) :
    trim (ss.flatMap Span.print) = (trimmed ss).flatMap Span.print := by
  have hpos : ∀ s : Span, isSpaceSpan s = true → ∃ c, s.print = [c] ∧ isJsSpace c = true := by
    intro s hs
    cases s with
    | piece p hp =>
      cases p with
      | raw c => exact ⟨c, rfl, hs⟩
      | named e | numeric n => cases hs
    | cdata cs hcs => cases hs
  have hback : ∀ s : Span, isSpaceSpan s = true →
      ∃ c, (List.reverse ∘ Span.print) s = [c] ∧ isJsSpace c = true := by
    intro s hs
    obtain ⟨c, hprint, hc⟩ := hpos s hs
    exact ⟨c, by rw [Function.comp_apply, hprint]; rfl, hc⟩
  rw [trim, dropWhile_flatMap hpos (fun s hs => (Span.ends hs).1), List.rdropWhile,
    List.reverse_flatMap, dropWhile_flatMap hback (fun s hs => (Span.ends hs).2), trimmed,
    List.rdropWhile, ← List.reverse_inj]
  simp [List.reverse_flatMap, Function.comp_def]

end FleetRunner.Junit
