import FleetRunner.Junit.Reports

/-!
# The counts of a report

The count attributes of a suite are read as the numbers they are, and with them the
two readers arrive at what is in the suite they chose.
-/

namespace FleetRunner.Junit

open Library Library.Xml

/-! ## The attributes of a suite -/

/-- What stands behind the attributes of an element's tag. -/
def endText (e : Element) : List Char := if e.inside.isSome then ['>'] else ['/', '>']

theorem wholeTag_eq (e : Element) : wholeTag e.tag.name e.tagText =
    '<' :: e.tag.name ++ (e.tag.inner ++ endText e) := by
  obtain ⟨t, inside⟩ := e
  cases inside <;> simp [wholeTag, Element.tagText, endText]

theorem tagText_eq (e : Element) : ∃ post, e.tagText = e.tag.inner ++ post ∧ '"' ∉ post := by
  obtain ⟨t, inside⟩ := e
  cases inside with
  | none => exact ⟨['/'], rfl, by decide⟩
  | some p => exact ⟨[], (List.append_nil _).symm, by decide⟩

section

variable {e : Element} (he : SuiteReads e) {name : List Char} (hname : name ∈ countNames)

include hname in
theorem countNames_word : Xml.isName name = true ∧ name.head?.any isWordChar = true ∧
    ∀ c, isNameChar c = false → c ≠ '=' → c ≠ '"' → c ∉ name ++ ['=', '"'] := by
  have hword : Xml.isName name = true ∧ name.head?.any isWordChar = true := by
    simp only [countNames, List.mem_cons, List.not_mem_nil, or_false] at hname
    rcases hname with rfl | rfl | rfl <;> decide
  refine ⟨hword.1, hword.2, fun c hc hsign hquote hin => ?_⟩
  rcases List.mem_append.mp hin with hin | hin
  · exact not_mem_name hword.1 hc hin
  · simp [hsign, hquote] at hin

include hname in
/-- The search for an attribute passes over the name of the tag. -/
theorem firstMatch_wholeTag : firstMatch (valueAt name) none (wholeTag e.tag.name e.tagText) =
    firstMatch (valueAt name) ('<' :: e.tag.name).getLast? (e.tag.inner ++ endText e) := by
  have hquote : '"' ∉ '<' :: e.tag.name := by
    simp [not_mem_name e.tag.isName (c := '"') (by decide)]
  have hnext := (countNames_word hname).2.2
  rw [wholeTag_eq, firstMatch_valueAt_skip hquote, Option.or_none]
  intro c hc
  cases hinner : e.tag.inner with
  | nil =>
    rw [hinner, List.nil_append, endText] at hc
    split at hc <;> obtain rfl := Option.some.inj hc <;>
      exact hnext _ (by decide) (by decide) (by decide)
  | cons d ds =>
    rw [hinner, List.cons_append] at hc
    obtain rfl := Option.some.inj hc
    have hblank := e.tag.head?_inner d (by rw [hinner]; rfl)
    refine hnext d (by rw [isNameChar, hblank]; rfl) ?_ ?_ <;> rintro rfl <;>
      exact absurd hblank (by decide)

theorem not_mem_endText (e : Element) : '"' ∉ endText e := by
  rw [endText]
  split <;> decide

include he hname

/-- The value of a count attribute is found in the tag. -/
theorem firstMatch_count (prev : Option Char) {post : List Char} (hpost : '"' ∉ post) :
    firstMatch (valueAt name) prev (e.tag.inner ++ post) =
      (e.tag.attribute? name).map fun a => a.value.flatMap Piece.print := by
  have hword := countNames_word hname
  have htail : '"' ∉ e.tag.tail ++ post := by
    intro hin
    rcases List.mem_append.mp hin with hblank | hin
    · exact absurd (List.all_eq_true.mp e.tag.tail_blank _ hblank) (by decide)
    · exact hpost hin
  rw [Tag.inner, List.append_assoc,
    firstMatch_valueAt hword.1 hword.2.1 (he.legible name hname) prev htail]
  rfl

end

/-! ## Numbers -/

theorem ofRat_nat {n : Nat} (h : n < 2 ^ 53) : JsNum.ofRat (n : Rat) = .fin n := by
  have hlimit : 2 ^ 53 ≤ numberLimit := by
    unfold numberLimit
    decide +kernel
  have hlt : n < numberLimit := Nat.lt_of_lt_of_le h hlimit
  have hnot : ¬ (numberLimit : Rat) ≤ n := fun hle =>
    absurd hlt (Nat.not_lt.mpr (Nat.cast_le.mp hle))
  have hpos : (0 : Rat) < numberLimit := Nat.cast_pos.mpr (Nat.lt_of_le_of_lt (Nat.zero_le n) hlt)
  have hnonneg : ¬ (n : Rat) ≤ -(numberLimit : Rat) :=
    not_le.mpr (lt_of_lt_of_le (neg_lt_zero.mpr hpos) (Nat.cast_nonneg n))
  rw [JsNum.ofRat, if_neg hnot, if_neg hnonneg]

theorem numberOf_count {v : List Char} (hv : v ≠ [] ∧ v.all Char.isDigit = true)
    (h : digitsValue 10 v < 2 ^ 53) : numberOf (String.ofList v) = .fin (digitsValue 10 v) := by
  rw [numberOf_digits hv.1 (List.all_eq_true.mp hv.2), ofRat_nat h]

/-- Digits, however they are written, are read in one pass. -/
theorem onePass_digits {ps : List Piece} (h : (said ps).all Char.isDigit = true) :
    onePass ps = true := by
  refine onePass_of_ne fun p hp hamp => ?_
  have hdigit := List.all_eq_true.mp h p.char (List.mem_map_of_mem hp)
  rw [hamp] at hdigit
  revert hdigit
  decide

theorem max_zero {q : Rat} (h : 0 ≤ q) : max (.fin 0) (.fin q) = .fin q := by
  rw [max, if_neg (by simp)]
  by_cases hq : (0 : Rat) < q
  · rw [if_pos (by simpa [JsNum.lt] using hq)]
  · rw [if_neg (by simpa [JsNum.lt] using hq), le_antisymm h (not_lt.mp hq)]

/-- The passed ones are those that are left. -/
theorem max_sub {n a b p : Nat} (h : n = p + (a + b)) :
    max (.fin 0) (sub (.fin n) (add (.fin a) (.fin b))) = .fin p := by
  have hq : (n : Rat) + -((a : Rat) + b) = p := by
    rw [h]
    push_cast
    exact add_neg_cancel_right _ _
  rw [add, sub, neg, add, hq, max_zero (Nat.cast_nonneg p)]

theorem max_of_le {a b : Nat} (h : a ≤ b) : max (.fin a) (.fin b) = .fin b := by
  rw [max, if_neg (by simp)]
  by_cases hlt : a < b
  · rw [if_pos (by simpa [JsNum.lt] using hlt)]
  · rw [if_neg (by simpa [JsNum.lt] using hlt), Nat.le_antisymm h (Nat.not_lt.mp hlt)]

theorem length_cases (c : Content) : (cases c).length = passedIn c + failedIn c := by
  rw [passedIn, failedIn, List.length_eq_countP_add_countP (p := failing), Nat.add_comm]
  congr 2
  funext k
  simp

theorem length_failuresIn (c : Content) : (failuresIn c).length = failedIn c := by
  rw [failuresIn, failedIn, List.length_filterMap_eq_countP]
  congr 1
  funext k
  rw [failure?, failing, Option.isSome_map]

/-! ## What the attributes count -/

namespace Report

variable {r : Report} {e : Element} (he : e ∈ r.content.everything)
  (hsuite : isSuite e.tag = true ∨ isSuites e.tag = true)
  (hcounted : (count? e.tag "tests".toList).isSome)

include he

theorem length_lt : (cases e.body).length < 2 ^ 53 := by
  have hbody : (cases e.body).length ≤ e.body.everything.length := Content.length_elements_le _
  have hall := Content.length_body_le he
  have hprint := Content.length_everything_le r.content
  have hfits := r.fits
  omega

include hsuite hcounted

/-- The counts of a suite are numbers that the engine has. -/
theorem count_lt {name : List Char} (hname : name ∈ countNames) :
    ∀ n ∈ count? e.tag name, n < 2 ^ 53 := by
  intro n hn
  have hmatch := r.countsMatch e he hsuite
  have hfailed := hmatch.failed hcounted
  have hlt := length_lt he
  have hlength := length_cases e.body
  simp only [countNames, List.mem_cons, List.not_mem_nil, or_false] at hname
  rcases hname with rfl | rfl | rfl
  · rw [hmatch.tests n hn]
    exact hlt
  · rw [Option.mem_def.mp hn, Option.getD_some] at hfailed
    omega
  · rw [Option.mem_def.mp hn, Option.getD_some] at hfailed
    omega

/-- The testcases of a suite are the passed ones and those that it counts. -/
theorem tests_eq : ∃ n, count? e.tag "tests".toList = some n ∧
    n = passedIn e.body + ((count? e.tag "failures".toList).getD 0 +
      (count? e.tag "errors".toList).getD 0) := by
  obtain ⟨n, hn⟩ := Option.isSome_iff_exists.mp hcounted
  have hmatch := r.countsMatch e he hsuite
  refine ⟨n, hn, ?_⟩
  rw [hmatch.failed hcounted, hmatch.tests n hn, length_cases]

end Report

theorem isSome_count? {t : Tag} (h : isCounted t = true) :
    (count? t "tests".toList).isSome = true := by
  rw [count?, Option.isSome_map, Tag.value?, Option.isSome_map]
  exact ((Bool.and_eq_true _ _).mp h).2

/-- A count attribute is read as its number, or as zero when it is not there. -/
theorem numberAttr_suite {e : Element} (he : SuiteReads e) (hmatch : CountsMatch e)
    {name : List Char} (hname : name ∈ countNames)
    (hlt : ∀ n ∈ count? e.tag name, n < 2 ^ 53) :
    numberAttr (wholeTag e.tag.name e.tagText) name =
      some (.fin ((count? e.tag name).getD 0 : Nat)) := by
  have hword := countNames_word hname
  have honce : ∀ a ∈ e.tag.attribute? name, onePass a.value = true := by
    intro a ha
    refine onePass_digits (hmatch.digits name hname _ ?_).2
    rw [Tag.value?, Option.mem_def.mp ha]
    rfl
  have hskip := firstMatch_wholeTag (e := e) hname
  rw [wholeTag_eq] at hskip
  rw [numberAttr, wholeTag_eq, attr_tag hword.1 hword.2.1 (he.legible name hname) honce _ _ hskip
    (not_mem_endText e), Option.map_some, count?]
  cases hvalue : e.tag.value? name with
  | none => rfl
  | some v =>
    rw [count?, hvalue] at hlt
    have hread := numberOf_count (hmatch.digits name hname v hvalue) (hlt _ rfl)
    simp only [Option.elim_some, hread, Option.map_some, Option.getD_some]

/-! ## `parseJunit` -/

theorem suiteTag_print {r : Report} (h : r.Reads) {e : Element}
    (he : (r.content.elements isSuite).head? = some e) :
    suiteTag r.content.print = some (wholeTag e.tag.name e.tagText) := by
  have hwanted := Content.wanted_of_mem (List.mem_of_mem_head? he)
  have hname : e.tag.name = "testsuite".toList := of_decide_eq_true hwanted.1
  have hfirst : firstMatch (fun _ => tagAt "testsuite".toList) none r.content.print =
      (r.content.elements isSuite).head?.map Element.tagText := by
    refine firstMatch_content none (fun u hu t ht hsuffix rest => ?_) fun e' he' rest => ?_
    · exact tagAt_none (startsTag_of_shows (not_gt (by decide)) (sealed_of_leading hu)
        (h.before u hu) ht hsuffix rest)
    · have hname' : e'.tag.name = "testsuite".toList :=
        of_decide_eq_true (Content.wanted_of_mem (List.mem_of_mem_head? he')).1
      rw [← hname']
      exact tagAt_print (h.suite e' he').tag rest
  rw [suiteTag]
  simp only [hfirst, he, Option.map_some, Option.some_or, hname]

theorem parseJunit_report {r : Report} (h : r.Reads) : parseJunit r.content.print =
    some ⟨.fin (passedIn r.firstSuite), .fin (failedIn r.content), failuresIn r.content⟩ := by
  obtain ⟨e, he⟩ := Option.isSome_iff_exists.mp r.suite
  have hwanted := Content.wanted_of_mem (List.mem_of_mem_head? he)
  have hreads := h.suite e he
  have hmatch := r.countsMatch e hwanted.2 (Or.inl hwanted.1)
  have hbody : r.firstSuite = e.body := by rw [Report.firstSuite, Report.first, he]; rfl
  have hcounted := isSome_count? (r.counted e hwanted.2 hwanted.1)
  have hlt := fun {name} (hname : name ∈ countNames) =>
    Report.count_lt hwanted.2 (Or.inl hwanted.1) hcounted hname
  have hnumber := fun name (hname : name ∈ countNames) =>
    numberAttr_suite hreads hmatch hname (hlt hname)
  obtain ⟨n, hn, htests⟩ := Report.tests_eq hwanted.2 (Or.inl hwanted.1) hcounted
  have hfailed := hmatch.failed hcounted
  have hle : failedIn e.body ≤ failedIn r.content :=
    (Content.elements_sublist (fun t ht => by
      have hname : t.name = "testsuite".toList := of_decide_eq_true ht
      rw [isCase, hname]
      decide) (fun k hk e' he' => (r.apart k hk e' he').1)
      (List.mem_of_mem_head? he)).countP_le
  rw [parseJunit, failuresOf_content h.outside h.cases, suiteTag_print h he]
  simp only [Option.bind_eq_bind, Option.bind_some, Option.getD_some]
  rw [hnumber _ (by decide), hn]
  simp only [Option.bind_some, Option.getD_some]
  rw [hnumber "failures".toList (by decide), hnumber "errors".toList (by decide)]
  simp only [Option.bind_some]
  rw [max_sub htests, length_failuresIn, hbody, add, ← Nat.cast_add, hfailed, max_of_le hle]

/-! ## `junitCounts` -/

theorem flatMap_print_raw {ps : List Piece} (h : ps.all isRaw = true) :
    ps.flatMap Piece.print = said ps := by
  induction ps with
  | nil => rfl
  | cons p ps ih =>
    rw [List.all_cons, Bool.and_eq_true] at h
    cases p with
    | raw c => rw [List.flatMap_cons, ih h.2]; rfl
    | named e | numeric n => cases h.1

/-- Where nothing looks like the attribute, it is not read. -/
theorem firstMatch_of_placed {name u : List Char} (h : placed name u = false)
    (hhead : u.head?.any isWordChar = false) (hname : name.head?.any isWordChar = true)
    (prev : Option Char) : firstMatch (valueAt name) prev u = none := by
  have hnone : firstMatch (valueAt name) prev (u ++ []) =
      firstMatch (valueAt name) (u.getLast?.or prev) [] :=
    firstMatch_none prev fun v t ht hsplit => by
      rw [List.append_nil]
      by_contra hread
      rw [← ne_eq, Option.ne_none_iff_isSome, valueAt] at hread
      split at hread
      · next hall =>
        have hmark := firstMatch_eq_none (Option.not_isSome_iff_eq_none.mp
          (by rw [Bool.not_eq_true]; exact h)) ht hsplit
        cases v with
        | nil =>
          rw [List.nil_append] at hsplit
          obtain ⟨c, cs, hcons⟩ := List.exists_cons_of_ne_nil
            (show name ≠ [] by rintro rfl; cases hname)
          have hpre := List.isPrefixOf_iff_prefix.mp hall.2.1
          rw [hcons, List.cons_append] at hpre
          obtain ⟨more, rfl⟩ := hpre
          rw [hcons] at hname
          rw [hsplit] at hhead
          have hword : isWordChar c = true := hname
          have hnot : isWordChar c = false := hhead
          rw [hword] at hnot
          cases hnot
        | cons c v =>
          have hprev : ((c :: v).getLast?).or prev = ((c :: v).getLast?).or none := by
            rw [List.getLast?_cons]
            rfl
          rw [hprev] at hall
          rw [placeAt, if_pos ⟨hall.1, hall.2.1⟩] at hmark
          cases hmark
      · cases hread
  rw [List.append_nil] at hnone
  rw [hnone, firstMatch]

theorem firstMatch_countAt {name u : List Char} {prev : Option Char}
    (h : ∀ v ∈ firstMatch (valueAt name) prev u, v ≠ [] ∧ v.all Char.isDigit = true) :
    firstMatch (countAt name) prev u = firstMatch (valueAt name) prev u := by
  refine firstMatch_filter prev u fun v hv => ?_
  obtain ⟨hne, hall⟩ := h v hv
  rw [hall, Bool.and_true, Bool.not_eq_true', List.isEmpty_eq_false_iff]
  exact hne

/-- No tag with counts starts where none is shown. -/
theorem countedTagAt_of_shows {name u t : List Char}
    (hname : name ∈ ["testsuite".toList, "testsuites".toList]) (hu : Sealed u)
    (hshow : showsCounts u = false) (ht : t ≠ []) (hsuffix : t <:+ u) (rest : List Char) :
    countedTagAt name (t ++ rest) = none := by
  have hgt : '>' ∉ name := by
    simp only [List.mem_cons, List.not_mem_nil, or_false] at hname
    rcases hname with rfl | rfl <;> decide
  rw [countedTagAt]
  cases hstart : startsTag name (t ++ rest) with
  | false => rw [tagAt_none hstart]; rfl
  | true =>
    obtain ⟨hin, hhere⟩ := startsTag_append hgt (hu.suffix ht hsuffix) ht hstart
    obtain ⟨more, rfl, hhead⟩ := startsTag_iff.mp hhere
    have hmore : '>' ∈ more := by
      rcases List.mem_cons.mp hin with heq | hin
      · exact absurd heq (by decide)
      · exact (List.mem_append.mp hin).resolve_left hgt
    have hplaced : placed "tests".toList (more.takeWhile (· ≠ '>')) = false := by
      rw [showsCounts, List.any_eq_false] at hshow
      have hnot := hshow _ ((List.mem_tails _ _).mpr hsuffix)
      rw [Bool.not_eq_true, List.any_eq_false] at hnot
      have hthis := hnot name hname
      rw [hhere, List.drop_succ_cons, List.drop_left, Bool.true_and, Bool.not_eq_true] at hthis
      exact hthis
    have htake : (more ++ rest).takeWhile (· ≠ '>') = more.takeWhile (· ≠ '>') := by
      obtain ⟨as, bs, rfl, has⟩ := List.eq_append_cons_of_mem hmore
      rw [List.append_assoc, List.cons_append, takeWhile_tag has, takeWhile_tag has]
    cases htag : tagAt name ('<' :: (name ++ more) ++ rest) with
    | none => rfl
    | some tag =>
      have heq : tag = more.takeWhile (· ≠ '>') := by
        rw [tagAt, List.cons_append, List.append_assoc, List.drop_succ_cons, List.drop_left] at htag
        split at htag
        · cases htag
        · rw [← Option.some.inj htag, htake]
      have hheadTag : tag.head?.any isWordChar = false := by
        rw [heq]
        cases more with
        | nil => rfl
        | cons c cs =>
          rw [List.takeWhile_cons]
          split
          · exact hhead
          · rfl
      rw [← heq] at hplaced
      have hvalue := firstMatch_of_placed hplaced hheadTag (by decide) name.getLast?
      have hnone : ∀ v ∈ firstMatch (valueAt "tests".toList) name.getLast? tag,
          v ≠ [] ∧ v.all Char.isDigit = true := by
        rw [hvalue]
        simp
      have hcount := firstMatch_countAt hnone
      simp only [Option.bind_eq_bind, Option.bind_some, hcount, hvalue, Option.bind_none]

/-- What is read of a suite with counts: its tag and its number of testcases. -/
def readSuite (e : Element) : List Char × List Char :=
  (wholeTag e.tag.name e.tagText, (e.tag.value? "tests".toList).getD [])

theorem suitesAt_print {e : Element} (hcounted : isCounted e.tag = true) (hmatch : CountsMatch e)
    (he : SuiteReads e) (hraw : Digits e) (rest : List Char) :
    suitesAt (e.print ++ rest) = some (readSuite e) := by
  obtain ⟨hsuite, hsome⟩ := (Bool.and_eq_true _ _).mp hcounted
  rw [Bool.or_eq_true] at hsuite
  obtain ⟨a, ha⟩ := Option.isSome_iff_exists.mp hsome
  have hvalue : e.tag.value? "tests".toList = some (said a.value) := by rw [Tag.value?, ha]; rfl
  have hown : countedTagAt e.tag.name (e.print ++ rest) = some (readSuite e) := by
    obtain ⟨post, htext, hpost⟩ := tagText_eq e
    have hfound : firstMatch (valueAt "tests".toList) e.tag.name.getLast? e.tagText =
        some (said a.value) := by
      rw [htext, firstMatch_count he (by decide) _ hpost, ha, Option.map_some,
        flatMap_print_raw (hraw _ (by decide) a ha)]
    have hdigits : ∀ v ∈ firstMatch (valueAt "tests".toList) e.tag.name.getLast? e.tagText,
        v ≠ [] ∧ v.all Char.isDigit = true := by
      rw [hfound]
      rintro v hv
      obtain rfl := Option.some.inj hv
      exact hmatch.digits _ (by decide) _ hvalue
    rw [countedTagAt, tagAt_print he.tag, readSuite, hvalue]
    simp only [Option.bind_eq_bind, Option.bind_some, firstMatch_countAt hdigits, hfound,
      Option.getD_some]
  have hother : ∀ name, name.all isWordChar = true → e.tag.name.all isWordChar = true →
      e.tag.name ≠ name → countedTagAt name (e.print ++ rest) = none := by
    intro name hword hself hne
    rw [countedTagAt, tagAt_none (startsTag_other hword hself hne rest)]
    rfl
  rw [suitesAt]
  rcases hsuite with hsuite | hsuite
  · have hname : e.tag.name = "testsuite".toList := of_decide_eq_true hsuite
    rw [hname] at hown hother
    rw [hother "testsuites".toList (by decide) (by decide) (by decide), hown]
    rfl
  · have hname : e.tag.name = "testsuites".toList := of_decide_eq_true hsuite
    rw [hname] at hown
    rw [hown]
    rfl

theorem firstMatch_suites {r : Report} (h : r.Reads) :
    firstMatch (fun _ => suitesAt) none r.content.print =
      (r.content.elements isCounted).head?.map readSuite := by
  refine firstMatch_content none (fun u hu t ht hsuffix rest => ?_) fun e he rest => ?_
  · have hnone : ∀ name ∈ ["testsuite".toList, "testsuites".toList],
        countedTagAt name (t ++ rest) = none := fun name hname =>
      countedTagAt_of_shows hname (sealed_of_leading hu) (h.beforeCounted u hu) ht hsuffix rest
    rw [suitesAt, hnone _ (by decide), hnone _ (by decide)]
    rfl
  · obtain ⟨hcounted, hin⟩ := Content.wanted_of_mem (List.mem_of_mem_head? he)
    have hkind := (Bool.or_eq_true _ _).mp ((Bool.and_eq_true _ _).mp hcounted).1
    obtain ⟨hreads, hraw⟩ := h.counted e he
    exact suitesAt_print hcounted (r.countsMatch e hin hkind) hreads hraw rest

/-- `junitCounts` reads a count attribute as its number too. -/
theorem count_suite {e : Element} (he : SuiteReads e) (hmatch : CountsMatch e) (hraw : Digits e)
    {name : List Char} (hname : name ∈ countNames) (hlt : ∀ n ∈ count? e.tag name, n < 2 ^ 53) :
    ((firstMatch (countAt name) none (wholeTag e.tag.name e.tagText)).map
      fun v => numberOf (String.ofList v)).getD (.fin 0) =
        .fin ((count? e.tag name).getD 0 : Nat) := by
  have hfound : firstMatch (valueAt name) none (wholeTag e.tag.name e.tagText) =
      e.tag.value? name := by
    rw [firstMatch_wholeTag hname, firstMatch_count he hname _ (not_mem_endText e), Tag.value?]
    cases ha : e.tag.attribute? name with
    | none => rfl
    | some a => rw [Option.map_some, Option.map_some, flatMap_print_raw (hraw name hname a ha)]
  rw [firstMatch_countAt (by rw [hfound]; exact hmatch.digits name hname), hfound, count?]
  cases hvalue : e.tag.value? name with
  | none => rfl
  | some v =>
    rw [count?, hvalue] at hlt
    rw [Option.map_some, Option.map_some, Option.getD_some, Option.getD_some,
      numberOf_count (hmatch.digits name hname v hvalue) (hlt _ rfl)]

theorem junitCounts_report {r : Report} (h : r.Reads) : junitCounts r.content.print =
    ⟨.fin (passedIn r.firstCounted), .fin (failedIn r.firstCounted)⟩ := by
  obtain ⟨s, hs⟩ := Option.isSome_iff_exists.mp r.suite
  have hsuite := Content.wanted_of_mem (List.mem_of_mem_head? hs)
  have hne := Content.elements_ne_nil hsuite.2 (r.counted s hsuite.2 hsuite.1)
  obtain ⟨e, es, hes⟩ := List.exists_cons_of_ne_nil hne
  have he : (r.content.elements isCounted).head? = some e := by rw [hes]; rfl
  obtain ⟨hreads, hraw⟩ := h.counted e he
  have hwanted := Content.wanted_of_mem (List.mem_of_mem_head? he)
  have hkind := (Bool.or_eq_true _ _).mp ((Bool.and_eq_true _ _).mp hwanted.1).1
  have hmatch := r.countsMatch e hwanted.2 hkind
  have hcounted := isSome_count? hwanted.1
  have hlt := fun name (hname : name ∈ countNames) =>
    Report.count_lt hwanted.2 hkind hcounted hname
  have hbody : r.firstCounted = e.body := by rw [Report.firstCounted, Report.first, he]; rfl
  obtain ⟨n, hn, htests⟩ := Report.tests_eq hwanted.2 hkind hcounted
  have hnumber : numberOf (String.ofList (readSuite e).2) = .fin n := by
    obtain ⟨v, hv, rfl⟩ := Option.map_eq_some_iff.mp hn
    rw [readSuite, hv, Option.getD_some]
    exact numberOf_count (hmatch.digits _ (by decide) v hv) (hlt _ (by decide) _ hn)
  have hcount := fun name (hname : name ∈ countNames) =>
    count_suite hreads hmatch hraw hname (hlt name hname)
  rw [junitCounts, firstMatch_suites h, he, Option.map_some]
  change Counts.mk (max (.fin 0) (sub (numberOf (String.ofList (readSuite e).2)) _)) _ = _
  simp only [readSuite] at hnumber ⊢
  rw [hcount _ (by decide), hcount _ (by decide), hnumber, max_sub htests, hbody, add,
    ← Nat.cast_add, hmatch.failed hcounted]

/-! ## The two readers -/

/-- Of a report that is written as the expressions expect, every failure is read, with its name
and message; each reader's counts are those of the suite it chose. -/
theorem read_report (r : Report) (h : r.Reads) :
    parseJunit r.content.print =
      some ⟨.fin (passedIn r.firstSuite), .fin (failedIn r.content), failuresIn r.content⟩ ∧
    junitCounts r.content.print =
      ⟨.fin (passedIn r.firstCounted), .fin (failedIn r.firstCounted)⟩ :=
  ⟨parseJunit_report h, junitCounts_report h⟩

/-- Both readers count the whole report. -/
def Report.Whole (r : Report) : Prop :=
  parseJunit r.content.print =
    some ⟨.fin (passedIn r.content), .fin (failedIn r.content), failuresIn r.content⟩ ∧
  junitCounts r.content.print = ⟨.fin (passedIn r.content), .fin (failedIn r.content)⟩

/-- A report is counted whole exactly where the chosen suites have all there is to count. -/
theorem whole_iff {r : Report} (h : r.Reads) : r.Whole ↔
    passedIn r.firstSuite = passedIn r.content ∧ passedIn r.firstCounted = passedIn r.content ∧
      failedIn r.firstCounted = failedIn r.content := by
  obtain ⟨hparsed, hcounted⟩ := read_report r h
  rw [Report.Whole, hparsed, hcounted]
  simp only [Option.some.injEq, JunitSummary.mk.injEq, Counts.mk.injEq, JsNum.fin.injEq,
    Nat.cast_inj, and_true]

/-! ## Two suites -/

/-- `name="value"`, with a blank in front. -/
def written (name value : List Char) (hname : Xml.isName name = true)
    (hvalue : (value.map Piece.raw).all (Piece.avoids ['<', '&', '"']) = true) : Attribute :=
  ⟨[' '], name, [], [], '"', value.map .raw, by decide, rfl, hname, rfl, rfl, Or.inl rfl, hvalue⟩

def tagOf (name : List Char) (attributes : List Attribute) (h : Xml.isName name = true) : Tag :=
  ⟨name, attributes, [], h, rfl⟩

def wrapperTag : Tag := tagOf "testsuites".toList [] (by decide)

def firstTag : Tag :=
  tagOf "testsuite".toList [written "tests".toList ['1'] (by decide) (by decide),
    written "failures".toList ['0'] (by decide) (by decide)] (by decide)

def secondTag : Tag :=
  tagOf "testsuite".toList [written "tests".toList ['2'] (by decide) (by decide),
    written "failures".toList ['1'] (by decide) (by decide)] (by decide)

def caseTag (name : List Char)
    (h : (name.map Piece.raw).all (Piece.avoids ['<', '&', '"']) = true) : Tag :=
  tagOf "testcase".toList [written "name".toList name (by decide) h] (by decide)

def failureTag : Tag := tagOf "failure".toList [] (by decide)

/-- A testcase that passed, and a second suite with another one and one that failed. -/
def twoSuites : Content :=
  .element wrapperTag
    (.element firstTag (.empty (caseTag ['a'] (by decide)) .nil) [] rfl
      (.element secondTag
        (.empty (caseTag ['b'] (by decide))
          (.element (caseTag ['c'] (by decide))
            (.element failureTag (.span (.piece (.raw 'x') (by decide)) .nil) [] rfl .nil)
            [] rfl .nil))
        [] rfl .nil))
    [] rfl .nil

instance (e : Element) : Decidable (CountsMatch e) :=
  decidable_of_iff
    ((∀ name ∈ countNames, ∀ v ∈ e.tag.value? name, v ≠ [] ∧ v.all Char.isDigit = true) ∧
      (∀ n ∈ count? e.tag "tests".toList, n = (cases e.body).length) ∧
      ((count? e.tag "tests".toList).isSome → (count? e.tag "failures".toList).getD 0 +
        (count? e.tag "errors".toList).getD 0 = failedIn e.body))
    ⟨fun h => ⟨h.1, h.2.1, h.2.2⟩, fun h => ⟨h.digits, h.tests, h.failed⟩⟩

def twoReport : Report where
  content := twoSuites
  fits := by decide +kernel
  suite := by decide +kernel
  counted := by decide +kernel
  countsMatch := by decide +kernel
  apart := by decide +kernel

/-- A testcase of the two suites that passed. -/
theorem caseReads_passed {name : List Char}
    (h : (name.map Piece.raw).all (Piece.avoids ['<', '&', '"']) = true)
    (hgt : '>' ∉ (caseTag name h).inner) : CaseReads ⟨caseTag name h, none⟩ where
  tag := hgt
  closes := rfl
  before := List.forall_mem_nil _
  child := rfl
  problem := fun _ hp => absurd hp (Option.not_mem_none _)
  name := fun hfailing => absurd hfailing Bool.false_ne_true
  id := fun hfailing => absurd hfailing Bool.false_ne_true

theorem twoReport_reads : twoReport.Reads where
  outside := by decide +kernel
  cases := by
    change ∀ k ∈ [_, _, _], CaseReads k
    refine List.forall_mem_cons.mpr ⟨caseReads_passed _ (by decide),
      List.forall_mem_cons.mpr ⟨caseReads_passed _ (by decide), List.forall_mem_singleton.mpr ?_⟩⟩
    refine ⟨by decide, by decide +kernel, by decide +kernel, rfl, fun p hp => ?_, fun _ => ?_,
      fun _ hnone => ?_⟩
    · obtain rfl := Option.some.inj hp
      exact ⟨by decide, by decide +kernel, rfl, by decide +kernel,
        fun htext => absurd htext (by decide), fun htext => absurd htext (by decide)⟩
    · exact ⟨by decide +kernel, by decide +kernel⟩
    · exact absurd hnone (by decide)
  before := by decide +kernel
  suite := fun e he => by
    obtain rfl := Option.some.inj he
    exact ⟨by decide, by decide +kernel⟩
  beforeCounted := by decide +kernel
  counted := fun e he => by
    obtain rfl := Option.some.inj he
    exact ⟨⟨by decide, by decide +kernel⟩, by rw [Digits]; decide +kernel⟩

/-- The second suite is not counted: a failing report has no failure in `junitCounts`. -/
theorem whole_iff_twoSuites : ¬ twoReport.Whole := by
  rw [whole_iff twoReport_reads]
  decide +kernel

/-! ## A name that writes a reference -/

/-- The name is `&#60;`, and written so that it says that. -/
def escapedTag : Tag :=
  tagOf "testcase".toList [⟨[' '], "name".toList, [], [], '"',
    [.named .amp, .raw '#', .raw '6', .raw '0', .raw ';'],
    by decide, rfl, by decide, rfl, rfl, Or.inl rfl, by decide⟩] (by decide)

/-- One suite, with its one testcase, which failed. -/
def escaped : Content :=
  .element (tagOf "testsuite".toList [written "tests".toList ['1'] (by decide) (by decide),
      written "failures".toList ['1'] (by decide) (by decide)] (by decide))
    (.element escapedTag
      (.element failureTag (.span (.piece (.raw 'x') (by decide)) .nil) [] rfl .nil) [] rfl .nil)
    [] rfl .nil

def escapedReport : Report where
  content := escaped
  fits := by decide +kernel
  suite := by decide +kernel
  counted := by decide +kernel
  countsMatch := by decide +kernel
  apart := by decide +kernel

/-- What the first pass makes of the name is decoded once more, to another name. -/
theorem escaped_not_whole : ¬ escapedReport.Whole := by
  rintro ⟨hread, -⟩
  have hfound : (parseJunit escapedReport.content.print).map JunitSummary.failures =
      some [⟨['<'], ['x']⟩] := by decide +kernel
  have hthere : failuresIn escapedReport.content = [⟨"&#60;".toList, ['x']⟩] := by decide +kernel
  rw [hread, hthere] at hfound
  exact absurd hfound (by decide)

end FleetRunner.Junit
