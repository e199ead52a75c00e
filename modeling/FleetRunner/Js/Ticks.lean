import FleetRunner.Js.Parse

/-!
# JSON text read from inside a string

Where text is cut inside a string, a reader that starts there takes what is outside
strings for what is inside, and the other way around. In printed text a tick and a
backslash only stand inside strings, so that such a reader meets neither in a string
of its own.
-/

namespace FleetRunner.JsonText

variable {js : Js}

/-! ## Values without ticks -/

/-- No string of the value has a tick. -/
inductive Quiet : Json → Prop where
  | null : Quiet .null
  | bool (b : Bool) : Quiet (.bool b)
  | num (q : Rat) : Quiet (.num q)
  | str {s : String} (h : '\x60' ∉ s.toList) : Quiet (.str s)
  | arr {xs : List Json} (h : ∀ x ∈ xs, Quiet x) : Quiet (.arr xs)
  | obj {fs : Fields} (keys : ∀ p ∈ fs, '\x60' ∉ p.1.toList) (values : ∀ p ∈ fs, Quiet p.2) :
      Quiet (.obj fs)

theorem mem_elemChars {c : Char} {xs : List Json} (h : c ∈ elemChars js xs) :
    c = ',' ∨ ∃ x ∈ xs, c ∈ x.chars js := by
  induction xs with
  | nil => cases h
  | cons x xs ih =>
    cases xs with
    | nil => exact .inr ⟨x, List.mem_cons_self, h⟩
    | cons y ys =>
      rcases List.mem_append.mp h with hx | h
      · exact .inr ⟨x, List.mem_cons_self, hx⟩
      · rcases List.mem_cons.mp h with rfl | h
        · exact .inl rfl
        · exact (ih h).imp_right fun ⟨z, hz, hc⟩ => ⟨z, List.mem_cons_of_mem x hz, hc⟩

theorem mem_fieldChars {c : Char} {fs : Fields} (h : c ∈ fieldChars js fs) :
    (c = ',' ∨ c = ':') ∨ ∃ p ∈ fs, c ∈ quoted p.1 ∨ c ∈ p.2.chars js := by
  induction fs with
  | nil => cases h
  | cons p fs ih =>
    obtain ⟨k, v⟩ := p
    have hfield : c ∈ quoted k ++ ':' :: v.chars js →
        (c = ',' ∨ c = ':') ∨ ∃ p ∈ (k, v) :: fs, c ∈ quoted p.1 ∨ c ∈ p.2.chars js := by
      intro hmem
      rcases List.mem_append.mp hmem with hk | hmem
      · exact .inr ⟨_, List.mem_cons_self, .inl hk⟩
      · rcases List.mem_cons.mp hmem with rfl | hv
        · exact .inl (.inr rfl)
        · exact .inr ⟨_, List.mem_cons_self, .inr hv⟩
    cases fs with
    | nil => exact hfield h
    | cons q qs =>
      rcases List.mem_append.mp h with h | h
      · exact hfield h
      · rcases List.mem_cons.mp h with rfl | h
        · exact .inl (.inl rfl)
        · exact (ih h).imp_right fun ⟨r, hr, hc⟩ => ⟨r, List.mem_cons_of_mem _ hr, hc⟩

theorem hexDigit_plain {n : Nat} (h : n < 16) :
    hexDigit n ≠ '\\' ∧ hexDigit n ≠ '"' ∧ hexDigit n ≠ '\x60' := by
  interval_cases n <;> decide

theorem mem_escapeChar_tick {c : Char} (h : '\x60' ∈ escapeChar c) : c = '\x60' := by
  unfold escapeChar at h
  split at h
  · exact absurd h (by decide)
  · exact absurd h (by decide)
  · exact absurd h (by decide)
  · exact absurd h (by decide)
  · exact absurd h (by decide)
  · split at h
    · exact absurd h (by decide)
    · split at h
      · exact absurd h (by decide)
      · split at h
        · obtain ⟨-, -, hhigh⟩ := hexDigit_plain (show c.toNat / 16 < 16 by omega)
          obtain ⟨-, -, hlow⟩ := hexDigit_plain (show c.toNat % 16 < 16 by omega)
          simp [Ne.symm hhigh, Ne.symm hlow] at h
        · exact (List.mem_singleton.mp h).symm

theorem tick_not_mem_quoted {s : String} (h : '\x60' ∉ s.toList) : '\x60' ∉ quoted s := by
  intro hmem
  simp only [quoted, List.mem_cons, List.mem_append, List.not_mem_nil, or_false] at hmem
  rcases hmem with (hmem | hmem) | hmem
  · exact absurd hmem (by decide)
  · obtain ⟨c, hc, htick⟩ := List.mem_flatMap.mp hmem
    exact h (mem_escapeChar_tick htick ▸ hc)
  · exact absurd hmem (by decide)

theorem tick_not_mem_word {cs : List Char} (h : ∀ c ∈ cs, isWordText c = true) : '\x60' ∉ cs :=
  fun hmem => absurd (h _ hmem) (by decide)

theorem tick_not_mem_chars {v : Json} (hw : Writable js v) (h : Quiet v) :
    '\x60' ∉ v.chars js := by
  induction hw with
  | null =>
    have hall : ∀ c ∈ "null".toList, isWordText c = true := List.all_eq_true.mp (by decide)
    exact tick_not_mem_word hall
  | bool b =>
    have hall : ∀ c ∈ (boolText b).toList, isWordText c = true := by
      cases b <;> exact List.all_eq_true.mp (by decide)
    exact tick_not_mem_word hall
  | num text => exact tick_not_mem_word (all_numberText text).2
  | str s =>
    cases h with
    | str hs => exact tick_not_mem_quoted hs
  | @arr xs _ ih =>
    cases h with
    | arr hxs =>
      change '\x60' ∉ '[' :: (elemChars js xs ++ [']'])
      intro hmem
      simp only [List.mem_cons, List.mem_append, List.not_mem_nil, or_false] at hmem
      rcases hmem with hmem | hmem | hmem
      · exact absurd hmem (by decide)
      · rcases mem_elemChars hmem with hcomma | ⟨x, hx, htick⟩
        · exact absurd hcomma (by decide)
        · exact ih x hx (hxs x hx) htick
      · exact absurd hmem (by decide)
  | @obj fs _ _ ih =>
    cases h with
    | obj keys values =>
      change '\x60' ∉ '\x7b' :: (fieldChars js fs ++ ['\x7d'])
      intro hmem
      simp only [List.mem_cons, List.mem_append, List.not_mem_nil, or_false] at hmem
      rcases hmem with hmem | hmem | hmem
      · exact absurd hmem (by decide)
      · rcases mem_fieldChars hmem with (hmark | hmark) | ⟨p, hp, hkey | hvalue⟩
        · exact absurd hmark (by decide)
        · exact absurd hmark (by decide)
        · exact tick_not_mem_quoted (keys p hp) hkey
        · exact ih p hp (values p hp) hvalue
      · exact absurd hmem (by decide)

/-! ## Where ticks stand -/

/-- Ticks and backslashes stand inside strings, and no backslash stands before a tick. -/
def Tidy : Bool → Bool → List Char → Prop
  | _, _, [] => True
  | inString, true, c :: cs => c ≠ '\x60' ∧ Tidy inString false cs
  | inString, false, c :: cs =>
    if c = '"' then Tidy (!inString) false cs
    else if c = '\\' then inString = true ∧ Tidy inString true cs
    else (c = '\x60' → inString = true) ∧ Tidy inString false cs

variable {inString escaped : Bool}

theorem tidy_plain {c : Char} (hquote : c ≠ '"') (hback : c ≠ '\\') (cs : List Char) :
    Tidy inString false (c :: cs) ↔ (c = '\x60' → inString = true) ∧ Tidy inString false cs := by
  rw [Tidy, if_neg hquote, if_neg hback]

/-- What is behind a part of tidy text is tidy, from some place on. -/
theorem tidy_behind {cs ds : List Char} (h : Tidy inString escaped (cs ++ ds)) :
    ∃ i e, Tidy i e ds := by
  induction cs generalizing inString escaped with
  | nil => exact ⟨_, _, h⟩
  | cons c cs ih =>
    cases escaped with
    | true => exact ih h.2
    | false =>
      rw [List.cons_append, Tidy] at h
      split at h
      · exact ih h
      · split at h
        · exact ih h.2
        · exact ih h.2

theorem tidy_before {cs ds : List Char} (h : Tidy inString escaped (cs ++ ds)) :
    Tidy inString escaped cs := by
  induction cs generalizing inString escaped with
  | nil => rw [Tidy]; trivial
  | cons c cs ih =>
    cases escaped with
    | true => exact ⟨h.1, ih h.2⟩
    | false =>
      rw [List.cons_append, Tidy] at h
      rw [Tidy]
      split
      · next hquote =>
        rw [if_pos hquote] at h
        exact ih h
      · next hquote =>
        rw [if_neg hquote] at h
        split
        · next hback =>
          rw [if_pos hback] at h
          exact ⟨h.1, ih h.2⟩
        · next hback =>
          rw [if_neg hback] at h
          exact ⟨h.1, ih h.2⟩

/-- Behind a tick there is a string around. -/
theorem tidy_tick {cs : List Char} (h : Tidy inString escaped ('\x60' :: cs)) :
    Tidy true false cs := by
  cases escaped with
  | true => exact absurd rfl h.1
  | false =>
    obtain ⟨hin, hrest⟩ := (tidy_plain (by decide) (by decide) cs).mp h
    exact hin rfl ▸ hrest

theorem tidy_drop {cs ds : List Char} (hcs : ∀ c ∈ cs, c ≠ '"' ∧ c ≠ '\\')
    (h : Tidy inString false (cs ++ ds)) : Tidy inString false ds := by
  induction cs with
  | nil => exact h
  | cons c cs ih =>
    obtain ⟨hquote, hback⟩ := hcs c List.mem_cons_self
    exact ih (fun d hd => hcs d (List.mem_cons_of_mem c hd))
      ((tidy_plain hquote hback _).mp h).2

/-- Tidy text may follow, outside strings. -/
def Leads (cs : List Char) : Prop := ∀ ds, Tidy false false ds → Tidy false false (cs ++ ds)

theorem Leads.append {cs ds : List Char} (hcs : Leads cs) (hds : Leads ds) : Leads (cs ++ ds) :=
  fun rest hrest => by
    rw [List.append_assoc]
    exact hcs _ (hds _ hrest)

theorem leads_chars {cs : List Char} (h : ∀ c ∈ cs, c ≠ '"' ∧ c ≠ '\\' ∧ c ≠ '\x60') :
    Leads cs := by
  induction cs with
  | nil => exact fun _ hds => hds
  | cons c cs ih =>
    obtain ⟨hquote, hback, htick⟩ := h c List.mem_cons_self
    intro ds hds
    exact (tidy_plain hquote hback _).mpr
      ⟨fun heq => absurd heq htick, ih (fun d hd => h d (List.mem_cons_of_mem c hd)) ds hds⟩

theorem tidy_escape {c : Char} (hc : c ≠ '\x60') {rest : List Char} (h : Tidy true false rest) :
    Tidy true false ('\\' :: c :: rest) := by
  rw [Tidy, if_neg (by decide), if_pos rfl]
  exact ⟨rfl, hc, h⟩

theorem tidy_inside {c : Char} (hquote : c ≠ '"') (hback : c ≠ '\\') {rest : List Char}
    (h : Tidy true false rest) : Tidy true false (c :: rest) :=
  (tidy_plain hquote hback rest).mpr ⟨fun _ => rfl, h⟩

theorem tidy_escapeChar (c : Char) {rest : List Char} (h : Tidy true false rest) :
    Tidy true false (escapeChar c ++ rest) := by
  unfold escapeChar
  split
  · exact tidy_escape (by decide) h
  · exact tidy_escape (by decide) h
  · exact tidy_escape (by decide) h
  · exact tidy_escape (by decide) h
  · exact tidy_escape (by decide) h
  · next hquote hback _ _ _ =>
    split
    · exact tidy_escape (by decide) h
    · split
      · exact tidy_escape (by decide) h
      · split
        · obtain ⟨hback1, hquote1, -⟩ := hexDigit_plain (show c.toNat / 16 < 16 by omega)
          obtain ⟨hback2, hquote2, -⟩ := hexDigit_plain (show c.toNat % 16 < 16 by omega)
          have hdigits := tidy_inside hquote1 hback1 (tidy_inside hquote2 hback2 h)
          exact tidy_escape (by decide)
            (tidy_inside (by decide) (by decide) (tidy_inside (by decide) (by decide) hdigits))
        · exact tidy_inside hquote hback h

theorem leads_quoted (s : String) : Leads (quoted s) := by
  have hinside : ∀ (cs rest : List Char), Tidy false false rest →
      Tidy true false (cs.flatMap escapeChar ++ '"' :: rest) := fun cs rest hrest => by
    induction cs with
    | nil =>
      rw [List.flatMap_nil, List.nil_append, Tidy, if_pos rfl]
      exact hrest
    | cons c cs ih =>
      rw [List.flatMap_cons, List.append_assoc]
      exact tidy_escapeChar c ih
  intro rest hrest
  have htext : quoted s ++ rest = '"' :: (s.toList.flatMap escapeChar ++ '"' :: rest) := by
    simp [quoted]
  rw [htext, Tidy, if_pos rfl]
  exact hinside s.toList rest hrest

theorem leads_singleton {c : Char} (h : c ≠ '"' ∧ c ≠ '\\' ∧ c ≠ '\x60') : Leads [c] :=
  leads_chars fun _ hd => List.mem_singleton.mp hd ▸ h

theorem leads_composable : Composable Leads where
  nil _ hds := hds
  append := Leads.append
  word h := leads_chars fun c hc => by
    obtain ⟨-, -, hquote, -, -, -, -, hback, -⟩ := not_mark_of_isWordText (h c hc)
    exact ⟨hquote, hback, fun htick => absurd (h c hc) (htick ▸ by decide)⟩
  quoted := leads_quoted
  mark c hc := by
    simp only [List.mem_cons, List.not_mem_nil, or_false] at hc
    rcases hc with rfl | rfl <;> exact leads_singleton (by decide)
  arr h := (leads_singleton (c := '[') (by decide)).append
    (h.append (leads_singleton (by decide)))
  obj h := (leads_singleton (c := '\x7b') (by decide)).append
    (h.append (leads_singleton (by decide)))

/-! ## The turned reader -/

def QuietFrame : Frame → Prop
  | .arr xs => Quiet (.arr xs)
  | .obj fs => Quiet (.obj fs)
  | .field fs k => Quiet (.obj fs) ∧ '\x60' ∉ k.toList

def QuietMode : Mode → Prop
  | .done v => Quiet v
  | .str acc => ∃ cs : List Char, acc = cs.map Char.toNat ∧ '\x60' ∉ cs
  | .escape _ | .hex _ _ => False
  | _ => True

/-- Nothing that was read has a tick, and there was no backslash. -/
structure QuietState (s : State) : Prop where
  stack : ∀ frame ∈ s.stack, QuietFrame frame
  mode : QuietMode s.mode

theorem mem_set {fs : Fields} {k : String} {v : Json} {p : String × Json}
    (h : p ∈ Fields.set fs k v) : p ∈ fs ∨ p = (k, v) := by
  induction fs with
  | nil => exact .inr (List.mem_singleton.mp h)
  | cons q fs ih =>
    obtain ⟨j, w⟩ := q
    rw [Fields.set] at h
    split at h
    · exact (List.mem_cons.mp h).symm.imp_left (List.mem_cons_of_mem _)
    · rcases List.mem_cons.mp h with rfl | h
      · exact .inl List.mem_cons_self
      · exact (ih h).imp_left (List.mem_cons_of_mem _)

theorem quiet_give {v : Json} (hv : Quiet v) {st : List Frame}
    (h : ∀ frame ∈ st, QuietFrame frame) : QuietState (give v st) := by
  match st, h with
  | [], _ => exact ⟨by simp [give], hv⟩
  | .arr xs :: st, h =>
    obtain ⟨hxs, hst⟩ := List.forall_mem_cons.mp h
    cases hxs with
    | arr hxs =>
      refine ⟨List.forall_mem_cons.mpr ⟨.arr fun x hx => ?_, hst⟩, trivial⟩
      rcases List.mem_append.mp hx with hx | hx
      · exact hxs x hx
      · exact List.mem_singleton.mp hx ▸ hv
  | .obj fs :: st, h => exact ⟨h, trivial⟩
  | .field fs k :: st, h =>
    obtain ⟨⟨hfs, hk⟩, hst⟩ := List.forall_mem_cons.mp h
    cases hfs with
    | obj keys values =>
      refine ⟨List.forall_mem_cons.mpr ⟨.obj (fun p hp => ?_) fun p hp => ?_, hst⟩, trivial⟩
      · rcases mem_set hp with hp | rfl
        · exact keys p hp
        · exact hk
      · rcases mem_set hp with hp | rfl
        · exact values p hp
        · exact hv

theorem quiet_giveString {k : String} (hk : '\x60' ∉ k.toList) {st : List Frame}
    (h : ∀ frame ∈ st, QuietFrame frame) : QuietState (giveString k st) := by
  unfold giveString
  split
  · next fs st =>
    obtain ⟨hfs, hst⟩ := List.forall_mem_cons.mp h
    exact ⟨List.forall_mem_cons.mpr ⟨⟨hfs, hk⟩, hst⟩, trivial⟩
  · exact quiet_give (.str hk) h

theorem quiet_wordValue {cs : List Char} {v : Json} (h : wordValue cs = some v) : Quiet v := by
  unfold wordValue at h
  split at h
  · exact Option.some.inj h ▸ .bool true
  · split at h
    · exact Option.some.inj h ▸ .bool false
    · split at h
      · exact Option.some.inj h ▸ .null
      · split at h
        · rw [← Option.some.inj h]
          cases numberOf (String.ofList cs) with
          | fin q => exact .num q
          | _ => exact .null
        · cases h

/-- The reader is outside strings where the text is inside, and the other way around. -/
structure Turned (inString : Bool) (s : State) : Prop where
  quiet : QuietState s
  turned : s.mode.inString = !inString

variable {s t : State} {c : Char} {cs : List Char}

theorem inString_giveString (k : String) (st : List Frame) :
    (giveString k st).mode.inString = false := by
  unfold giveString
  split
  · rfl
  · exact (sound_give _ _).1

/-- Outside its strings the reader goes on without a quote. -/
theorem Turned.outside (hs : Turned inString s) (htidy : Tidy inString false (c :: cs))
    (houtside : s.mode.inString = false) (hquote : c ≠ '"') (hback : c ≠ '\\')
    (ht : QuietState t) (houtside' : t.mode.inString = false) :
    ∃ i, Turned i t ∧ Tidy i false cs :=
  ⟨inString, ⟨ht, houtside'.trans (houtside.symm.trans hs.turned)⟩,
    ((tidy_plain hquote hback cs).mp htidy).2⟩

theorem Moved.turned (h : Moved c s t) (hs : Turned inString s)
    (htidy : Tidy inString false (c :: cs)) : ∃ i, Turned i t ∧ Tidy i false cs := by
  induction h with
  | same space outside =>
    have hplain : c ≠ '"' ∧ c ≠ '\\' := by
      constructor <;> rintro rfl <;> exact absurd space (by decide)
    exact hs.outside htidy outside hplain.1 hplain.2 hs.quiet outside
  | expects going mark plain =>
    have hplain : c ≠ '"' ∧ c ≠ '\\' := by
      rcases mark with ⟨rfl, -⟩ | ⟨rfl, -⟩ <;> decide
    refine hs.outside htidy going.2 hplain.1 hplain.2 ⟨hs.quiet.stack, ?_⟩ ?_
    · rcases plain with rfl | rfl <;> trivial
    · rcases plain with rfl | rfl <;> rfl
  | opensArr going mark =>
    subst mark
    have hempty : Quiet (.arr []) := .arr (by simp)
    exact hs.outside htidy going.2 (by decide) (by decide)
      ⟨List.forall_mem_cons.mpr ⟨(hempty : QuietFrame (.arr [])), hs.quiet.stack⟩, trivial⟩ rfl
  | opensObj going mark =>
    subst mark
    have hempty : Quiet (.obj []) := .obj (by simp) (by simp)
    exact hs.outside htidy going.2 (by decide) (by decide)
      ⟨List.forall_mem_cons.mpr ⟨(hempty : QuietFrame (.obj [])), hs.quiet.stack⟩, trivial⟩ rfl
  | closesArr going mark top =>
    subst mark
    obtain ⟨hxs, hst⟩ := List.forall_mem_cons.mp (top ▸ hs.quiet.stack)
    exact hs.outside htidy going.2 (by decide) (by decide) (quiet_give hxs hst)
      (sound_give _ _).1
  | closesObj going mark top =>
    subst mark
    obtain ⟨hfs, hst⟩ := List.forall_mem_cons.mp (top ▸ hs.quiet.stack)
    exact hs.outside htidy going.2 (by decide) (by decide) (quiet_give hfs hst)
      (sound_give _ _).1
  | word acc going text =>
    obtain ⟨-, -, hquote, -, -, -, -, hback, -⟩ := not_mark_of_isWordText text
    exact hs.outside htidy going.2 hquote hback ⟨hs.quiet.stack, trivial⟩ rfl
  | @wordEnds s t acc v mode value _ ih =>
    have houtside : s.mode.inString = false := by
      rw [mode]
      rfl
    exact ih ⟨quiet_give (quiet_wordValue value) hs.quiet.stack,
      (sound_give v _).1.trans (houtside.symm.trans hs.turned)⟩
  | quote going mark =>
    subst mark
    have hin : inString = true := by
      simpa [going.2] using hs.turned
    subst hin
    refine ⟨false, ⟨⟨hs.quiet.stack, [], rfl, by simp⟩, rfl⟩, ?_⟩
    rwa [Tidy, if_pos rfl] at htidy
  | @strGoes s acc mode mark plain =>
    -- in its own string the reader stands where the text has no string
    have hin : inString = false := by
      simpa [mode, Mode.inString] using hs.turned
    subst hin
    obtain ⟨htick, hrest⟩ := (tidy_plain mark plain cs).mp htidy
    have hacc := hs.quiet.mode
    rw [mode] at hacc
    obtain ⟨ds, rfl, hds⟩ := hacc
    refine ⟨false, ⟨⟨hs.quiet.stack, ds ++ [c], by simp, ?_⟩, rfl⟩, hrest⟩
    intro hmem
    rcases List.mem_append.mp hmem with hmem | hmem
    · exact hds hmem
    · exact absurd (htick (List.mem_singleton.mp hmem).symm) (by decide)
  | @strEnds s acc mode mark =>
    have hin : inString = false := by
      simpa [mode, Mode.inString] using hs.turned
    subst hin mark
    have hacc := hs.quiet.mode
    rw [mode] at hacc
    obtain ⟨ds, rfl, hds⟩ := hacc
    have hquiet : '\x60' ∉ (String.ofList (joinHalves (ds.map Char.toNat))).toList := by
      rwa [joinHalves_toNat, String.toList_ofList]
    refine ⟨true, ⟨quiet_giveString hquiet hs.quiet.stack, inString_giveString _ _⟩, ?_⟩
    rwa [Tidy, if_pos rfl] at htidy
  | @escapes s acc mode mark =>
    have hin : inString = false := by
      simpa [mode, Mode.inString] using hs.turned
    subst mark
    rw [Tidy, if_neg (by decide), if_pos rfl] at htidy
    exact absurd (hin.symm.trans htidy.1) (by decide)
  | escaped mode => exact (mode ▸ hs.quiet.mode : QuietMode (.escape _)).elim
  | digit mode => exact (mode ▸ hs.quiet.mode : QuietMode (.hex _ _)).elim

theorem run_turned (hs : Turned inString s) (hsound : s.Sound) (htidy : Tidy inString false cs)
    (hrun : run s cs = some t) : QuietState t := by
  induction cs generalizing inString s with
  | nil => exact Option.some.inj hrun ▸ hs.quiet
  | cons c cs ih =>
    rw [run_cons] at hrun
    obtain ⟨u, hstep, hrest⟩ := Option.bind_eq_some_iff.mp hrun
    have hmoved := moved_of_step hsound hstep
    obtain ⟨i, hu, hcs⟩ := hmoved.turned hs htidy
    exact ih hu (hmoved.sound hsound) hcs hrest

/-- What is parsed from inside a string on has no ticks. -/
theorem quiet_of_parse {v : Json} (htidy : Tidy true false cs) (h : parse cs = some v) :
    Quiet v := by
  obtain ⟨s, hrun, hfinish⟩ := Option.bind_eq_some_iff.mp h
  have hstart : Turned true start := ⟨⟨by simp [start], trivial⟩, rfl⟩
  have hquiet := run_turned hstart (fun _ => rfl) htidy hrun
  unfold finish at hfinish
  split at hfinish
  · exact Option.some.inj hfinish ▸ hquiet.mode
  · exact quiet_wordValue hfinish
  · cases hfinish

end FleetRunner.JsonText
