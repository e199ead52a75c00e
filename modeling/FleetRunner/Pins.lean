import FleetRunner.MatchSyntax
import FleetRunner.Reserved

/-!
# A pin names one device (`reserved.ts`)

A match pins a device when it selects the device and stops selecting it under
one other id, the stand-in. What the stand-in says of every other id is what
the expression cannot tell from it: an id that some test of the expression
tells apart from the stand-in may still be selected. Comparisons with the
device's own id, and tests of fields that do not carry it, tell nothing apart.
-/

namespace FleetRunner

open Match

variable (js : Js)

/-- The descriptor with every field that carries the device's id swapped for another id. -/
def renamed (self : Fields) (deviceId other : String) : Fields :=
  self.map fun p => (p.1, if p.2.isStr deviceId then .str other else p.2)

/-- The descriptor of the device, as `pinsDevice` sees it. -/
def selfFields (descriptor : Fields) (deviceId : String) : Fields :=
  Fields.set descriptor "device_id" (.str deviceId)

/-- `pinsDevice({ match: expr }, ..)` -/
def pinsByMatch (expr deviceId : String) (descriptor : Fields) : Bool :=
  pinsDevice js (some (.obj [("match", .str expr)])) deviceId descriptor

/-- Under another id the expression answers false. -/
def Misses (expr deviceId : String) (descriptor : Fields) (other : String) : Prop :=
  evalMatch js expr (renamed (selfFields descriptor deviceId) deviceId other) = .ok false

/-- A test of the expression comes out otherwise for this id than for the stand-in. -/
def ToldApart (expr deviceId : String) (descriptor : Fields) (other : String) : Prop :=
  ∃ e, parseMatch js expr = some e ∧ ∃ t ∈ e.tests,
    t.eval js (renamed (selfFields descriptor deviceId) deviceId other) ≠
      t.eval js (renamed (selfFields descriptor deviceId) deviceId anotherDevice)

variable {js}

/-- A pin selects the device, and misses it under the stand-in. -/
theorem selects_and_misses {expr deviceId : String} {descriptor : Fields}
    (h : pinsByMatch js expr deviceId descriptor = true) :
    evalMatch js expr (selfFields descriptor deviceId) = .ok true ∧
      Misses js expr deviceId descriptor anotherDevice := by
  have hmatch : optProp (some (.obj [("match", .str expr)])) "match" = some (.str expr) := rfl
  have hid : optProp (some (.obj [("match", .str expr)])) "device_id" = none := rfl
  have hobj : optTruthy (some (.obj [("match", .str expr)])) = true := rfl
  unfold pinsByMatch pinsDevice at h
  rw [hobj, hid, hmatch] at h
  simp only [Bool.not_true, Bool.false_eq_true, if_false, optTruthy_none] at h
  split at h
  · cases h
  · simp only [evalMatchJson] at h
    split at h
    · rename_i hself
      split at h
      · rename_i hit hother
        simp only [Bool.not_eq_true'] at h
        rw [h] at hother
        exact ⟨hself, hother⟩
      · cases h
    · cases h

/-- An id that no test tells apart from the stand-in is missed with it. -/
theorem misses_of_not_toldApart {expr deviceId : String} {descriptor : Fields}
    (h : pinsByMatch js expr deviceId descriptor = true) {other : String}
    (hsame : ¬ToldApart js expr deviceId descriptor other) :
    Misses js expr deviceId descriptor other := by
  obtain ⟨e, he, hfalse⟩ := (evalMatch_ok_iff js).mp (selects_and_misses h).2
  refine (evalMatch_ok_iff js).mpr ⟨e, he, ?_⟩
  rw [← hfalse]
  apply e.eval_congr
  intro t ht
  by_contra hne
  exact hsame ⟨e, he, t, ht, hne⟩

/-! ## The usual form -/

theorem get?_renamed (self : Fields) (deviceId other a : String) :
    Fields.get? (renamed self deviceId other) a =
      (Fields.get? self a).map fun v => if v.isStr deviceId then .str other else v := by
  induction self with
  | nil => rfl
  | cons p rest ih =>
      obtain ⟨k, v⟩ := p
      change Fields.get? ((k, if v.isStr deviceId then .str other else v) ::
        renamed rest deviceId other) a = _
      rw [Fields.get?_cons, Fields.get?_cons, ih]
      split <;> rfl

/-- A field that does not carry the id reads the same under any other. -/
theorem value_renamed {self : Fields} {deviceId a : String}
    (h : Fields.get? self a ≠ some (.str deviceId)) (other other' : String) :
    value js (renamed self deviceId other) a = value js (renamed self deviceId other') a := by
  have hget : Fields.get? (renamed self deviceId other) a =
      Fields.get? (renamed self deviceId other') a := by
    rw [get?_renamed, get?_renamed]
    cases hv : Fields.get? self a with
    | none => rfl
    | some v =>
        have hnot : v.isStr deviceId = false := by
          cases v with
          | str s =>
              rw [Json.isStr_str, decide_eq_false_iff_not]
              rintro rfl
              exact h hv
          | _ => rfl
        simp only [Option.map_some, hnot, Bool.false_eq_true, if_false]
  unfold value member
  split
  · rename_i ha
    rw [← ha, hget]
  · split
    · rename_i ha
      rw [← ha, hget]
    · rw [hget]

theorem renamed_self (self : Fields) (deviceId : String) :
    renamed self deviceId deviceId = self := by
  refine (List.map_congr_left fun p _ => ?_).trans (List.map_id self)
  obtain ⟨k, v⟩ := p
  by_cases hv : v.isStr deviceId = true
  · rw [Json.isStr_eq_true.mp hv]
    simp
  · simp [hv]

/-- No device of the stand-in's id is pinned. -/
theorem ne_standIn {expr deviceId : String} {descriptor : Fields}
    (h : pinsByMatch js expr deviceId descriptor = true) : deviceId ≠ anotherDevice := by
  rintro rfl
  obtain ⟨hselects, hmisses⟩ := selects_and_misses h
  rw [Misses, renamed_self, hselects] at hmisses
  cases hmisses

/-- A comparison of a field with the device's own id, for equality or inequality. -/
def OwnId (deviceId : String) (t : Expr) : Prop :=
  ∃ op a, (op = .eq ∨ op = .ne) ∧
    (t = .cmp op (.id a) (.str deviceId) ∨ t = .cmp op (.str deviceId) (.id a))

/-- A comparison with the own id, or a test of fields that do not carry the id. -/
def Usual (self : Fields) (deviceId : String) (t : Expr) : Prop :=
  OwnId deviceId t ∨ ∀ a ∈ t.ids, Fields.get? self a ≠ some (.str deviceId)

/-- Every test of the expression is of the usual form. -/
def UsualTests (js : Js) (expr deviceId : String) (descriptor : Fields) : Prop :=
  ∀ e, parseMatch js expr = some e →
    ∀ t ∈ e.tests, Usual (selfFields descriptor deviceId) deviceId t

/-- A field that carries the id compares with it in one way under every other. -/
theorem eval_ownId {self : Fields} {deviceId a : String}
    (hcarries : Fields.get? self a = some (.str deviceId)) {t : Expr} {op : Op}
    (hop : op = .eq ∨ op = .ne)
    (ht : t = .cmp op (.id a) (.str deviceId) ∨ t = .cmp op (.str deviceId) (.id a))
    {other : String} (hne : other ≠ deviceId) :
    t.eval js (renamed self deviceId other) =
      if a = "pools" ∨ a = "capabilities" then .error .typeError else .ok (decide (op = .ne)) := by
  have hget : Fields.get? (renamed self deviceId other) a = some (.str other) := by
    rw [get?_renamed, hcarries]
    simp
  by_cases hlist : a = "pools" ∨ a = "capabilities"
  · have hvalue : value js (renamed self deviceId other) a = .error .typeError := by
      rcases hlist with rfl | rfl <;> simp [value, hget, joined]
    rcases ht with rfl | rfl <;>
      simp [Expr.eval, Operand.eval, hvalue, hlist, bind, Except.bind]
  · have hvalue : value js (renamed self deviceId other) a = .ok (.str other) := by
      simp only [not_or] at hlist
      simp [value, hlist, member, hget, Json.toVal]
    rcases hop with rfl | rfl <;> rcases ht with rfl | rfl <;>
      simp [Expr.eval, Operand.eval, hvalue, hlist, Match.compare, Val.text, bind, Except.bind, hne,
        hne.symm]

theorem eval_usual {self : Fields} {deviceId : String} {t : Expr} (h : Usual self deviceId t)
    {other other' : String} (hne : other ≠ deviceId) (hne' : other' ≠ deviceId) :
    t.eval js (renamed self deviceId other) = t.eval js (renamed self deviceId other') := by
  have hunread : (∀ a ∈ t.ids, Fields.get? self a ≠ some (.str deviceId)) →
      t.eval js (renamed self deviceId other) = t.eval js (renamed self deviceId other') := by
    intro hids
    apply Expr.eval_of_ids
    exact fun a ha => value_renamed (hids a ha) other other'
  rcases h with ⟨op, a, hop, ht⟩ | hids
  · by_cases hcarries : Fields.get? self a = some (.str deviceId)
    · rw [eval_ownId hcarries hop ht hne, eval_ownId hcarries hop ht hne']
    · refine hunread fun b hb => ?_
      have hba : b = a := by
        rcases ht with rfl | rfl <;> simpa [Expr.ids, Operand.ids] using hb
      rw [hba]
      exact hcarries
  · exact hunread hids

/-- A pin whose tests are of the usual form names one device. -/
theorem pin_names_one (js : Js) (expr deviceId : String) (descriptor : Fields)
    (husual : UsualTests js expr deviceId descriptor)
    (hpin : pinsByMatch js expr deviceId descriptor = true) (other : String)
    (hne : other ≠ deviceId) : Misses js expr deviceId descriptor other := by
  apply misses_of_not_toldApart hpin
  rintro ⟨e, he, t, ht, hdiffer⟩
  exact hdiffer (eval_usual (husual e he t ht) hne (ne_standIn hpin).symm)

/-- A phone is named, and asked for its system beside: another phone with that system is missed. -/
theorem pin_names_one_phone :
    Misses Js.plain "'A' == device_id && !(os != 'Android')" "A"
      [("device_id", .str "A"), ("os", .str "Android")] "B" := by
  have hparse : parseMatch Js.plain "'A' == device_id && !(os != 'Android')" =
      some (.and (.cmp .eq (.str "A") (.id "device_id"))
        (.test (.not (.group (.cmp .ne (.id "os") (.str "Android")))))) := by
    have hlex : lex Js.plain "'A' == device_id && !(os != 'Android')" =
        .ok [.str "A", .op .eq, .id "device_id", .op .and, .op .bang, .op .lparen, .id "os",
          .op .ne, .str "Android", .op .rparen] := by decide +kernel
    rw [parseMatch, hlex]
    rfl
  have hpin : pinsByMatch Js.plain "'A' == device_id && !(os != 'Android')" "A"
      [("device_id", .str "A"), ("os", .str "Android")] = true := by decide +kernel
  refine pin_names_one Js.plain _ "A" _ (fun e he t ht => ?_) hpin "B" (by decide)
  rw [hparse] at he
  cases he
  simp only [Expr.tests, Expr.tests.operandTests, List.mem_append, List.mem_singleton] at ht
  rcases ht with rfl | rfl
  · exact Or.inl ⟨.eq, "device_id", Or.inl rfl, Or.inr rfl⟩
  · refine Or.inr fun a ha => ?_
    obtain rfl : a = "os" := by simpa [Expr.ids, Operand.ids] using ha
    simp [selfFields, Fields.set, Fields.get?_cons]

/-- "This phone or that one" pins this one, and selects that one. -/
theorem pin_two_phones :
    ¬(pinsByMatch Js.plain "device_id == 'A' || device_id == 'B'" "A" [("device_id", .str "A")] =
        true →
      ∀ other, other ≠ "A" →
        Misses Js.plain "device_id == 'A' || device_id == 'B'" "A" [("device_id", .str "A")]
          other) := by
  intro h
  have hpin : pinsByMatch Js.plain "device_id == 'A' || device_id == 'B'" "A"
      [("device_id", .str "A")] = true := by decide +kernel
  have hmiss := h hpin "B" (by decide)
  have hhit : evalMatch Js.plain "device_id == 'A' || device_id == 'B'"
      [("device_id", .str "B")] = .ok true := by decide +kernel
  have hself : renamed (selfFields [("device_id", .str "A")] "A") "A" "B" =
      [("device_id", .str "B")] := by
    simp [renamed, selfFields, Fields.set]
  unfold Misses at hmiss
  rw [hself, hhit] at hmiss
  cases hmiss

end FleetRunner
