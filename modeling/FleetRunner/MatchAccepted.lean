import FleetRunner.Match

/-!
# An accepted expression does not throw

Enqueue accepts a `targets.match` by evaluating it on an empty descriptor. What
is evaluated, and whether it parses, does not depend on the values a descriptor
holds as long as each of them has a text: then an accepted expression answers
on every device.
-/

namespace FleetRunner

open Library

namespace Match

variable (js : Js)

/-- A value that prints and converts without calling anything. -/
def plainVal : Val → Bool
  | .arr _ => false
  | .obj _ => false
  | _ => true

/-- Every identifier reads as a plain value. -/
def Readable (d : Fields) : Prop := ∀ id, ∃ v, value js d id = .ok v ∧ plainVal v = true

section

variable {js}

theorem text_of_plainVal {v : Val} (h : plainVal v = true) : ∃ s, v.text js = .ok s := by
  cases v <;> first | exact ⟨_, rfl⟩ | cases h

theorem number_of_plainVal {v : Val} (h : plainVal v = true) : ∃ n, v.number js = .ok n := by
  cases v <;> first | exact ⟨_, rfl⟩ | cases h

theorem compare_of_plainVal (op : Op) {l r : Val} (hl : plainVal l = true)
    (hr : plainVal r = true) : ∃ b, compare js op l r = .ok b := by
  obtain ⟨ls, hls⟩ := @text_of_plainVal js _ hl
  obtain ⟨rs, hrs⟩ := @text_of_plainVal js _ hr
  obtain ⟨ln, hln⟩ := @number_of_plainVal js _ hl
  obtain ⟨rn, hrn⟩ := @number_of_plainVal js _ hr
  have hempty : ∃ s, textOrEmpty js l = .ok s := by
    cases l <;> first | exact ⟨_, rfl⟩ | cases hl
  obtain ⟨t, ht⟩ := hempty
  cases op <;> simp only [compare, hls, hrs, hln, hrn, ht, bind, Except.bind]
  case tilde => cases js.regexTest rs t <;> exact ⟨_, rfl⟩
  all_goals exact ⟨_, rfl⟩

end

/-- Two evaluations of one bound that read different descriptors keep step. -/
structure InStep (n : Nat) (d d' : Fields) : Prop where
  primary : ∀ {toks v rest}, primary js n d toks = .ok (v, rest) → plainVal v = true ∧
    ∃ v', primary js n d' toks = .ok (v', rest) ∧ plainVal v' = true
  cmp : ∀ {toks v rest}, cmp js n d toks = .ok (v, rest) → ∃ v', cmp js n d' toks = .ok (v', rest)
  andExpr : ∀ {toks v rest}, andExpr js n d toks = .ok (v, rest) →
    ∃ v', andExpr js n d' toks = .ok (v', rest)
  andRest : ∀ {w w' toks v rest}, andRest js n d w toks = .ok (v, rest) →
    ∃ v', andRest js n d' w' toks = .ok (v', rest)
  orExpr : ∀ {toks v rest}, orExpr js n d toks = .ok (v, rest) →
    ∃ v', orExpr js n d' toks = .ok (v', rest)
  orRest : ∀ {w w' toks v rest}, orRest js n d w toks = .ok (v, rest) →
    ∃ v', orRest js n d' w' toks = .ok (v', rest)

/-- The tokens decide which rule applies, and a plain value throws in none. -/
theorem inStep {d d' : Fields} (hd : Readable js d) (hd' : Readable js d') (n : Nat) :
    InStep js n d d' := by
  induction n with
  | zero =>
      constructor <;> intros <;>
        simp_all [primary, cmp, andExpr, andRest, orExpr, orRest, expired]
  | succ n ih =>
      constructor
      · intro toks v rest h
        cases toks with
        | nil => simp [primary] at h
        | cons t ts =>
            cases t with
            | num x =>
                cases h
                exact ⟨rfl, _, rfl, rfl⟩
            | str x =>
                cases h
                exact ⟨rfl, _, rfl, rfl⟩
            | id x =>
                obtain ⟨u, hu, hplain⟩ := hd x
                obtain ⟨u', hu', hplain'⟩ := hd' x
                simp only [primary, hu] at h
                cases h
                exact ⟨hplain, u', by simp only [primary, hu']; rfl, hplain'⟩
            | op o =>
                cases o
                case lparen =>
                  simp only [primary] at h
                  obtain ⟨⟨b, inner⟩, hinner, h⟩ := bind_eq_ok h
                  obtain ⟨b', hinner'⟩ := ih.orExpr hinner
                  cases inner with
                  | nil => cases h
                  | cons c after =>
                      simp only at h
                      split at h
                      · rename_i hc
                        cases h
                        refine ⟨rfl, .bool b', ?_, rfl⟩
                        simp only [primary, hinner']
                        change (if c.closes = true then _ else _) = _
                        rw [if_pos hc]
                      · cases h
                case bang =>
                  simp only [primary] at h
                  obtain ⟨⟨u, inner⟩, hinner, h⟩ := bind_eq_ok h
                  obtain ⟨-, u', hinner', -⟩ := ih.primary hinner
                  cases h
                  exact ⟨rfl, .bool (!truthy u'), by simp only [primary, hinner']; rfl, rfl⟩
                all_goals simp [primary] at h
      · intro toks v rest h
        simp only [cmp] at h ⊢
        obtain ⟨⟨l, mid⟩, hmid, h⟩ := bind_eq_ok h
        obtain ⟨-, l', hmid', hl'⟩ := ih.primary hmid
        rw [hmid']
        simp only [bind, Except.bind] at h ⊢
        split at h
        · rename_i op after
          split at h
          · rename_i hop
            obtain ⟨⟨r, last⟩, hlast, h⟩ := bind_eq_ok h
            obtain ⟨-, r', hlast', hr'⟩ := ih.primary hlast
            obtain ⟨b, -, h⟩ := bind_eq_ok h
            cases h
            obtain ⟨b', hb'⟩ := @compare_of_plainVal js op _ _ hl' hr'
            exact ⟨b', by simp only [if_pos hop, hlast', hb']⟩
          · rename_i hop
            cases h
            exact ⟨truthy l', by rw [if_neg hop]⟩
        · cases h
          exact ⟨truthy l', rfl⟩
      · intro toks v rest h
        simp only [andExpr] at h ⊢
        obtain ⟨⟨l, mid⟩, hmid, h⟩ := bind_eq_ok h
        obtain ⟨l', hmid'⟩ := ih.cmp hmid
        rw [hmid']
        exact ih.andRest h
      · intro w w' toks v rest h
        simp only [andRest] at h ⊢
        split at h
        · obtain ⟨⟨l, mid⟩, hmid, h⟩ := bind_eq_ok h
          obtain ⟨l', hmid'⟩ := ih.cmp hmid
          rw [hmid']
          exact ih.andRest h
        · cases h
          exact ⟨w', rfl⟩
      · intro toks v rest h
        simp only [orExpr] at h ⊢
        obtain ⟨⟨l, mid⟩, hmid, h⟩ := bind_eq_ok h
        obtain ⟨l', hmid'⟩ := ih.andExpr hmid
        rw [hmid']
        exact ih.orRest h
      · intro w w' toks v rest h
        simp only [orRest] at h ⊢
        split at h
        · obtain ⟨⟨l, mid⟩, hmid, h⟩ := bind_eq_ok h
          obtain ⟨l', hmid'⟩ := ih.andExpr hmid
          rw [hmid']
          exact ih.orRest h
        · cases h
          exact ⟨w', rfl⟩

end Match

open Match

variable {js : Js}

/-- What parses on one readable descriptor answers on every other. -/
theorem evalMatchJson_readable {d d' : Fields} (hd : Readable js d) (hd' : Readable js d')
    {expr : Json} {b : Bool} (h : evalMatchJson js expr d = .ok b) :
    ∃ b', evalMatchJson js expr d' = .ok b' := by
  cases expr with
  | str s =>
      simp only [evalMatchJson, evalMatch] at h ⊢
      obtain ⟨toks, htoks, h⟩ := bind_eq_ok h
      obtain ⟨⟨result, rest⟩, hresult, h⟩ := bind_eq_ok h
      obtain ⟨result', hresult'⟩ := (inStep js hd hd' _).orExpr hresult
      simp only at h
      split at h
      · rename_i hrest
        refine exists_bind_ok.mpr ⟨toks, htoks, exists_bind_ok.mpr ⟨_, hresult', ?_⟩⟩
        exact ⟨result', if_pos hrest⟩
      · cases h
  | _ => cases h

/-- A descriptor of texts and numbers that names neither list is readable. -/
theorem readable_of_plain {d : Fields} (hpools : Fields.get? d "pools" = none)
    (hcapabilities : Fields.get? d "capabilities" = none)
    (hplain : ∀ k v, Fields.get? d k = some v → plainVal v.toVal = true) : Readable js d := by
  intro id
  unfold value
  by_cases hp : id = "pools"
  · simp only [hp, if_true, hpools]
    exact ⟨.str "", rfl, rfl⟩
  · by_cases hc : id = "capabilities"
    · simp only [hc, hcapabilities]
      exact ⟨.str "", rfl, rfl⟩
    · simp only [if_neg hp, if_neg hc, member]
      cases hid : Fields.get? d id with
      | some v => exact ⟨v.toVal, rfl, hplain id v hid⟩
      | none =>
          cases js.inherited id with
          | none => exact ⟨.undef, rfl, rfl⟩
          | some t => exact ⟨.native t, rfl, rfl⟩

/-- A field value that is a string, a finite number, a boolean or null. -/
def isScalar : Json → Bool
  | .arr _ => false
  | .obj _ => false
  | _ => true

/-- A descriptor of scalar fields whose two list fields, when they are there,
hold strings. -/
structure ScalarFields (d : Fields) : Prop where
  pools : ∀ v, Fields.get? d "pools" = some v → v = .null ∨ (v.asStrings?).isSome = true
  capabilities : ∀ v, Fields.get? d "capabilities" = some v →
    v = .null ∨ (v.asStrings?).isSome = true
  scalar : ∀ k v, k ≠ "pools" → k ≠ "capabilities" → Fields.get? d k = some v →
    isScalar v = true

theorem plainVal_toVal {v : Json} (h : isScalar v = true) : plainVal v.toVal = true := by
  cases v <;> first | rfl | cases h

theorem elemTexts_of_asStr? {xs : List Json} {ss : List String}
    (h : xs.mapM Json.asStr? = some ss) : elemTexts js xs = .ok ss := by
  induction xs generalizing ss with
  | nil =>
      cases h
      rfl
  | cons x rest ih =>
      cases x with
      | str s =>
          cases hrest : rest.mapM Json.asStr? with
          | none => simp [List.mapM_cons, Json.asStr?, hrest] at h
          | some ts =>
              simp [List.mapM_cons, Json.asStr?, hrest] at h
              simp only [elemTexts, ih hrest, Json.text]
              rw [← h]
              rfl
      | _ => simp [List.mapM_cons, Json.asStr?] at h

/-- A list of strings, null or nothing is joined without a throw. -/
theorem joined_of_strings {o : Option Json}
    (h : ∀ v, o = some v → v = .null ∨ (v.asStrings?).isSome = true) :
    ∃ s, joined js o = .ok (.str s) := by
  cases o with
  | none => exact ⟨"", rfl⟩
  | some v =>
      rcases h v rfl with rfl | hv
      · exact ⟨"", rfl⟩
      · cases v with
        | arr xs =>
            obtain ⟨ss, hss⟩ := Option.isSome_iff_exists.mp hv
            have htexts : elemTexts js xs = .ok ss := elemTexts_of_asStr? hss
            exact ⟨",".intercalate ss, by simp only [joined, joinElems, htexts]; rfl⟩
        | _ => cases hv

/-- Every name reads as a plain value: no field of these throws. -/
theorem ScalarFields.readable {d : Fields} (h : ScalarFields d) : Readable js d := by
  intro id
  unfold value
  by_cases hp : id = "pools"
  · obtain ⟨s, hs⟩ : ∃ s, joined js (Fields.get? d "pools") = .ok (.str s) :=
      joined_of_strings h.pools
    exact ⟨.str s, by rw [if_pos hp, hs], rfl⟩
  · by_cases hc : id = "capabilities"
    · obtain ⟨s, hs⟩ : ∃ s, joined js (Fields.get? d "capabilities") = .ok (.str s) :=
        joined_of_strings h.capabilities
      exact ⟨.str s, by rw [if_neg hp, if_pos hc, hs], rfl⟩
    · simp only [if_neg hp, if_neg hc, member]
      cases hid : Fields.get? d id with
      | some v => exact ⟨v.toVal, rfl, plainVal_toVal (h.scalar id v hp hc hid)⟩
      | none =>
          cases js.inherited id with
          | none => exact ⟨.undef, rfl, rfl⟩
          | some t => exact ⟨.native t, rfl, rfl⟩

theorem scalarFields_nil : ScalarFields [] := by
  constructor
  · intro v h
    cases h
  · intro v h
    cases h
  · intro k v _ _ h
    cases h

/-- Does the evaluation throw? -/
def Throws (x : Except JsError Bool) : Prop := ∃ e, x = .error e

theorem not_throws_iff {x : Except JsError Bool} : ¬ Throws x ↔ ∃ b, x = .ok b := by
  cases x with
  | error e => simp [Throws]
  | ok b => simp [Throws]

/-- Where an expression throws does not depend on the device, so what enqueue
accepted answers on every one. -/
theorem throws_evalMatch_iff_empty (js : Js) (expr : String) (d : Fields) (hd : ScalarFields d) :
    (Throws (evalMatch js expr d) ↔ Throws (evalMatch js expr [])) ∧
      (isValidMatch js (.str expr) = true → ¬ Throws (evalMatch js expr d)) := by
  have hread : Readable js d := hd.readable
  have hnil : Readable js [] := scalarFields_nil.readable
  have hiff : ¬ Throws (evalMatch js expr d) ↔ ¬ Throws (evalMatch js expr []) := by
    rw [not_throws_iff, not_throws_iff]
    constructor
    · rintro ⟨b, hb⟩
      have hjson : evalMatchJson js (.str expr) d = .ok b := hb
      exact evalMatchJson_readable hread hnil hjson
    · rintro ⟨b, hb⟩
      have hjson : evalMatchJson js (.str expr) [] = .ok b := hb
      exact evalMatchJson_readable hnil hread hjson
  refine ⟨not_iff_not.mp hiff, fun hvalid => hiff.mpr (not_throws_iff.mpr ?_)⟩
  unfold isValidMatch at hvalid
  cases hempty : evalMatch js expr [] with
  | error e => simp [evalMatchJson, hempty] at hvalid
  | ok b => exact ⟨b, rfl⟩

/-- A phone of two pools, whose soc is not known. -/
theorem throws_evalMatch_iff_empty_phone :
    (Throws (evalMatch Js.plain "pools ~ 'ml' && ram_mb >= 4000"
        [("model", .str "SM-X930"), ("ram_mb", .num 8192), ("soc", .null),
          ("pools", .arr [.str "ml-capable", .str "lab"])]) ↔
      Throws (evalMatch Js.plain "pools ~ 'ml' && ram_mb >= 4000" [])) ∧
    (isValidMatch Js.plain (.str "pools ~ 'ml' && ram_mb >= 4000") = true →
      ¬ Throws (evalMatch Js.plain "pools ~ 'ml' && ram_mb >= 4000"
        [("model", .str "SM-X930"), ("ram_mb", .num 8192), ("soc", .null),
          ("pools", .arr [.str "ml-capable", .str "lab"])])) := by
  apply throws_evalMatch_iff_empty
  constructor
  · intro v h
    cases h
    exact Or.inr rfl
  · intro v h
    cases h
  · intro k v hp hc h
    simp only [Fields.get?_cons, if_neg hp.symm, Fields.get?_nil] at h
    split at h
    · cases h
      rfl
    · split at h
      · cases h
        rfl
      · split at h
        · cases h
          rfl
        · cases h

/-- An expression enqueue accepted answers on every readable descriptor. -/
theorem evalMatchJson_of_valid {expr : Json} (h : isValidMatch js expr = true) {d : Fields}
    (hd : Readable js d) : ∃ b, evalMatchJson js expr d = .ok b := by
  have hnil : Readable js [] := readable_of_plain rfl rfl fun k v hv => by simp at hv
  unfold isValidMatch at h
  cases hexpr : evalMatchJson js expr [] with
  | error e => simp [hexpr] at h
  | ok b => exact evalMatchJson_readable hnil hd hexpr

end FleetRunner
