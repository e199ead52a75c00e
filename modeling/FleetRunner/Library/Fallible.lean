import Mathlib.Data.List.Basic

/-!
# Tests that may fail to answer

A test in `Except ε Bool` answers yes, no, or throws. `ifSo` is the guard
`if (!test) return false;` in front of the tests that follow; `filterE` and
`anyE` are the list methods of the same name, which throw what their callback
throws. `Returns` says that a computation does not throw.
-/

namespace FleetRunner.Library

variable {ε α β : Type*}

/-- A computation that returns has returned at each of its steps. -/
theorem bind_eq_ok {α β : Type} {x : Except ε α} {f : α → Except ε β} {b : β}
    (h : (x >>= f) = .ok b) : ∃ a, x = .ok a ∧ f a = .ok b := by
  cases x with
  | error e => cases h
  | ok a => exact ⟨a, rfl, h⟩

theorem bind_ok_iff {α β : Type} {x : Except ε α} {f : α → Except ε β} {b : β} :
    (x >>= f) = .ok b ↔ ∃ a, x = .ok a ∧ f a = .ok b := by
  constructor
  · exact bind_eq_ok
  · rintro ⟨a, ha, hb⟩
    rw [ha]
    exact hb

theorem exists_bind_ok {α β : Type} {x : Except ε α} {f : α → Except ε β} :
    (∃ b, (x >>= f) = .ok b) ↔ ∃ a, x = .ok a ∧ ∃ b, f a = .ok b := by
  constructor
  · rintro ⟨b, h⟩
    obtain ⟨a, ha, hb⟩ := bind_eq_ok h
    exact ⟨a, ha, b, hb⟩
  · rintro ⟨a, ha, b, hb⟩
    exact ⟨b, by rw [ha]; exact hb⟩

theorem bind_congr_ok {α β : Type} {x : Except ε α} {f g : α → Except ε β}
    (h : ∀ a, x = .ok a → f a = g a) : (x >>= f) = (x >>= g) := by
  cases x with
  | error e => rfl
  | ok a => exact h a rfl

theorem toOption_eq_some {x : Except ε α} {a : α} : x.toOption = some a ↔ x = .ok a := by
  cases x with
  | error e => simp [Except.toOption]
  | ok b => simp [Except.toOption]

/-- Did the computation return something `p` accepts? -/
def okAnd (x : Except ε α) (p : α → Bool) : Bool :=
  match x with
  | .ok a => p a
  | .error _ => false

theorem exists_of_okAnd {x : Except ε α} {p : α → Bool} (h : okAnd x p = true) :
    ∃ a, x = .ok a ∧ p a = true := by
  cases x with
  | error e => cases h
  | ok a => exact ⟨a, rfl, h⟩

/-- Go on to `rest` only if `test` says yes. -/
def ifSo (test rest : Except ε Bool) : Except ε Bool :=
  match test with
  | .ok true => rest
  | .ok false => .ok false
  | .error e => .error e

@[simp] theorem ifSo_ok (b : Bool) (rest : Except ε Bool) :
    ifSo (.ok b) rest = if b then rest else .ok false := by
  cases b <;> rfl

/-- A chain of guards says yes when each of them does. -/
@[simp] theorem ifSo_eq_true {test rest : Except ε Bool} :
    ifSo test rest = .ok true ↔ test = .ok true ∧ rest = .ok true := by
  rcases test with e | b
  · simp [ifSo]
  · cases b <;> simp [ifSo]

def filterE (p : α → Except ε Bool) : List α → Except ε (List α)
  | [] => .ok []
  | a :: rest =>
    match p a, filterE p rest with
    | .error e, _ => .error e
    | .ok _, .error e => .error e
    | .ok keep, .ok kept => .ok (if keep then a :: kept else kept)

/-- One step of a filter that returned. -/
theorem filterE_cons_ok {p : α → Except ε Bool} {a : α} {rest ys : List α}
    (h : filterE p (a :: rest) = .ok ys) :
    ∃ keep kept, p a = .ok keep ∧ filterE p rest = .ok kept ∧
      ys = if keep then a :: kept else kept := by
  rw [filterE] at h
  split at h
  · cases h
  · cases h
  · rename_i keep kept hp hrest
    cases h
    exact ⟨keep, kept, hp, hrest, rfl⟩

/-- A filter whose test always answers returns. -/
theorem exists_filterE {p : α → Except ε Bool} {xs : List α} (h : ∀ a ∈ xs, ∃ b, p a = .ok b) :
    ∃ ys, filterE p xs = .ok ys := by
  induction xs with
  | nil => exact ⟨[], rfl⟩
  | cons a rest ih =>
      obtain ⟨keep, hkeep⟩ := h a List.mem_cons_self
      obtain ⟨kept, hkept⟩ := ih fun b hb => h b (List.mem_cons_of_mem a hb)
      exact ⟨if keep then a :: kept else kept, by rw [filterE, hkeep, hkept]⟩

theorem mem_filterE {p : α → Except ε Bool} {xs ys : List α} (h : filterE p xs = .ok ys) (a : α) :
    a ∈ ys ↔ a ∈ xs ∧ p a = .ok true := by
  induction xs generalizing ys with
  | nil =>
      cases h
      simp
  | cons b rest ih =>
      obtain ⟨keep, kept, hp, hrest, rfl⟩ := filterE_cons_ok h
      have hrest := ih hrest
      cases keep with
      | false =>
          have hne : a = b → p a ≠ .ok true := by
            rintro rfl
            simp [hp]
          simp only [Bool.false_eq_true, if_false, hrest, List.mem_cons]
          grind
      | true =>
          have hyes : a = b → p a = .ok true := by
            rintro rfl
            exact hp
          simp only [if_true, hrest, List.mem_cons]
          grind

def anyE (p : α → Except ε Bool) : List α → Except ε Bool
  | [] => .ok false
  | a :: rest =>
    match p a with
    | .error e => .error e
    | .ok true => .ok true
    | .ok false => anyE p rest

/-- The first entry a test says yes to; a throw on the way is thrown. -/
def findE (p : α → Except ε Bool) : List α → Except ε (Option α)
  | [] => .ok none
  | a :: rest =>
    match p a with
    | .error e => .error e
    | .ok true => .ok (some a)
    | .ok false => findE p rest

theorem findE_eq_some {p : α → Except ε Bool} {xs : List α} {a : α}
    (h : findE p xs = .ok (some a)) : a ∈ xs ∧ p a = .ok true := by
  induction xs with
  | nil => cases h
  | cons b rest ih =>
      rw [findE] at h
      split at h
      · cases h
      · rename_i hb
        cases h
        exact ⟨List.mem_cons_self, hb⟩
      · obtain ⟨hmem, ha⟩ := ih h
        exact ⟨List.mem_cons_of_mem b hmem, ha⟩

/-- Whatever stands before the entry found was answered with no. -/
theorem findE_split {p : α → Except ε Bool} {xs : List α} {a : α}
    (h : findE p xs = .ok (some a)) :
    ∃ pre post, xs = pre ++ a :: post ∧ ∀ b ∈ pre, p b = .ok false := by
  induction xs with
  | nil => cases h
  | cons b rest ih =>
      rw [findE] at h
      split at h
      · cases h
      · cases h
        exact ⟨[], rest, rfl, fun c hc => absurd hc List.not_mem_nil⟩
      · rename_i hb
        obtain ⟨pre, post, rfl, hpre⟩ := ih h
        refine ⟨b :: pre, post, rfl, ?_⟩
        intro c hc
        rcases List.mem_cons.mp hc with rfl | hc
        · exact hb
        · exact hpre c hc

theorem findE_eq_none {p : α → Except ε Bool} {xs : List α} (h : findE p xs = .ok none) :
    ∀ a ∈ xs, p a = .ok false := by
  induction xs with
  | nil => simp
  | cons b rest ih =>
      rw [findE] at h
      split at h
      · cases h
      · cases h
      · rename_i hb
        intro a ha
        rcases List.mem_cons.mp ha with rfl | ha
        · exact hb
        · exact ih h a ha

/-! ## Computations that do not throw -/

/-- The computation does not throw. -/
def Returns (x : Except ε α) : Prop := ∃ a, x = .ok a

@[simp] theorem returns_ok (a : α) : Returns (.ok a : Except ε α) := ⟨a, rfl⟩

@[simp] theorem not_returns_error (e : ε) : ¬Returns (.error e : Except ε α) := by
  rintro ⟨a, h⟩
  cases h

theorem returns_bind {α β : Type} {x : Except ε α} {f : α → Except ε β} :
    Returns (x >>= f) ↔ ∃ a, x = .ok a ∧ Returns (f a) :=
  exists_bind_ok

theorem returns_ifSo {test rest : Except ε Bool} (ht : Returns test) (hr : Returns rest) :
    Returns (ifSo test rest) := by
  obtain ⟨b, rfl⟩ := ht
  cases b with
  | false => exact ⟨false, rfl⟩
  | true => exact hr

/-- A chain of guards returns only if its first test does. -/
theorem returns_of_ifSo {test rest : Except ε Bool} (h : Returns (ifSo test rest)) :
    Returns test := by
  cases test with
  | error e => exact absurd h (not_returns_error e)
  | ok b => exact returns_ok b

theorem returns_filterE {p : α → Except ε Bool} {xs : List α} (h : ∀ a ∈ xs, Returns (p a)) :
    Returns (filterE p xs) :=
  exists_filterE h

theorem returns_anyE {p : α → Except ε Bool} {xs : List α} (h : ∀ a ∈ xs, Returns (p a)) :
    Returns (anyE p xs) := by
  induction xs with
  | nil => exact returns_ok false
  | cons a rest ih =>
      obtain ⟨b, hb⟩ := h a List.mem_cons_self
      rw [anyE, hb]
      cases b with
      | false => exact ih fun c hc => h c (List.mem_cons_of_mem a hc)
      | true => exact returns_ok true

theorem returns_findE {p : α → Except ε Bool} {xs : List α} (h : ∀ a ∈ xs, Returns (p a)) :
    Returns (findE p xs) := by
  induction xs with
  | nil => exact returns_ok none
  | cons a rest ih =>
      obtain ⟨b, hb⟩ := h a List.mem_cons_self
      rw [findE, hb]
      cases b with
      | false => exact ih fun c hc => h c (List.mem_cons_of_mem a hc)
      | true => exact returns_ok (some a)

/-! ## What came out, without the reason -/

@[simp] theorem toOption_ok {ε α : Type} (a : α) : (Except.ok a : Except ε α).toOption = some a := rfl

@[simp] theorem toOption_error {ε α : Type} (e : ε) :
    (Except.error e : Except ε α).toOption = none := rfl

theorem toOption_bind {ε α β : Type} (x : Except ε α) (f : α → Except ε β) :
    (x >>= f).toOption = x.toOption.bind fun a => (f a).toOption := by
  cases x with
  | error e => rfl
  | ok a => rfl

theorem toOption_mapM {ε α β : Type} (f : α → Except ε β) (xs : List α) :
    (xs.mapM f).toOption = xs.mapM fun x => (f x).toOption := by
  induction xs with
  | nil => rfl
  | cons x rest ih =>
      rw [List.mapM_cons, List.mapM_cons, toOption_bind]
      apply congrArg
      funext y
      rw [toOption_bind, ih]
      rfl

theorem toOption_foldlM {ε α β : Type} (f : β → α → Except ε β) (xs : List α) (b : β) :
    (xs.foldlM f b).toOption = xs.foldlM (fun b x => (f b x).toOption) b := by
  induction xs generalizing b with
  | nil => rfl
  | cons x rest ih =>
      rw [List.foldlM_cons, List.foldlM_cons, toOption_bind]
      exact congrArg _ (funext ih)

/-- A list is read when each of its elements is. -/
theorem mapM_ite {α β : Type} (p : α → Bool) (g : α → β) (xs : List α) :
    (xs.mapM fun x => if p x then some (g x) else none) =
      if xs.all p then some (xs.map g) else none := by
  induction xs with
  | nil => rfl
  | cons x rest ih =>
      rw [List.mapM_cons, ih, List.all_cons]
      cases p x with
      | false => rfl
      | true => cases rest.all p <;> rfl

theorem length_of_mapM {α β : Type} {f : α → Option β} {xs : List α} {ys : List β}
    (h : xs.mapM f = some ys) : ys.length = xs.length := by
  induction xs generalizing ys with
  | nil =>
      obtain rfl : ys = [] := by simpa using h.symm
      rfl
  | cons x rest ih =>
      rw [List.mapM_cons] at h
      obtain ⟨y, -, h⟩ := Option.bind_eq_some_iff.mp h
      obtain ⟨more, hmore, h⟩ := Option.bind_eq_some_iff.mp h
      obtain rfl : ys = y :: more := (Option.some.inj h).symm
      rw [List.length_cons, List.length_cons, ih hmore]

theorem any_congr_mem {α : Type} {p q : α → Bool} {xs : List α} (h : ∀ x ∈ xs, p x = q x) :
    xs.any p = xs.any q := by
  rw [Bool.eq_iff_iff, List.any_eq_true, List.any_eq_true]
  exact exists_congr fun x => and_congr_right fun hx => by rw [h x hx]

theorem foldlM_congr_mem {α β : Type} {f g : β → α → Option β} {xs : List α}
    (h : ∀ x ∈ xs, ∀ b, f b x = g b x) (b : β) : xs.foldlM f b = xs.foldlM g b := by
  induction xs generalizing b with
  | nil => rfl
  | cons x rest ih =>
      rw [List.foldlM_cons, List.foldlM_cons, h x List.mem_cons_self]
      exact congrArg _ (funext fun b' => ih (fun y hy => h y (List.mem_cons_of_mem x hy)) b')

end FleetRunner.Library
