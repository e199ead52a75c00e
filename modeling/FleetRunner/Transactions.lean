import FleetRunner.Library.Savepoints

/-!
# Nested transactions (`db.ts`)

`withTransaction` opens a transaction, or a savepoint when one is open already,
and counts in `depth` which of the two it is. A function that throws takes back
what it wrote; its caller may catch that and go on.

## Implementation notes

A `Body` is what one call of a wrapped function does: its writes, the wrapped
functions it calls, whether it catches what they throw, and how it ends. A call
whose last statement the database refuses throws as well.
-/

namespace FleetRunner

open Library

inductive Body (ω : Type) where
  | done
  | thrown
  | write (w : ω) (rest : Body ω)
  | call (fn : Body ω) (refused caught : Bool) (rest : Body ω)

/-- The handle and the module's `depth`. -/
structure Session (σ : Type) where
  conn : Connection σ
  depth : Nat

def savepointName (depth : Nat) : String := "fleet_sp_" ++ toString depth

section Run

variable {σ ω : Type}

/-- The statement that keeps what was written, unless the database refuses it. -/
def keep (refused nested : Bool) (savepoint : String) (conn : Connection σ) :
    Except String (Connection σ) :=
  if refused then .error "database is locked"
  else conn.exec (if nested then .release savepoint else .commit)

/-- A rollback that fails is not reported. -/
def undo (nested : Bool) (savepoint : String) (conn : Connection σ) : Connection σ :=
  conn.execEach (if nested then [.rollbackTo savepoint, .release savepoint] else [.rollback])

/-- A call and whether it returns. -/
def withTransaction (refused : Bool) (fn : Session σ → Session σ × Bool) (s : Session σ) :
    Session σ × Bool :=
  let nested := decide (0 < s.depth)
  let savepoint := savepointName s.depth
  match s.conn.exec (if nested then .savepoint savepoint else .beginTransaction) with
  | .error _ => (s, false)
  | .ok conn =>
    let (s, returned) := fn { conn, depth := s.depth + 1 }
    let (conn, ok) :=
      if returned then
        match keep refused nested savepoint s.conn with
        | .ok conn => (conn, true)
        | .error _ => (undo nested savepoint s.conn, false)
      else (undo nested savepoint s.conn, false)
    ({ conn, depth := s.depth - 1 }, ok)

/-- What a body does, and whether it returns. -/
def runBody (apply : σ → ω → σ) : Body ω → Session σ → Session σ × Bool
  | .done, s => (s, true)
  | .thrown, s => (s, false)
  | .write w rest, s =>
    runBody apply rest { s with conn := { s.conn with db := apply s.conn.db w } }
  | .call fn refused caught rest, s =>
    let (s, returned) := withTransaction refused (runBody apply fn) s
    if returned || caught then runBody apply rest s else (s, false)

end Run

/-! ## Which writes stay -/

namespace Body

variable {ω : Type}

def returns : Body ω → Bool
  | .done => true
  | .thrown => false
  | .write _ rest => rest.returns
  | .call fn refused caught rest => ((fn.returns && !refused) || caught) && rest.returns

/-- The writes that are made, in order, each with whether its call and all the calls around it
return. -/
def writes (kept : Bool) : Body ω → List (ω × Bool)
  | .done => []
  | .thrown => []
  | .write w rest => (w, kept) :: rest.writes kept
  | .call fn refused caught rest =>
    let ok := fn.returns && !refused
    fn.writes (kept && ok) ++ if ok || caught then rest.writes kept else []

/-- The writes of calls that return, and all of whose enclosing calls do. -/
def survivors (kept : Bool) (b : Body ω) : List ω :=
  ((b.writes kept).filter Prod.snd).map Prod.fst

@[simp] theorem survivors_done (kept : Bool) : survivors kept (.done : Body ω) = [] := rfl

@[simp] theorem survivors_thrown (kept : Bool) : survivors kept (.thrown : Body ω) = [] := rfl

@[simp] theorem survivors_write (w : ω) (rest : Body ω) :
    survivors true (.write w rest) = w :: survivors true rest := rfl

theorem survivors_call (kept : Bool) (fn rest : Body ω) (refused caught : Bool) :
    survivors kept (.call fn refused caught rest) =
      survivors (kept && (fn.returns && !refused)) fn ++
        if (fn.returns && !refused) || caught then survivors kept rest else [] := by
  simp only [survivors, writes, List.filter_append, List.map_append]
  split <;> rfl

/-- Nothing stays of a call inside one that throws. -/
@[simp] theorem survivors_false (b : Body ω) : survivors false b = [] := by
  induction b with
  | done => rfl
  | thrown => rfl
  | write w rest ih => exact ih
  | call fn refused caught rest ihfn ihrest => simp [survivors_call, ihfn, ihrest]

end Body

/-! ## One call -/

section Atomic

variable {σ ω : Type}

/-- What a body does to a session: to its content only. -/
def Leaves (fn : Session σ → Session σ × Bool) (f : σ → σ) (returned : Bool) : Prop :=
  ∀ db marks depth, 0 < depth → fn ⟨⟨db, marks⟩, depth⟩ = (⟨⟨f db, marks⟩, depth⟩, returned)

/-- Between two calls from outside no transaction is open. -/
def Session.Ready (s : Session σ) : Prop := s.depth = 0 → s.conn.marks = []

/-- A call keeps all of what its function wrote or none of it, and closes what it opened. -/
theorem withTransaction_eq {fn : Session σ → Session σ × Bool} {f : σ → σ} {returned : Bool}
    (hfn : Leaves fn f returned) (refused : Bool) {s : Session σ} (hs : s.Ready) :
    withTransaction refused fn s =
      (⟨⟨if returned && !refused then f s.conn.db else s.conn.db, s.conn.marks⟩, s.depth⟩,
        returned && !refused) := by
  obtain ⟨⟨db, marks⟩, depth⟩ := s
  cases depth with
  | zero =>
      obtain rfl : marks = [] := hs rfl
      have hcall : fn ⟨⟨db, [(.transaction, db)]⟩, 0 + 1⟩ =
          (⟨⟨f db, [(.transaction, db)]⟩, 0 + 1⟩, returned) := hfn _ _ _ (Nat.succ_pos 0)
      cases returned <;> cases refused <;>
        simp [withTransaction, hcall, keep, undo, Connection.execEach_rollback]
  | succ n =>
      have hcall : ∀ name, fn ⟨⟨db, (.savepoint name, db) :: marks⟩, n + 1 + 1⟩ =
          (⟨⟨f db, (.savepoint name, db) :: marks⟩, n + 1 + 1⟩, returned) :=
        fun _ => hfn _ _ _ (Nat.succ_pos _)
      cases returned <;> cases refused <;>
        simp [withTransaction, hcall, keep, undo, Connection.execEach_undo]

/-- A body changes the content by the writes that stay and leaves everything else as it was. -/
theorem runBody_eq (apply : σ → ω → σ) (b : Body ω) {s : Session σ} (hs : s.Ready) :
    runBody apply b s =
      (⟨⟨(b.survivors true).foldl apply s.conn.db, s.conn.marks⟩, s.depth⟩, b.returns) := by
  induction b generalizing s with
  | done => rfl
  | thrown => rfl
  | write w rest ih =>
      have hready : Session.Ready ⟨⟨apply s.conn.db w, s.conn.marks⟩, s.depth⟩ := hs
      exact ih hready
  | call fn refused caught rest ihfn ihrest =>
      have hfn : Leaves (runBody apply fn) ((fn.survivors true).foldl apply) fn.returns := by
        intro db marks depth hdepth
        exact ihfn fun hzero => absurd hzero (Nat.ne_of_gt hdepth)
      simp only [runBody, withTransaction_eq hfn refused hs, Body.survivors_call, Bool.true_and]
      by_cases hok : (fn.returns && !refused) = true
      · have hready : Session.Ready
            ⟨⟨(fn.survivors true).foldl apply s.conn.db, s.conn.marks⟩, s.depth⟩ := hs
        simp only [hok, Bool.true_or, if_true, ihrest hready, List.foldl_append, Body.returns,
          Bool.true_and]
      · have hready : Session.Ready ⟨⟨s.conn.db, s.conn.marks⟩, s.depth⟩ := hs
        rw [Bool.not_eq_true] at hok
        cases caught with
        | false => simp [hok, Body.returns]
        | true => simp [hok, Body.returns, ihrest hready]

/-- After the outermost call the database holds exactly the writes of the calls that returned
inside calls that returned, in order; the depth is back, and nothing is left open. -/
theorem withTransaction_atomic (apply : σ → ω → σ) (b : Body ω) (refused : Bool) (db : σ) :
    withTransaction refused (runBody apply b) ⟨⟨db, []⟩, 0⟩ =
      (⟨⟨(b.survivors (b.returns && !refused)).foldl apply db, []⟩, 0⟩, b.returns && !refused) := by
  have hbody : Leaves (runBody apply b) ((b.survivors true).foldl apply) b.returns := by
    intro db marks depth hdepth
    exact runBody_eq apply b fun hzero => absurd hzero (Nat.ne_of_gt hdepth)
  rw [withTransaction_eq hbody refused fun _ => rfl]
  by_cases hok : (b.returns && !refused) = true
  · simp [hok]
  · rw [Bool.not_eq_true] at hok
    simp [hok]

end Atomic

end FleetRunner
