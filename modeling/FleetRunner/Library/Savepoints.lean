import Mathlib.Data.List.Basic

/-!
# A connection with a transaction and savepoints

What a connection to an SQL database does on `BEGIN`, `COMMIT`, `ROLLBACK` and on
the three savepoint statements. The open marks are a stack; each remembers the
content from when it was opened. A savepoint statement finds the innermost mark
of its name, so a name may be open more than once.
-/

namespace FleetRunner.Library

inductive Mark where
  | transaction
  | savepoint (name : String)
  deriving DecidableEq

structure Connection (σ : Type*) where
  db : σ
  /-- innermost first, each with the content from when it was opened -/
  marks : List (Mark × σ)

inductive Statement where
  | beginTransaction
  | commit
  | rollback
  | savepoint (name : String)
  | release (name : String)
  | rollbackTo (name : String)

namespace Connection

variable {σ : Type*}

/-- The content at the innermost savepoint of a name, and the marks outside it. -/
def popTo (name : String) : List (Mark × σ) → Option (σ × List (Mark × σ))
  | [] => none
  | (mark, content) :: rest =>
    if mark = .savepoint name then some (content, rest) else popTo name rest

/-- A statement that fails changes nothing. -/
def exec (c : Connection σ) : Statement → Except String (Connection σ)
  | .beginTransaction =>
    match c.marks with
    | [] => .ok { c with marks := [(.transaction, c.db)] }
    | _ :: _ => .error "cannot start a transaction within a transaction"
  | .commit =>
    match c.marks with
    | [] => .error "cannot commit - no transaction is active"
    | _ :: _ => .ok { c with marks := [] }
  | .rollback =>
    match c.marks.getLast? with
    | none => .error "cannot rollback - no transaction is active"
    | some (_, content) => .ok { db := content, marks := [] }
  | .savepoint name => .ok { c with marks := (.savepoint name, c.db) :: c.marks }
  | .release name =>
    match popTo name c.marks with
    | none => .error ("no such savepoint: " ++ name)
    | some (_, rest) => .ok { c with marks := rest }
  | .rollbackTo name =>
    match popTo name c.marks with
    | none => .error ("no such savepoint: " ++ name)
    | some (content, rest) => .ok { db := content, marks := (.savepoint name, content) :: rest }

/-- Several statements in one call: the first that fails ends it, and what the ones before it
did stays. -/
def execEach (c : Connection σ) : List Statement → Connection σ
  | [] => c
  | stmt :: rest =>
    match c.exec stmt with
    | .ok c => c.execEach rest
    | .error _ => c

variable (db old : σ) (name : String) (rest : List (Mark × σ))

@[simp] theorem exec_savepoint (c : Connection σ) :
    c.exec (.savepoint name) = .ok { c with marks := (.savepoint name, c.db) :: c.marks } := rfl

@[simp] theorem exec_beginTransaction :
    exec ⟨db, []⟩ .beginTransaction = .ok ⟨db, [(.transaction, db)]⟩ := rfl

@[simp] theorem exec_commit (m : Mark × σ) : exec ⟨db, m :: rest⟩ .commit = .ok ⟨db, []⟩ := rfl

/-- Releasing the innermost savepoint keeps what was written since. -/
@[simp] theorem exec_release :
    exec ⟨db, (.savepoint name, old) :: rest⟩ (.release name) = .ok ⟨db, rest⟩ := by
  simp [exec, popTo]

@[simp] theorem exec_rollbackTo :
    exec ⟨db, (.savepoint name, old) :: rest⟩ (.rollbackTo name) =
      .ok ⟨old, (.savepoint name, old) :: rest⟩ := by
  simp [exec, popTo]

@[simp] theorem exec_rollback (m : Mark) : exec ⟨db, [(m, old)]⟩ .rollback = .ok ⟨old, []⟩ := rfl

/-- Going back to the innermost savepoint and releasing it undoes what was written since. -/
theorem execEach_undo :
    execEach ⟨db, (.savepoint name, old) :: rest⟩ [.rollbackTo name, .release name] =
      ⟨old, rest⟩ := by
  simp [execEach]

theorem execEach_rollback (m : Mark) : execEach ⟨db, [(m, old)]⟩ [.rollback] = ⟨old, []⟩ := by
  simp [execEach]

end Connection

end FleetRunner.Library
