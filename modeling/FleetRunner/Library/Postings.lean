import Mathlib.Data.List.Basic

/-!
# Postings

A task that posts rows, one after the other, and ends with a value, with an error that
is thrown, or with a trap. What it has posted stays posted, and a trap is not caught.
-/

namespace FleetRunner.Library

inductive Stop where
  | thrown (message : String)
  | trap
  deriving DecidableEq

structure Posting (ρ α : Type) where
  posts : List ρ
  result : Except Stop α

namespace Posting

variable {ρ α β : Type}

def value (a : α) : Posting ρ α := ⟨[], .ok a⟩

def stop (s : Stop) : Posting ρ α := ⟨[], .error s⟩

/-- A step without posts. -/
def ofExcept (x : Except Stop α) : Posting ρ α := ⟨[], x⟩

def andThen (t : Posting ρ α) (next : α → Posting ρ β) : Posting ρ β :=
  match t.result with
  | .error s => ⟨t.posts, .error s⟩
  | .ok a => ⟨t.posts ++ (next a).posts, (next a).result⟩

instance : Monad (Posting ρ) where
  pure := value
  bind := andThen

/-- `do … catch`: an error that is thrown is handled, a trap is not. -/
def catching (t : Posting ρ α) (handle : String → Posting ρ α) : Posting ρ α :=
  match t.result with
  | .error (.thrown message) => ⟨t.posts ++ (handle message).posts, (handle message).result⟩
  | _ => t

/-- The task's posts are all of a kind. -/
def Posts (P : ρ → Prop) (t : Posting ρ α) : Prop := ∀ row ∈ t.posts, P row

def Traps (t : Posting ρ α) : Prop := t.result = .error .trap

section Results

variable {t : Posting ρ α} {next : α → Posting ρ β} {P : ρ → Prop}

@[simp] theorem pure_eq (a : α) : (pure a : Posting ρ α) = ⟨[], .ok a⟩ := rfl

theorem bind_ok {a : α} (h : t.result = .ok a) :
    (t >>= next) = ⟨t.posts ++ (next a).posts, (next a).result⟩ := by
  change andThen t next = _
  rw [andThen, h]

theorem bind_error {s : Stop} (h : t.result = .error s) :
    (t >>= next) = ⟨t.posts, .error s⟩ := by
  change andThen t next = _
  rw [andThen, h]

@[simp] theorem value_bind (a : α) : ((⟨[], .ok a⟩ : Posting ρ α) >>= next) = next a := rfl

@[simp] theorem stop_bind (s : Stop) :
    ((⟨[], .error s⟩ : Posting ρ α) >>= next) = ⟨[], .error s⟩ := rfl

theorem posts_bind (h : t.Posts P) (hnext : ∀ a, (next a).Posts P) : (t >>= next).Posts P := by
  cases hresult : t.result with
  | error s =>
    rw [bind_error hresult]
    exact h
  | ok a =>
    rw [bind_ok hresult]
    exact List.forall_mem_append.mpr ⟨h, hnext a⟩

theorem bind_eq_ok {b : β} : (t >>= next).result = .ok b ↔
    ∃ a, t.result = .ok a ∧ (next a).result = .ok b := by
  cases hresult : t.result with
  | error s =>
    rw [bind_error hresult]
    simp
  | ok a =>
    rw [bind_ok hresult]
    simp

/-- A task that throws nothing. -/
def Unthrown (t : Posting ρ α) : Prop := ∀ message, t.result ≠ .error (.thrown message)

theorem unthrown_bind (h : t.Unthrown) (hnext : ∀ a, (next a).Unthrown) :
    (t >>= next).Unthrown := by
  intro message
  cases hresult : t.result with
  | error s =>
    rw [bind_error hresult]
    intro hs
    exact h message (hresult.trans (congrArg Except.error (Except.error.inj hs)))
  | ok a =>
    rw [bind_ok hresult]
    exact hnext a message

/-- A task traps where a step does. -/
theorem traps_bind : (t >>= next).Traps ↔ t.Traps ∨ ∃ a, t.result = .ok a ∧ (next a).Traps := by
  unfold Traps
  cases hresult : t.result with
  | error s =>
    rw [bind_error hresult]
    simp
  | ok a =>
    rw [bind_ok hresult]
    simp

end Results

end Posting

end FleetRunner.Library
