import Mathlib.Data.List.Induction

/-!
# Runs of a deterministic system

A system answers one request at a time: `step s r` is the state after it. A
run is a list of requests. `Along` says that every request of a run meets a
condition in the state it arrives in; the invariant rules below reduce a
statement about every run to one about a single step.
-/

namespace FleetRunner.Library

variable {σ ρ : Type*} (step : σ → ρ → σ)

/-- The state after a list of requests. -/
def run (s : σ) (reqs : List ρ) : σ := reqs.foldl step s

@[simp] theorem run_nil (s : σ) : run step s [] = s := rfl

@[simp] theorem run_cons (s : σ) (r : ρ) (reqs : List ρ) :
    run step s (r :: reqs) = run step (step s r) reqs := rfl

theorem run_append (s : σ) (xs ys : List ρ) :
    run step s (xs ++ ys) = run step (run step s xs) ys := by
  simp [run, List.foldl_append]

theorem run_concat (s : σ) (xs : List ρ) (r : ρ) :
    run step s (xs ++ [r]) = step (run step s xs) r := by
  simp [run_append]

/-- Every request of the run meets `Ok` in the state it arrives in. -/
def Along (Ok : σ → ρ → Prop) : σ → List ρ → Prop
  | _, [] => True
  | s, r :: rest => Ok s r ∧ Along Ok (step s r) rest

instance decidableAlong (Ok : σ → ρ → Prop) [∀ s r, Decidable (Ok s r)] :
    ∀ s reqs, Decidable (Along step Ok s reqs)
  | _, [] => .isTrue trivial
  | s, r :: rest =>
      have := decidableAlong Ok (step s r) rest
      inferInstanceAs (Decidable (Ok s r ∧ Along step Ok (step s r) rest))

variable {step}

@[simp] theorem along_nil (Ok : σ → ρ → Prop) (s : σ) : Along step Ok s [] := trivial

@[simp] theorem along_cons (Ok : σ → ρ → Prop) (s : σ) (r : ρ) (rest : List ρ) :
    Along step Ok s (r :: rest) ↔ Ok s r ∧ Along step Ok (step s r) rest := Iff.rfl

theorem along_append {Ok : σ → ρ → Prop} {s : σ} {xs ys : List ρ} :
    Along step Ok s (xs ++ ys) ↔ Along step Ok s xs ∧ Along step Ok (run step s xs) ys := by
  induction xs generalizing s with
  | nil => simp
  | cons r rest ih => simp [ih, and_assoc]

theorem Along.mono {Ok Ok' : σ → ρ → Prop} (h : ∀ s r, Ok s r → Ok' s r) {s : σ} {reqs : List ρ}
    (hr : Along step Ok s reqs) : Along step Ok' s reqs := by
  induction reqs generalizing s with
  | nil => trivial
  | cons r rest ih => exact ⟨h s r hr.1, ih hr.2⟩

/-- A condition every request meets is met along every run. -/
theorem along_of_forall {Ok : σ → ρ → Prop} (h : ∀ s r, Ok s r) (s : σ) (reqs : List ρ) :
    Along step Ok s reqs := by
  induction reqs generalizing s with
  | nil => trivial
  | cons r rest ih => exact ⟨h s r, ih _⟩

/-- A condition on the requests alone. -/
theorem along_of_mem {Ok : ρ → Prop} {reqs : List ρ} (h : ∀ r ∈ reqs, Ok r) (s : σ) :
    Along step (fun _ r => Ok r) s reqs := by
  induction reqs generalizing s with
  | nil => trivial
  | cons r rest ih =>
      exact ⟨h r List.mem_cons_self, ih (fun q hq => h q (List.mem_cons_of_mem r hq)) _⟩

/-- What one step preserves under `Ok`, a run whose requests meet `Ok` preserves. -/
theorem invariant {I : σ → Prop} {Ok : σ → ρ → Prop}
    (hstep : ∀ s r, I s → Ok s r → I (step s r)) {s : σ} {reqs : List ρ}
    (hs : I s) (hok : Along step Ok s reqs) : I (run step s reqs) := by
  induction reqs generalizing s with
  | nil => exact hs
  | cons r rest ih => exact ih (hstep s r hs hok.1) hok.2

/-- Two conditions that agree where an invariant holds are met along the same runs. -/
theorem along_iff_of_invariant {I : σ → Prop} {Ok Ok' : σ → ρ → Prop}
    (hI : ∀ s r, I s → I (step s r)) (h : ∀ s r, I s → (Ok s r ↔ Ok' s r)) {s : σ} (hs : I s)
    (reqs : List ρ) : Along step Ok s reqs ↔ Along step Ok' s reqs := by
  induction reqs generalizing s with
  | nil => exact Iff.rfl
  | cons r rest ih => rw [along_cons, along_cons, h s r hs, ih (hI s r hs)]

/-- The same rule where nothing is asked of the requests. -/
theorem invariant_all {I : σ → Prop} (hstep : ∀ s r, I s → I (step s r)) {s : σ}
    (hs : I s) (reqs : List ρ) : I (run step s reqs) := by
  have hok : Along step (fun _ _ => True) s reqs := along_of_forall (fun _ _ => trivial) s reqs
  exact invariant (fun s r h _ => hstep s r h) hs hok

/-- An invariant that also reads the requests answered so far. -/
theorem history_invariant {I : List ρ → σ → Prop} {Ok : σ → ρ → Prop} {s : σ} (hs : I [] s)
    (hstep : ∀ past r, I past (run step s past) → Ok (run step s past) r →
      I (past ++ [r]) (step (run step s past) r))
    {reqs : List ρ} (hok : Along step Ok s reqs) : I reqs (run step s reqs) := by
  induction reqs using List.reverseRecOn with
  | nil => exact hs
  | append_singleton past r ih =>
      obtain ⟨hpast, hlast⟩ := along_append.mp hok
      rw [run_concat]
      exact hstep past r (ih hpast) hlast.1

/-- Where a further request keeps a property of the past exactly under `Ok`, every prefix
of a run has it exactly when its requests meet `Ok`. -/
theorem prefixes_iff {P : List ρ → Prop} {Ok : σ → ρ → Prop} {s : σ} (hnil : P [])
    (hstep : ∀ past r, P past → (P (past ++ [r]) ↔ Ok (run step s past) r)) (reqs : List ρ) :
    (∀ past, past <+: reqs → P past) ↔ Along step Ok s reqs := by
  induction reqs using List.reverseRecOn with
  | nil =>
      simp only [List.prefix_nil, along_nil, iff_true]
      rintro past rfl
      exact hnil
  | append_singleton past r ih =>
      simp only [along_append, ← ih, along_cons, along_nil, and_true, List.prefix_concat_iff]
      constructor
      · intro h
        have hpast : ∀ older, older <+: past → P older := fun older ho => h older (Or.inr ho)
        exact ⟨hpast, (hstep past r (hpast past List.prefix_rfl)).mp (h _ (Or.inl rfl))⟩
      · rintro ⟨hpast, hok⟩ older (rfl | ho)
        · exact (hstep past r (hpast past List.prefix_rfl)).mpr hok
        · exact hpast older ho

/-- The same for a property of the states, over an invariant. -/
theorem steps_iff {I P : σ → Prop} {Ok : σ → ρ → Prop} (hI : ∀ s r, I s → I (step s r))
    (hP : ∀ s r, I s → P s → (P (step s r) ↔ Ok s r)) {s : σ} (hs : I s) (hp : P s)
    (reqs : List ρ) :
    (∀ past, past <+: reqs → P (run step s past)) ↔ Along step Ok s reqs := by
  refine prefixes_iff (P := fun past => P (run step s past)) hp (fun past r hpast => ?_) reqs
  rw [run_concat]
  exact hP _ r (invariant_all hI hs past) hpast

/-- What the requests of a run add up to, each counted in its own state. -/
def total (step : σ → ρ → σ) (count : σ → ρ → Nat) : σ → List ρ → Nat
  | _, [] => 0
  | s, r :: rest => count s r + total step count (step s r) rest

@[simp] theorem total_nil (count : σ → ρ → Nat) (s : σ) : total step count s [] = 0 := rfl

theorem total_concat (count : σ → ρ → Nat) (s : σ) (past : List ρ) (r : ρ) :
    total step count s (past ++ [r]) =
      total step count s past + count (run step s past) r := by
  induction past generalizing s with
  | nil => simp [total]
  | cons q rest ih => simp only [List.cons_append, total, ih, run_cons, Nat.add_assoc]

/-- A run enters an absorbing set once at most: what is counted on entering only adds up
to one. -/
theorem total_le_one {I S : σ → Prop} [DecidablePred S] {count : σ → ρ → Nat}
    (hI : ∀ s r, I s → I (step s r)) (habs : ∀ s r, I s → S s → S (step s r))
    (hcount : ∀ s r, I s → count s r ≤ if ¬S s ∧ S (step s r) then 1 else 0) {s : σ} (hs : I s)
    (reqs : List ρ) : total step count s reqs ≤ 1 := by
  have hnone : ∀ (past : List ρ) {t : σ}, I t → S t → total step count t past = 0 := by
    intro past
    induction past with
    | nil => intros; rfl
    | cons r rest ih =>
        intro t ht hS
        have hzero := hcount t r ht
        rw [if_neg fun h => h.1 hS] at hzero
        have hrest := ih (hI t r ht) (habs t r ht hS)
        simp only [total]
        omega
  induction reqs generalizing s with
  | nil => exact Nat.zero_le 1
  | cons r rest ih =>
      have hone := hcount s r hs
      simp only [total]
      by_cases henter : ¬S s ∧ S (step s r)
      · rw [if_pos henter] at hone
        have hrest := hnone rest (hI s r hs) henter.2
        omega
      · rw [if_neg henter] at hone
        have hrest := ih (hI s r hs)
        omega

/-- What an observer makes of a run: it sees each request with the states around it. -/
def watch {γ : Type*} (step : σ → ρ → σ) (see : σ → ρ → σ → γ → γ) : σ → γ → List ρ → γ
  | _, g, [] => g
  | s, g, r :: rest => watch step see (step s r) (see s r (step s r) g) rest

theorem watch_concat {γ : Type*} (see : σ → ρ → σ → γ → γ) (s : σ) (g : γ) (past : List ρ) (r : ρ) :
    watch step see s g (past ++ [r]) =
      see (run step s past) r (step (run step s past) r) (watch step see s g past) := by
  induction past generalizing s g with
  | nil => rfl
  | cons q rest ih => simp only [List.cons_append, watch, ih, run_cons]

end FleetRunner.Library
