import Mathlib.Data.List.Induction
import Mathlib.Data.List.TakeWhile

/-!
# Replacing all matches

`s.replace(/…/g, put)` for a pattern that is given by the length of its match at
the head of a text, behind a given character. Where all matches lie within words,
a text can be cut between words and each part rewritten by itself.
-/

namespace FleetRunner.Library

/-- Replace the matches from left to right; `skip` characters belong to the one found last. -/
def replaceAll (find : Option Char → List Char → Nat) (put : List Char) :
    Nat → Option Char → List Char → List Char
  | _, _, [] => []
  | skip + 1, _, c :: rest => replaceAll find put skip (some c) rest
  | 0, prev, c :: rest =>
    match find prev (c :: rest) with
    | 0 => c :: replaceAll find put 0 (some c) rest
    | n + 1 => put ++ replaceAll find put n (some c) rest

/-- No word goes on from the first text into the second. -/
def Apart (inner : Char → Bool) (u v : List Char) : Prop :=
  u.getLast?.any inner = true → v.head?.any inner = false

/-- The matches lie within words, and depend on nothing beyond theirs. -/
structure Within (inner : Char → Bool) (find : Option Char → List Char → Nat) : Prop where
  bound : ∀ prev cs, find prev cs ≤ (cs.takeWhile inner).length
  append : ∀ prev u v, u ≠ [] → Apart inner u v → find prev (u ++ v) = find prev u
  behind : ∀ prev prev' cs, prev.any inner = prev'.any inner → find prev cs = find prev' cs

section

variable {inner : Char → Bool} {find : Option Char → List Char → Nat} {put : List Char}

theorem Apart.tail {c : Char} {u v : List Char} (h : Apart inner (c :: u) v) : Apart inner u v := by
  intro hlast
  cases u with
  | nil => cases hlast
  | cons d u => exact h (by rwa [List.getLast?_cons_cons])

theorem apart_of_last {u : List Char} (h : ∀ c ∈ u.getLast?, inner c = false) (v : List Char) :
    Apart inner u v := by
  intro hlast
  cases hu : u.getLast? with
  | none =>
      rw [hu] at hlast
      cases hlast
  | some c =>
      rw [hu] at hlast
      have hc : inner c = true := hlast
      rw [h c hu] at hc
      cases hc

theorem apart_of_head (u : List Char) {v : List Char} (h : ∀ c ∈ v.head?, inner c = false) :
    Apart inner u v := by
  intro _
  cases v with
  | nil => rfl
  | cons c v => exact h c rfl

theorem replaceAll_skip (xs rest : List Char) (prev : Option Char) :
    replaceAll find put xs.length prev (xs ++ rest) =
      replaceAll find put 0 (xs.getLast?.or prev) rest := by
  induction xs generalizing prev with
  | nil => rfl
  | cons x xs ih =>
      rw [List.length_cons, List.cons_append, replaceAll, ih]
      cases xs with
      | nil => rfl
      | cons y ys =>
          rw [List.getLast?_cons_cons]
          cases hlast : (y :: ys).getLast? with
          | none => simp at hlast
          | some z => rfl

theorem replaceAll_append (h : Within inner find) {u v : List Char} (huv : Apart inner u v)
    (skip : Nat) (hskip : skip ≤ (u.takeWhile inner).length) (prev : Option Char) :
    replaceAll find put skip prev (u ++ v) =
      replaceAll find put skip prev u ++ replaceAll find put 0 (u.getLast?.or prev) v := by
  induction u generalizing skip prev with
  | nil =>
      obtain rfl : skip = 0 := Nat.le_zero.mp hskip
      rfl
  | cons c u ih =>
      have hlast : (c :: u).getLast?.or prev = u.getLast?.or (some c) := by
        cases u with
        | nil => rfl
        | cons d u =>
            rw [List.getLast?_cons_cons]
            cases hd : (d :: u).getLast? with
            | none => simp at hd
            | some z => rfl
      rw [hlast]
      have hword : ∀ n, n + 1 ≤ ((c :: u).takeWhile inner).length →
          n ≤ (u.takeWhile inner).length := by
        intro n hn
        rw [List.takeWhile_cons] at hn
        split at hn
        · exact Nat.le_of_succ_le_succ hn
        · simp at hn
      cases skip with
      | succ skip => exact ih huv.tail skip (hword skip hskip) (some c)
      | zero =>
          have hfind := h.append prev (c :: u) v (List.cons_ne_nil c u) huv
          rw [List.cons_append] at hfind
          rw [List.cons_append, replaceAll, replaceAll, hfind]
          cases hn : find prev (c :: u) with
          | zero =>
              simp only [List.cons_append]
              rw [ih huv.tail 0 (Nat.zero_le _) (some c)]
          | succ n =>
              have hle := h.bound prev (c :: u)
              rw [hn] at hle
              simp only [List.append_assoc]
              rw [ih huv.tail n (hword n hle) (some c)]

theorem replaceAll_of_not_inner (h : Within inner find) {c : Char} (hc : inner c = false)
    (prev : Option Char) (rest : List Char) :
    replaceAll find put 0 prev (c :: rest) = c :: replaceAll find put 0 (some c) rest := by
  have hzero : find prev (c :: rest) = 0 := by
    have hle := h.bound prev (c :: rest)
    rw [List.takeWhile_cons, hc] at hle
    exact Nat.le_zero.mp hle
  rw [replaceAll, hzero]

theorem replaceAll_behind (h : Within inner find) {prev prev' : Option Char}
    (hprev : prev.any inner = prev'.any inner) (cs : List Char) :
    replaceAll find put 0 prev cs = replaceAll find put 0 prev' cs := by
  cases cs with
  | nil => rfl
  | cons c rest => rw [replaceAll, replaceAll, h.behind prev prev' _ hprev]

/-- A pattern that does not look behind it is matched alike behind anything. -/
theorem replaceAll_prev (h : ∀ prev cs, find prev cs = find none cs) (skip : Nat)
    (prev : Option Char) (cs : List Char) :
    replaceAll find put skip prev cs = replaceAll find put skip none cs := by
  cases cs with
  | nil => rfl
  | cons c rest =>
      cases skip with
      | zero => rw [replaceAll, replaceAll, h]
      | succ skip => rfl

/-- Rewriting the parts of a text that is cut between words. -/
theorem replaceAll_apart (h : Within inner find) {u v : List Char} (huv : Apart inner u v) :
    replaceAll find put 0 none (u ++ v) =
      replaceAll find put 0 none u ++ replaceAll find put 0 none v := by
  rw [replaceAll_append h huv 0 (Nat.zero_le _), Option.or_none]
  congr 1
  cases hlast : u.getLast?.any inner with
  | false => exact replaceAll_behind h hlast v
  | true =>
      have hhead := huv hlast
      cases v with
      | nil => rfl
      | cons c v =>
          have hc : inner c = false := hhead
          rw [replaceAll_of_not_inner h hc, replaceAll_of_not_inner h hc]

/-- A text that is one match is replaced as a whole. -/
theorem replaceAll_whole {cs : List Char} (hcs : cs ≠ []) (h : find none cs = cs.length) :
    replaceAll find put 0 none cs = put := by
  cases cs with
  | nil => exact absurd rfl hcs
  | cons c rest =>
      rw [replaceAll, h, List.length_cons]
      have hskip := @replaceAll_skip find put rest [] (some c)
      rw [List.append_nil] at hskip
      simp only
      rw [hskip, replaceAll, List.append_nil]

/-- A text in which nothing matches stays. -/
theorem replaceAll_none (prev : Option Char) {cs : List Char}
    (h : ∀ prev rest, rest <:+ cs → find prev rest = 0) : replaceAll find put 0 prev cs = cs := by
  induction cs generalizing prev with
  | nil => rfl
  | cons c rest ih =>
      rw [replaceAll, h prev (c :: rest) List.suffix_rfl]
      simp only
      rw [ih (some c) fun prev' rest' hsuffix =>
        h prev' rest' (hsuffix.trans (List.suffix_cons c rest))]

theorem mem_replaceAll (skip : Nat) (prev : Option Char) (cs : List Char) :
    ∀ x ∈ replaceAll find put skip prev cs, x ∈ cs ∨ x ∈ put := by
  induction cs generalizing skip prev with
  | nil =>
      intro x hx
      rw [replaceAll] at hx
      cases hx
  | cons c rest ih =>
      intro x hx
      cases skip with
      | succ skip =>
          exact (ih skip (some c) x hx).imp_left (List.mem_cons_of_mem c)
      | zero =>
          rw [replaceAll] at hx
          split at hx
          · rcases List.mem_cons.mp hx with rfl | hin
            · exact Or.inl List.mem_cons_self
            · exact (ih 0 (some c) x hin).imp_left (List.mem_cons_of_mem c)
          · rename_i n _
            rcases List.mem_append.mp hx with hin | hin
            · exact Or.inr hin
            · exact (ih n (some c) x hin).imp_left (List.mem_cons_of_mem c)

theorem replaceAll_ne_nil (hput : put ≠ []) (prev : Option Char) {cs : List Char} (hcs : cs ≠ []) :
    replaceAll find put 0 prev cs ≠ [] := by
  cases cs with
  | nil => exact absurd rfl hcs
  | cons c rest =>
      rw [replaceAll]
      split
      · exact List.cons_ne_nil _ _
      · simp [hput]

theorem head?_replaceAll (hput : put ≠ []) (prev : Option Char) (cs : List Char) :
    ∀ x ∈ (replaceAll find put 0 prev cs).head?, cs.head? = some x ∨ put.head? = some x := by
  intro x hx
  cases cs with
  | nil => cases hx
  | cons c rest =>
      rw [replaceAll] at hx
      split at hx
      · exact Or.inl hx
      · obtain ⟨p, ps, rfl⟩ := List.exists_cons_of_ne_nil hput
        exact Or.inr hx

theorem getLast?_replaceAll (hput : put ≠ []) (skip : Nat) (prev : Option Char) (cs : List Char) :
    ∀ x ∈ (replaceAll find put skip prev cs).getLast?,
      cs.getLast? = some x ∨ put.getLast? = some x := by
  induction cs generalizing skip prev with
  | nil =>
      intro x hx
      rw [replaceAll] at hx
      cases hx
  | cons c rest ih =>
      intro x hx
      have hmore : rest.getLast? = some x → (c :: rest).getLast? = some x := by
        intro hlast
        rw [List.getLast?_cons, hlast]
        rfl
      cases skip with
      | succ skip => exact (ih skip (some c) x hx).imp_left hmore
      | zero =>
          rw [replaceAll] at hx
          split at hx
          · rw [List.getLast?_cons] at hx
            cases hrest : (replaceAll find put 0 (some c) rest).getLast? with
            | some y =>
                rw [hrest] at hx
                exact (ih 0 (some c) x (hrest.trans hx)).imp_left hmore
            | none =>
                have hnil : rest = [] := by
                  by_contra hne
                  exact replaceAll_ne_nil hput (some c) hne (List.getLast?_eq_none_iff.mp hrest)
                rw [hrest] at hx
                rw [hnil]
                exact Or.inl hx
          · rename_i n _
            cases hrest : (replaceAll find put n (some c) rest).getLast? with
            | some y =>
                rw [List.getLast?_append, hrest] at hx
                exact (ih n (some c) x (hrest.trans hx)).imp_left hmore
            | none =>
                rw [List.getLast?_append, hrest] at hx
                exact Or.inr hx

/-- Cut between words, the rewritten parts are apart again. -/
theorem apart_replaceAll (h : Within inner find) {u v : List Char} (huv : Apart inner u v) :
    Apart inner (replaceAll find put 0 none u) (replaceAll find put 0 none v) := by
  intro hlast
  have hu : u.getLast?.any inner = true := by
    cases u using List.reverseRecOn with
    | nil => exact hlast
    | append_singleton u c =>
        rw [List.getLast?_concat]
        by_contra hc
        have hc' : inner c = false := by simpa using hc
        have hcut : Apart inner u [c] := fun _ => hc'
        rw [replaceAll_apart h hcut, replaceAll_of_not_inner h hc', replaceAll,
          List.getLast?_concat] at hlast
        exact hc hlast
  have hv := huv hu
  cases v with
  | nil => rfl
  | cons c v =>
      have hc : inner c = false := hv
      rw [replaceAll_of_not_inner h hc]
      exact hc

/-! ## Runs of characters -/

/-- A run at the head of a text does not reach across a cut between words. -/
theorem takeWhile_apart {p : Char → Bool} (hp : ∀ c, p c = true → inner c = true) {u v : List Char}
    (huv : Apart inner u v) (hu : u ≠ []) : (u ++ v).takeWhile p = u.takeWhile p := by
  by_cases hall : ∀ c ∈ u, p c = true
  · rw [List.takeWhile_append_of_pos hall]
    have hlast : u.getLast?.any inner = true := by
      rw [List.getLast?_eq_some_getLast hu]
      exact hp _ (hall _ (List.getLast_mem hu))
    have hhead := huv hlast
    have hstop : v.takeWhile p = [] := by
      cases v with
      | nil => rfl
      | cons c v =>
          rw [List.takeWhile_cons, if_neg]
          intro hc
          have hword : inner c = false := hhead
          rw [hp c hc] at hword
          cases hword
    rw [hstop, List.append_nil]
    exact (List.takeWhile_eq_self_iff.mpr hall).symm
  · induction u with
    | nil => exact absurd rfl hu
    | cons c u ih =>
        rw [List.cons_append, List.takeWhile_cons, List.takeWhile_cons]
        split
        · rename_i hc
          have hmore : ¬ ∀ d ∈ u, p d = true := by
            intro hmore
            apply hall
            intro d hd
            rcases List.mem_cons.mp hd with rfl | hin
            · exact hc
            · exact hmore d hin
          have hne : u ≠ [] := by
            rintro rfl
            exact hmore (by simp)
          rw [ih huv.tail hne hmore]
        · rfl

theorem length_takeWhile_le {p q : Char → Bool} (hpq : ∀ c, p c = true → q c = true)
    (cs : List Char) : (cs.takeWhile p).length ≤ (cs.takeWhile q).length := by
  induction cs with
  | nil => exact Nat.le_refl _
  | cons c cs ih =>
      rw [List.takeWhile_cons, List.takeWhile_cons]
      split
      · rename_i hc
        rw [if_pos (hpq c hc)]
        exact Nat.succ_le_succ ih
      · exact Nat.zero_le _

/-- Every text is made of runs of characters that alternate in `p`. -/
@[elab_as_elim]
theorem runs_induction (p : Char → Bool) {motive : List Char → Prop} (nil : motive [])
    (run : ∀ b u v, u ≠ [] → (∀ c ∈ u, p c = b) → (∀ c ∈ v.head?, p c = !b) → motive v →
      motive (u ++ v)) (cs : List Char) : motive cs := by
  induction hn : cs.length using Nat.strong_induction_on generalizing cs with
  | _ n ih =>
      subst hn
      cases cs with
      | nil => exact nil
      | cons c cs =>
          let q : Char → Bool := fun x => p x == p c
          have hc : q c = true := by simp [q]
          have hlength : ((c :: cs).dropWhile q).length < (c :: cs).length := by
            rw [List.dropWhile_cons, if_pos hc]
            exact Nat.lt_succ_of_le (List.dropWhile_suffix q).length_le
          rw [← List.takeWhile_append_dropWhile (p := q) (l := c :: cs)]
          refine run (p c) _ _ ?_ (fun x hx => ?_) (fun x hx => ?_) (ih _ hlength _ rfl)
          · rw [List.takeWhile_cons, if_pos hc]
            exact List.cons_ne_nil _ _
          · simpa [q] using List.mem_takeWhile_imp hx
          · have hx' := List.head?_dropWhile_not q (c :: cs)
            rw [hx] at hx'
            simpa [q, Bool.eq_not] using hx'

/-- `/[…]+/` -/
def findRun (p : Char → Bool) (_ : Option Char) (cs : List Char) : Nat := (cs.takeWhile p).length

theorem within_findRun {p : Char → Bool} (hp : ∀ c, p c = true → inner c = true) :
    Within inner (findRun p) :=
  ⟨fun _ cs => length_takeWhile_le hp cs,
    fun _ u v hu huv => by rw [findRun, findRun, takeWhile_apart hp huv hu], fun _ _ _ _ => rfl⟩

end

end FleetRunner.Library
