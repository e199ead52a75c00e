import Mathlib

/-!
# Reading an append-only log behind a cursor

Entries are appended with growing keys. A reader keeps the key of the last
entry it took and asks for the first one after it; old entries may be deleted
meanwhile. As long as nothing unread is deleted, what the reader took is the
part of the log up to its cursor.
-/

namespace FleetRunner.Library.Feed

variable {α κ : Type*} [LinearOrder κ] (key : α → κ)

/-- Each entry has a greater key than those before it. -/
def Ascending (log : List α) : Prop := log.Pairwise fun a b => key a < key b

/-- The entries no later than a cursor. -/
def upTo (cursor : κ) (log : List α) : List α := log.filter fun e => decide (key e ≤ cursor)

/-- The first entry after a cursor. -/
def next? (cursor : κ) (log : List α) : Option α := log.find? fun e => decide (cursor < key e)

variable {key} {cursor : κ} {log live : List α} {e : α}

theorem Ascending.sublist (h : Ascending key log) (hsub : live.Sublist log) : Ascending key live :=
  h.imp_of_mem (fun _ _ hlt => hlt) |>.sublist hsub

theorem Ascending.nodup (h : Ascending key log) : log.Nodup :=
  h.imp fun hlt heq => absurd (heq ▸ hlt) (lt_irrefl _)

theorem Ascending.append (h : Ascending key log) (hlast : ∀ a ∈ log, key a < key e) :
    Ascending key (log ++ [e]) := by
  refine List.pairwise_append.mpr ⟨h, List.pairwise_singleton _ _, ?_⟩
  intro a ha b hb
  rw [List.mem_singleton.mp hb]
  exact hlast a ha

theorem upTo_eq_nil (h : ∀ a ∈ log, cursor < key a) : upTo key cursor log = [] := by
  rw [upTo, List.filter_eq_nil_iff]
  intro a ha hle
  exact absurd (of_decide_eq_true hle) (not_le_of_gt (h a ha))

/-- What is appended behind the cursor is not yet read. -/
theorem upTo_append (h : cursor < key e) : upTo key cursor (log ++ [e]) = upTo key cursor log := by
  simp [upTo, not_le_of_gt h]

theorem upTo_prefix (h : Ascending key log) : upTo key cursor log <+: log := by
  induction log with
  | nil => exact List.prefix_rfl
  | cons a rest ih =>
      obtain ⟨hfirst, hrest⟩ := List.pairwise_cons.mp h
      by_cases ha : key a ≤ cursor
      · have hhead : upTo key cursor (a :: rest) = a :: upTo key cursor rest := by
          simp [upTo, ha]
        rw [hhead]
        exact (List.prefix_cons_inj a).mpr (ih hrest)
      · have hnone : upTo key cursor (a :: rest) = [] := by
          apply upTo_eq_nil
          intro b hb
          rcases List.mem_cons.mp hb with rfl | hb
          · exact lt_of_not_ge ha
          · exact (lt_of_not_ge ha).trans (hfirst b hb)
        rw [hnone]
        exact List.nil_prefix

theorem lt_of_next? (h : next? key cursor log = some e) : cursor < key e := by
  unfold next? at h
  simpa using List.find?_some h

theorem mem_of_next? (h : next? key cursor log = some e) : e ∈ log := List.mem_of_find?_eq_some h

/-- A reader that goes on to the next entry has read one entry more. -/
theorem upTo_next (h : Ascending key log) (hnext : next? key cursor log = some e) :
    upTo key (key e) log = upTo key cursor log ++ [e] := by
  induction log with
  | nil => cases hnext
  | cons a rest ih =>
      obtain ⟨hfirst, hrest⟩ := List.pairwise_cons.mp h
      by_cases ha : cursor < key a
      · have hae : a = e := by simpa [next?, List.find?_cons, ha] using hnext
        subst hae
        have hread : upTo key cursor (a :: rest) = [] := by
          apply upTo_eq_nil
          intro b hb
          rcases List.mem_cons.mp hb with rfl | hb
          · exact ha
          · exact ha.trans (hfirst b hb)
        have hlater : upTo key (key a) rest = [] := upTo_eq_nil hfirst
        rw [hread]
        unfold upTo at hlater ⊢
        simp [hlater]
      · have hnext' : next? key cursor rest = some e := by
          simpa [next?, List.find?_cons, ha] using hnext
        have hlt : cursor < key e := lt_of_next? hnext'
        have hle : key a ≤ cursor := le_of_not_gt ha
        have hstep := ih hrest hnext'
        unfold upTo at hstep ⊢
        simp [hle, hle.trans hlt.le, hstep]

/-- Deleting entries already read does not change what comes next. -/
theorem next?_of_sublist (h : log.Nodup) (hsub : live.Sublist log)
    (hkept : ∀ a ∈ log, cursor < key a → a ∈ live) :
    next? key cursor live = next? key cursor log := by
  induction hsub with
  | slnil => rfl
  | @cons l₁ l₂ a hsub ih =>
      obtain ⟨ha, hnodup⟩ := List.nodup_cons.mp h
      have hread : ¬cursor < key a := by
        intro hlt
        exact ha (hsub.subset (hkept a List.mem_cons_self hlt))
      have htail := ih hnodup (fun b hb hlt => hkept b (List.mem_cons_of_mem a hb) hlt)
      rw [htail]
      simp [next?, hread]
  | @cons_cons l₁ l₂ a hsub ih =>
      obtain ⟨ha, hnodup⟩ := List.nodup_cons.mp h
      by_cases hlt : cursor < key a
      · simp [next?, hlt]
      · have htail := ih hnodup (fun b hb hb' => by
          rcases List.mem_cons.mp (hkept b (List.mem_cons_of_mem a hb) hb') with rfl | hin
          · exact absurd hb' hlt
          · exact hin)
        unfold next? at htail ⊢
        simpa [List.find?_cons, hlt] using htail

end FleetRunner.Library.Feed
