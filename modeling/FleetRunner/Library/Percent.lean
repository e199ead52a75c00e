import Mathlib.Data.List.Forall2

/-!
# Percent-encoded spellings of a path

One path has many spellings: each of its characters may be written out as the
escapes of its UTF-8 bytes. A reader that decodes a path undoes the escapes but
for those of some reserved characters, which would change how the path is cut
into segments. `Spells reserved raw plain` says that such a reader takes `raw`
for `plain`.
-/

namespace FleetRunner.Library

/-- The value of a hex digit, of either case. -/
def hexValue (c : Char) : Option Nat :=
  if '0' ≤ c ∧ c ≤ '9' then some (c.toNat - 48)
  else if 'a' ≤ c ∧ c ≤ 'f' then some (c.toNat - 87)
  else if 'A' ≤ c ∧ c ≤ 'F' then some (c.toNat - 55)
  else none

/-- One escape for each byte. -/
inductive Escaped : List UInt8 → List Char → Prop
  | nil : Escaped [] []
  | cons {b : UInt8} {x y : Char} {bytes : List UInt8} {e : List Char} :
      hexValue x = some (b.toNat / 16) → hexValue y = some (b.toNat % 16) → Escaped bytes e →
        Escaped (b :: bytes) ('%' :: x :: y :: e)

namespace Escaped

variable {bytes : List UInt8} {e : List Char}

theorem mem (h : Escaped bytes e) : ∀ c ∈ e, c = '%' ∨ (hexValue c).isSome = true := by
  induction h with
  | nil => simp
  | cons hx hy _ ih =>
      intro c hc
      simp only [List.mem_cons] at hc
      rcases hc with rfl | rfl | rfl | hc
      · exact Or.inl rfl
      · exact Or.inr (by rw [hx]; rfl)
      · exact Or.inr (by rw [hy]; rfl)
      · exact ih c hc

theorem not_mem (h : Escaped bytes e) {c : Char} (hc : c ≠ '%') (hhex : hexValue c = none) :
    c ∉ e := by
  intro hmem
  rcases h.mem c hmem with rfl | hsome
  · exact hc rfl
  · simp [hhex] at hsome

theorem of_char {c : Char} (h : Escaped (String.utf8EncodeChar c) e) :
    ∃ rest, e = '%' :: rest := by
  have hlen := String.length_utf8EncodeChar c
  have hpos := c.utf8Size_pos
  generalize String.utf8EncodeChar c = bytes at h hlen
  cases h with
  | nil => exact absurd hlen.symm (Nat.ne_of_gt hpos)
  | cons => exact ⟨_, rfl⟩

end Escaped

/-- `raw` is read as `plain` by a reader that decodes every escape but those of reserved
characters. -/
inductive Spells (reserved : Char → Bool) : List Char → List Char → Prop
  | nil : Spells reserved [] []
  | char {c : Char} {raw plain : List Char} :
      c ≠ '%' → Spells reserved raw plain → Spells reserved (c :: raw) (c :: plain)
  | decoded {c : Char} {e raw plain : List Char} :
      Escaped (String.utf8EncodeChar c) e → reserved c = false → Spells reserved raw plain →
        Spells reserved (e ++ raw) (c :: plain)
  | kept {c : Char} {e raw plain : List Char} :
      Escaped (String.utf8EncodeChar c) e → reserved c = true → Spells reserved raw plain →
        Spells reserved (e ++ raw) (e ++ plain)

/-! ## Segments -/

/-- The stretches between the slashes. -/
def pathSegments : List Char → List (List Char)
  | [] => [[]]
  | c :: rest =>
      if c = '/' then [] :: pathSegments rest else (pathSegments rest).modifyHead (c :: ·)

theorem pathSegments_append {e : List Char} (h : '/' ∉ e) (rest : List Char) :
    pathSegments (e ++ rest) = (pathSegments rest).modifyHead (e ++ ·) := by
  induction e with
  | nil =>
      change pathSegments rest = (pathSegments rest).modifyHead id
      rw [List.modifyHead_id, id]
  | cons c e ih =>
      rw [List.mem_cons, not_or] at h
      obtain ⟨hc, he⟩ := h
      rw [List.cons_append, pathSegments, if_neg (Ne.symm hc), ih he]
      cases pathSegments rest <;> rfl

theorem pathSegments_ne_nil (s : List Char) : pathSegments s ≠ [] := by
  induction s with
  | nil => simp [pathSegments]
  | cons c rest ih =>
      rw [pathSegments]
      split
      · simp
      · simpa using ih

/-- The segments tell what was cut. -/
theorem pathSegments_injective {s t : List Char} (h : pathSegments s = pathSegments t) : s = t := by
  induction s generalizing t with
  | nil =>
      cases t with
      | nil => rfl
      | cons d t =>
          rw [pathSegments, pathSegments] at h
          split at h
          · exact absurd (List.cons.inj h).2.symm (pathSegments_ne_nil t)
          · obtain ⟨y, ys, ht⟩ := List.exists_cons_of_ne_nil (pathSegments_ne_nil t)
            simp [ht] at h
  | cons c s ih =>
      obtain ⟨x, xs, hs⟩ := List.exists_cons_of_ne_nil (pathSegments_ne_nil s)
      cases t with
      | nil =>
          rw [pathSegments, pathSegments] at h
          split at h
          · exact absurd (List.cons.inj h).2 (pathSegments_ne_nil s)
          · simp [hs] at h
      | cons d t =>
          obtain ⟨y, ys, ht⟩ := List.exists_cons_of_ne_nil (pathSegments_ne_nil t)
          rw [pathSegments, pathSegments] at h
          split at h <;> split at h
          · next hc hd => rw [hc, hd, ih (List.cons.inj h).2]
          · simp [ht] at h
          · simp [hs] at h
          · rw [hs, ht, List.modifyHead_cons, List.modifyHead_cons, List.cons.injEq,
              List.cons.injEq] at h
            rw [h.1.1, ih (hs.trans (by rw [ht, h.1.2, h.2]))]

namespace Spells

variable {reserved : Char → Bool} {raw plain : List Char}

/-- Text without an escape spells itself. -/
theorem self {text : List Char} (h : '%' ∉ text) : Spells reserved text text := by
  induction text with
  | nil => exact .nil
  | cons c rest ih =>
      rw [List.mem_cons, not_or] at h
      exact .char (Ne.symm h.1) (ih h.2)

theorem append {raw' plain' : List Char} (h : Spells reserved raw plain)
    (h' : Spells reserved raw' plain') : Spells reserved (raw ++ raw') (plain ++ plain') := by
  induction h with
  | nil => exact h'
  | char hc _ ih => exact .char hc ih
  | decoded he hdecoded _ ih =>
      rw [List.append_assoc]
      exact .decoded he hdecoded ih
  | kept he hkept _ ih =>
      rw [List.append_assoc, List.append_assoc]
      exact .kept he hkept ih

/-- A path with one letter escaped. -/
theorem escaped {c x y : Char} {b : UInt8} {p q : List Char}
    (hp : '%' ∉ p) (hq : '%' ∉ q) (hbyte : String.utf8EncodeChar c = [b])
    (hx : hexValue x = some (b.toNat / 16)) (hy : hexValue y = some (b.toNat % 16))
    (hc : reserved c = false) :
    Spells reserved (p ++ '%' :: x :: y :: q) (p ++ c :: q) := by
  refine (Spells.self hp).append (Spells.decoded (e := ['%', x, y]) ?_ hc (Spells.self hq))
  rw [hbyte]
  exact .cons hx hy .nil

/-- Text without an escape is spelled one way. -/
theorem eq_of_not_mem (h : Spells reserved raw plain) (hraw : '%' ∉ raw) : plain = raw := by
  induction h with
  | nil => rfl
  | char _ _ ih => rw [ih fun hmem => hraw (List.mem_cons_of_mem _ hmem)]
  | decoded he _ _ _ =>
      obtain ⟨rest, rfl⟩ := he.of_char
      simp at hraw
  | kept he _ _ _ =>
      obtain ⟨rest, rfl⟩ := he.of_char
      simp at hraw

/-- A spelling of nothing is nothing. -/
theorem ne_nil (h : Spells reserved raw plain) (hraw : raw ≠ []) : plain ≠ [] := by
  cases h with
  | nil => exact absurd rfl hraw
  | char => simp
  | decoded => simp
  | kept he =>
      obtain ⟨rest, rfl⟩ := he.of_char
      simp

/-- What is written plainly at the front is read as it stands. -/
theorem of_append {front : List Char} (h : Spells reserved (front ++ raw) plain)
    (hfront : '%' ∉ front) : ∃ rest, plain = front ++ rest ∧ Spells reserved raw rest := by
  induction front generalizing plain with
  | nil => exact ⟨plain, rfl, h⟩
  | cons c front ih =>
      rw [List.mem_cons, not_or] at hfront
      obtain ⟨hc, hfront⟩ := hfront
      rw [List.cons_append] at h
      generalize hall : c :: (front ++ raw) = all at h
      cases h with
      | nil => cases hall
      | char _ hrest =>
          obtain ⟨rfl, rfl⟩ := List.cons.inj hall
          obtain ⟨rest, rfl, hspells⟩ := ih hrest hfront
          exact ⟨rest, rfl, hspells⟩
      | decoded he =>
          obtain ⟨rest, rfl⟩ := he.of_char
          exact absurd (List.cons.inj hall).1.symm hc
      | kept he =>
          obtain ⟨rest, rfl⟩ := he.of_char
          exact absurd (List.cons.inj hall).1.symm hc

/-- A reserved character is in the plain text only where it is in the spelling. -/
theorem not_mem_plain (h : Spells reserved raw plain) {c : Char} (hreserved : reserved c = true)
    (hraw : c ∉ raw) : c ∉ plain := by
  induction h with
  | nil => exact hraw
  | char _ _ ih =>
      simp only [List.mem_cons, not_or] at hraw ⊢
      exact ⟨hraw.1, ih hraw.2⟩
  | decoded _ hdecoded _ ih =>
      rw [List.mem_append, not_or] at hraw
      rw [List.mem_cons, not_or]
      refine ⟨?_, ih hraw.2⟩
      rintro rfl
      simp [hreserved] at hdecoded
  | kept he _ _ ih =>
      rw [List.mem_append, not_or] at hraw ⊢
      exact ⟨hraw.1, ih hraw.2⟩

/-- Where the slash is reserved, a spelling is one of each segment. -/
theorem segments (h : Spells reserved raw plain) (hslash : reserved '/' = true) :
    List.Forall₂ (Spells reserved) (pathSegments raw) (pathSegments plain) := by
  have hhead : ∀ {xs ys : List (List Char)} {f g : List Char → List Char},
      (∀ s t, Spells reserved s t → Spells reserved (f s) (g t)) →
        List.Forall₂ (Spells reserved) xs ys →
          List.Forall₂ (Spells reserved) (xs.modifyHead f) (ys.modifyHead g) := by
    intro xs ys f g hfg hall
    cases hall with
    | nil => exact .nil
    | cons hst hrest => exact .cons (hfg _ _ hst) hrest
  induction h with
  | nil => exact .cons .nil .nil
  | @char c raw plain hc _ ih =>
      simp only [pathSegments]
      split
      · exact .cons .nil ih
      · exact hhead (fun s t hst => .char hc hst) ih
  | @decoded c e raw plain he hdecoded _ ih =>
      have hne : c ≠ '/' := by
        rintro rfl
        simp [hslash] at hdecoded
      rw [pathSegments_append (he.not_mem (by decide) (by decide)), pathSegments, if_neg hne]
      exact hhead (fun s t hst => .decoded he hdecoded hst) ih
  | @kept c e raw plain he hkept _ ih =>
      have hno : '/' ∉ e := he.not_mem (by decide) (by decide)
      rw [pathSegments_append hno, pathSegments_append hno]
      exact hhead (fun s t hst => .kept he hkept hst) ih

end Spells

end FleetRunner.Library
