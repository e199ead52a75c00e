import FleetRunner.Js.Text
import FleetRunner.Library.Regex
import FleetRunner.Library.Splice
import Mathlib.Data.List.Sort

/-!
# Secrets in what is published (`secrets.ts`, `redact.ts`)

Logs, reports and error texts go to a store that anyone on the dashboard reads.
The collector and the machine runner both cut out the secrets they know, each
with its own copy of one function; the machine runner takes the secrets from its
environment.
-/

namespace FleetRunner

open Library

def REDACTED : String := "[redacted]"

/-- Values shorter than four characters are skipped. -/
def redactOne (out s : String) : String :=
  if s = "" ∨ jsLength s < 4 then out
  else String.ofList (splice s.toList REDACTED.toList out.toList)

/-- Remove secret values from text bound for the artifact store. -/
def redact (text : String) (secrets : List String) : String := secrets.foldl redactOne text

/-! ## The secrets of an environment -/

/-- `TOKEN|SECRET|PASSWORD|PASSWD|CREDENTIALS?|API_?KEY` -/
def secretWords : List String :=
  ["token", "secret", "password", "passwd", "credential", "credentials", "apikey", "api_key"]

/-- One of the words at the head of a text, up to a `_` or the end. -/
def secretAt (cs : List Char) : Bool :=
  secretWords.any fun w => (splitLit w.toList cs).any fun p => p.2.head?.all fun c => c = '_'

def secretAfter : List Char → Bool
  | [] => false
  | c :: rest => decide (c = '_') && secretAt rest || secretAfter rest

/-- `SECRET_ENV_RE` -/
def isSecretName (name : String) : Bool :=
  let cs := name.toList
  secretAt cs || secretAfter cs ||
    decide ((cs.drop (cs.length - 4)).map foldCase = "_key".toList.map foldCase)

/-- Longest first, so that a token that contains a shorter one goes as a whole. -/
def secretsFromEnv (env : List (String × String)) : List String :=
  let values := env.filterMap fun e =>
    if jsLength e.2 < 4 then none else if isSecretName e.1 then some e.2 else none
  values.insertionSort fun a b => jsLength b ≤ jsLength a

/-! ## What is left of a secret -/

section Hidden

variable {s : String}

/-- Does a text hold a secret? -/
def Holds (text s : String) : Prop := s.toList <:+: text.toList

theorem redactOne_of_long (hlong : 4 ≤ jsLength s) (out : String) :
    redactOne out s = String.ofList (splice s.toList REDACTED.toList out.toList) := by
  apply if_neg
  rintro (rfl | hshort)
  · exact absurd hlong (by decide)
  · omega

theorem toList_ne_nil_of_long (hlong : 4 ≤ jsLength s) : s.toList ≠ [] := by
  intro hnil
  rw [jsLength, hnil] at hlong
  exact absurd hlong (by decide)

/-- A secret cut out, whatever the text. -/
theorem not_holds_redactOne_self (hlong : 4 ≤ jsLength s)
    (hmark : ¬Overlaps s.toList REDACTED.toList) (out : String) : ¬Holds (redactOne out s) s := by
  rw [Holds, redactOne_of_long hlong, String.toList_ofList]
  exact not_infix_splice_self hmark (toList_ne_nil_of_long hlong) _

/-- Cutting out another does not bring it back. -/
theorem not_holds_redactOne (hlong : 4 ≤ jsLength s) (hmark : ¬Overlaps s.toList REDACTED.toList)
    {out other : String} (hout : ¬Holds out s) : ¬Holds (redactOne out other) s := by
  unfold redactOne
  split
  · exact hout
  · rw [Holds, String.toList_ofList]
    exact not_infix_splice hmark (toList_ne_nil_of_long hlong) hout

/-- A secret that does not overlap the mark is in no redacted text. -/
theorem not_holds_redact (hlong : 4 ≤ jsLength s) (hmark : ¬Overlaps s.toList REDACTED.toList)
    (text : String) {secrets : List String} (hmem : s ∈ secrets) :
    ¬Holds (redact text secrets) s := by
  obtain ⟨before, later, rfl⟩ := List.append_of_mem hmem
  have hlater : ∀ (others : List String) (out : String), ¬Holds out s →
      ¬Holds (others.foldl redactOne out) s := by
    intro others
    induction others with
    | nil => exact fun out hout => hout
    | cons other rest ih =>
        intro out hout
        exact ih _ (not_holds_redactOne hlong hmark hout)
  rw [redact, List.foldl_append, List.foldl_cons]
  exact hlater later _ (not_holds_redactOne_self hlong hmark _)

/-- One that is a part of the mark stays in every text. -/
theorem holds_redact (hmark : Holds REDACTED s) (secrets : List String) {text : String}
    (htext : Holds text s) : Holds (redact text secrets) s := by
  induction secrets generalizing text with
  | nil => exact htext
  | cons other rest ih =>
      apply ih
      unfold redactOne
      split
      · exact htext
      · rename_i hlong
        have hother : other.toList ≠ [] := by
          intro hnil
          exact hlong (Or.inl (String.toList_eq_nil_iff.mp hnil))
        rw [Holds, String.toList_ofList]
        exact infix_splice_of_mark hother hmark htext

/-- Without a bracket of its own, a secret overlaps the mark only as a part of it. -/
theorem overlaps_mark_iff (hopen : '[' ∉ s.toList) (hclose : ']' ∉ s.toList) :
    Overlaps s.toList REDACTED.toList ↔ Holds REDACTED s := by
  constructor
  · rintro (hin | hin | ⟨u, hu, hsuf, hpre⟩ | ⟨u, hu, hpre, hsuf⟩)
    · exact hin
    · exact absurd (hin.subset (by decide)) hopen
    · exfalso
      apply hclose
      have hlast : u.getLast hu = ']' := by
        obtain ⟨front, hfront⟩ := hsuf
        have hend : (front ++ u).getLast (by simp [hu]) = ']' := by
          simp only [hfront]
          rfl
        rwa [List.getLast_append_of_ne_nil _ hu] at hend
      exact hpre.subset (hlast ▸ List.getLast_mem hu)
    · exfalso
      apply hopen
      have hfirst : u.head hu = '[' := by
        obtain ⟨back, hback⟩ := hpre
        have hbegin : (u ++ back).head (by simp [hu]) = '[' := by
          simp only [hback]
          rfl
        rwa [List.head_append_of_ne_nil hu] at hbegin
      exact hsuf.subset (hfirst ▸ List.head_mem hu)
  · exact Or.inl

theorem mem_secretsFromEnv {env : List (String × String)} {name value : String}
    (hmem : (name, value) ∈ env) (hname : isSecretName name = true) (hlong : 4 ≤ jsLength value) :
    value ∈ secretsFromEnv env := by
  unfold secretsFromEnv
  rw [List.mem_insertionSort, List.mem_filterMap]
  refine ⟨(name, value), hmem, ?_⟩
  simp only [if_neg (Nat.not_lt.mpr hlong), if_pos hname]

/-- What a script prints is uploaded without the secrets of the environment, in every text, but
for those that are a part of the mark itself. -/
theorem captured_hides_iff {env : List (String × String)} {name value : String}
    (hmem : (name, value) ∈ env) (hname : isSecretName name = true) (hlong : 4 ≤ jsLength value)
    (hopen : '[' ∉ value.toList) (hclose : ']' ∉ value.toList) :
    (∀ output, ¬Holds (redact output (secretsFromEnv env)) value) ↔ ¬Holds REDACTED value := by
  have hsecret := mem_secretsFromEnv hmem hname hlong
  constructor
  · intro h hmark
    exact h value (holds_redact hmark _ (List.infix_refl _))
  · intro hmark output
    exact not_holds_redact hlong (fun hover => hmark ((overlaps_mark_iff hopen hclose).mp hover))
      output hsecret

/-- A token that holds a shorter secret, behind a variable of each kind of name. -/
theorem captured_hides_token :
    (∀ output, ¬Holds (redact output (secretsFromEnv
      [("PATH", "/usr/bin"), ("DB_PASSWORD", "hunter2"), ("Fleet_Token", "fr-hunter2-9")]))
        "fr-hunter2-9") ∧ ¬Holds REDACTED "fr-hunter2-9" := by
  have hmark : ¬Holds REDACTED "fr-hunter2-9" := by
    unfold Holds
    decide
  refine ⟨?_, hmark⟩
  exact (@captured_hides_iff _ "Fleet_Token" _ (by simp) (by decide +kernel) (by decide)
    (by decide) (by decide)).mpr hmark

end Hidden

end FleetRunner
