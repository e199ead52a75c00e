import FleetRunner.Js.Text
import FleetRunner.Library.Table
import Mathlib.Data.List.Infix

/-!
# Deleting an artifact (`api/mutations.ts`)

The scan for garbage reads every table that can name an artifact. The route that
deletes one asks three of them.

## Implementation notes

A column that holds JSON is its text here: both scans search the text. The store
holds what they read and nothing else; `files` are the names in the artifact
directory.
-/

namespace FleetRunner.Artifacts

open Library

/-! ## Hashes in a text -/

/-- `[a-f0-9]` -/
def isHex (c : Char) : Bool := c.isDigit || decide ('a' ≤ c ∧ c ≤ 'f')

/-- `\w` -/
def isWord (c : Char) : Bool := c.isAlphanum || c = '_'

/-- `/^[a-f0-9]{64}$/` -/
def isSha256 (cs : List Char) : Bool := cs.length = 64 && cs.all isHex

/-- A match of `/\b[a-f0-9]{64}\b/` at the head of a text, after a word character or not. -/
def hashAt (afterWord : Bool) (cs : List Char) : Option (List Char) :=
  if !afterWord && isSha256 (cs.take 64) && !(cs.drop 64).head?.any isWord then some (cs.take 64)
  else none

/-- All matches from left to right; `skip` characters belong to the one found last. -/
def hashes : Nat → Bool → List Char → List (List Char)
  | _, _, [] => []
  | skip + 1, _, c :: rest => hashes skip (isWord c) rest
  | 0, afterWord, c :: rest =>
    match hashAt afterWord (c :: rest) with
    | some sha => sha :: hashes 63 (isWord c) rest
    | none => hashes 0 (isWord c) rest

def sha256Refs (text : String) : List String :=
  ((hashes 0 false text.toList).map String.ofList).eraseDups

/-! ## The tables -/

structure ArtifactRow where
  sha256 : String
  pinned : Bool
  pin_reason : Option String

structure JobRow where
  job_id : String
  spec : String

structure FindingText where
  artifacts : String
  replay : Option String

structure Baseline where
  suite : String
  page : String
  profile : String
  sha256 : String

structure Store where
  artifacts : Table ArtifactRow.sha256
  jobs : List JobRow
  /-- `results.payload` -/
  payloads : List String
  /-- `schedules.template` -/
  templates : List String
  /-- `job_templates.spec` -/
  jobTemplates : List String
  findings : List FindingText
  baselines : List Baseline
  files : List String

/-- `artifacts || ' ' || COALESCE(replay, '')` -/
def FindingText.blob (f : FindingText) : String := f.artifacts ++ " " ++ f.replay.getD ""

/-- The texts that the deleting route does not read. -/
def Store.unread (st : Store) : List String :=
  st.payloads ++ st.templates ++ st.jobTemplates ++ st.findings.map FindingText.blob

def protectedShas (st : Store) : List String :=
  (st.jobs.map JobRow.spec ++ st.unread).flatMap sha256Refs ++ st.baselines.map Baseline.sha256 ++
    (st.artifacts.rows.filter ArtifactRow.pinned).map ArtifactRow.sha256

/-! ## The route -/

structure Reply where
  code : Nat
  error : Option String
  deriving DecidableEq

def reject (code : Nat) (error : String) : Reply := ⟨code, some error⟩

def pinnedText (reason : Option String) : String :=
  "pinned" ++ (match reason with
    | some r => if r = "" then "" else ": " ++ r
    | none => "") ++ "; unpin it first if you really mean to delete it"

def baselineText (b : Baseline) : String :=
  "accepted visual baseline for " ++ b.suite ++ "/" ++ b.page ++ " (" ++ b.profile ++
    "); accept a different shot first"

/-- `DELETE /api/artifacts/:sha256`, after the token was checked. -/
def deleteArtifact (st : Store) (sha256 : String) : Reply × Store :=
  if !isSha256 sha256.toList then (reject 400 "bad sha256", st)
  else
    match (st.artifacts.find? sha256).filter ArtifactRow.pinned with
    | some pin => (reject 409 (pinnedText pin.pin_reason), st)
    | none =>
      match st.jobs.filter fun j => strIncludes j.spec sha256 with
      | j :: more =>
        (reject 409 ("still referenced by " ++ toString (more.length + 1) ++ " job(s), e.g. " ++
          j.job_id), st)
      | [] =>
        match st.baselines.find? fun b => decide (b.sha256 = sha256) with
        | some b => (reject 409 (baselineText b), st)
        | none =>
          if st.artifacts.contains sha256 then
            (⟨200, none⟩,
              { st with
                artifacts := st.artifacts.deleteWhere fun a => decide (a.sha256 = sha256)
                files := st.files.filter fun f => decide (f ≠ sha256) })
          else (reject 404 "not found", st)

/-- The artifact is there before the request and gone after it. -/
def Removes (st : Store) (sha256 : String) : Prop :=
  st.artifacts.contains sha256 = true ∧
    (deleteArtifact st sha256).2.artifacts.contains sha256 = false

/-! ## What the route does ask -/

/-- Stored under a hash, not pinned, in no job's text, and not a baseline. -/
structure Unguarded (st : Store) (sha256 : String) : Prop where
  isSha256 : isSha256 sha256.toList = true
  stored : st.artifacts.contains sha256 = true
  unpinned : ∀ a, st.artifacts.find? sha256 = some a → a.pinned = false
  jobs : ∀ j ∈ st.jobs, strIncludes j.spec sha256 = false
  baselines : ∀ b ∈ st.baselines, b.sha256 ≠ sha256

theorem removes_iff_unguarded {st : Store} {sha256 : String} :
    Removes st sha256 ↔ Unguarded st sha256 := by
  constructor
  · rintro ⟨hstored, hgone⟩
    have hkept : (deleteArtifact st sha256).2 ≠ st := by
      intro heq
      rw [heq, hstored] at hgone
      cases hgone
    unfold deleteArtifact at hkept
    split at hkept
    · exact absurd rfl hkept
    · rename_i hsha
      split at hkept
      · exact absurd rfl hkept
      · rename_i hpin
        split at hkept
        · exact absurd rfl hkept
        · rename_i hjobs
          split at hkept
          · exact absurd rfl hkept
          · rename_i hbase
            constructor
            · simpa using hsha
            · exact hstored
            · intro a ha
              rw [ha] at hpin
              simpa using hpin
            · intro j hj
              have hnone := List.filter_eq_nil_iff.mp hjobs j hj
              simpa using hnone
            · intro b hb
              have hnone := List.find?_eq_none.mp hbase b hb
              simpa using hnone
  · intro h
    have hpin : (st.artifacts.find? sha256).filter ArtifactRow.pinned = none := by
      rw [Option.filter_eq_none_iff]
      intro a ha
      simp [h.unpinned a ha]
    have hjobs : (st.jobs.filter fun j => strIncludes j.spec sha256) = [] := by
      rw [List.filter_eq_nil_iff]
      intro j hj
      simp [h.jobs j hj]
    have hbase : (st.baselines.find? fun b => decide (b.sha256 = sha256)) = none := by
      rw [List.find?_eq_none]
      intro b hb
      simp [h.baselines b hb]
    refine ⟨h.stored, ?_⟩
    simp only [deleteArtifact, h.isSha256, Bool.not_true, Bool.false_eq_true, if_false, hpin, hjobs,
      hbase, h.stored, if_true]
    rw [Bool.eq_false_iff, ne_eq, Table.contains_iff]
    rintro ⟨a, ha, rfl⟩
    simp [Table.deleteWhere] at ha

/-! ## What a text refers to is in it -/

theorem isInfix_of_hashAt {afterWord : Bool} {cs sha : List Char}
    (h : hashAt afterWord cs = some sha) : sha <+: cs := by
  unfold hashAt at h
  split at h
  · cases h
    exact List.take_prefix 64 cs
  · cases h

theorem isInfix_of_mem_hashes {skip : Nat} {afterWord : Bool} {cs sha : List Char}
    (h : sha ∈ hashes skip afterWord cs) : sha <:+: cs := by
  induction cs generalizing skip afterWord with
  | nil => simp [hashes] at h
  | cons c rest ih =>
      have hrest : ∀ {skip afterWord}, sha ∈ hashes skip afterWord rest → sha <:+: c :: rest :=
        fun hmem => (ih hmem).trans (List.suffix_cons c rest).isInfix
      cases skip with
      | succ n => exact hrest h
      | zero =>
          rw [hashes] at h
          split at h
          · rename_i found hat
            rcases List.mem_cons.mp h with rfl | hmem
            · exact (isInfix_of_hashAt hat).isInfix
            · exact hrest hmem
          · exact hrest h

/-- A hash that a text refers to is included in it. -/
theorem strIncludes_of_mem_sha256Refs {text sha : String} (h : sha ∈ sha256Refs text) :
    strIncludes text sha = true := by
  obtain ⟨cs, hcs, rfl⟩ := List.mem_map.mp (List.mem_eraseDups.mp h)
  refine charsInclude_of_isInfix ?_
  rw [String.toList_ofList]
  exact isInfix_of_mem_hashes hcs

/-- What the scan protects besides what the route asks. -/
theorem mem_protectedShas_iff {st : Store} {sha256 : String} (h : Unguarded st sha256) :
    sha256 ∈ protectedShas st ↔ ∃ text ∈ st.unread, sha256 ∈ sha256Refs text := by
  have hpinned : sha256 ∉ (st.artifacts.rows.filter ArtifactRow.pinned).map ArtifactRow.sha256 := by
    intro hmem
    obtain ⟨a, ha, rfl⟩ := List.mem_map.mp hmem
    obtain ⟨hrow, hpin⟩ := List.mem_filter.mp ha
    rw [h.unpinned a (Table.mem_rows_iff.mp hrow)] at hpin
    cases hpin
  have hbase : sha256 ∉ st.baselines.map Baseline.sha256 := by
    intro hmem
    obtain ⟨b, hb, heq⟩ := List.mem_map.mp hmem
    exact h.baselines b hb heq
  have hjobs : ∀ text ∈ st.jobs.map JobRow.spec, sha256 ∉ sha256Refs text := by
    intro text htext hmem
    obtain ⟨j, hj, rfl⟩ := List.mem_map.mp htext
    have hincluded := strIncludes_of_mem_sha256Refs hmem
    rw [h.jobs j hj] at hincluded
    cases hincluded
  simp only [protectedShas, List.mem_append, hpinned, hbase, or_false, List.mem_flatMap]
  constructor
  · rintro ⟨text, htext | htext, hmem⟩
    · exact absurd hmem (hjobs text htext)
    · exact ⟨text, htext, hmem⟩
  · rintro ⟨text, htext, hmem⟩
    exact ⟨text, Or.inr htext, hmem⟩

/-- The route deletes nothing that the scan protects exactly when an artifact that gets past its
three questions is named by no result, schedule, job template or finding. -/
theorem delete_spares_protected_iff (st : Store) (sha256 : String) :
    (Removes st sha256 → sha256 ∉ protectedShas st) ↔
      (Unguarded st sha256 → ∀ text ∈ st.unread, sha256 ∉ sha256Refs text) := by
  rw [removes_iff_unguarded]
  refine imp_congr_right fun h => ?_
  rw [mem_protectedShas_iff h]
  push Not
  exact Iff.rfl

/-- One artifact, a screenshot that only a result names. -/
def shotOnly (sha256 : String) : Store where
  artifacts := Table.empty.insertNew ⟨sha256, false, none⟩
  jobs := []
  payloads := [sha256]
  templates := []
  jobTemplates := []
  findings := []
  baselines := []
  files := [sha256]

/-- It is deleted although the scan protects it. -/
theorem shot_deleted :
    ¬ ∀ (st : Store) (sha256 : String), Removes st sha256 → sha256 ∉ protectedShas st := by
  intro h
  let sha := String.ofList (List.replicate 64 'a')
  have hremoves : Removes (shotOnly sha) sha := by
    refine removes_iff_unguarded.mpr
      ⟨by decide, by decide, ?_, by simp [shotOnly], by simp [shotOnly]⟩
    intro a ha
    have hrow : a ∈ (shotOnly sha).artifacts.rows := Table.mem_rows_iff.mpr (by
      rw [Table.key_of_find? ha]
      exact ha)
    obtain rfl : a = ⟨sha, false, none⟩ := List.mem_singleton.mp hrow
    rfl
  have hrefs : sha ∈ sha256Refs sha := by decide
  have hprotected : sha ∈ protectedShas (shotOnly sha) :=
    (mem_protectedShas_iff (removes_iff_unguarded.mp hremoves)).mpr
      ⟨sha, List.mem_cons_self, hrefs⟩
  exact h _ _ hremoves hprotected

end FleetRunner.Artifacts
