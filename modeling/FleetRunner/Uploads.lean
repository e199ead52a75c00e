import FleetRunner.Js.Text
import FleetRunner.Library.Maximum
import FleetRunner.Library.Runs
import FleetRunner.Queue
import Mathlib.Data.Nat.Basic

/-!
# Artifact uploads (`server.ts`) and `latest` (`queue.ts`)

The store is content addressed: one row a digest, whoever uploads the bytes and
however often. An upload that names an app puts that name, the channel and the
next publish number on the row; `latest` is the row with an app's name and the
highest number that is not a pull request's.

## Implementation notes

An upload is given by the digest of its bytes. Its name, platform, media type
and size on disk are columns nothing here reads.
-/

namespace FleetRunner

open Library

/-- A `POST /artifacts`: its bytes by digest and number, and its headers. -/
structure Upload where
  sha256 : String
  size : Nat
  app : Option String
  build : Option String
  channel : Option String

structure UploadError where
  status : Nat
  error : String

/-- A column that is there and not empty. -/
def named? (v : Option String) : Option String := v.filter fun s => s ≠ ""

section Upload

variable (js : Js)

/-- `pr`, or nothing for a build that may become `latest`; anything else is refused. -/
def artifactChannel (raw : Option String) : Option (Option String) :=
  match raw with
  | none => some none
  | some raw =>
    let v := js.lower (jsTrim raw)
    if v = "" then some none else if v = "pr" then some (some "pr") else none

/-- `COALESCE(MAX(publish_seq), 0)` -/
def maxSeq (rows : List Artifact) : Nat := (rows.filterMap (·.publish_seq)).foldr max 0

def nextRowid (rows : List Artifact) : Nat := (rows.map (·.rowid)).foldr max 0 + 1

def newArtifact (db : Db) (u : Upload) (channel : Option String) : Artifact where
  sha256 := u.sha256
  app := u.app
  build := u.build
  channel := channel
  publish_seq := none
  rowid := nextRowid db.artifacts.rows

/-- `INSERT OR IGNORE INTO artifacts …` -/
def insertArtifact (db : Db) (u : Upload) (channel : Option String) : Db :=
  { db with artifacts := db.artifacts.insertNew (newArtifact db u channel) }

def publishRow (app : String) (build channel : Option String) (seq : Nat) (a : Artifact) :
    Artifact :=
  { a with app := some app, build := build.or a.build, channel, publish_seq := some seq }

@[simp] theorem publishRow_sha256 (app : String) (build channel : Option String) (seq : Nat)
    (a : Artifact) : (publishRow app build channel seq a).sha256 = a.sha256 := rfl

/-- A pull request's build leaves a row alone that is not on its channel. -/
def publishes (sha256 : String) (channel : Option String) (a : Artifact) : Bool :=
  decide (a.sha256 = sha256) && (decide (channel ≠ some "pr") || decide (a.channel = some "pr"))

/-- `UPDATE artifacts SET app = ?, … WHERE sha256 = ? …` -/
def publishArtifact (db : Db) (sha256 app : String) (build channel : Option String) : Db :=
  { db with
    artifacts := db.artifacts.updateWhere (publishes sha256 channel)
      (publishRow app build channel (maxSeq db.artifacts.rows + 1)) (publishRow_sha256 _ _ _ _) }

def uploadArtifact (db : Db) (u : Upload) : Except UploadError Db :=
  match artifactChannel js u.channel with
  | none => .error ⟨400, "x-artifact-channel must be \"pr\" or absent"⟩
  | some channel =>
    if u.size = 0 then .error ⟨400, "empty body"⟩
    else
      let inserted := insertArtifact db u channel
      .ok (match named? u.app with
        | some app => publishArtifact inserted u.sha256 app u.build channel
        | none => inserted)

end Upload

namespace Uploads

variable (js : Js)

/-- A refused upload leaves nothing in the store. -/
def step (db : Db) (u : Upload) : Db :=
  match uploadArtifact js db u with
  | .ok stored => stored
  | .error _ => db

/-- The store after these uploads, from an empty one. -/
abbrev after (uploads : List Upload) : Db := run (step js) .empty uploads

/-- The app an upload names on the main channel. -/
def mainFor (u : Upload) : Option String :=
  match artifactChannel js u.channel with
  | some none => if u.size = 0 then none else named? u.app
  | _ => none

/-- The most recent upload that named the app on main. -/
def lastMain (app : String) (uploads : List Upload) : Option Upload :=
  uploads.reverse.find? fun u => decide (mainFor js u = some app)

/-- What was uploaded since, newest first. -/
def sinceMain (app : String) (uploads : List Upload) : List Upload :=
  uploads.reverse.takeWhile fun u => decide (mainFor js u ≠ some app)

/-- The bytes of the app's latest build were uploaded again since, to main and under
another name. -/
def Renamed (app : String) (uploads : List Upload) : Prop :=
  ∃ u v, lastMain js app uploads = some u ∧ v ∈ sinceMain js app uploads ∧
    v.sha256 = u.sha256 ∧ (mainFor js v).isSome

/-- The spec asks for the latest build of an app. -/
def AsksLatest (spec : Json) (app : String) : Prop :=
  (optProp (spec.prop "app") "sha256").any (fun v => v.isStr "latest") = true ∧
    optProp (spec.prop "app") "name" = some (.str app) ∧ app ≠ ""

/-- The spec is given the app's most recent main upload, or is refused when there is none. -/
def ResolvesNewest (spec : Json) (app : String) (uploads : List Upload) : Prop :=
  match lastMain js app uploads with
  | some u => ∃ out, resolveLatestBuild js (after js uploads) spec = .ok out ∧
      optProp (out.prop "app") "sha256" = some (.str u.sha256)
  | none => ∃ message, resolveLatestBuild js (after js uploads) spec = .error message

/-! ## The newest row -/

/-- A row `latest` may take for the app. -/
def onMain (app : String) (a : Artifact) : Bool :=
  decide (a.app = some app) && decide (a.channel ≠ some "pr")

/-- The rows `latest` picks from. -/
def mains (app : String) (db : Db) : List Artifact := db.artifacts.rows.filter (onMain app)

theorem newest_eq_firstBest (rows : List Artifact) :
    newest rows = firstBest (fun b a => decide (publishOrder b < publishOrder a)) rows := by
  unfold newest firstBest
  congr 1
  funext best a
  cases best with
  | none => rfl
  | some b => by_cases h : publishOrder b < publishOrder a <;> simp [pick, h]

theorem newest_eq_none_iff {rows : List Artifact} : newest rows = none ↔ rows = [] := by
  rw [newest_eq_firstBest, firstBest_eq_none_iff]

theorem firstMax_newest {rows : List Artifact} {a : Artifact} (h : newest rows = some a) :
    FirstMax publishOrder rows a := by
  rw [newest_eq_firstBest] at h
  exact firstMax_of_firstBest (fun _ _ => by simp) h

/-- The spec with a row's build in it. -/
def withBuild (spec : Json) (row : Artifact) : Json :=
  let app := spec.prop "app"
  let templateBuild := if (optProp app "build").any (fun v => v.isStr "latest") then none
    else optProp app "build"
  let build := match row.build with
    | some b => .str b
    | none => nullish templateBuild (.str (String.ofList (row.sha256.toList.take 12)))
  .obj (Fields.set spec.spread "app" (.obj (Fields.merge ((app.getD .null).spread)
    [("sha256", .str row.sha256), ("build", build)])))

theorem sha256_withBuild (spec : Json) (row : Artifact) :
    optProp ((withBuild spec row).prop "app") "sha256" = some (.str row.sha256) := by
  simp [withBuild, optProp, Fields.merge, Fields.get?_set_of_ne]

/-- What a spec that asks for the latest build is resolved to. -/
theorem resolveLatestBuild_of_asks {spec : Json} {app : String} (h : AsksLatest spec app)
    (db : Db) :
    (∃ message, newest (mains app db) = none ∧
        resolveLatestBuild js db spec = .error message) ∨
      ∃ row, newest (mains app db) = some row ∧
        resolveLatestBuild js db spec = .ok (withBuild spec row) := by
  obtain ⟨hlatest, hname, hne⟩ := h
  have hbuilds : ((db.artifacts.rows.filter fun a =>
      a.app.any fun n => (Json.str app).isStr n).filter fun a => a.channel ≠ some "pr") =
      mains app db := by
    rw [List.filter_filter, mains]
    congr 1
    funext a
    cases ha : a.app <;> simp [onMain, ha, Bool.and_comm, eq_comm]
  have htruthy : optTruthy (some (Json.str app)) = true := by simp [Json.truthy, hne]
  unfold resolveLatestBuild
  simp only [hlatest, hname, htruthy, nullish, hbuilds, Bool.not_true, Bool.false_eq_true,
    if_false]
  cases newest (mains app db) with
  | none => exact Or.inl ⟨_, rfl, rfl⟩
  | some row => exact Or.inr ⟨row, rfl, rfl⟩

/-! ## One upload -/

section OneUpload

variable {js} {db : Db} {u : Upload}

theorem artifactChannel_cases (js : Js) (raw : Option String) :
    artifactChannel js raw = none ∨ artifactChannel js raw = some none ∨
      artifactChannel js raw = some (some "pr") := by
  cases raw with
  | none => exact Or.inr (Or.inl rfl)
  | some raw =>
      simp only [artifactChannel]
      split
      · exact Or.inr (Or.inl rfl)
      · split
        · exact Or.inr (Or.inr rfl)
        · exact Or.inl rfl

/-- An inserted row that `latest` may not take is not seen. -/
theorem mains_insertArtifact {app : String} {channel : Option String}
    (h : u.app ≠ some app ∨ channel = some "pr") :
    mains app (insertArtifact db u channel) = mains app db := by
  simp only [mains, insertArtifact]
  rcases db.artifacts.rows_insertNew (newArtifact db u channel) with hsame | ⟨-, happend⟩
  · rw [hsame]
  · have hunseen : ¬onMain app (newArtifact db u channel) = true := by
      rcases h with h | h <;> simp [onMain, newArtifact, h]
    rw [happend, List.filter_append, List.filter_cons_of_neg hunseen, List.filter_nil,
      List.append_nil]

/-- A pull request's publish moves rows of its own channel only. -/
theorem mains_publishArtifact_pr (app sha256 name : String) (build : Option String) :
    mains app (publishArtifact db sha256 name build (some "pr")) = mains app db := by
  refine db.artifacts.filter_rows_updateWhere _ _ (publishRow_sha256 _ _ _ _) fun a ha => ?_
  have hpr : a.channel = some "pr" := by
    simpa [publishes] using (Bool.and_eq_true_iff.mp ha).2
  simp [onMain, hpr, publishRow]

/-- An upload that names no app on main is not seen by `latest`. -/
theorem mains_step_of_not_main {app : String} (hne : app ≠ "") (h : mainFor js u = none) :
    mains app (step js db u) = mains app db := by
  unfold step uploadArtifact
  unfold mainFor at h
  rcases artifactChannel_cases js u.channel with hc | hc | hc
  · simp only [hc]
  · rw [hc] at h ⊢
    by_cases hsize : u.size = 0
    · simp only [hsize, if_true]
    · simp only [hsize, if_false] at h ⊢
      rw [h]
      refine mains_insertArtifact (Or.inl fun happ => ?_)
      rw [happ] at h
      simp [named?, hne] at h
  · rw [hc]
    by_cases hsize : u.size = 0
    · simp only [hsize, if_true]
    · simp only [hsize, if_false]
      cases hname : named? u.app with
      | none => exact mains_insertArtifact (Or.inr rfl)
      | some name =>
          exact (mains_publishArtifact_pr app u.sha256 name u.build).trans
            (mains_insertArtifact (Or.inr rfl))

theorem maxSeq_insertArtifact (channel : Option String) :
    maxSeq (insertArtifact db u channel).artifacts.rows = maxSeq db.artifacts.rows := by
  rcases db.artifacts.rows_insertNew (newArtifact db u channel) with hsame | ⟨-, happend⟩
  · rw [insertArtifact, hsame]
  · have hseq : (newArtifact db u channel).publish_seq = none := rfl
    simp only [insertArtifact, happend]
    simp [maxSeq, hseq]

theorem step_of_main {name : String} (h : mainFor js u = some name) :
    step js db u = publishArtifact (insertArtifact db u none) u.sha256 name u.build none := by
  unfold mainFor at h
  rcases artifactChannel_cases js u.channel with hc | hc | hc
  · simp [hc] at h
  · rw [hc] at h
    by_cases hsize : u.size = 0
    · simp [hsize] at h
    · simp only [hsize, if_false] at h
      simp [step, uploadArtifact, hc, hsize, h]
  · simp [hc] at h

/-- An upload that names an app on main writes its row with the next publish number. -/
theorem rows_step_of_main {name : String} (h : mainFor js u = some name) :
    ∃ a, a.sha256 = u.sha256 ∧ a.app = some name ∧ a.channel = none ∧
      a.publish_seq = some (maxSeq db.artifacts.rows + 1) ∧
      ∀ b, b ∈ (step js db u).artifacts.rows ↔
        b = a ∨ b ∈ db.artifacts.rows ∧ b.sha256 ≠ u.sha256 := by
  have hins : ∃ r, (insertArtifact db u none).artifacts.find? u.sha256 = some r := by
    simp only [insertArtifact, Table.find?_insertNew]
    cases db.artifacts.find? u.sha256 with
    | none => exact ⟨newArtifact db u none, by simp [newArtifact]⟩
    | some r => exact ⟨r, rfl⟩
  obtain ⟨r, hr⟩ := hins
  have hkey : r.sha256 = u.sha256 := Table.key_of_find? hr
  have hfind : ∀ s, (step js db u).artifacts.find? s = if s = u.sha256 then
      some (publishRow name u.build none (maxSeq db.artifacts.rows + 1) r)
      else db.artifacts.find? s := by
    intro s
    rw [step_of_main h]
    simp only [publishArtifact, maxSeq_insertArtifact, Table.find?_updateWhere]
    by_cases hs : s = u.sha256
    · subst hs
      simp [hr, publishes, hkey]
    · have hother : (insertArtifact db u none).artifacts.find? s = db.artifacts.find? s := by
        have hne : ¬(newArtifact db u none).sha256 = s := fun heq => hs heq.symm
        simp only [insertArtifact, Table.find?_insertNew, hne, if_false, Option.or_none]
      rw [hother, if_neg hs]
      cases hq : db.artifacts.find? s with
      | none => rfl
      | some q =>
          have hne : ¬q.sha256 = u.sha256 := fun heq => hs ((Table.key_of_find? hq).symm.trans heq)
          simp [publishes, hne]
  refine ⟨publishRow name u.build none (maxSeq db.artifacts.rows + 1) r, hkey, rfl, rfl, rfl, ?_⟩
  intro b
  rw [Table.mem_rows_iff, hfind]
  by_cases hb : b.sha256 = u.sha256
  · rw [if_pos hb]
    constructor
    · exact fun h => Or.inl (Option.some.inj h).symm
    · rintro (rfl | ⟨-, hne⟩)
      · rfl
      · exact absurd hb hne
  · rw [if_neg hb, ← Table.mem_rows_iff]
    constructor
    · exact fun h => Or.inr ⟨h, hb⟩
    · rintro (rfl | ⟨h, -⟩)
      · exact absurd hkey hb
      · exact h

end OneUpload

/-! ## Any number of uploads -/

/-- A row with an app's name on it has a publish number. -/
def Numbered (db : Db) : Prop :=
  ∀ a ∈ db.artifacts.rows, ∀ app, a.app = some app → app ≠ "" → a.publish_seq.isSome

/-- The newest row of an app is its latest main upload, unless that was renamed. -/
def Standing (app : String) (past : List Upload) (db : Db) : Prop :=
  match lastMain js app past with
  | none => mains app db = []
  | some u =>
    (Renamed js app past → ∀ a ∈ mains app db, a.sha256 ≠ u.sha256) ∧
    (¬Renamed js app past → ∃ a ∈ mains app db, a.sha256 = u.sha256 ∧
      ∀ b ∈ mains app db, b.sha256 ≠ a.sha256 → publishOrder b < publishOrder a)

section AnyNumber

variable {js} {app : String} {past : List Upload} {u : Upload}

theorem lastMain_concat : lastMain js app (past ++ [u]) =
    if mainFor js u = some app then some u else lastMain js app past := by
  by_cases h : mainFor js u = some app <;> simp [lastMain, h]

theorem sinceMain_concat : sinceMain js app (past ++ [u]) =
    if mainFor js u = some app then [] else u :: sinceMain js app past := by
  by_cases h : mainFor js u = some app <;> simp [sinceMain, h]

/-- An app's own main upload stands again under its name. -/
theorem not_renamed_concat_of_main (h : mainFor js u = some app) :
    ¬Renamed js app (past ++ [u]) := by
  rintro ⟨_, v, -, hv, -⟩
  rw [sinceMain_concat, if_pos h] at hv
  cases hv

/-- Any other upload renames it when it publishes the same bytes on main. -/
theorem renamed_concat_iff (h : mainFor js u ≠ some app) :
    Renamed js app (past ++ [u]) ↔ Renamed js app past ∨
      ∃ v, lastMain js app past = some v ∧ u.sha256 = v.sha256 ∧ (mainFor js u).isSome := by
  simp only [Renamed, lastMain_concat, sinceMain_concat, if_neg h, List.mem_cons]
  constructor
  · rintro ⟨v, w, hv, rfl | hw, hsha, hmain⟩
    · exact Or.inr ⟨v, hv, hsha, hmain⟩
    · exact Or.inl ⟨v, w, hv, hw, hsha, hmain⟩
  · rintro (⟨v, w, hv, hw, hrest⟩ | ⟨v, hv, hrest⟩)
    · exact ⟨v, w, hv, Or.inr hw, hrest⟩
    · exact ⟨v, u, hv, Or.inl rfl, hrest⟩

theorem mem_mains {db : Db} {a : Artifact} : a ∈ mains app db ↔
    a ∈ db.artifacts.rows ∧ a.app = some app ∧ a.channel ≠ some "pr" := by
  simp [mains, onMain]

theorem publishOrder_le_maxSeq {db : Db} (hn : Numbered db) {a : Artifact}
    (ha : a ∈ db.artifacts.rows) (happ : a.app = some app) (hne : app ≠ "") :
    publishOrder a ≤ maxSeq db.artifacts.rows := by
  obtain ⟨seq, hseq⟩ := Option.isSome_iff_exists.mp (hn a ha app happ hne)
  have hmem : seq ∈ db.artifacts.rows.filterMap (·.publish_seq) :=
    List.mem_filterMap.mpr ⟨a, ha, hseq⟩
  have hle : ∀ xs : List Nat, seq ∈ xs → seq ≤ xs.foldr max 0 := by
    intro xs hx
    induction xs with
    | nil => cases hx
    | cons x rest ih =>
        rcases List.mem_cons.mp hx with rfl | hrest
        · exact Nat.le_max_left _ _
        · exact (ih hrest).trans (Nat.le_max_right _ _)
  rw [publishOrder, hseq]
  exact hle _ hmem

theorem mem_insertArtifact {db : Db} {channel : Option String} {a : Artifact}
    (h : a ∈ (insertArtifact db u channel).artifacts.rows) :
    a ∈ db.artifacts.rows ∨ a = newArtifact db u channel := by
  rcases db.artifacts.rows_insertNew (newArtifact db u channel) with hsame | ⟨-, happend⟩
  · rw [insertArtifact, hsame] at h
    exact Or.inl h
  · rw [insertArtifact, happend] at h
    simpa using h

theorem Numbered.step {db : Db} (hn : Numbered db) (u : Upload) : Numbered (step js db u) := by
  unfold Uploads.step uploadArtifact
  cases artifactChannel js u.channel with
  | none => exact hn
  | some channel =>
      by_cases hsize : u.size = 0
      · simpa only [hsize, if_true] using hn
      · simp only [hsize, if_false]
        cases hname : named? u.app with
        | none =>
            intro a ha app happ hne
            rcases mem_insertArtifact ha with hold | rfl
            · exact hn a hold app happ hne
            · have hown : u.app = some app := happ
              simp [named?, hown, hne] at hname
        | some name =>
            intro a ha app happ hne
            obtain ⟨r, hr, rfl⟩ := List.mem_map.mp ha
            by_cases hp : publishes u.sha256 channel r = true
            · simp [hp, publishRow]
            · rw [if_neg hp] at happ ⊢
              rcases mem_insertArtifact hr with hold | rfl
              · exact hn r hold app happ hne
              · -- the row just inserted is on the channel it was inserted with
                refine absurd ?_ hp
                by_cases hc : channel = some "pr" <;> simp [publishes, newArtifact, hc]

/-- One more upload keeps the newest row of an app what it should be. -/
theorem Standing.step {db : Db} (hn : Numbered db) (hne : app ≠ "")
    (h : Standing js app past db) : Standing js app (past ++ [u]) (step js db u) := by
  cases hmain : mainFor js u with
  | none =>
      have hother : mainFor js u ≠ some app := by simp [hmain]
      have hrenamed : Renamed js app (past ++ [u]) ↔ Renamed js app past := by
        rw [renamed_concat_iff hother]
        simp [hmain]
      unfold Standing at h ⊢
      rw [lastMain_concat, if_neg hother, mains_step_of_not_main hne hmain, hrenamed]
      exact h
  | some name =>
      obtain ⟨a, hkey, hname, hchannel, hseq, hrows⟩ : ∃ a, a.sha256 = u.sha256 ∧ a.app = some name ∧
          a.channel = none ∧ a.publish_seq = some (maxSeq db.artifacts.rows + 1) ∧
          ∀ b, b ∈ (Uploads.step js db u).artifacts.rows ↔
            b = a ∨ b ∈ db.artifacts.rows ∧ b.sha256 ≠ u.sha256 := rows_step_of_main hmain
      by_cases happ : name = app
      · subst happ
        -- its own upload: the highest number of all
        unfold Standing
        rw [lastMain_concat, if_pos hmain]
        refine ⟨fun hr => absurd hr (not_renamed_concat_of_main hmain), fun _ => ⟨a, ?_, hkey, ?_⟩⟩
        · exact mem_mains.mpr ⟨(hrows a).mpr (Or.inl rfl), hname, by simp [hchannel]⟩
        · intro b hb hsha
          obtain ⟨hb, hown, -⟩ := mem_mains.mp hb
          rcases (hrows b).mp hb with rfl | ⟨hold, -⟩
          · exact absurd rfl hsha
          · have hle := publishOrder_le_maxSeq hn hold hown hne
            simp only [publishOrder, hseq, Option.getD_some]
            exact Nat.lt_succ_of_le hle
      · -- another app's: the row of these bytes is no longer this app's
        have hother : mainFor js u ≠ some app := by simpa [hmain] using happ
        have hmem : ∀ b, b ∈ mains app (Uploads.step js db u) ↔
            b ∈ mains app db ∧ b.sha256 ≠ u.sha256 := by
          intro b
          rw [mem_mains, mem_mains, hrows]
          constructor
          · rintro ⟨rfl | ⟨hold, hsha⟩, hown, hch⟩
            · exact absurd (Option.some.inj (hname.symm.trans hown)) happ
            · exact ⟨⟨hold, hown, hch⟩, hsha⟩
          · exact fun ⟨⟨hold, hown, hch⟩, hsha⟩ => ⟨Or.inr ⟨hold, hsha⟩, hown, hch⟩
        have hrenamed : Renamed js app (past ++ [u]) ↔ Renamed js app past ∨
            ∃ v, lastMain js app past = some v ∧ u.sha256 = v.sha256 ∧ (mainFor js u).isSome :=
          renamed_concat_iff hother
        unfold Standing at h ⊢
        rw [lastMain_concat, if_neg hother]
        cases hlast : lastMain js app past with
        | none =>
            rw [hlast] at h
            refine List.eq_nil_iff_forall_not_mem.mpr fun b hb => ?_
            have hold := ((hmem b).mp hb).1
            rw [show mains app db = [] from h] at hold
            cases hold
        | some v =>
            rw [hlast] at h hrenamed
            obtain ⟨hgone, hstands⟩ := h
            constructor
            · intro hr b hb
              obtain ⟨hold, hsha⟩ := (hmem b).mp hb
              rcases hrenamed.mp hr with hpast | ⟨w, hw, hsame, -⟩
              · exact hgone hpast b hold
              · obtain rfl := Option.some.inj hw
                rwa [← hsame]
            · intro hr
              have hpast : ¬Renamed js app past := fun hp => hr (hrenamed.mpr (Or.inl hp))
              have hsha : u.sha256 ≠ v.sha256 := fun heq =>
                hr (hrenamed.mpr (Or.inr ⟨v, rfl, heq, by simp [hmain]⟩))
              obtain ⟨b, hb, hbv, hbest⟩ := hstands hpast
              refine ⟨b, (hmem b).mpr ⟨hb, fun heq => hsha (heq.symm.trans hbv)⟩, hbv, ?_⟩
              exact fun c hc => hbest c ((hmem c).mp hc).1

theorem numbered (uploads : List Upload) : Numbered (after js uploads) :=
  invariant_all (fun _ u hn => hn.step u) (fun _ ha => by cases ha) uploads

theorem standing (hne : app ≠ "") (uploads : List Upload) :
    Standing js app uploads (after js uploads) := by
  induction uploads using List.reverseRecOn with
  | nil => rfl
  | append_singleton past u ih =>
      rw [after, run_concat]
      exact ih.step (numbered past) hne

end AnyNumber

section Latest

variable {js} {spec : Json} {app : String} (hasks : AsksLatest spec app)

include hasks

/-- The latest build is the app's most recent main upload while nobody renames it. -/
theorem resolvesNewest_iff (uploads : List Upload) :
    ResolvesNewest js spec app uploads ↔ ¬Renamed js app uploads := by
  have hresolve := resolveLatestBuild_of_asks js hasks
  have hstanding : Standing js app uploads (after js uploads) := standing hasks.2.2 uploads
  unfold Standing at hstanding
  unfold ResolvesNewest
  cases hlast : lastMain js app uploads with
  | none =>
      rw [hlast] at hstanding
      have hnever : ¬Renamed js app uploads := by
        rintro ⟨u, v, hu, -⟩
        cases hlast.symm.trans hu
      refine iff_of_true ?_ hnever
      rcases hresolve (after js uploads) with ⟨message, -, herror⟩ | ⟨row, hrow, -⟩
      · exact ⟨message, herror⟩
      · rw [newest_eq_none_iff.mpr hstanding] at hrow
        cases hrow
  | some u =>
      rw [hlast] at hstanding
      obtain ⟨hgone, hstands⟩ := hstanding
      constructor
      · rintro ⟨out, hout, hsha⟩ hr
        rcases hresolve (after js uploads) with ⟨message, -, herror⟩ | ⟨row, hrow, hok⟩
        · cases herror.symm.trans hout
        · obtain rfl := Except.ok.inj (hok.symm.trans hout)
          rw [sha256_withBuild] at hsha
          exact hgone hr row (firstMax_newest hrow).mem (Json.str.inj (Option.some.inj hsha))
      · intro hr
        obtain ⟨a, ha, hkey, hbest⟩ := hstands hr
        rcases hresolve (after js uploads) with ⟨message, hnone, -⟩ | ⟨row, hrow, hok⟩
        · rw [newest_eq_none_iff.mp hnone] at ha
          cases ha
        · refine ⟨withBuild spec row, hok, ?_⟩
          have hmax := firstMax_newest hrow
          have hsame : row.sha256 = a.sha256 := by
            by_contra hne
            exact absurd (hmax.le ha) (not_le_of_gt (hbest row hmax.mem hne))
          rw [sha256_withBuild, hsame, hkey]

/-- A pull request's upload changes nothing `latest` returns. -/
theorem resolve_pr (uploads : List Upload) {u : Upload}
    (hpr : artifactChannel js u.channel = some (some "pr")) :
    (resolveLatestBuild js (after js (uploads ++ [u])) spec).toOption =
      (resolveLatestBuild js (after js uploads) spec).toOption := by
  have hresolve := resolveLatestBuild_of_asks js hasks
  have hmain : mainFor js u = none := by simp [mainFor, hpr]
  have hsame : mains app (after js (uploads ++ [u])) = mains app (after js uploads) := by
    rw [after, run_concat]
    exact mains_step_of_not_main hasks.2.2 hmain
  have hafter := hresolve (after js (uploads ++ [u]))
  rw [hsame] at hafter
  rcases hafter with ⟨message, hnone, herror⟩ | ⟨row, hrow, hok⟩
  · rcases hresolve (after js uploads) with ⟨message', -, herror'⟩ | ⟨row', hrow', -⟩
    · rw [herror, herror']
      rfl
    · cases hnone.symm.trans hrow'
  · rcases hresolve (after js uploads) with ⟨message', hnone', -⟩ | ⟨row', hrow', hok'⟩
    · cases hrow.symm.trans hnone'
    · obtain rfl := Option.some.inj (hrow.symm.trans hrow')
      rw [hok, hok']

end Latest

/-- A spec that asks for an app's latest build is given the most recent upload that named the
app on main, and refused when there is none, exactly while those bytes have not been uploaded
to main under another name since; and pull requests never change what it is given. -/
theorem latest_newest_iff (spec : Json) (app : String) (hasks : AsksLatest spec app)
    (uploads : List Upload) :
    (ResolvesNewest js spec app uploads ↔ ¬Renamed js app uploads) ∧
      ∀ u, artifactChannel js u.channel = some (some "pr") →
        (resolveLatestBuild js (after js (uploads ++ [u])) spec).toOption =
          (resolveLatestBuild js (after js uploads) spec).toOption :=
  ⟨resolvesNewest_iff hasks uploads, fun _ hpr => resolve_pr hasks uploads hpr⟩

namespace Sample

/-- A build of an app, published from main. -/
def build (sha256 app : String) : Upload := ⟨sha256, 1, some app, none, none⟩

def latestOf (app : String) : Json :=
  .obj [("app", .obj [("name", .str app), ("sha256", .str "latest")])]

end Sample

theorem asksLatest_latestOf : AsksLatest (Sample.latestOf "plants") "plants" :=
  ⟨rfl, rfl, by decide⟩

/-- A build that is reverted is the latest one again. -/
theorem latest_newest_reverted :
    ResolvesNewest .plain (Sample.latestOf "plants") "plants"
      [Sample.build "s1" "plants", Sample.build "s2" "plants", Sample.build "s1" "plants"] := by
  refine (latest_newest_iff .plain _ _ asksLatest_latestOf _).1.mpr ?_
  rintro ⟨u, v, -, hv, -⟩
  have hsince : sinceMain .plain "plants" [Sample.build "s1" "plants", Sample.build "s2" "plants",
      Sample.build "s1" "plants"] = [] := by rfl
  rw [hsince] at hv
  cases hv

/-- Two apps publish the same bytes, and the first of them has no build any more. -/
theorem latest_renamed : ¬∀ (js : Js) (spec : Json) (app : String), AsksLatest spec app →
    ∀ uploads, ResolvesNewest js spec app uploads := by
  intro h
  have hnone : (resolveLatestBuild .plain (after .plain
      [Sample.build "s1" "plants", Sample.build "s1" "garden"])
      (Sample.latestOf "plants")).toOption.isNone = true := by decide
  obtain ⟨out, hout, -⟩ := h .plain _ _ asksLatest_latestOf
    [Sample.build "s1" "plants", Sample.build "s1" "garden"]
  rw [hout] at hnone
  cases hnone

end Uploads

end FleetRunner
