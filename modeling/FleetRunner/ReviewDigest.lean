import FleetRunner.Js.Value
import FleetRunner.Library.Grouping
import FleetRunner.Library.Runs

/-!
# The review digest (`web/digest.ts`)

A digest reads the reviews the archive pulls left in the artifact store, drops
those the previous digest covered, has the phones classify the rest, clusters
them by app and tag and uploads what it covered. The next digest finds that
upload by its name.

## Implementation notes

The artifact store is kept as its listing, newest first. What the collector and
the phones do while a digest waits reaches it as the uploads of that time and
the outputs of the batches. `JSON.parse` and `localeCompare` belong to the
engine. A summary, a quote and an average are texts of the report and are left
out.
-/

namespace FleetRunner.ReviewDigest

open Library

/-- A review as an archive holds it. -/
structure Review where
  id : String
  app : String
  body : String
  /-- `Date.parse(r.date)` -/
  date : JsNum
  deriving DecidableEq

/-- What an artifact's bytes parse to, with `?? []` for what is not there. -/
structure Report where
  reviews : List Review
  covered_ids : List String
  deriving DecidableEq

/-- An artifact as the collector lists it. -/
structure Artifact where
  sha256 : String
  name : Option String
  app : Option String
  /-- `none` where the bytes are not JSON -/
  report : Option Report
  deriving DecidableEq

/-! ## The artifact store -/

/-- The listing, newest first. -/
abbrev Artifacts := List Artifact

/-- `INSERT OR IGNORE` on the hash, and the row that is there is published again. -/
def uploadArtifact (s : Artifacts) (a : Artifact) : Artifacts :=
  (s.find? fun b => decide (b.sha256 = a.sha256)).getD a ::
    s.filter fun b => !decide (b.sha256 = a.sha256)

/-- `LIKE '%q%'`, which ignores the case of ASCII letters. -/
def like (q : String) (text : Option String) : Bool :=
  text.any fun t => strIncludes (Js.lowerAscii t) (Js.lowerAscii q)

/-- `GET /api/artifacts?q=` -/
def listed (s : Artifacts) (q : String) : Artifacts :=
  s.filter fun a => like q a.name || q.toList.isPrefixOf a.sha256.toList || like q a.app

/-! ## The parameters -/

/-- `Math.max(1, n)` -/
def atLeastOne : JsNum → JsNum
  | .fin q => .fin (if q < 1 then 1 else q)
  | .inf negative => if negative then .fin 1 else .inf false
  | .nan => .nan

/-- What a digest is asked for. -/
structure DigestParams where
  apps : Option (List String)
  /-- `Number(p.days ?? 7)` -/
  days : JsNum
  /-- `Number(p.min_cluster ?? 2)` -/
  min_cluster : JsNum
  deriving DecidableEq

/-- `now - days * 86_400_000` -/
def since (now : Nat) (days : JsNum) : JsNum :=
  match atLeastOne days with
  | .fin q => .fin (now - q * 86400000)
  | .inf negative => .inf !negative
  | .nan => .nan

/-! ## The reviews of the window -/

/-- The names the archive pulls give: `reviews-asc-…` and `reviews-play-…`. -/
def isArchive (a : Artifact) : Bool :=
  a.name.any fun n =>
    "reviews-asc-".toList.isPrefixOf n.toList || "reviews-play-".toList.isPrefixOf n.toList

/-- The archives of reviews among the artifacts. -/
def reviewArtifacts (s : Artifacts) : Artifacts := (listed s "reviews-").filter isArchive

/-- Neither too old nor of another app. A date that is not one is never too old. -/
def wanted (p : DigestParams) (now : Nat) (r : Review) : Bool :=
  !r.date.lt (since now p.days) && p.apps.all fun apps => apps.contains r.app

/-- The reviews the archives hold, in the order they are read. -/
def archived (s : Artifacts) : List Review :=
  (reviewArtifacts s).flatMap fun a => a.report.elim [] Report.reviews

/-- The archived reviews of the apps and days asked for. -/
def windowed (s : Artifacts) (p : DigestParams) (now : Nat) : List Review :=
  (archived s).filter (wanted p now)

/-- `byId`: the last write wins. -/
def byId (rs : List Review) : Table Review.id := rs.foldl Table.upsert Table.empty

/-! ## The watermark -/

def endsWith (text tail : String) : Bool := tail.toList.isSuffixOf text.toList

/-- The newest artifact listed for the digests that is JSON by its name. -/
def priorJson (s : Artifacts) : Option Artifact :=
  (listed s "review-digest-").find? fun a => a.name.any fun n => endsWith n ".json"

/-- The ids a run drops: those the artifact found covers. -/
def watermark (s : Artifacts) : List String :=
  ((priorJson s).bind Artifact.report).elim [] Report.covered_ids

/-- The reviews a run reports. -/
def newReviews (s : Artifacts) (p : DigestParams) (now : Nat) : List Review :=
  ((watermark s).foldl (fun t id => t.deleteWhere fun r => decide (r.id = id))
    (byId (windowed s p now))).rows

/-- Every file a run reads parses. -/
def readable (s : Artifacts) : Bool :=
  (reviewArtifacts s).all (fun a => a.report.isSome) &&
    (priorJson s).all fun a => a.report.isSome

/-! ## Classification -/

/-- What a review is about. -/
inductive Tag where
  | crash
  | bug
  | performance
  | sync
  | billing
  | ux
  | featureRequest
  | praise
  | other
  deriving DecidableEq

def Tag.text : Tag → String
  | .crash => "crash"
  | .bug => "bug"
  | .performance => "performance"
  | .sync => "sync"
  | .billing => "billing"
  | .ux => "ux"
  | .featureRequest => "feature-request"
  | .praise => "praise"
  | .other => "other"

/-- The tags a model may answer with. -/
def TAXONOMY : List Tag :=
  [.crash, .bug, .performance, .sync, .billing, .ux, .featureRequest, .praise, .other]

/-- What the engine supplies. -/
structure Engine where
  /-- `JSON.parse`, `none` where it throws -/
  parse : String → Option Json
  /-- `a.localeCompare(b)` -/
  localeCompare : String → String → Int

/-- What a phone posts for one item. -/
structure ShelfOutput where
  item : Option Rat
  output : Option String
  deriving DecidableEq

/-- One text for each item; an output for no item is dropped. -/
def shelfTexts (n : Nat) (outputs : List ShelfOutput) : List String :=
  outputs.foldl (fun texts o =>
    match o.item with
    | some q => if q.den = 1 ∧ 0 ≤ q then texts.set q.num.toNat (o.output.getD "") else texts
    | none => texts) (List.replicate n "")

/-- The first brace up to the first one that closes. -/
def firstObject (text : String) : Option String :=
  let fromBrace := text.toList.dropWhile fun c => !decide (c = '{')
  if fromBrace.contains '}' then
    some (String.ofList (fromBrace.takeWhile (fun c => !decide (c = '}')) ++ ['}']))
  else none

/-- `TAXONOMY.includes(j.tag ?? "") ? j.tag : "other"` -/
def tagOf (j : Json) : Tag :=
  (TAXONOMY.find? fun t => (j.prop "tag").any fun v => v.isStr t.text).getD .other

/-- `(j.gist ?? …).slice(0, 200)` throws on what has no `slice`. -/
def gistSlices (j : Json) : Bool :=
  match j.prop "gist" with
  | none | some .null | some (.str _) | some (.arr _) => true
  | _ => false

/-- What a model made of a review. -/
structure Classification where
  tag : Tag
  parsed : Bool
  deriving DecidableEq

/-- Reads a model's answer; one that cannot be read is another matter, and counted. -/
def parseClassification (e : Engine) (output : String) : Classification :=
  match (firstObject output).bind e.parse with
  | some j => if gistSlices j then ⟨tagOf j, true⟩ else ⟨.other, false⟩
  | none => ⟨.other, false⟩

/-- A review with its classification. -/
structure Classified where
  review : Review
  c : Classification
  deriving DecidableEq

/-- Each review with what the answer of its number says. -/
def classify (e : Engine) (reviews : List Review) (outputs : List ShelfOutput) :
    List Classified :=
  let texts := shelfTexts reviews.length outputs
  reviews.mapIdx fun i review => ⟨review, parseClassification e (texts.getD i "")⟩

/-! ## Clusters -/

/-- An app and a tag. -/
structure Theme where
  app : String
  tag : Tag
  deriving DecidableEq

/-- The key of a cluster: the app, a bar and the tag. -/
def Theme.key (t : Theme) : String := t.app ++ "|" ++ t.tag.text

/-- The cluster that a review starts in. -/
def Classified.theme (x : Classified) : Theme := ⟨x.review.app, x.c.tag⟩

/-- Reviews of one theme. -/
abbrev Cluster := Group Theme Classified

/-- `cl.tag !== "other" && cl.members.length < minCluster` -/
def isSmall (min : JsNum) (cl : Cluster) : Bool :=
  !decide (cl.label.tag = .other) && (JsNum.fin cl.members.length).lt min

/-- Where small clusters of an app go. -/
def Theme.folded (t : Theme) : Theme := { t with tag := .other }

/-- The reviews by theme, small clusters of an app folded into one. -/
def clusters (p : DigestParams) (classified : List Classified) : Groups Theme.key Classified :=
  Groups.moveWhere (isSmall (atLeastOne p.min_cluster)) Theme.folded
    (Groups.group Theme.key Classified.theme classified)

/-- By app as the locale orders them, then the larger first. -/
def ordered (e : Engine) (cls : List Cluster) : List Cluster :=
  cls.mergeSort fun a b =>
    let byApp := e.localeCompare a.label.app b.label.app
    decide ((if byApp = 0 then (b.members.length : Int) - a.members.length else byApp) ≤ 0)

/-! ## A run -/

/-- A cluster as the digest lists it. -/
structure DigestCluster where
  app : String
  tag : Tag
  review_ids : List String
  deriving DecidableEq

/-- What is uploaded. -/
structure Digest where
  reviews_count : Nat
  parse_failures : Nat
  clusters : List DigestCluster
  covered_ids : List String
  deriving DecidableEq

/-- A file that is not a digest's report: an archive pull, a build, a batch's items. -/
structure Upload where
  sha256 : String
  name : Option String
  app : Option String
  /-- `none` where the bytes are not JSON -/
  reviews : Option (List Review)
  deriving DecidableEq

def Upload.artifact (u : Upload) : Artifact :=
  ⟨u.sha256, u.name, u.app, u.reviews.map fun rs => ⟨rs, []⟩⟩

/-- One run: when, with what parameters, what is uploaded and answered meanwhile. -/
structure Run where
  now : Nat
  params : DigestParams
  /-- uploads until the report is written: the items of the batches, and anyone else's -/
  meanwhile : List Upload
  /-- the outputs of the classify batch, `none` where the batch fails -/
  classifyOutputs : Option (List ShelfOutput)
  /-- the summarize batch finishes -/
  summarized : Bool
  /-- the day in the names of the report -/
  date : String
  mdSha : String
  jsonSha : String
  deriving DecidableEq

/-- How a run ends. -/
inductive Outcome where
  | thrown
  /-- no new reviews: nothing is uploaded -/
  | quiet
  | digest (d : Digest)
  deriving DecidableEq

/-- The digest of these reviews. -/
def assemble (e : Engine) (p : DigestParams) (reviews : List Review)
    (outputs : List ShelfOutput) : Digest :=
  let classified := classify e reviews outputs
  { reviews_count := reviews.length
    parse_failures := (classified.filter fun x => !x.c.parsed).length
    clusters := (ordered e (clusters p classified).rows).map fun cl =>
      ⟨cl.label.app, cl.label.tag, cl.members.map fun x => x.review.id⟩
    covered_ids := reviews.map Review.id }

/-- One run, on the artifacts there are. -/
def runDigest (e : Engine) (s : Artifacts) (r : Run) : Outcome :=
  if !readable s then .thrown
  else
    let reviews := newReviews s r.params r.now
    if reviews.isEmpty then .quiet
    else
      match r.classifyOutputs with
      | none => .thrown
      | some outputs =>
          if r.summarized then .digest (assemble e r.params reviews outputs) else .thrown

/-- The two files of a report; only the second is JSON. -/
def reportFiles (r : Run) (d : Digest) : List Artifact :=
  [⟨r.mdSha, some ("review-digest-" ++ r.date ++ ".md"), none, none⟩,
    ⟨r.jsonSha, some ("review-digest-" ++ r.date ++ ".json"), none, some ⟨[], d.covered_ids⟩⟩]

/-- The store, and the digests written into it so far. -/
structure State where
  artifacts : Artifacts
  digests : List Digest
  deriving DecidableEq

/-- Nothing uploaded yet. -/
def State.start : State := ⟨[], []⟩

/-- An upload or a run. -/
inductive Event where
  | upload (u : Upload)
  | run (r : Run)
  deriving DecidableEq

/-- What is uploaded is there for the runs after it. -/
def step (e : Engine) (st : State) : Event → State
  | .upload u => { st with artifacts := uploadArtifact st.artifacts u.artifact }
  | .run r =>
      let later := (r.meanwhile.map Upload.artifact).foldl uploadArtifact st.artifacts
      match runDigest e st.artifacts r with
      | .digest d => ⟨(reportFiles r d).foldl uploadArtifact later, d :: st.digests⟩
      | .thrown => ⟨later, st.digests⟩
      | .quiet => ⟨st.artifacts, st.digests⟩

/-! ## The reviews a run reports -/

theorem find?_byId_isSome (rs : List Review) (id : String) :
    ((byId rs).find? id).isSome = true ↔ id ∈ rs.map Review.id := by
  rw [byId, Table.isSome_find?_foldl_upsert]
  simp

theorem mem_rows_foldl_upsert (rs : List Review) (t : Table Review.id) {r : Review}
    (h : r ∈ (rs.foldl Table.upsert t).rows) : r ∈ t.rows ∨ r ∈ rs := by
  induction rs generalizing t with
  | nil => exact Or.inl h
  | cons q rest ih =>
      rcases ih _ h with hrow | hrest
      · rw [Table.mem_rows_iff, Table.find?_upsert] at hrow
        split at hrow
        · obtain rfl : q = r := by simpa using hrow
          exact Or.inr List.mem_cons_self
        · exact Or.inl (Table.mem_rows_iff.mpr hrow)
      · exact Or.inr (List.mem_cons_of_mem q hrest)

/-- Dropping ids one by one drops exactly their rows. -/
theorem find?_foldl_delete (ids : List String) (t : Table Review.id) (id : String) :
    (ids.foldl (fun t id => t.deleteWhere fun r => decide (r.id = id)) t).find? id =
      if id ∈ ids then none else t.find? id := by
  induction ids generalizing t with
  | nil => simp
  | cons i rest ih =>
      rw [List.foldl_cons, ih, Table.find?_deleteWhere]
      by_cases hrest : id ∈ rest
      · simp [hrest]
      · cases hrow : t.find? id with
        | none => simp
        | some r =>
            have hid : r.id = id := Table.key_of_find? hrow
            by_cases hi : id = i
            · simp [Option.filter, hid, hi]
            · simp [Option.filter, hid, hi, hrest]

/-- A run reports the reviews of its window that the watermark does not name. -/
theorem mem_newReviews_iff (s : Artifacts) (p : DigestParams) (now : Nat) (id : String) :
    id ∈ (newReviews s p now).map Review.id ↔
      id ∈ (windowed s p now).map Review.id ∧ id ∉ watermark s := by
  have hfind : ∀ t : Table Review.id,
      id ∈ t.rows.map Review.id ↔ (t.find? id).isSome = true := by
    intro t
    rw [List.mem_map, ← Table.contains_iff]
    rfl
  rw [newReviews, hfind, find?_foldl_delete, ← find?_byId_isSome]
  by_cases hid : id ∈ watermark s
  · simp [hid]
  · simp [hid]

theorem mem_windowed_of_newReviews {s : Artifacts} {p : DigestParams} {now : Nat} {r : Review}
    (h : r ∈ newReviews s p now) : r ∈ windowed s p now := by
  have hrow : r ∈ (byId (windowed s p now)).rows := by
    rw [newReviews, Table.mem_rows_iff, find?_foldl_delete] at h
    split at h
    · cases h
    · exact Table.mem_rows_iff.mpr h
  rcases mem_rows_foldl_upsert _ _ hrow with hempty | hmem
  · simp [Table.empty] at hempty
  · exact hmem

theorem nodup_newReviews (s : Artifacts) (p : DigestParams) (now : Nat) :
    ((newReviews s p now).map Review.id).Nodup :=
  Table.nodup _

/-! ## The clusters of a run -/

theorem bar_notMem_text (t : Tag) : '|' ∉ t.text.toList := by
  cases t <;> decide

theorem text_injective : Function.Injective fun t : Tag => t.text.toList := by
  intro t u h
  cases t <;> cases u <;> first | rfl | (revert h; decide)

/-- The last bar of a key ends the app, whatever bars the app has. -/
theorem split_at_last {c : Char} {xs ys xs' ys' : List Char} (hys : c ∉ ys) (hys' : c ∉ ys')
    (h : xs ++ c :: ys = xs' ++ c :: ys') : xs = xs' ∧ ys = ys' := by
  rcases List.append_eq_append_iff.mp h with ⟨mid, rfl, hmid⟩ | ⟨mid, rfl, hmid⟩
  · cases mid with
    | nil => simpa using hmid
    | cons d rest =>
        obtain ⟨-, rfl⟩ : c = d ∧ ys = rest ++ c :: ys' := by simpa using hmid
        exact absurd (by simp) hys
  · cases mid with
    | nil => simpa using hmid.symm
    | cons d rest =>
        obtain ⟨-, rfl⟩ : c = d ∧ ys' = rest ++ c :: ys := by simpa using hmid
        exact absurd (by simp) hys'

theorem key_injective : Function.Injective Theme.key := by
  rintro ⟨app, tag⟩ ⟨app', tag'⟩ h
  have hlist := congrArg String.toList h
  simp only [Theme.key, String.toList_append, List.append_assoc] at hlist
  obtain ⟨happ, htag⟩ := split_at_last (bar_notMem_text tag) (bar_notMem_text tag') hlist
  rw [String.toList_injective happ, text_injective htag]

theorem folded_ne {min : JsNum} {cl cl' : Cluster} (h : isSmall min cl' = true) :
    cl'.label.key ≠ (cl.label.folded).key := by
  intro heq
  have hlabel : cl'.label = cl.label.folded := key_injective heq
  simp [isSmall, hlabel, Theme.folded] at h

/-- Every classified review is in one cluster, once. -/
theorem members_clusters (p : DigestParams) (classified : List Classified) :
    (Groups.members (clusters p classified)).Perm classified :=
  (Groups.members_moveWhere (fun _ _ _ h => folded_ne h) _).trans
    (Groups.members_group Classified.theme classified)

theorem fits_clusters (p : DigestParams) (classified : List Classified) :
    Groups.Fits (fun t (x : Classified) => x.review.app = t.app) (clusters p classified) := by
  have hgroup : Groups.Fits (fun t (x : Classified) => x.review.app = t.app)
      (Groups.group Theme.key Classified.theme classified) :=
    Groups.fits_group key_injective fun _ _ => rfl
  exact hgroup.moveWhere key_injective fun _ _ h => h

theorem map_review_classify (e : Engine) (reviews : List Review) (outputs : List ShelfOutput) :
    (classify e reviews outputs).map Classified.review = reviews := by
  apply List.ext_getElem
  · simp [classify]
  · intro i hi hi'
    simp [classify]

theorem mem_ordered {e : Engine} {cls : List Cluster} {cl : Cluster} :
    cl ∈ ordered e cls ↔ cl ∈ cls :=
  List.mem_mergeSort

theorem review_ids_assemble (e : Engine) (p : DigestParams) (reviews : List Review)
    (outputs : List ShelfOutput) :
    ((assemble e p reviews outputs).clusters.flatMap DigestCluster.review_ids).Perm
      (assemble e p reviews outputs).covered_ids := by
  have hordered := List.mergeSort_perm (clusters p (classify e reviews outputs)).rows
    (fun a b =>
      let byApp := e.localeCompare a.label.app b.label.app
      decide ((if byApp = 0 then (b.members.length : Int) - a.members.length else byApp) ≤ 0))
  have hmembers := (hordered.flatMap_right Group.members).trans
    (members_clusters p (classify e reviews outputs))
  have hids := hmembers.map fun x => x.review.id
  rw [List.map_flatMap] at hids
  have hreviews : (classify e reviews outputs).map (fun x => x.review.id) =
      reviews.map Review.id := by
    conv_rhs => rw [← map_review_classify e reviews outputs, List.map_map]
    rfl
  rw [hreviews] at hids
  simpa [assemble, ordered, List.flatMap_map] using hids

theorem app_assemble {e : Engine} {p : DigestParams} {reviews : List Review}
    {outputs : List ShelfOutput} {cl : DigestCluster}
    (hcl : cl ∈ (assemble e p reviews outputs).clusters) {id : String} (hid : id ∈ cl.review_ids) :
    ∃ r ∈ reviews, r.id = id ∧ r.app = cl.app := by
  obtain ⟨g, hg, rfl⟩ := List.mem_map.mp hcl
  obtain ⟨x, hx, rfl⟩ := List.mem_map.mp hid
  have happ := fits_clusters p _ g (mem_ordered.mp hg) x hx
  have hclassified : x ∈ classify e reviews outputs := by
    apply (members_clusters p _).mem_iff.mp
    exact List.mem_flatMap.mpr ⟨g, mem_ordered.mp hg, hx⟩
  refine ⟨x.review, ?_, rfl, happ⟩
  rw [← map_review_classify e reviews outputs]
  exact List.mem_map_of_mem hclassified

/-! ## Every run -/

/-- A digest written so far covers the review. -/
def Covered (st : State) (id : String) : Prop := ∃ d ∈ st.digests, id ∈ d.covered_ids

instance (st : State) (id : String) : Decidable (Covered st id) :=
  inferInstanceAs (Decidable (∃ d ∈ st.digests, id ∈ d.covered_ids))

/-- The ids inside the window and the app filter of a run. -/
def inside (st : State) (r : Run) : List String :=
  (windowed st.artifacts r.params r.now).map Review.id

/-- What a digest has to be: it covers the reviews of the run that no earlier digest
covered, and each of them is in one cluster, of its own app. -/
structure Reports (st : State) (r : Run) (d : Digest) : Prop where
  nodup : d.covered_ids.Nodup
  covered : ∀ id, id ∈ d.covered_ids ↔ id ∈ inside st r ∧ ¬Covered st id
  clustered : (d.clusters.flatMap DigestCluster.review_ids).Perm d.covered_ids
  own_app : ∀ cl ∈ d.clusters, ∀ id ∈ cl.review_ids,
    ∃ rev ∈ windowed st.artifacts r.params r.now, rev.id = id ∧ rev.app = cl.app

/-- A run that uploads nothing had nothing to report. -/
def Right (e : Engine) (st : State) : Event → Prop
  | .upload _ => True
  | .run r =>
      match runDigest e st.artifacts r with
      | .thrown => True
      | .quiet => ∀ id ∈ inside st r, Covered st id
      | .digest d => Reports st r d

/-- The files a run reads parse and its batches are answered. -/
def finishes (st : State) (r : Run) : Bool :=
  readable st.artifacts && r.classifyOutputs.isSome && r.summarized

/-- The newest digest found names every review of the window an earlier one covered. -/
def Fresh (st : State) : Event → Prop
  | .upload _ => True
  | .run r => finishes st r = true →
      ∀ id ∈ inside st r, Covered st id → id ∈ watermark st.artifacts

instance (st : State) : ∀ ev, Decidable (Fresh st ev)
  | .upload _ => inferInstanceAs (Decidable True)
  | .run r => inferInstanceAs (Decidable (finishes st r = true →
      ∀ id ∈ inside st r, Covered st id → id ∈ watermark st.artifacts))

/-- What an artifact covers, a digest covered. -/
def Recorded (st : State) : Prop :=
  ∀ a ∈ st.artifacts, ∀ rep ∈ a.report, ∀ id ∈ rep.covered_ids, Covered st id

theorem mem_uploadArtifact {s : Artifacts} {a b : Artifact} (h : b ∈ uploadArtifact s a) :
    b ∈ s ∨ b = a := by
  rw [uploadArtifact, List.mem_cons] at h
  rcases h with rfl | h
  · cases hold : s.find? fun b => decide (b.sha256 = a.sha256) with
    | none => exact Or.inr rfl
    | some old => exact Or.inl (List.mem_of_find?_eq_some hold)
  · exact Or.inl (List.mem_filter.mp h).1

theorem mem_foldl_uploadArtifact (as : List Artifact) {s : Artifacts} {b : Artifact}
    (h : b ∈ as.foldl uploadArtifact s) : b ∈ s ∨ b ∈ as := by
  induction as generalizing s with
  | nil => exact Or.inl h
  | cons a rest ih =>
      rcases ih h with hs | hrest
      · rcases mem_uploadArtifact hs with hs | rfl
        · exact Or.inl hs
        · exact Or.inr List.mem_cons_self
      · exact Or.inr (List.mem_cons_of_mem a hrest)

theorem covered_ids_upload {us : List Upload} {a : Artifact} (ha : a ∈ us.map Upload.artifact)
    {rep : Report} (hrep : rep ∈ a.report) : rep.covered_ids = [] := by
  obtain ⟨u, -, rfl⟩ := List.mem_map.mp ha
  obtain ⟨rs, -, rfl⟩ := Option.map_eq_some_iff.mp hrep
  rfl

theorem covered_cons {st : State} {id : String} (h : Covered st id) (d : Digest)
    (s : Artifacts) : Covered ⟨s, d :: st.digests⟩ id := by
  obtain ⟨d', hd', hid⟩ := h
  exact ⟨d', List.mem_cons_of_mem d hd', hid⟩

/-- Uploads of other files cover nothing. -/
theorem Recorded.uploads {st : State} (h : Recorded st) (us : List Upload) :
    Recorded { st with artifacts := (us.map Upload.artifact).foldl uploadArtifact st.artifacts } := by
  intro a ha rep hrep id hid
  rcases mem_foldl_uploadArtifact _ ha with hs | hu
  · exact h a hs rep hrep id hid
  · simp [covered_ids_upload hu hrep] at hid

theorem recorded_step (e : Engine) (st : State) (ev : Event) (h : Recorded st) :
    Recorded (step e st ev) := by
  cases ev with
  | upload u => exact h.uploads [u]
  | run r =>
      cases hrun : runDigest e st.artifacts r with
      | thrown => simpa only [step, hrun] using h.uploads r.meanwhile
      | quiet => simpa only [step, hrun] using h
      | digest d =>
          simp only [step, hrun]
          intro a ha rep hrep id hid
          rcases mem_foldl_uploadArtifact _ ha with hs | hreport
          · exact covered_cons (h.uploads r.meanwhile a hs rep hrep id hid) d _
          · simp only [reportFiles, List.mem_cons, List.not_mem_nil, or_false] at hreport
            rcases hreport with rfl | rfl
            · cases hrep
            · obtain rfl : (⟨[], d.covered_ids⟩ : Report) = rep := by simpa using hrep
              exact ⟨d, List.mem_cons_self, hid⟩

theorem mem_of_watermark {s : Artifacts} {id : String} (h : id ∈ watermark s) :
    ∃ a ∈ s, ∃ rep ∈ a.report, id ∈ rep.covered_ids := by
  unfold watermark at h
  cases hrep : (priorJson s).bind Artifact.report with
  | none => simp [hrep] at h
  | some rep =>
      rw [hrep] at h
      obtain ⟨a, ha, hareport⟩ := Option.bind_eq_some_iff.mp hrep
      have hlisted := List.mem_of_find?_eq_some ha
      exact ⟨a, (List.mem_filter.mp hlisted).1, rep, hareport, h⟩

theorem Recorded.watermark {st : State} (h : Recorded st) {id : String}
    (hid : id ∈ watermark st.artifacts) : Covered st id := by
  obtain ⟨a, ha, rep, hrep, hmem⟩ := mem_of_watermark hid
  exact h a ha rep hrep id hmem

/-- How a run ends is read off what it is given. -/
theorem runDigest_eq (e : Engine) (s : Artifacts) (r : Run) :
    runDigest e s r = .thrown ∧ (readable s && r.classifyOutputs.isSome && r.summarized) = false ∨
    runDigest e s r = .quiet ∧ newReviews s r.params r.now = [] ∨
    ∃ outputs, (readable s && r.classifyOutputs.isSome && r.summarized) = true ∧
      runDigest e s r = .digest (assemble e r.params (newReviews s r.params r.now) outputs) := by
  unfold runDigest
  by_cases hread : readable s = true
  · by_cases hnew : newReviews s r.params r.now = []
    · simp [hread, hnew]
    · cases hout : r.classifyOutputs with
      | none => simp [hread, hnew]
      | some outputs =>
          by_cases hsum : r.summarized = true
          · exact Or.inr (Or.inr ⟨outputs, by simp [hread, hsum], by simp [hread, hnew, hsum]⟩)
          · simp [hread, hnew, hsum]
  · simp [hread]

theorem reports_iff {st : State} (h : Recorded st) (e : Engine) (r : Run)
    (outputs : List ShelfOutput) :
    Reports st r (assemble e r.params (newReviews st.artifacts r.params r.now) outputs) ↔
      ∀ id ∈ inside st r, Covered st id → id ∈ watermark st.artifacts := by
  constructor
  · intro hreports id hid hcov
    by_contra hfree
    have hnew := (mem_newReviews_iff st.artifacts r.params r.now id).mpr ⟨hid, hfree⟩
    exact ((hreports.covered id).mp hnew).2 hcov
  · intro hfresh
    refine ⟨nodup_newReviews _ _ _, fun id => ?_, review_ids_assemble _ _ _ _, ?_⟩
    · refine (mem_newReviews_iff st.artifacts r.params r.now id).trans ?_
      constructor
      · exact fun hid => ⟨hid.1, fun hcov => hid.2 (hfresh id hid.1 hcov)⟩
      · exact fun hid => ⟨hid.1, fun hmark => hid.2 (h.watermark hmark)⟩
    · intro cl hcl id hid
      obtain ⟨rev, hrev, hown⟩ := app_assemble hcl hid
      exact ⟨rev, mem_windowed_of_newReviews hrev, hown⟩

theorem right_iff {st : State} (h : Recorded st) (e : Engine) (ev : Event) :
    Right e st ev ↔ Fresh st ev := by
  cases ev with
  | upload u => exact Iff.rfl
  | run r =>
      simp only [Right, Fresh, finishes]
      rcases runDigest_eq e st.artifacts r with ⟨hrun, hend⟩ | ⟨hrun, hnone⟩ | ⟨outputs, hend, hrun⟩
      · simp [hrun, hend]
      · -- nothing is left, so the watermark names the whole window
        have hmark : ∀ id ∈ inside st r, id ∈ watermark st.artifacts := by
          intro id hid
          by_contra hfree
          have hnew := (mem_newReviews_iff st.artifacts r.params r.now id).mpr ⟨hid, hfree⟩
          simp [hnone] at hnew
        rw [hrun]
        exact ⟨fun _ _ id hid _ => hmark id hid, fun _ id hid => h.watermark (hmark id hid)⟩
      · rw [hrun, hend]
        simpa using reports_iff h e r outputs

theorem recorded_start : Recorded State.start := by
  intro a ha
  simp [State.start] at ha

theorem along_right_iff (e : Engine) (events : List Event) :
    Along (step e) (Right e) State.start events ↔ Along (step e) Fresh State.start events :=
  along_iff_of_invariant (recorded_step e) (fun _ ev h => right_iff h e ev) recorded_start events

/-- No review is in two of the digests written so far. -/
def Once (st : State) : Prop := (st.digests.flatMap Digest.covered_ids).Nodup

theorem once_step {e : Engine} {st : State} {ev : Event} (honce : Once st)
    (hright : Right e st ev) : Once (step e st ev) := by
  cases ev with
  | upload u => exact honce
  | run r =>
      simp only [Right] at hright
      cases hrun : runDigest e st.artifacts r with
      | thrown =>
          simp only [step, hrun]
          exact honce
      | quiet =>
          simp only [step, hrun]
          exact honce
      | digest d =>
          rw [hrun] at hright
          simp only [step, hrun, Once, List.flatMap_cons, List.nodup_append]
          refine ⟨hright.nodup, honce, ?_⟩
          rintro id hid _ hold rfl
          exact ((hright.covered id).mp hid).2 (List.mem_flatMap.mp hold)

/-- Along every sequence of uploads and runs, each run covers the reviews of its window and
app filter that no earlier digest covered, in clusters of their own app, exactly when at each
run that finishes the newest digest names what any earlier one covered of the window; and
then no review is covered twice. -/
theorem covers_news_iff (e : Engine) (events : List Event) :
    (Along (step e) (Right e) State.start events ↔ Along (step e) Fresh State.start events) ∧
      (Along (step e) Fresh State.start events →
        Once (run (step e) State.start events)) := by
  refine ⟨along_right_iff e events, fun hfresh => ?_⟩
  apply invariant (fun _ _ honce hright => once_step honce hright) _
    ((along_right_iff e events).mpr hfresh)
  simp [Once, State.start]

/-! ## Three digests of one week -/

def pull (sha id : String) : Event :=
  .upload ⟨sha, some ("reviews-play-" ++ sha ++ ".json"), none,
    some [⟨id, "greenfolio", "Crashes on start.", .fin 950400000⟩]⟩

/-- The day's run over the last seven days. -/
def daily (day : Nat) (sha : String) : Event :=
  .run ⟨day * 86400000, ⟨none, .fin 7, .fin 2⟩, [], some [], true, sha, sha ++ "-md", sha⟩

/-- A second review is pulled between the first digest and the second. -/
def threeDays : List Event :=
  [pull "p1" "r1", daily 12 "d1", pull "p2" "r2", daily 13 "d2", daily 14 "d3"]

def rambling : Engine := ⟨fun _ => none, fun _ _ => 0⟩

/-- The third digest repeats the review of the first: the second names only its own. -/
theorem repeated_in_third :
    ((run (step rambling) State.start threeDays).digests.map Digest.covered_ids =
      [["r1"], ["r2"], ["r1"]]) ∧
    ¬Along (step rambling) (Right rambling) State.start threeDays := by
  rw [along_right_iff]
  decide +kernel

end FleetRunner.ReviewDigest
