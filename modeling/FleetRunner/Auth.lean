import FleetRunner.Library.Maximum
import FleetRunner.Library.Percent
import Mathlib.Data.List.Lex
import Mathlib.Data.List.TakeWhile

/-!
# Which scope a request needs (`auth.ts`)

With tokens on, every request is weighed before it reaches its handler. The
guard reads the URL as it was sent; the router matches the decoded path.

## Implementation notes

The router is not in this repository. It takes the path before the query
string, decodes it but for the reserved characters, and hands the request to
the most specific of the routes that match.
-/

namespace FleetRunner.Auth

open Library

inductive Method where
  | GET | HEAD | POST | PUT | PATCH | DELETE | OPTIONS | TRACE
  deriving DecidableEq

/-! ## The guard -/

/-- What a request has to bring. -/
inductive Need where
  | «public» | protocol | read | run | admin
  deriving DecidableEq

/-- How much a need asks for. -/
def Need.rank : Need → Nat
  | .public => 0
  | .protocol | .read => 1
  | .run => 2
  | .admin => 3

/-- One stretch between slashes, as the rules' patterns spell them. -/
inductive Piece where
  | text (s : String)
  /-- `[^/]+` -/
  | any
  /-- `\d+` -/
  | digits
  /-- `(a|b)` -/
  | oneOf (ss : List String)
  /-- `[a-f0-9]{64}` -/
  | hash

/-- A part of a pattern matches a part of a path. -/
def Piece.matches (s : List Char) : Piece → Bool
  | .text t => decide (s = t.toList)
  | .any => decide (s ≠ [])
  | .digits => decide (s ≠ []) && s.all Char.isDigit
  | .oneOf ts => ts.any fun t => decide (s = t.toList)
  | .hash => decide (s.length = 64) && s.all fun c => ('a' ≤ c && c ≤ 'f') || c.isDigit

/-- `/^\/a\/b$/` -/
def matchesPieces : List Piece → List (List Char) → Bool
  | [], [] => true
  | x :: xs, s :: ss => x.matches s && matchesPieces xs ss
  | _, _ => false

/-- A pattern matches a whole path. -/
def matchesPath (pattern : List Piece) (p : List Char) : Bool :=
  matchesPieces (.text "" :: pattern) (pathSegments p)

/-- Routes, by method and pattern. -/
abbrev Rules := List (Method × List Piece)

/-- What runners and executors call. -/
def PROTOCOL_ROUTES : Rules := [
  (.POST, [.text "devices", .text "register"]),
  (.GET, [.text "devices", .any, .text "next-job"]),
  (.GET, [.text "executor", .text "next-job"]),
  (.POST, [.text "results"]),
  (.POST, [.text "jobs", .any, .text "release"]),
  (.POST, [.text "locks", .oneOf ["acquire", "release"]]),
  (.POST, [.text "artifacts"]),
  (.POST, [.text "events", .any]),
  (.GET, [.text "events", .any, .text "poll"]),
  (.POST, [.text "api", .text "jobs", .any, .text "mirror"]),
  (.POST, [.text "findings"]),
  (.GET, [.text "findings", .text "regressions"]),
  (.POST, [.text "findings", .digits, .text "regression"])]

/-- What starts or stops work, and no more. -/
def RUN_ROUTES : Rules := [
  (.POST, [.text "jobs"]),
  (.POST, [.text "api", .text "jobs"]),
  (.POST, [.text "api", .text "jobs", .text "preview-targets"]),
  (.POST, [.text "api", .text "jobs", .any, .oneOf ["cancel", "retry"]]),
  (.POST, [.text "api", .text "v1", .text "jobs"]),
  (.POST, [.text "api", .text "v1", .text "jobs", .text "validate"]),
  (.POST, [.text "api", .text "v1", .text "jobs", .any, .oneOf ["cancel", "retry"]]),
  (.POST, [.text "api", .text "v1", .text "findings", .any, .text "verdict"])]

/-- Is the request one of these? -/
def inRules (rules : Rules) (m : Method) (p : List Char) : Bool :=
  rules.any fun r => decide (r.1 = m) && matchesPath r.2 p

/-- Paths that anybody may read. -/
def publicPaths : List String :=
  ["/", "/runner", "/get", "/dash", "/api/health", "/api/v1/health", "/api/v1/openapi.json",
    "/api/v1/whoami"]

/-- And what is under these. -/
def publicPrefixes : List String := ["/dash/", "/.well-known/"]

/-- Open to everyone who reads. -/
def isOpen (m : Method) (p : List Char) : Bool :=
  decide (m = .GET) && (publicPaths.any (fun s => decide (p = s.toList)) ||
    publicPrefixes.any fun s => s.toList.isPrefixOf p)

def sessionPath : List Char := "/api/session".toList

def auditPath : List Char := "/api/v1/audit".toList

/-- `url.split("?")[0]` -/
def pathOf (url : List Char) : List Char := url.takeWhile fun c => decide (c ≠ '?')

/-- A `HEAD` is answered like a `GET`. -/
def readAs (m : Method) : Method := if m = .HEAD then .GET else m

/-- What a request for a decoded path has to bring. -/
def needOf (m : Method) (p : List Char) : Need :=
  if m = .OPTIONS then .public
  else if isOpen m p then .public
  else if p = sessionPath then .public
  else if inRules PROTOCOL_ROUTES m p then .protocol
  else if m = .GET ∧ matchesPath [.text "artifacts", .hash] p then .protocol
  else if inRules RUN_ROUTES m p then .run
  else if p = auditPath then .admin
  else if m = .GET then .read
  else .admin

/-- What a request needs. -/
def requirement (m : Method) (url : List Char) : Need := needOf (readAs m) (pathOf url)

/-! ## The router -/

/-- `;/?:@&=+$,#` and `%` stay escaped in the path that is matched. -/
def isReserved (c : Char) : Bool := "%;/?:@&=+$,#".toList.contains c

/-- A route of the server. -/
structure Route where
  /-- `none` for a route of every method -/
  method : Option Method
  path : String
  deriving DecidableEq

def get (path : String) : Route := ⟨some .GET, path⟩

def post (path : String) : Route := ⟨some .POST, path⟩

def patch (path : String) : Route := ⟨some .PATCH, path⟩

def delete (path : String) : Route := ⟨some .DELETE, path⟩

/-- Who did what. -/
def listAudit : Route := get "/api/v1/audit"

/-- The control API (`api/v1/routes.ts`, `api/v1/prometheus.ts`). -/
def v1Routes : List Route := [
  get "/api/v1/health", get "/api/v1/whoami", get "/api/v1/openapi.json", get "/api/v1/devices",
  get "/api/v1/devices/:id", post "/api/v1/devices/:id/reserve",
  post "/api/v1/devices/:id/unreserve", get "/api/v1/workloads", get "/api/v1/workloads/:name",
  get "/api/v1/templates", get "/api/v1/jobs", post "/api/v1/jobs", post "/api/v1/jobs/validate",
  get "/api/v1/jobs/:id", get "/api/v1/jobs/:id/summary", get "/api/v1/jobs/:id/wait",
  post "/api/v1/jobs/:id/cancel", post "/api/v1/jobs/:id/retry", get "/api/v1/results",
  get "/api/v1/results/flaky", get "/api/v1/artifacts/:sha256",
  get "/api/v1/artifacts/:sha256/content", get "/api/v1/findings", get "/api/v1/findings/:id",
  post "/api/v1/findings/:id/verdict", get "/api/v1/schedules", get "/api/v1/alerts", listAudit,
  ⟨none, "/api/v1/*"⟩, get "/metrics"]

/-- The dashboard's API (`api/`, `auth.ts`). -/
def apiRoutes : List Route := [
  get "/api/devices", get "/api/devices/:id", get "/api/devices/:id/beacons", get "/api/peers",
  get "/api/peers/:id/*", get "/api/evals", get "/api/evals/:input_sha", get "/api/overview",
  get "/api/stream", post "/api/jobs/:id/cancel", post "/api/jobs/:id/retry",
  patch "/api/jobs/:id", post "/api/jobs", post "/api/jobs/preview-targets",
  patch "/api/devices/:id", delete "/api/devices/:id", post "/api/devices/:id/release-lock",
  get "/api/templates", post "/api/templates", post "/api/schedules", patch "/api/schedules/:id",
  delete "/api/schedules/:id", post "/api/schedules/:id/run",
  post "/api/alerts/:id/ack", post "/api/alerts/:id/snooze", get "/api/artifacts/gc-candidates",
  post "/api/artifacts/:sha256/pin", delete "/api/artifacts/:sha256", post "/api/system/sweep",
  post "/api/system/scheduler-tick", post "/api/power/:pool/:state", post "/api/system/retention",
  delete "/api/templates/:id", get "/api/enroll", get "/api/jobs", get "/api/jobs/:id",
  post "/api/jobs/:id/mirror", get "/api/jobs/:id/mirror", get "/api/jobs/:id/mirror/status",
  get "/api/results", get "/api/results/bench", get "/api/results/ui", get "/api/results/thermal",
  get "/api/results/cold-start", get "/api/results/drain", get "/api/results/soak",
  get "/api/results/vision", get "/api/results/recent", post "/findings", get "/api/findings",
  get "/api/findings/precision", get "/api/findings/digest", get "/api/findings/issues",
  get "/api/findings/:id", post "/api/findings/:id/verdict", get "/findings/regressions",
  post "/findings/:id/regression", get "/api/health", get "/api/system", get "/api/schedules",
  get "/api/alerts", get "/api/executors", get "/api/status-reports", get "/api/locks",
  get "/api/artifacts/:sha256", get "/api/artifacts", get "/api/events", get "/api/events/:topic",
  get "/api/visual/baselines", get "/api/visual/suites", get "/api/visual/matrix",
  post "/api/visual/baselines/accept", post "/api/session", delete "/api/session",
  get "/api/*", post "/api/*", patch "/api/*", delete "/api/*"]

/-- The runner protocol and the pages (`server.ts`, `runner-web.ts`, `dash-static.ts`). -/
def serverRoutes : List Route := [
  post "/devices/register", get "/devices", get "/devices/:id/next-job", get "/executor/next-job",
  post "/jobs", post "/jobs/:id/release", post "/jobs/sweep", get "/jobs/:id", post "/results",
  get "/status-reports", post "/locks/acquire", post "/locks/release", post "/events/:topic",
  get "/events/:topic/poll", post "/schedules", get "/schedules", patch "/schedules/:id",
  delete "/schedules/:id", post "/schedules/tick", post "/power/:pool/:state", post "/artifacts",
  get "/artifacts/:sha256", get "/dash/legacy", get "/dash/legacy/bench", get "/",
  post "/api/alerts/tick", get "/get", get "/runner", get "/dash", get "/dash/*"]

/-- Every route the server answers. -/
def ROUTES : List Route := serverRoutes ++ apiRoutes ++ v1Routes

/-- Does a route's path, cut into segments, match the segments of a request's? -/
def matchesRoute : List (List Char) → List (List Char) → Bool
  | [['*']], _ :: _ => true
  | [], [] => true
  | p :: ps, s :: ss => (decide (p.head? = some ':') || decide (p = s)) && matchesRoute ps ss
  | _, _ => false

/-- Does the route answer such a request? -/
def Route.serves (m : Method) (p : List Char) (r : Route) : Bool :=
  (r.method.all fun n => decide (n = m) || decide (n = .GET ∧ m = .HEAD)) &&
    matchesRoute (pathSegments r.path.toList) (pathSegments p)

/-- A fixed segment goes before a parameter, a parameter before a wildcard. -/
def weight (s : List Char) : Nat := if s = ['*'] then 0 else if s.head? = some ':' then 1 else 2

/-- Where two routes match, the router takes the more specific one. -/
def Route.specificity (r : Route) : List Nat := (pathSegments r.path.toList).map weight

/-- The route a decoded path is handed to. -/
def dispatch (m : Method) (p : List Char) : Option Route :=
  firstBest (fun best r => decide (best.specificity < r.specificity))
    (ROUTES.filter (Route.serves m p))

/-! ## Every spelling of one path -/

section Spelling

variable {m : Method} {raw plain : List Char}

/-- A pattern's fixed texts hold no escape. -/
def Piece.clean : Piece → Bool
  | .text t => !t.toList.contains '%'
  | .oneOf ts => ts.all fun t => !t.toList.contains '%'
  | _ => true

theorem Piece.matches_plain {x : Piece} (hclean : x.clean = true)
    (h : Spells isReserved raw plain) (hm : x.matches raw = true) : x.matches plain = true := by
  cases x with
  | text t =>
      obtain rfl := of_decide_eq_true hm
      rw [h.eq_of_not_mem (by simpa [clean] using hclean)]
      exact hm
  | any => exact decide_eq_true (h.ne_nil (of_decide_eq_true hm))
  | digits =>
      simp only [Piece.matches, Bool.and_eq_true, List.all_eq_true] at hm
      rw [h.eq_of_not_mem fun hmem => absurd (hm.2 _ hmem) (by decide)]
      simpa [Piece.matches] using hm
  | oneOf ts =>
      obtain ⟨t, ht, hraw⟩ := List.any_eq_true.mp hm
      obtain rfl := of_decide_eq_true hraw
      have hno : '%' ∉ t.toList := by
        have := List.all_eq_true.mp hclean t ht
        simpa using this
      rw [h.eq_of_not_mem hno]
      exact hm
  | hash =>
      have hall := hm
      simp only [Piece.matches, Bool.and_eq_true, List.all_eq_true] at hall
      rw [h.eq_of_not_mem fun hmem => absurd (hall.2 _ hmem) (by decide)]
      exact hm

theorem matchesPieces_plain {pattern : List Piece} {ss ts : List (List Char)}
    (hclean : ∀ x ∈ pattern, x.clean = true) (h : List.Forall₂ (Spells isReserved) ss ts)
    (hm : matchesPieces pattern ss = true) : matchesPieces pattern ts = true := by
  induction h generalizing pattern with
  | nil => exact hm
  | cons hst _ ih =>
      cases pattern with
      | nil => cases hm
      | cons x xs =>
          simp only [matchesPieces, Bool.and_eq_true] at hm ⊢
          exact ⟨Piece.matches_plain (hclean x List.mem_cons_self) hst hm.1,
            ih (fun y hy => hclean y (List.mem_cons_of_mem _ hy)) hm.2⟩

/-- A pattern that matches a spelling matches what it spells. -/
theorem matchesPath_plain {pattern : List Piece} (hclean : ∀ x ∈ pattern, x.clean = true)
    (h : Spells isReserved raw plain) (hm : matchesPath pattern raw = true) :
    matchesPath pattern plain = true := by
  refine matchesPieces_plain ?_ (h.segments (by decide)) hm
  intro x hx
  rcases List.mem_cons.mp hx with rfl | hx
  · decide
  · exact hclean x hx

/-- Every text of the rules is one segment of a path. -/
def CleanRules (rules : Rules) : Prop := ∀ r ∈ rules, ∀ x ∈ r.2, x.clean = true

theorem inRules_plain {rules : Rules} (hclean : CleanRules rules) (h : Spells isReserved raw plain)
    (hm : inRules rules m raw = true) : inRules rules m plain = true := by
  obtain ⟨r, hr, hmatch⟩ := List.any_eq_true.mp hm
  rw [Bool.and_eq_true] at hmatch
  refine List.any_eq_true.mpr ⟨r, hr, ?_⟩
  rw [Bool.and_eq_true]
  exact ⟨hmatch.1, matchesPath_plain (hclean r hr) h hmatch.2⟩

theorem cleanRules_protocol : CleanRules PROTOCOL_ROUTES := by
  simp [CleanRules, PROTOCOL_ROUTES, Piece.clean]

theorem cleanRules_run : CleanRules RUN_ROUTES := by
  simp [CleanRules, RUN_ROUTES, Piece.clean]

theorem clean_artifact : ∀ x ∈ [Piece.text "artifacts", .hash], x.clean = true := by
  simp [Piece.clean]

theorem sessionPath_clean : '%' ∉ sessionPath := by
  unfold sessionPath
  simp

theorem isOpen_plain (h : Spells isReserved raw plain) (hm : isOpen m raw = true) :
    isOpen m plain = true := by
  simp only [isOpen, Bool.and_eq_true, Bool.or_eq_true] at hm ⊢
  refine ⟨hm.1, ?_⟩
  rcases hm.2 with hpath | hprefix
  · obtain ⟨s, hs, hraw⟩ := List.any_eq_true.mp hpath
    obtain rfl := of_decide_eq_true hraw
    have hclean : ∀ s ∈ publicPaths, '%' ∉ s.toList := by simp [publicPaths]
    rw [h.eq_of_not_mem (hclean s hs)]
    exact Or.inl hpath
  · obtain ⟨s, hs, hraw⟩ := List.any_eq_true.mp hprefix
    have hclean : ∀ s ∈ publicPrefixes, '%' ∉ s.toList := by simp [publicPrefixes]
    obtain ⟨rest, rfl⟩ := List.isPrefixOf_iff_prefix.mp hraw
    obtain ⟨tail, rfl, -⟩ := h.of_append (hclean s hs)
    exact Or.inr (List.any_eq_true.mpr
      ⟨s, hs, List.isPrefixOf_iff_prefix.mpr (List.prefix_append s.toList tail)⟩)

/-- No rule for running is one for reading. -/
theorem inRules_run_get (p : List Char) : inRules RUN_ROUTES .GET p = false := by
  simp [inRules, RUN_ROUTES]

theorem rank_le_three (n : Need) : n.rank ≤ 3 := by
  cases n <;> decide

theorem rank_eq_zero {p : List Char} (h : m = .OPTIONS ∨ isOpen m p = true ∨ p = sessionPath) :
    (needOf m p).rank = 0 := by
  unfold needOf
  by_cases hoptions : m = .OPTIONS
  · rw [if_pos hoptions]
    rfl
  rw [if_neg hoptions]
  by_cases hopen : isOpen m p = true
  · rw [if_pos hopen]
    rfl
  rw [if_neg hopen, if_pos ((h.resolve_left hoptions).resolve_left hopen)]
  rfl

theorem rank_le_one {p : List Char} (h : inRules PROTOCOL_ROUTES m p = true ∨
    m = .GET ∧ matchesPath [.text "artifacts", .hash] p = true) : (needOf m p).rank ≤ 1 := by
  unfold needOf
  split_ifs with hoptions hopen hsession hprotocol hartifact
  iterate 5 decide
  all_goals exact absurd h (not_or.mpr ⟨hprotocol, hartifact⟩)

theorem rank_le_two {p : List Char} (h : inRules RUN_ROUTES m p = true) :
    (needOf m p).rank ≤ 2 := by
  unfold needOf
  rw [if_pos h]
  split_ifs <;> decide

theorem rank_get_le_one {p : List Char} (h : p ≠ auditPath) : (needOf .GET p).rank ≤ 1 := by
  unfold needOf
  rw [inRules_run_get]
  split_ifs <;> first | decide | contradiction

/-- But for the audit list, a spelling needs no less than what it spells. -/
theorem needOf_plain_le (h : Spells isReserved raw plain) (haudit : plain ≠ auditPath) :
    (needOf m plain).rank ≤ (needOf m raw).rank := by
  conv_rhs => unfold needOf
  split_ifs with hoptions hopen hsession hprotocol hartifact hrun hadmin hget
  · exact (rank_eq_zero (Or.inl hoptions)).le
  · exact (rank_eq_zero (Or.inr (Or.inl (isOpen_plain h hopen)))).le
  · subst hsession
    exact (rank_eq_zero (Or.inr (Or.inr (h.eq_of_not_mem sessionPath_clean)))).le
  · exact rank_le_one (Or.inl (inRules_plain cleanRules_protocol h hprotocol))
  · exact rank_le_one (Or.inr ⟨hartifact.1, matchesPath_plain clean_artifact h hartifact.2⟩)
  · exact rank_le_two (inRules_plain cleanRules_run h hrun)
  · exact rank_le_three _
  · subst hget
    exact rank_get_le_one haudit
  · exact rank_le_three _

/-- No rule is about the audit list. -/
theorem pathSegments_audit :
    pathSegments auditPath = ["".toList, "api".toList, "v1".toList, "audit".toList] := by
  unfold auditPath
  simp [pathSegments]

theorem isOpen_audit (m : Method) : isOpen m auditPath = false := by
  unfold auditPath
  simp [isOpen, publicPaths, publicPrefixes, List.isPrefixOf]

theorem protocol_audit (m : Method) : inRules PROTOCOL_ROUTES m auditPath = false := by
  simp [inRules, PROTOCOL_ROUTES, matchesPath, pathSegments_audit, matchesPieces, Piece.matches]

theorem artifact_audit : matchesPath [.text "artifacts", .hash] auditPath = false := by
  simp [matchesPath, pathSegments_audit, matchesPieces, Piece.matches]

theorem run_audit (m : Method) : inRules RUN_ROUTES m auditPath = false := by
  simp [inRules, RUN_ROUTES, matchesPath, pathSegments_audit, matchesPieces, Piece.matches]

theorem sessionPath_ne_audit : sessionPath ≠ auditPath := by
  unfold auditPath sessionPath
  simp

theorem needOf_audit : needOf .GET auditPath = .admin := by
  simp [needOf, isOpen_audit, protocol_audit, artifact_audit, run_audit,
    sessionPath_ne_audit.symm]

/-- Only the plain spelling of the audit list is known for what it is. -/
theorem needOf_audit_spelling (h : Spells isReserved raw auditPath) (hne : raw ≠ auditPath)
    (hoptions : m ≠ .OPTIONS) : needOf m raw = if m = .GET then .read else .admin := by
  have hopen : isOpen m raw = false := by
    by_contra hopen
    have haudit := isOpen_plain h (by simpa using hopen)
    simp [isOpen_audit] at haudit
  have hsession : raw ≠ sessionPath := by
    rintro rfl
    exact sessionPath_ne_audit (h.eq_of_not_mem sessionPath_clean).symm
  have hprotocol : inRules PROTOCOL_ROUTES m raw = false := by
    by_contra hprotocol
    have haudit := inRules_plain cleanRules_protocol h (by simpa using hprotocol)
    simp [protocol_audit] at haudit
  have hartifact : matchesPath [.text "artifacts", .hash] raw = false := by
    by_contra hartifact
    have haudit := matchesPath_plain clean_artifact h (by simpa using hartifact)
    simp [artifact_audit] at haudit
  have hrun : inRules RUN_ROUTES m raw = false := by
    by_contra hrun
    have haudit := inRules_plain cleanRules_run h (by simpa using hrun)
    simp [run_audit] at haudit
  simp [needOf, hoptions, hopen, hsession, hprotocol, hartifact, hrun, hne]

/-- The path of a request is read up to its query string, so a plain path is read whole. -/
theorem pathOf_plain {url : List Char} (h : Spells isReserved (pathOf url) plain) :
    pathOf plain = plain := by
  have hurl : '?' ∉ pathOf url := by
    intro hmem
    have hne := List.mem_takeWhile_imp hmem
    simp at hne
  have hplain := h.not_mem_plain (by decide) hurl
  apply List.takeWhile_eq_self_iff.mpr
  intro c hc
  exact decide_eq_true fun heq => hplain (heq ▸ hc)

end Spelling

/-! ## The route of the audit list -/

theorem serves_of_dispatch {m : Method} {p : List Char} {r : Route} (h : dispatch m p = some r) :
    r.serves m p = true :=
  (List.mem_filter.mp (mem_of_firstBest h)).2

theorem matchesRoute_cons {p s : List Char} (hstar : p ≠ ['*']) (ps ss : List (List Char)) :
    matchesRoute (p :: ps) (s :: ss) =
      ((decide (p.head? = some ':') || decide (p = s)) && matchesRoute ps ss) := by
  rw [matchesRoute]
  rintro rfl
  exact absurd rfl hstar

/-- A route without parameters serves one path. -/
theorem segments_eq_of_matchesRoute {ps ss : List (List Char)}
    (hfixed : ∀ p ∈ ps, p ≠ ['*'] ∧ p.head? ≠ some ':') (h : matchesRoute ps ss = true) :
    ps = ss := by
  induction ps generalizing ss with
  | nil =>
      cases ss with
      | nil => rfl
      | cons s ss => cases h
  | cons p ps ih =>
      obtain ⟨hstar, hparam⟩ := hfixed p List.mem_cons_self
      cases ss with
      | nil => simp [matchesRoute] at h
      | cons s ss =>
          simp only [matchesRoute_cons hstar, Bool.and_eq_true, Bool.or_eq_true,
            decide_eq_true_eq, hparam, false_or] at h
          rw [h.1, ih (fun q hq => hfixed q (List.mem_cons_of_mem _ hq)) h.2]

theorem path_of_dispatch_listAudit {m : Method} {p : List Char}
    (h : dispatch m p = some listAudit) : p = auditPath := by
  have hserves := serves_of_dispatch h
  rw [Route.serves, Bool.and_eq_true] at hserves
  have hfixed : ∀ s ∈ pathSegments auditPath, s ≠ ['*'] ∧ s.head? ≠ some ':' := by
    simp [pathSegments_audit]
  exact (pathSegments_injective (segments_eq_of_matchesRoute hfixed hserves.2)).symm

theorem read_of_dispatch_listAudit {m : Method} {p : List Char}
    (h : dispatch m p = some listAudit) : readAs m = .GET := by
  have hserves := serves_of_dispatch h
  rw [Route.serves, Bool.and_eq_true] at hserves
  have hmethod := hserves.1
  revert hmethod
  cases m <;> decide

/-- Whatever else serves a path without parameters is less specific than the path itself. -/
theorem eq_or_lt_of_matchesRoute {ps ss : List (List Char)} (hfixed : ∀ s ∈ ss, weight s = 2)
    (h : matchesRoute ps ss = true) : ps = ss ∨ ps.map weight < ss.map weight := by
  induction ss generalizing ps with
  | nil =>
      cases ps with
      | nil => exact Or.inl rfl
      | cons p ps => simp [matchesRoute] at h
  | cons s ss ih =>
      have hs := hfixed s List.mem_cons_self
      cases ps with
      | nil => cases h
      | cons p ps =>
          rw [List.map_cons, List.map_cons, List.cons_lt_cons_iff, hs]
          by_cases hstar : p = ['*']
          · exact Or.inr (Or.inl (by rw [weight, if_pos hstar]; decide))
          rw [matchesRoute_cons hstar, Bool.and_eq_true, Bool.or_eq_true] at h
          by_cases hparam : p.head? = some ':'
          · exact Or.inr (Or.inl (by rw [weight, if_neg hstar, if_pos hparam]; decide))
          obtain rfl : p = s := by simpa [hparam] using h.1
          rcases ih (fun t ht => hfixed t (List.mem_cons_of_mem _ ht)) h.2 with rfl | hlt
          · exact Or.inl rfl
          · exact Or.inr (Or.inr ⟨hs, hlt⟩)

theorem eq_listAudit_of_path : ∀ r ∈ ROUTES, r.path = listAudit.path → r = listAudit := by
  decide +kernel

theorem dispatch_audit {m : Method} (h : readAs m = .GET) :
    dispatch m auditPath = some listAudit := by
  have hserves : listAudit.serves m auditPath = true := by
    have hpath : matchesRoute (pathSegments auditPath) (pathSegments auditPath) = true := by
      simp [pathSegments_audit, matchesRoute]
    refine Bool.and_eq_true_iff.mpr ⟨?_, hpath⟩
    revert h
    cases m <;> decide
  have hlisted : listAudit ∈ ROUTES.filter (Route.serves m auditPath) :=
    List.mem_filter.mpr ⟨by simp [ROUTES, v1Routes], hserves⟩
  cases hbest : dispatch m auditPath with
  | none =>
      rw [firstBest_eq_none_iff.mp hbest] at hlisted
      cases hlisted
  | some r =>
      have hmax : FirstMax Route.specificity _ r :=
        firstMax_of_firstBest (fun _ _ => decide_eq_true_iff) hbest
      have hr := serves_of_dispatch hbest
      rw [Route.serves, Bool.and_eq_true] at hr
      have hfixed : ∀ s ∈ pathSegments auditPath, weight s = 2 := by
        simp [pathSegments_audit, weight]
      rcases eq_or_lt_of_matchesRoute hfixed hr.2 with heq | hlt
      · have hpath := String.toList_inj.mp (pathSegments_injective heq)
        rw [eq_listAudit_of_path r (List.mem_filter.mp hmax.mem).1 hpath]
      · exact absurd hlt (not_lt.mpr (hmax.le hlisted))

/-- However its URL is spelled, a request needs no less than for the same route spelled plainly,
exactly when it is not for the audit list, or its path is spelled plainly itself. -/
theorem requirement_spelling_iff (m : Method) (url plain : List Char) (route : Route)
    (hspells : Spells isReserved (pathOf url) plain) (hroute : dispatch m plain = some route) :
    (requirement m plain).rank ≤ (requirement m url).rank ↔
      (route = listAudit → pathOf url = plain) := by
  rw [requirement, requirement, pathOf_plain hspells]
  constructor
  · intro hle hlist
    subst hlist
    by_contra hne
    obtain rfl := path_of_dispatch_listAudit hroute
    have hread := read_of_dispatch_listAudit hroute
    rw [hread, needOf_audit, needOf_audit_spelling hspells hne (by decide), if_pos rfl] at hle
    exact absurd hle (by decide)
  · intro h
    by_cases hplain : pathOf url = plain
    · rw [hplain]
    by_cases haudit : plain = auditPath
    · subst haudit
      have hget : readAs m ≠ .GET := by
        intro hget
        rw [dispatch_audit hget] at hroute
        exact hplain (h (Option.some.inj hroute).symm)
      by_cases hoptions : readAs m = .OPTIONS
      · rw [hoptions]
        exact Nat.zero_le _
      · rw [needOf_audit_spelling hspells hplain hoptions, if_neg hget]
        exact rank_le_three _
    · exact needOf_plain_le hspells haudit

theorem requirement_spelling_device :
    (requirement .PATCH "/api/devices/d1".toList).rank ≤
        (requirement .PATCH "/api/devices/d%31?x=1".toList).rank ↔
      (patch "/api/devices/:id" = listAudit →
        pathOf "/api/devices/d%31?x=1".toList = "/api/devices/d1".toList) :=
  requirement_spelling_iff .PATCH _ _ _
    (.escaped (p := "/api/devices/d".toList) (q := []) (b := 49)
      (by decide) (by decide) (by decide) (by decide) (by decide) (by decide))
    (by decide)

/-- A read token lists the audits by way of an escaped letter. -/
theorem requirement_spelling_lower : ¬ ∀ (m : Method) (url plain : List Char) (route : Route),
    Spells isReserved (pathOf url) plain → dispatch m plain = some route →
      (requirement m plain).rank ≤ (requirement m url).rank := by
  intro h
  have hspells : Spells isReserved (pathOf "/api/v1/%61udit?limit=5".toList) auditPath :=
    .escaped (p := "/api/v1/".toList) (q := "udit".toList) (b := 97)
      (by decide) (by decide) (by decide) (by decide) (by decide) (by decide)
  have hle := h .GET _ auditPath listAudit hspells (dispatch_audit rfl)
  revert hle
  decide

end FleetRunner.Auth
