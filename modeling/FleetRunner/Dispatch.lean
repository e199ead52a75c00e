import FleetRunner.ClaimOrder
import FleetRunner.Registration
import FleetRunner.Synthetic

/-!
# What a runner declares and what it takes (`RunnerService.kt`, `FleetAgent.swift`, `routes.ts`,
`AgentTask.brs`)

A phone and a machine have one table each. The names they register come from
it, and so does the code a job is handed to; a television declares one name and
refuses everything else. The collector compares a job with the names alone: a
workload, or a workload and a backend with a colon between them. What it hands
out is run, unless a job calls its workload by such a pair.

## Implementation notes

Of a job's specification only the two fields that are compared are read here. A
runner may still turn a job down for its constraints. A poll that stays open
while its device is forgotten claims as a device that declared nothing, which
is the one claim left out.
-/

namespace FleetRunner.Dispatch

open Library

/-- The fields of a job that decide who runs it. -/
structure JobSpec where
  workload : String
  backend : Option String
  deriving DecidableEq

/-! ## The phones -/

/-- One workload a phone can run: what it declares, and the jobs it is for. -/
structure Route where
  capability : String
  workload : String
  /-- `none` matches any backend; a value claims only that backend. -/
  backend : Option String
  deriving DecidableEq

/-- A route naming a backend wins over the workload's general route. -/
def routeFor (routes : List Route) (job : JobSpec) : Option Route :=
  (routes.find? fun r =>
      r.workload = job.workload ∧ r.backend.isSome ∧ r.backend = job.backend).or
    (routes.find? fun r => r.workload = job.workload ∧ r.backend = none)

namespace Android

def routes : List Route :=
  [⟨"benchmark", "benchmark", none⟩, ⟨"batch", "batch", none⟩,
    ⟨"batch:litert", "batch", some "litert"⟩, ⟨"pipeline", "pipeline", none⟩,
    ⟨"thermal", "thermal", none⟩, ⟨"embed-eval", "embed-eval", none⟩,
    ⟨"vantage", "vantage", none⟩]

def capabilities : List String := routes.map Route.capability

def routeFor (job : JobSpec) : Option Route := Dispatch.routeFor routes job

end Android

namespace Ios

def routes (canImportWebKit : Bool) : List Route :=
  [⟨"benchmark", "benchmark", none⟩, ⟨"batch", "batch", none⟩,
    ⟨"batch:coreml", "batch", some "coreml"⟩, ⟨"pipeline", "pipeline", none⟩,
    ⟨"thermal", "thermal", none⟩, ⟨"embed-eval", "embed-eval", none⟩,
    ⟨"vantage", "vantage", none⟩] ++
  if canImportWebKit then [⟨"web-shots:webkit", "web-shots", some "webkit"⟩] else []

def dispatchedWorkloads (canImportWebKit : Bool) : List String :=
  (routes canImportWebKit).map Route.capability

def route (canImportWebKit : Bool) (job : JobSpec) : Option Route :=
  routeFor (routes canImportWebKit) job

end Ios

/-! ## The machine -/

namespace Machine

/-- What the probes found on this machine. -/
structure CapabilityFlags where
  llamaBench : Bool
  mlx : Bool
  gradle : Bool
  xcodebuild : Bool
  node : Bool
  /-- Which model converters resolved. -/
  converters : List String
  /-- Whether a non-empty shell allowlist exists on this machine. -/
  shellAllowlist : Bool
  llamaServer : Bool

structure Route where
  workload : String
  /-- What this route contributes to the registered capability list. -/
  declares : CapabilityFlags → List String

/-- `build` is what a claim is matched with; the kinds are for `targets.match` to read. -/
def buildKinds (f : CapabilityFlags) : List String :=
  (if f.gradle then ["build:gradle"] else []) ++ (if f.xcodebuild then ["build:xcode"] else []) ++
    if f.node then ["build:npm"] else []

def ROUTES : List Route :=
  [⟨"benchmark", fun f => "benchmark" ::
      ((if f.llamaBench then ["benchmark:llama.cpp"] else []) ++
        if f.mlx then ["benchmark:mlx"] else [])⟩,
    ⟨"build", fun f => if buildKinds f = [] then [] else "build" :: buildKinds f⟩,
    ⟨"self-check", fun _ => ["self-check"]⟩,
    ⟨"llm-eval", fun _ => ["llm-eval"]⟩,
    ⟨"model-convert", fun f => if f.converters = [] then [] else
      "model-convert" :: f.converters.map fun c => "model-convert:" ++ c⟩,
    ⟨"dataset-prep", fun f => if f.converters = [] then [] else ["dataset-prep"]⟩,
    ⟨"serve", fun f => if f.llamaServer then ["serve"] else []⟩,
    ⟨"shell", fun f => if f.shellAllowlist then ["shell"] else []⟩]

/-- The list, given the answers. -/
def capabilitiesFrom (flags : CapabilityFlags) : List String :=
  ROUTES.flatMap fun r => r.declares flags

def routeFor (workload : String) : Option Route := ROUTES.find? fun r => r.workload = workload

end Machine

/-! ## The television -/

namespace Roku

open Synthetic.Roku

/-- The constraint `min_battery_pct`, as a number and as a text. -/
structure MinBattery where
  fleetNum : Rat
  fleetStr : String

/-- What this runner will not do, or nothing. -/
def refuseReason (selfTest : Option SelfTest) (job : JobSpec) (minBattery : Option MinBattery) :
    String :=
  let backend := job.backend.getD ""
  if job.workload ≠ "benchmark" then
    "workload '" ++ job.workload ++ "' is not supported by the Roku runner; it runs benchmark only"
  else if backend ≠ "" ∧ backend ≠ "roevp" then
    "backend '" ++ backend ++ "' is not available on Roku. BrightScript's only hash is " ++
      "roEVPDigest, called once per round from an interpreted loop, so this runner declares " ++
      "benchmark:roevp and its rate is NOT comparable with a native runner's 'synthetic' rate " ++
      "-- ask for backend 'roevp'"
  else
    match selfTest with
    | none =>
      "the Roku runner never completed its synthetic self-test, so it cannot say whether its " ++
        "numbers would be comparable"
    | some t =>
      if !t.ok then
        "the synthetic block does not match the fleet reference on this device, so any number " ++
          "from it would be incomparable: " ++ t.detail
      else
        match minBattery with
        | none => ""
        | some p =>
          if 100 < p.fleetNum then
            "min_battery_pct is " ++ p.fleetStr ++ ", which no device can meet; a Roku is " ++
              "mains-powered and reports 100"
          else ""

/-- A device at a hundred meets every constraint that can be met. -/
theorem refuseReason_met (selfTest : Option SelfTest) (job : JobSpec) {p : MinBattery}
    (h : p.fleetNum ≤ 100) :
    refuseReason selfTest job (some p) = refuseReason selfTest job none := by
  unfold refuseReason
  simp only [if_neg (not_lt.mpr h)]

end Roku

/-! ## Names -/

/-- A workload that is not written as a pair. -/
def Plain (workload : String) : Prop := ':' ∉ workload.toList

instance : DecidablePred Plain := fun w => inferInstanceAs (Decidable (':' ∉ w.toList))

/-- What a declared name says: a workload, with all its backends or with one. -/
structure Name where
  workload : String
  backend : Option String
  plain : Plain workload

def Name.text (n : Name) : String := n.backend.elim n.workload fun b => n.workload ++ ":" ++ b

def Name.covers (n : Name) (job : JobSpec) : Prop :=
  n.workload = job.workload ∧ (n.backend = none ∨ n.backend = job.backend)

/-- Does the collector offer this job to whoever declares these names? -/
def offered (declared : List String) (job : JobSpec) : Bool :=
  declared.contains job.workload ||
    job.backend.any fun b => b ≠ "" && declared.contains (job.workload ++ ":" ++ b)

theorem capabilityMatches_text (js : Js) (declared : List String) (job : JobSpec) :
    capabilityMatches js (some declared) (.str job.workload) (job.backend.elim .null .str) =
      .ok (offered declared job) := by
  have hany : (declared.any fun n => (Json.str job.workload).isStr n) =
      declared.contains job.workload := by
    rw [List.contains_eq_any_beq]
    rfl
  unfold capabilityMatches offered
  simp only [hany]
  cases hw : declared.contains job.workload with
  | true => rfl
  | false =>
      cases job.backend with
      | none => rfl
      | some b => by_cases hb : b = "" <;> simp [hb, Json.truthy, Json.text, bind, Except.bind]

/-- The first colon ends a plain workload. -/
theorem text_cut {w v : String} (hw : Plain w) (hv : Plain v) {b c : String}
    (h : w ++ ":" ++ b = v ++ ":" ++ c) : w = v ∧ b = c := by
  have hlists : w.toList ++ ':' :: b.toList = v.toList ++ ':' :: c.toList := by
    simpa [String.toList_append] using congrArg String.toList h
  have hfront : ∀ xs ys : List Char, ':' ∉ xs → (xs ++ ':' :: ys).takeWhile (· ≠ ':') = xs := by
    intro xs ys hxs
    rw [List.takeWhile_append_of_pos fun x hx => by simpa using ne_of_mem_of_not_mem hx hxs]
    simp
  have hchars : w.toList = v.toList := by
    rw [← hfront w.toList b.toList hw, hlists, hfront v.toList c.toList hv]
  rw [hchars] at hlists
  have hrest := List.append_cancel_left hlists
  exact ⟨String.ext hchars, String.ext (List.cons.inj hrest).2⟩

theorem not_plain_pair (w b : String) : ¬Plain (w ++ ":" ++ b) := by
  simp [Plain, String.toList_append]

/-- A plain job is offered for a name that says its workload, and its backend if it says one. -/
theorem exists_covers {declared : List String} {P : Name → Prop}
    (hnames : ∀ c ∈ declared, ∃ n : Name, n.text = c ∧ P n) {job : JobSpec}
    (hjob : Plain job.workload) (h : offered declared job = true) :
    ∃ n : Name, P n ∧ n.covers job := by
  unfold offered at h
  rw [Bool.or_eq_true, List.contains_iff_mem] at h
  rcases h with hmem | hpair
  · obtain ⟨n, htext, hn⟩ := hnames _ hmem
    refine ⟨n, hn, ?_⟩
    unfold Name.text at htext
    cases hb : n.backend with
    | none =>
        rw [hb] at htext
        exact ⟨htext, Or.inl hb⟩
    | some b =>
        rw [hb] at htext
        rw [← htext] at hjob
        exact absurd hjob (not_plain_pair n.workload b)
  · obtain ⟨b, hjb, hmem⟩ := (Option.any_eq_true _ _).mp hpair
    rw [Bool.and_eq_true, List.contains_iff_mem] at hmem
    obtain ⟨n, htext, hn⟩ := hnames _ hmem.2
    refine ⟨n, hn, ?_⟩
    unfold Name.text at htext
    cases hb : n.backend with
    | none =>
        rw [hb] at htext
        have hplain := n.plain
        rw [show n.workload = job.workload ++ ":" ++ b from htext] at hplain
        exact absurd hplain (not_plain_pair job.workload b)
    | some c =>
        rw [hb] at htext
        obtain ⟨hsame, rfl⟩ := text_cut n.plain hjob htext
        exact ⟨hsame, Or.inr (hb.trans hjb.symm)⟩

/-! ## Tables -/

/-- A runner's table: every name it declares says what it takes, and no pair is a workload. -/
structure RouteTable where
  declared : List String
  takes : JobSpec → Bool
  served : ∀ c ∈ declared, ∃ n : Name, n.text = c ∧ ∀ job, n.covers job → takes job = true
  plain : ∀ job, takes job = true → Plain job.workload

/-- What is offered on a table's names is taken, unless its workload is a pair. -/
theorem RouteTable.takes_iff (t : RouteTable) {job : JobSpec} (h : offered t.declared job = true) :
    t.takes job = true ↔ Plain job.workload := by
  refine ⟨t.plain job, fun hjob => ?_⟩
  obtain ⟨n, htakes, hcovers⟩ := exists_covers t.served hjob h
  exact htakes job hcovers

theorem isSome_routeFor_iff {routes : List Route} {job : JobSpec} :
    (routeFor routes job).isSome = true ↔
      ∃ r ∈ routes, r.workload = job.workload ∧ (r.backend = none ∨ r.backend = job.backend) := by
  unfold routeFor
  rw [Option.isSome_or, Bool.or_eq_true, List.find?_isSome, List.find?_isSome]
  simp only [decide_eq_true_eq]
  constructor
  · rintro (⟨r, hr, hworkload, -, hbackend⟩ | ⟨r, hr, hworkload, hnone⟩)
    · exact ⟨r, hr, hworkload, Or.inr hbackend⟩
    · exact ⟨r, hr, hworkload, Or.inl hnone⟩
  · rintro ⟨r, hr, hworkload, hbackend⟩
    cases hb : r.backend with
    | none => exact Or.inr ⟨r, hr, hworkload, hb⟩
    | some b =>
        refine Or.inl ⟨r, hr, hworkload, by simp [hb], ?_⟩
        rcases hbackend with hnone | hsame
        · rw [hb] at hnone
          cases hnone
        · exact hsame

/-- A route declares its workload, or the pair it is for. -/
def Route.Declares (r : Route) : Prop :=
  Plain r.workload ∧ r.capability = r.backend.elim r.workload fun b => r.workload ++ ":" ++ b

instance : DecidablePred Route.Declares := fun _ => inferInstanceAs (Decidable (_ ∧ _))

def phoneTable (routes : List Route) (h : ∀ r ∈ routes, r.Declares) : RouteTable where
  declared := routes.map Route.capability
  takes job := (routeFor routes job).isSome
  served c hc := by
    obtain ⟨r, hr, rfl⟩ := List.mem_map.mp hc
    refine ⟨⟨r.workload, r.backend, (h r hr).1⟩, (h r hr).2.symm, ?_⟩
    rintro job ⟨hworkload, hbackend⟩
    exact isSome_routeFor_iff.mpr ⟨r, hr, hworkload, hbackend⟩
  plain job htakes := by
    obtain ⟨r, hr, hworkload, -⟩ := isSome_routeFor_iff.mp htakes
    rw [← hworkload]
    exact (h r hr).1

def Android.table : RouteTable :=
  { phoneTable Android.routes (by decide) with
    declared := Android.capabilities
    takes := fun job => (Android.routeFor job).isSome }

def Ios.table (canImportWebKit : Bool) : RouteTable :=
  { phoneTable (Ios.routes canImportWebKit) (by cases canImportWebKit <;> decide) with
    declared := Ios.dispatchedWorkloads canImportWebKit
    takes := fun job => (Ios.route canImportWebKit job).isSome }

theorem Machine.plain_workload {r : Machine.Route} (hr : r ∈ Machine.ROUTES) :
    Plain r.workload := by
  simp only [Machine.ROUTES, List.mem_cons, List.not_mem_nil, or_false] at hr
  rcases hr with rfl | rfl | rfl | rfl | rfl | rfl | rfl | rfl <;> decide

/-- A route of the machine's declares its workload, and pairs that begin with it. -/
theorem Machine.declares_named (flags : Machine.CapabilityFlags) {r : Machine.Route}
    (hr : r ∈ Machine.ROUTES) {c : String} (hc : c ∈ r.declares flags) :
    Plain r.workload ∧ (c = r.workload ∨ ∃ b, c = r.workload ++ ":" ++ b) := by
  refine ⟨Machine.plain_workload hr, ?_⟩
  simp only [Machine.ROUTES, List.mem_cons, List.not_mem_nil, or_false] at hr
  rcases hr with rfl | rfl | rfl | rfl | rfl | rfl | rfl | rfl <;>
    simp only [List.mem_ite_nil_right, List.mem_ite_nil_left, List.mem_cons, List.mem_append,
      List.mem_map, List.not_mem_nil, or_false] at hc
  · rcases hc with rfl | ⟨-, rfl⟩ | ⟨-, rfl⟩
    · exact Or.inl rfl
    · exact Or.inr ⟨"llama.cpp", by decide⟩
    · exact Or.inr ⟨"mlx", by decide⟩
  · obtain ⟨-, rfl | hkind⟩ := hc
    · exact Or.inl rfl
    · simp only [Machine.buildKinds, List.mem_ite_nil_right, List.mem_append, List.mem_cons,
        List.not_mem_nil, or_false] at hkind
      obtain (⟨-, rfl⟩ | ⟨-, rfl⟩) | ⟨-, rfl⟩ := hkind
      · exact Or.inr ⟨"gradle", by decide⟩
      · exact Or.inr ⟨"xcode", by decide⟩
      · exact Or.inr ⟨"npm", by decide⟩
  · exact Or.inl hc
  · exact Or.inl hc
  · obtain ⟨-, rfl | ⟨format, -, rfl⟩⟩ := hc
    · exact Or.inl rfl
    · exact Or.inr ⟨format, rfl⟩
  · exact Or.inl hc.2
  · exact Or.inl hc.2
  · exact Or.inl hc.2

def Machine.table (flags : Machine.CapabilityFlags) : RouteTable where
  declared := Machine.capabilitiesFrom flags
  takes job := (Machine.routeFor job.workload).isSome
  served c hc := by
    obtain ⟨r, hr, hdeclares⟩ := List.mem_flatMap.mp hc
    have htakes : ∀ job : JobSpec, r.workload = job.workload →
        (Machine.routeFor job.workload).isSome = true := by
      intro job hworkload
      unfold Machine.routeFor
      rw [List.find?_isSome]
      exact ⟨r, hr, decide_eq_true hworkload⟩
    obtain ⟨hplain, rfl | ⟨b, rfl⟩⟩ := Machine.declares_named flags hr hdeclares
    · exact ⟨⟨r.workload, none, hplain⟩, rfl, fun job hcovers => htakes job hcovers.1⟩
    · exact ⟨⟨r.workload, some b, hplain⟩, rfl, fun job hcovers => htakes job hcovers.1⟩
  plain job htakes := by
    unfold Machine.routeFor at htakes
    rw [List.find?_isSome] at htakes
    obtain ⟨r, hr, hworkload⟩ := htakes
    rw [← of_decide_eq_true hworkload]
    exact Machine.plain_workload hr

def Roku.table (selfTest : Synthetic.Roku.SelfTest) : RouteTable where
  declared := Synthetic.Roku.capabilities selfTest
  takes job := decide (Roku.refuseReason (some selfTest) job none = "")
  served c hc := by
    obtain ⟨hok, hname⟩ := List.mem_ite_nil_right.mp hc
    obtain rfl := List.mem_singleton.mp hname
    refine ⟨⟨"benchmark", some "roevp", by decide⟩, by decide, ?_⟩
    rintro ⟨workload, backend⟩ ⟨hworkload, hnone | hbackend⟩
    · cases hnone
    · obtain rfl : "benchmark" = workload := hworkload
      obtain rfl : some "roevp" = backend := hbackend
      simp [Roku.refuseReason, hok]
  plain job htakes := by
    by_cases hworkload : job.workload = "benchmark"
    · rw [hworkload]
      decide
    · have hreason := of_decide_eq_true htakes
      simp [Roku.refuseReason, hworkload] at hreason

inductive Runner where
  | android
  | ios (canImportWebKit : Bool)
  | machine (flags : Machine.CapabilityFlags)
  | roku (selfTest : Synthetic.Roku.SelfTest)

def Runner.table : Runner → RouteTable
  | .android => Android.table
  | .ios canImportWebKit => Ios.table canImportWebKit
  | .machine flags => Machine.table flags
  | .roku selfTest => Roku.table selfTest

/-! ## What a row declares -/

/-- Every row that is there declares the capabilities it declared before. -/
def SameCapabilities (db db' : Db) : Prop :=
  ∀ id d', db'.device? id = some d' →
    ∃ d, db.device? id = some d ∧ d'.capabilities = d.capabilities

namespace SameCapabilities

variable {db db' db'' : Db}

theorem of_same (h : SameRegistry db db') : SameCapabilities db db' := by
  intro id d' hd'
  rw [h.device?] at hd'
  exact ⟨d', hd', rfl⟩

theorem trans (h : SameCapabilities db db') (h' : SameCapabilities db' db'') :
    SameCapabilities db db'' := by
  intro id d'' hd''
  obtain ⟨d', hd', hsame'⟩ := h' id d'' hd''
  obtain ⟨d, hd, hsame⟩ := h id d' hd'
  exact ⟨d, hd, hsame'.trans hsame⟩

theorem of_update (db : Db) (id : String) (f : Device → Device)
    (hf : ∀ d, (f d).device_id = d.device_id) (hkeep : ∀ d, (f d).capabilities = d.capabilities) :
    SameCapabilities db { db with devices := db.devices.update id f hf } := by
  intro other d' hd'
  change (db.devices.update id f hf).find? other = some d' at hd'
  rw [Table.find?_update] at hd'
  split at hd'
  · obtain ⟨d, hd, rfl⟩ := Option.map_eq_some_iff.mp hd'
    exact ⟨d, hd, hkeep d⟩
  · exact ⟨d', hd', rfl⟩

theorem of_deleted (db : Db) (p : Device → Bool) :
    SameCapabilities db { db with devices := db.devices.deleteWhere p } := by
  intro id d' hd'
  change (db.devices.deleteWhere p).find? id = some d' at hd'
  rw [Table.find?_deleteWhere] at hd'
  exact ⟨d', (Option.filter_eq_some_iff.mp hd').1, rfl⟩

end SameCapabilities

section Steps

variable (cfg : Config) {db : Db} {device : String}

/-- Only a registration changes what a row declares. -/
theorem sameCapabilities_step (req : Request)
    (hregister : ∀ body refused, req ≠ .register body refused) :
    SameCapabilities db (step cfg db req) := by
  have htouch : ∀ (db : Db) (id : String), SameCapabilities db (touchDevice db id) := fun db id =>
    .of_update db id _ _ fun _ => rfl
  cases req with
  | register body refused => exact absurd rfl (hregister body refused)
  | editPools who pools => exact .of_update db who _ _ fun _ => rfl
  | results body =>
      simp only [step, postResults]
      cases hpost : readPost body with
      | error e => exact .of_same (.refl db)
      | ok post =>
          cases post with
          | beacon who b =>
              have hheard : SameCapabilities db (recordBeacon db who b) :=
                .of_update db who _ _ fun _ => rfl
              exact hheard.trans (.of_same (sameRegistry_postBeacon who b))
          | result p =>
              have hstored : SameCapabilities db { db with
                  results := db.results.replace ⟨p.job_id, p.device_id, p.iter, p.body⟩ } :=
                .of_same ⟨rfl, rfl⟩
              have hrecorded :
                  SameCapabilities db (recordResult db p.job_id p.device_id p.iter p.body) :=
                hstored.trans (htouch _ p.device_id)
              simp only [postResult]
              split
              · exact hrecorded.trans (.of_same (sameRegistry_postFinal _ _))
              · exact hrecorded
  | nextJob who =>
      simp only [step, nextJob]
      split
      · exact .of_same (.refl db)
      · split
        · rename_i claimed out hclaim
          exact (htouch db who).trans (.of_same (sameRegistry_claimTx hclaim))
        · exact htouch db who
  | sweep =>
      rcases step_sweep cfg db with ⟨-, hdb⟩ | ⟨swept, out, hsweep, hdb⟩
      · rw [hdb]
        exact .of_same (.refl db)
      · have hswept := SameCapabilities.of_same (sameRegistry_sweepLeasesTx hsweep)
        rw [hdb]
        exact hswept.trans (.of_deleted _ _)
  | forgetDevice who =>
      simp only [step, forgetDevice]
      split
      · exact .of_same (.refl db)
      · exact (SameCapabilities.of_deleted db _).trans (.of_same ⟨rfl, rfl⟩)
  | tick ms => exact fun id d' hd' => ⟨d', hd', rfl⟩
  | _ => exact .of_same (sameRegistry_step cfg db _ rfl)

theorem sameCapabilities_retireRokuIpDuplicate (db : Db) (id : String) (descriptor : Json) :
    SameCapabilities db (retireRokuIpDuplicate db id descriptor).1 := by
  unfold retireRokuIpDuplicate
  split
  · simp only
    split
    · split
      · exact .of_same (.refl db)
      · exact .of_deleted db _
    · exact .of_same (.refl db)
  · exact .of_same (.refl db)

/-- The row of a device whose registrations all declare the same names. -/
def DeclaresOnly (names : List String) (device : String) (db : Db) : Prop :=
  ∀ d, db.device? device = some d → d.capabilities = some names

/-- A registration of the device declares these names. -/
def Declares (names : List String) (device : String) : Request → Prop
  | .register body _ => ∀ g, readRegistration body = .ok g → g.device_id = device →
      g.capabilities = some names
  | _ => True

theorem DeclaresOnly.step {names : List String} (h : DeclaresOnly names device db) {req : Request}
    (hreq : Declares names device req) : DeclaresOnly names device (step cfg db req) := by
  have hsame : ∀ {db db' : Db}, DeclaresOnly names device db → SameCapabilities db db' →
      DeclaresOnly names device db' := by
    intro db db' hdb hcaps d' hd'
    obtain ⟨d, hd, heq⟩ := hcaps device d' hd'
    rw [heq]
    exact hdb d hd
  by_cases hregister : ∀ body refused, req ≠ .register body refused
  · exact hsame h (sameCapabilities_step cfg req hregister)
  · push Not at hregister
    obtain ⟨body, refused, rfl⟩ := hregister
    simp only [FleetRunner.step]
    split
    · rename_i registered out hout
      unfold register at hout
      obtain ⟨g, hg, hout⟩ := bind_eq_ok hout
      split at hout
      · cases hout
      · obtain rfl := congrArg Prod.fst (Except.ok.inj hout)
        refine hsame ?_ (sameCapabilities_retireRokuIpDuplicate _ _ _)
        intro d hd
        rw [device?_upsertDevice] at hd
        split at hd
        · rename_i hid
          obtain rfl := Option.some.inj hd
          have hnames := hreq g hg hid.symm
          unfold registeredRow
          cases db.device? g.device_id <;> simp [newDevice, refreshDevice, hnames]
        · exact h d hd
    · exact h

end Steps

/-! ## What is handed out -/

/-- The two fields, as a specification has them. -/
structure Reads (spec : Json) (job : JobSpec) : Prop where
  workload : spec.prop "workload" = some (.str job.workload)
  backend : backendOf spec = job.backend.elim .null .str

/-- A device job whose claimant this is. -/
structure HeldBy (device : String) (r : Job) : Prop where
  kind : r.executor = .device
  status : r.status = .claimed
  claimed_by : r.claimed_by = some device

/-- An eligible specification is offered on the names the claimant's row declares. -/
theorem offered_of_eligible {js : Js} {db : Db} {device : String} {d : Device}
    (hd : db.device? device = some d) {names : List String} (hnames : d.capabilities = some names)
    {spec : Json} (h : specEligibleFor js db (claimantContext db .device device) spec = .ok true)
    {job : JobSpec} (hread : Reads spec job) : offered names job = true := by
  have hctx : claimantContext db .device device = deviceContext db d := by
    simp only [claimantContext, hd]
  rw [hctx] at h
  simp only [specEligibleFor, deviceContext, ifSo_eq_true] at h
  obtain ⟨-, -, -, hmatches, -⟩ := h
  rw [hread.workload, hread.backend] at hmatches
  simp only [deviceCapabilities, hnames, Option.getD_some, capabilityMatches_text] at hmatches
  exact Except.ok.inj hmatches

section Claims

variable (cfg : Config) {db : Db} {device id : String}

/-- A job that is held was held before, or is claimed in this step. -/
theorem heldBy_step {req : Request} {r' : Job} (hr' : (step cfg db req).job? id = some r')
    (h : HeldBy device r') : (∃ r, db.job? id = some r ∧ HeldBy device r ∧ r.spec = r'.spec) ∨
      (req.claims = some (.device, device) ∧ ∃ r, db.job? id = some r ∧ r.status = .queued ∧
        r' = claimRow db.sqlNow device r) := by
  cases hr : db.job? id with
  | none =>
      obtain ⟨-, -, p, spec, rfl⟩ := step_new hr hr'
      have hby := h.claimed_by
      cases hby
  | some r =>
      obtain ⟨q, hq, hchange⟩ := step_row cfg db req hr
      obtain rfl : q = r' := Option.some.inj (hq.symm.trans hr')
      have hstatus := h.status
      cases hchange with
      | same => exact Or.inl ⟨r, rfl, h, rfl⟩
      | claimed hreq hqueued hexec =>
          obtain rfl := Option.some.inj h.claimed_by
          obtain rfl := hexec.symm.trans h.kind
          exact Or.inr ⟨hreq, r, rfl, hqueued, rfl⟩
      | renewed =>
          unfold renewRow at h ⊢
          split at h
          · rename_i hc
            exact Or.inl ⟨r, rfl, ⟨h.kind, hc, h.claimed_by⟩, by rw [if_pos hc]⟩
          · rename_i hc
            exact Or.inl ⟨r, rfl, h, by rw [if_neg hc]⟩
      | prioritised => exact Or.inl ⟨r, rfl, ⟨h.kind, h.status, h.claimed_by⟩, rfl⟩
      | swept => exact absurd hstatus (sweepRow_status_ne _ _)
      | released => simp [releaseRow] at hstatus
      | preempted => simp [preemptRow] at hstatus
      | closed => exact absurd hstatus (Status.ne_claimed_of_terminal (closeRow_terminal _ _ _))
      | cancelled => simp [closedRow] at hstatus
      | settled _ _ hw hs =>
          cases hs with
          | untouched => simp [hw] at hstatus
          | failed => simp [closedRow] at hstatus
          | skipped => simp [closedRow] at hstatus
          | promoted => simp [promotedRow] at hstatus

/-- A claim was found eligible in the state it was made in. -/
theorem eligible_of_claim {req : Request} {r : Job} (hreq : req.claims = some (.device, device))
    (hr : db.job? id = some r) (hqueued : r.status = .queued)
    (hr' : (step cfg db req).job? id = some (claimRow db.sqlNow device r)) :
    ∃ seen, (req = .pollAgain .device device ∧ seen = db ∨
        seen = touchDevice db device ∧ (db.device? device).isSome = true) ∧
      specEligibleFor cfg.js seen (claimantContext seen .device device) r.spec = .ok true := by
  have hattempt : ∀ seen, SameQueue db seen → pollAgain cfg.js cfg.collectorId seen .device device =
      step cfg db req →
      specEligibleFor cfg.js seen (claimantContext seen .device device) r.spec = .ok true := by
    intro seen hsame hstep
    have hrow : seen.job? id = some r := by rw [hsame.job?, hr]
    have hmoved : (step cfg db req).job? id ≠ seen.job? id := by
      rw [hr', hrow]
      intro hsome
      have hstatus := congrArg Job.status (Option.some.inj hsome)
      rw [hqueued] at hstatus
      cases hstatus
    rw [← hstep, pollAgain] at hmoved
    split at hmoved
    · rename_i claimed out hclaim
      rcases claimed_in_order hclaim with ⟨-, rfl, -⟩ | ⟨-, q, hq, -, rfl⟩
      · exact absurd rfl hmoved
      · rw [job?_grantClaim] at hmoved
        by_cases hid : id = q.job_id
        · have hq' := hq.queued.row
          rw [← hid, hrow] at hq'
          obtain rfl := Option.some.inj hq'
          exact hq.eligible
        · rw [if_neg hid] at hmoved
          exact absurd rfl hmoved
    · exact absurd rfl hmoved
  cases req with
  | nextJob who =>
      cases hreq
      by_cases hdev : (db.device? device).isNone = true
      · have hstill : (step cfg db (.nextJob device)).job? id = db.job? id := by
          simp only [step, nextJob, hdev, if_true]
        rw [hstill, hr] at hr'
        have hstatus := congrArg Job.status (Option.some.inj hr')
        rw [hqueued] at hstatus
        cases hstatus
      · have hrow : (db.device? device).isSome = true := by
          rw [Option.isSome_iff_ne_none]
          simpa using hdev
        refine ⟨touchDevice db device, Or.inr ⟨rfl, hrow⟩, ?_⟩
        exact hattempt _ ⟨rfl, rfl⟩ (if_neg hdev).symm
  | executorNextJob name => cases hreq
  | pollAgain executor claimant =>
      cases hreq
      exact ⟨db, Or.inl ⟨rfl, rfl⟩, hattempt db (.refl db) rfl⟩
  | _ => cases hreq

end Claims

/-- Requests in which the device is this runner's: it registers with the runner's table, and is
not forgotten while a poll of its is open. -/
def Serves (runner : Runner) (device : String) (db : Db) (req : Request) : Prop :=
  Declares runner.table.declared device req ∧
    (req = .pollAgain .device device → (db.device? device).isSome = true)

/-- The row declares the table, and what the device holds was offered on it. -/
structure Sound (runner : Runner) (device : String) (db : Db) : Prop where
  declared : DeclaresOnly runner.table.declared device db
  held : ∀ id r, db.job? id = some r → HeldBy device r → ∀ job, Reads r.spec job →
    offered runner.table.declared job = true

theorem Sound.step {runner : Runner} {device : String} {db : Db} (cfg : Config)
    (h : Sound runner device db) {req : Request} (hok : Serves runner device db req) :
    Sound runner device (step cfg db req) := by
  refine ⟨h.declared.step cfg hok.1, ?_⟩
  intro id r' hr' hheld job hread
  rcases heldBy_step cfg hr' hheld with ⟨r, hr, hbefore, hspec⟩ | ⟨hreq, r, hr, hqueued, rfl⟩
  · exact h.held id r hr hbefore job (hspec ▸ hread)
  · obtain ⟨seen, hseen, heligible⟩ := eligible_of_claim cfg hreq hr hqueued hr'
    obtain ⟨d, hd, hcaps⟩ : ∃ d, seen.device? device = some d ∧
        d.capabilities = some runner.table.declared := by
      rcases hseen with ⟨rfl, rfl⟩ | ⟨rfl, hrow⟩
      · obtain ⟨d, hd⟩ := Option.isSome_iff_exists.mp (hok.2 rfl)
        exact ⟨d, hd, h.declared d hd⟩
      · obtain ⟨d, hd⟩ := Option.isSome_iff_exists.mp hrow
        refine ⟨{ d with last_seen := db.sqlNow }, ?_, h.declared d hd⟩
        have hfound : db.devices.find? device = some d := hd
        change (db.devices.update device (fun d => { d with last_seen := db.sqlNow })
          fun _ => rfl).find? device = _
        rw [Table.find?_update, if_pos rfl, hfound]
        rfl
    exact offered_of_eligible hd hcaps heligible hread

/-- What the collector hands a runner is run: on each platform, in every run, a job that a
device holds has a route there exactly when its workload is not written as a pair. -/
theorem handed_taken_iff (cfg : Config) (runner : Runner) {device id : String}
    {reqs : List Request} (hok : Along (step cfg) (Serves runner device) .empty reqs) {r : Job}
    (hr : (after cfg reqs).job? id = some r) (hheld : HeldBy device r) {job : JobSpec}
    (hread : Reads r.spec job) : runner.table.takes job = true ↔ Plain job.workload := by
  have hempty : Sound runner device .empty := by
    refine ⟨fun d hd => ?_, fun id r hr => ?_⟩
    · cases hd
    · cases hr
  have hstep : ∀ db req, Sound runner device db → Serves runner device db req →
      Sound runner device (step cfg db req) := fun _ _ h hreq => h.step cfg hreq
  have hsound : Sound runner device (after cfg reqs) :=
    @invariant _ _ _ (Sound runner device) (Serves runner device) hstep _ _ hempty hok
  exact runner.table.takes_iff (hsound.held id r hr hheld job hread)

/-- A phone is handed a job that calls its workload as the phone calls one of its backends. -/
theorem handed_taken_labelled :
    let reqs : List Request := [.register (Sample.registration "d1"
        [("capabilities", .arr (Android.capabilities.map Json.str))]) none,
      .enqueue (Sample.spec "device" "a" "batch:litert" [] [("backend", .str "litert")]),
      .nextJob "d1"]
    ∃ r, (after .plain reqs).job? "a" = some r ∧ HeldBy "d1" r ∧
      ¬Android.table.takes ⟨"batch:litert", some "litert"⟩ = true := by
  intro reqs
  obtain ⟨hrow, hdeclared⟩ :
      ((after .plain reqs).job? "a").any (fun r => decide (r.executor = .device ∧
        r.status = .claimed ∧ r.claimed_by = some "d1") &&
        ((r.spec.prop "workload").any fun v => v.isStr "batch:litert") &&
        (backendOf r.spec).isStr "litert") = true ∧
      okAnd (readRegistration (Sample.registration "d1"
        [("capabilities", .arr (Android.capabilities.map Json.str))]))
        (fun g => decide (g.capabilities = some Android.capabilities)) = true := by
    decide +kernel
  obtain ⟨r, hr, hrow⟩ := Db.exists_job_of_any hrow
  simp only [Bool.and_eq_true, decide_eq_true_eq] at hrow
  obtain ⟨⟨⟨hkind, hstatus, hby⟩, hworkload⟩, hbackend⟩ := hrow
  obtain ⟨v, hv, hword⟩ := (Option.any_eq_true _ _).mp hworkload
  obtain ⟨g, hg, hnames⟩ := exists_of_okAnd hdeclared
  have hread : Reads r.spec ⟨"batch:litert", some "litert"⟩ :=
    ⟨by rw [hv, Json.isStr_eq_true.mp hword], Json.isStr_eq_true.mp hbackend⟩
  have hheld : HeldBy "d1" r := ⟨hkind, hstatus, hby⟩
  refine ⟨r, hr, hheld, ?_⟩
  rw [← show Runner.android.table = Android.table from rfl]
  rw [handed_taken_iff .plain .android ?_ hr hheld hread]
  · decide
  · refine ⟨⟨fun g' hg' _ => ?_, nofun⟩, ⟨trivial, nofun⟩, ⟨trivial, nofun⟩, trivial⟩
    rw [hg] at hg'
    obtain rfl := Except.ok.inj hg'
    exact of_decide_eq_true hnames

end FleetRunner.Dispatch
