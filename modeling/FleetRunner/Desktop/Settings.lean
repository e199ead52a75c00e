import FleetRunner.Desktop.Config

/-!
# The settings window (`app.js`)

The window shows a part of the file in a form, and applying it writes all of
the file back. What counts is what the command line makes of the new file, and
what the components are started with.
-/

namespace FleetRunner.Desktop

open Objects Fleet.Config

/-! ## The form -/

structure Form where
  /-- The boxes that are ticked. -/
  checked : Role → Bool
  port : String
  collectors : String

section Window

variable (js : Js) (form : Form)

def Form.roles : List Role := ROLES.filter form.checked

def Form.lines : List String :=
  ((form.collectors.toList.splitOn '\n').map fun l => jsTrim (String.ofList l)).filter (· ≠ "")

/-- The configuration as it was shown, with the fields of the form set. -/
def formConfig (saved : Value) : Value :=
  ((saved.written.put "roles" (texts (form.roles.map Role.text))).setIn ["collector", "port"]
    (.num (js.parseNum form.port))).setIn ["agent", "collectors"] (texts form.lines)

/-- A character that `.` stands for. -/
def isDot (c : Char) : Bool := c ∉ ['\n', '\r', '\u2028', '\u2029']

/-- `/^https?:\/\/.+/` -/
def isUrl (u : String) : Bool :=
  ["http://", "https://"].any fun scheme =>
    scheme.toList.isPrefixOf u.toList && ((u.toList.drop scheme.length).head?.any isDot)

/-- `Number.isInteger(port)` and its bounds -/
def isPort : JsNum → Bool
  | .fin q => decide (q.den = 1 ∧ 1 ≤ q.num ∧ q.num ≤ 65535)
  | _ => false

/-- Why the form is not applied. -/
def refuse : Option String :=
  if form.roles = [] then
    some ("Pick at least one role. A fleet with no roles starts nothing, and the CLI would fall " ++
      "back to brain and agent rather than honour it.")
  else if isPort (js.parseNum form.port) = false then
    some "The collector port has to be a whole number between 1 and 65535."
  else
    let bad := form.lines.filter fun u => !isUrl u
    if 0 < bad.length then
      some ("Not a URL: " ++ ", ".intercalate bad ++
        ". Each line needs a scheme, like http://fleet-host.local:8788")
    else none

/-- The file that is there after `Apply`, or what is said instead. -/
def apply (shown : FleetConfig) : Except String Value :=
  match refuse js form with
  | some problem => .error problem
  | none =>
    match FleetConfig.read (formConfig js form shown.toValue).written with
    | none => .error "invalid args"
    | some c => .ok c.toValue

end Window

/-! ## What the form changes -/

section Changes

variable {js : Js} {form : Form} {c : FleetConfig}

def portOf (js : Js) (form : Form) : Rat :=
  match js.parseNum form.port with
  | .fin q => q
  | _ => 0

/-- The app's configuration with the fields of the form. -/
def Form.onConfig (js : Js) (form : Form) (c : FleetConfig) : FleetConfig :=
  { c with
    roles := form.roles.map Role.text
    collector := { c.collector with port := .ofNat (portOf js form).num.toNat }
    agent := { c.agent with collectors := form.lines } }

theorem of_not_refused (h : refuse js form = none) :
    form.roles ≠ [] ∧ ((UInt16.ofNat (portOf js form).num.toNat).toNat : Rat) = portOf js form ∧
      js.parseNum form.port = .fin (portOf js form) := by
  unfold refuse at h
  split at h
  · cases h
  · next hroles =>
    split at h
    · cases h
    · next hport =>
      rw [Bool.not_eq_false] at hport
      refine ⟨hroles, ?_⟩
      cases hnum : js.parseNum form.port with
      | fin q =>
          rw [hnum] at hport
          obtain ⟨hden, hlow, hhigh⟩ := of_decide_eq_true hport
          have hq : portOf js form = q := by rw [portOf, hnum]
          rw [hq]
          refine ⟨?_, rfl⟩
          exact toNat_ofNat_num hden (by omega) (by omega)
      | inf negative =>
          rw [hnum] at hport
          cases hport
      | nan =>
          rw [hnum] at hport
          cases hport

theorem finite_texts (xs : List String) : (texts xs).Finite := by
  apply Value.Finite.arr
  intro x hx
  obtain ⟨s, -, rfl⟩ := List.mem_map.mp hx
  exact .str s

theorem finite_toValue (h : ∀ p ∈ c.extra, p.2.Finite) : c.toValue.Finite := by
  obtain ⟨name, roles, ⟨port, bind, discovery, allow⟩, ⟨collectors, pools, device_id, ttl_s⟩,
    ⟨collector, execName⟩, peers, extra, unheard⟩ := c
  have hcollector : (Collector.mk port bind discovery allow).toValue.Finite := by
    apply Value.Finite.obj
    simp [Value.Finite.num, Value.Finite.bool, finite_texts]
  have hagent : (Agent.mk collectors pools device_id ttl_s).toValue.Finite := by
    apply Value.Finite.obj
    cases device_id <;> cases ttl_s <;>
      simp [field, Value.Finite.num, Value.Finite.str, finite_texts]
  have hexecutor : (Executor.mk collector execName).toValue.Finite := by
    apply Value.Finite.obj
    cases collector <;> cases execName <;> simp [field, Value.Finite.str]
  apply Value.Finite.obj
  intro p hp
  rcases List.mem_append.mp hp with hfield | hextra
  · cases name <;> simp [field] at hfield
    · rcases hfield with rfl | rfl | rfl | rfl | rfl <;>
        first | exact finite_texts _ | assumption
    · rcases hfield with rfl | rfl | rfl | rfl | rfl | rfl <;>
        first | exact finite_texts _ | exact .str _ | assumption
  · exact h p hextra

/-- The form's three fields are set in the copy, and nothing else. -/
theorem formConfig_eq (hextra : ∀ p ∈ c.extra, p.2.Finite) (h : refuse js form = none) :
    formConfig js form c.toValue = (form.onConfig js c).toValue := by
  obtain ⟨-, hport, hnum⟩ := of_not_refused h
  have hwritten := (written_eq_self_iff _).mpr (finite_toValue hextra)
  rw [formConfig, hwritten, hnum, ← hport]
  cases hname : c.name <;>
    simp [FleetConfig.toValue, Form.onConfig, hname, field, Value.put, setProp, Value.setIn,
      Value.child, List.lookup, Collector.toValue, Agent.toValue]

/-- What is not refused is taken. -/
theorem apply_eq (hextra : ∀ p ∈ c.extra, p.2.Finite) (h : refuse js form = none) :
    apply js form c = .ok (form.onConfig js c).toValue := by
  have hfinite : ∀ p ∈ (form.onConfig js c).extra, p.2.Finite := hextra
  rw [apply, h]
  simp only [formConfig_eq hextra h, (written_eq_self_iff _).mpr (finite_toValue hfinite),
    config_read]

end Changes

/-! ## What the command line makes of it -/

/-- What the app shows, as the command line has it. -/
def FleetConfig.settings (js : Js) (c : FleetConfig) : Settings where
  name := c.name
  roles := c.roles.filterMap fun r => role? (.str r)
  port := c.collector.port.toNat
  bind := c.collector.bind
  discovery := c.collector.discovery
  tailnetAllowlist := c.collector.tailnet_allowlist
  collectors := c.agent.collectors
  pools := c.agent.pools
  deviceId := c.agent.device_id
  ttlS := c.agent.ttl_s
  executorCollector := c.executor.collector
  executorName := c.executor.name
  peers := c.peers
  env := (envMap js (c.extra.lookup "env")).1

def Form.on (js : Js) (form : Form) (s : Settings) : Settings :=
  { s with roles := form.roles, port := portOf js form, collectors := form.lines }

section Loaded

variable {js : Js} {form : Form} {c : FleetConfig} {v : Value}

/-- A section of the command line has what the app's copy of it has. -/
structure SameCollector (ps : Props) (x : Collector) : Prop where
  port : (ps.lookup "port").bind ratOf = some (x.port.toNat : Rat)
  bind : (ps.lookup "bind").bind textsOf = some x.bind
  discovery : (ps.lookup "discovery").bind flagOf = some x.discovery
  tailnetAllowlist : (ps.lookup "tailnetAllowlist").bind textsOf = some x.tailnet_allowlist

structure SameAgent (ps : Props) (a : Agent) : Prop where
  collectors : (ps.lookup "collectors").bind textsOf = some a.collectors
  pools : (ps.lookup "pools").bind textsOf = some a.pools
  deviceId : nullable textOf (ps.lookup "deviceId") = some a.device_id
  ttlS : absentOr ratOf (ps.lookup "ttlS") = some a.ttl_s

structure SameExecutor (ps : Props) (e : Executor) : Prop where
  collector : nullable textOf (ps.lookup "collector") = some e.collector
  name : nullable textOf (ps.lookup "name") = some e.name

/-- The whole configuration, section by section. -/
theorem settings?_eq {d : Fleet.Config.FleetConfig} (hname : nullable textOf d.name = some c.name)
    (hroles : d.roles = c.roles.filterMap fun r => role? (.str r))
    (hcollector : SameCollector d.collector c.collector) (hagent : SameAgent d.agent c.agent)
    (hexecutor : SameExecutor d.executor c.executor)
    (hpeers : d.peers.mapM textOf = some c.peers)
    (henv : d.env = (envMap js (c.extra.lookup "env")).1) :
    settings? d = some (c.settings js) := by
  unfold settings?
  rw [hname, hcollector.port, hcollector.bind, hcollector.discovery, hcollector.tailnetAllowlist,
    hagent.collectors, hagent.pools, hagent.deviceId, hagent.ttlS, hexecutor.collector,
    hexecutor.name, hpeers, hroles, henv]
  rfl

theorem ratOf_of_u16Of {w : Value} {n : UInt16} (h : u16Of w = some n) :
    ratOf w = some (n.toNat : Rat) := by
  unfold u16Of at h
  split at h
  · next q =>
    split at h
    · next hq =>
      obtain ⟨hden, hlow, hhigh⟩ := hq
      rw [← Option.some.inj h, toNat_ofNat_num hden hlow hhigh]
      rfl
    · cases h
  · cases h

theorem SameCollector.of_read {ps : Props} {x : Collector}
    (h : Collector.read (.obj ps) = some x) : SameCollector ps x := by
  obtain ⟨hport, hbind, hdiscovery, hallow⟩ := collector_read_iff.mp h
  refine ⟨?_, hbind, hdiscovery, hallow⟩
  obtain ⟨w, hw, hn⟩ := Option.bind_eq_some_iff.mp hport
  rw [hw, Option.bind_some, ratOf_of_u16Of hn]

theorem SameAgent.of_read {ps : Props} {a : Agent} (h : Agent.read (.obj ps) = some a)
    (httl : ps.lookup "ttlS" ≠ some .null) : SameAgent ps a := by
  obtain ⟨hcollectors, hpools, hdevice, hseconds⟩ := agent_read_iff.mp h
  refine ⟨hcollectors, hpools, hdevice, ?_⟩
  rw [← hseconds]
  cases hlookup : ps.lookup "ttlS" with
  | none => rfl
  | some w =>
      cases w with
      | null => exact absurd hlookup httl
      | _ => rfl

theorem SameExecutor.of_read {ps : Props} {e : Executor}
    (h : Executor.read (.obj ps) = some e) : SameExecutor ps e :=
  ⟨(executor_read_iff.mp h).1, (executor_read_iff.mp h).2⟩

theorem filterMap_texts (xs : List String) :
    (xs.map Value.str).filterMap role? = xs.filterMap fun r => role? (.str r) := by
  rw [List.filterMap_map]
  rfl

/-- The file the app writes has for the command line what the app shows. -/
theorem settings?_toValue (hroles : (c.settings js).roles ≠ []) :
    settings? (fromDisk js c.toValue).1 = some (c.settings js) := by
  obtain ⟨hname, hrole, hcollector, hagent, hexecutor, hpeers, henv⟩ := lookup_toValue c
  have hcollectorRead := collector_read c.collector
  have hagentRead := agent_read c.agent
  have hexecutorRead := executor_read c.executor
  have hcovers : ∀ p ∈ Fleet.Config.defaults.collector,
      (List.lookup p.1 [("port", Value.num (.fin c.collector.port.toNat)),
        ("bind", texts c.collector.bind), ("discovery", .bool c.collector.discovery),
        ("tailnetAllowlist", texts c.collector.tailnet_allowlist)]).isSome = true := by
    simp [Fleet.Config.defaults, List.lookup]
  have hcoversAgent : ∀ p ∈ Fleet.Config.defaults.agent,
      (List.lookup p.1 ([("collectors", texts c.agent.collectors),
        ("pools", texts c.agent.pools)] ++ field "deviceId" (c.agent.device_id.map .str) ++
          field "ttlS" (c.agent.ttl_s.map fun q => .num (.fin q)))).isSome = true := by
    simp [Fleet.Config.defaults, List.lookup]
  have httl : List.lookup "ttlS" ([("collectors", texts c.agent.collectors),
      ("pools", texts c.agent.pools)] ++ field "deviceId" (c.agent.device_id.map .str) ++
        field "ttlS" (c.agent.ttl_s.map fun q => .num (.fin q))) ≠ some .null := by
    cases c.agent.device_id <;> cases c.agent.ttl_s <;> simp [field, List.lookup]
  apply settings?_eq
  · change nullable textOf (c.toValue.child "name") = _
    rw [hname]
    cases c.name <;> rfl
  · simp only [fromDisk, hrole, texts, filterMap_texts]
    exact if_pos (List.length_pos_of_ne_nil hroles)
  · simp only [fromDisk, hcollector, Collector.toValue, overlay_of_covers hcovers]
    exact .of_read hcollectorRead
  · simp only [fromDisk, hagent, Agent.toValue, overlay_of_covers hcoversAgent]
    exact .of_read hagentRead httl
  · simp only [fromDisk, hexecutor, Executor.toValue, Fleet.Config.defaults]
    rw [overlay_of_covers (List.forall_mem_nil _)]
    exact .of_read hexecutorRead
  · simp only [fromDisk, hpeers, texts]
    exact mapM_textOf c.peers
  · simp only [fromDisk, henv]

end Loaded

/-! ## What the app makes of the file -/

section Merged

variable {js : Js} {form : Form} {c : FleetConfig} {v : Value} {disk : Props}

theorem lookup_insertAll (into from_ : Props) (k : String) :
    (insertAll into from_).lookup k = (from_.lookup k).or (into.lookup k) := by
  rw [insertAll, List.lookup_append]
  cases hfrom : from_.lookup k with
  | some w => rfl
  | none =>
      rw [Option.none_or, Option.none_or]
      induction into with
      | nil => rfl
      | cons p rest ih =>
          obtain ⟨j, w⟩ := p
          by_cases hj : k = j
          · subst hj
            rw [List.filter_cons_of_pos (by simp [hfrom]), List.lookup_cons_self,
              List.lookup_cons_self]
          · have hne : (k == j) = false := beq_false_of_ne hj
            rw [List.filter_cons, List.lookup_cons, hne]
            split
            · rw [List.lookup_cons, hne]
              exact ih
            · exact ih

theorem lookup_mapped (f : String → Value → Value) (k : String) :
    (disk.map fun p => (p.1, f p.1 p.2)).lookup k = (disk.lookup k).map (f k) := by
  induction disk with
  | nil => rfl
  | cons p rest ih =>
      obtain ⟨j, w⟩ := p
      rw [List.map_cons, List.lookup_cons, List.lookup_cons]
      by_cases hj : k = j
      · subst hj
        simp
      · rw [beq_false_of_ne hj]
        exact ih

/-- The properties of the merged object. -/
def mergedProps (disk : Props) : Props :=
  insertAll base (disk.map fun p => (p.1, mergeValue (base.lookup p.1) p.2))

theorem lookup_mergedProps (k : String) : (mergedProps disk).lookup k =
    ((disk.lookup k).map (mergeValue (base.lookup k))).or (base.lookup k) := by
  rw [mergedProps, lookup_insertAll, lookup_mapped fun k => mergeValue (base.lookup k)]

theorem base_eq : base = [("roles", texts ["brain", "agent"]),
    ("collector", .obj Fleet.Config.defaults.collector),
    ("agent", .obj Fleet.Config.defaults.agent), ("executor", .obj []), ("peers", texts [])] := by
  simp [base, FleetConfig.default, FleetConfig.toValue, field, Collector.toValue, Agent.toValue,
    Executor.toValue, texts, Fleet.Config.defaults]

/-- A key that the defaults have nothing under has what is on disk. -/
theorem lookup_merged_free {k : String} (hbase : base.lookup k = none) :
    (mergedProps disk).lookup k = disk.lookup k := by
  have hmerge : mergeValue none = id := rfl
  rw [lookup_mergedProps, hbase, hmerge, Option.map_id, id_eq, Option.or_none]

/-- A list of texts on disk takes the place of the default. -/
theorem lookup_merged_texts {k : String} {xs : List String}
    (hbase : base.lookup k = some (texts xs)) :
    (mergedProps disk).lookup k = some ((disk.lookup k).getD (texts xs)) := by
  have hmerge : mergeValue (some (texts xs)) = id := rfl
  rw [lookup_mergedProps, hbase, hmerge, Option.map_id, id_eq]
  cases disk.lookup k <;> rfl

/-- A section is laid over its default as the command line lays it. -/
theorem lookup_merged_section {k : String} {d : Props} (hbase : base.lookup k = some (.obj d))
    (hsection : ∀ w, disk.lookup k = some w → ∃ ps, w = .obj ps) :
    (mergedProps disk).lookup k = some (.obj (overlay d (disk.lookup k))) := by
  rw [lookup_mergedProps, hbase]
  cases hdisk : disk.lookup k with
  | none =>
      have hall : d.filter (fun p => (([] : Props).lookup p.1).isNone) = d :=
        List.filter_eq_self.mpr fun _ _ => rfl
      rw [overlay, Option.elim_none, hall]
      rfl
  | some w =>
      obtain ⟨ps, rfl⟩ := hsection w hdisk
      rfl

/-- The file has the app's types, in sections that are objects, and no null for `ttlS`. -/
structure Readable (v : Value) : Prop where
  typed : (readDisk v).isSome = true
  sections : ∀ k ∈ ["collector", "agent", "executor"], ∀ w, v.child k = some w → ∃ ps, w = .obj ps
  ttl : ∀ w, v.child "agent" = some w → w.child "ttlS" ≠ some .null

/-- The default has no `ttlS`. -/
theorem Readable.lookup_ttl (h : Readable (.obj disk)) :
    (overlay Fleet.Config.defaults.agent (disk.lookup "agent")).lookup "ttlS" ≠ some .null := by
  have hnone : Fleet.Config.defaults.agent.lookup "ttlS" = none := rfl
  cases hagent : disk.lookup "agent" with
  | none =>
      change (insertAll Fleet.Config.defaults.agent []).lookup "ttlS" ≠ _
      rw [lookup_insertAll, hnone]
      simp
  | some w =>
      obtain ⟨ps, rfl⟩ := h.sections "agent" (by simp) w hagent
      change (insertAll Fleet.Config.defaults.agent ps).lookup "ttlS" ≠ _
      rw [lookup_insertAll, hnone, Option.or_none]
      exact h.ttl _ hagent

theorem role?_eq_none {s : String} : role? (.str s) = none ↔ s ∉ roleTexts := by
  simp only [role?, List.find?_eq_none, decide_eq_true_eq, roleTexts, List.mem_map, not_exists,
    not_and]

theorem filterMap_known (rs : List String) :
    (rs.filter fun r => decide (r ∈ roleTexts)).filterMap (fun r => role? (.str r)) =
      rs.filterMap fun r => role? (.str r) := by
  rw [List.filterMap_filter]
  apply List.filterMap_congr
  intro r _
  by_cases hr : r ∈ roleTexts
  · simp [hr]
  · simp [hr, role?_eq_none.mpr hr]

theorem roles_withRoles (c : FleetConfig) : (c.withRoles.settings js).roles =
    if 0 < (c.roles.filterMap fun r => role? (.str r)).length then
      c.roles.filterMap fun r => role? (.str r)
    else Fleet.Config.defaults.roles := by
  have hknown := filterMap_known c.roles
  simp only [FleetConfig.settings, FleetConfig.withRoles]
  by_cases hnone : c.roles.filter (fun r => decide (r ∈ roleTexts)) = []
  · rw [hnone] at hknown ⊢
    rw [← hknown]
    decide
  · obtain ⟨r, hr⟩ := List.exists_mem_of_ne_nil _ hnone
    have hrole : role? (.str r) ≠ none := fun h =>
      role?_eq_none.mp h (of_decide_eq_true (List.mem_filter.mp hr).2)
    obtain ⟨x, hx⟩ := Option.ne_none_iff_exists'.mp hrole
    have hmem : x ∈ c.roles.filterMap fun r => role? (.str r) :=
      List.mem_filterMap.mpr ⟨r, (List.mem_filter.mp hr).1, hx⟩
    rw [if_pos (List.length_pos_of_mem hmem), ← hknown]
    simp [hnone]

theorem roles_fromDisk {rs : List String}
    (h : textsOf ((disk.lookup "roles").getD (texts ["brain", "agent"])) = some rs) :
    (fromDisk js (.obj disk)).1.roles =
      if 0 < (rs.filterMap fun r => role? (.str r)).length then
        rs.filterMap fun r => role? (.str r)
      else Fleet.Config.defaults.roles := by
  cases hlookup : disk.lookup "roles" with
  | none =>
      rw [hlookup, Option.getD_none, textsOf_texts] at h
      rw [← Option.some.inj h]
      simp only [fromDisk, Value.child, hlookup]
      decide
  | some w =>
      rw [hlookup, Option.getD_some] at h
      rw [texts_of_textsOf h, texts] at hlookup
      simp only [fromDisk, Value.child, hlookup, filterMap_texts]

theorem peers_fromDisk {ps : List String}
    (h : textsOf ((disk.lookup "peers").getD (texts [])) = some ps) :
    (fromDisk js (.obj disk)).1.peers.mapM textOf = some ps := by
  cases hlookup : disk.lookup "peers" with
  | none =>
      rw [hlookup, Option.getD_none, textsOf_texts] at h
      rw [← Option.some.inj h]
      simp only [fromDisk, Value.child, hlookup]
      rfl
  | some w =>
      rw [hlookup, Option.getD_some] at h
      rw [texts_of_textsOf h, texts] at hlookup
      simp only [fromDisk, Value.child, hlookup, mapM_textOf]

theorem lookup_extraOf {ps : Props} {k : String} (hk : k ∉ FIELDS) :
    (extraOf ps).lookup k = ps.lookup k := by
  induction ps with
  | nil => rfl
  | cons p rest ih =>
      obtain ⟨j, w⟩ := p
      rw [extraOf, List.filter_cons, List.lookup_cons]
      by_cases hj : k = j
      · subst hj
        simp [hk]
      · rw [beq_false_of_ne hj]
        split
        · rw [List.lookup_cons, beq_false_of_ne hj]
          exact ih
        · exact ih

/-- The app shows what the command line has. -/
theorem settings?_fromDisk (h : Readable v) (hread : readDisk v = some c) :
    settings? (fromDisk js v).1 = some (c.settings js) := by
  obtain ⟨disk, rfl⟩ : ∃ disk, v = .obj disk := by
    cases v with
    | obj disk => exact ⟨disk, rfl⟩
    | _ => cases hread
  obtain ⟨c₀, hc₀, rfl⟩ := Option.map_eq_some_iff.mp hread
  obtain ⟨hname, hroles, hcollector, hagent, hexecutor, hpeers, hextra⟩ :=
    config_read_iff.mp (show FleetConfig.read (.obj (mergedProps disk)) = some c₀ from hc₀)
  rw [lookup_merged_free (by rw [base_eq]; rfl)] at hname
  rw [lookup_merged_texts (by rw [base_eq]; rfl), Option.bind_some] at hroles hpeers
  rw [lookup_merged_section (by rw [base_eq]; rfl) (h.sections _ (by simp)),
    Option.bind_some] at hcollector
  rw [lookup_merged_section (by rw [base_eq]; rfl) (h.sections _ (by simp)),
    Option.bind_some] at hagent
  rw [lookup_merged_section (by rw [base_eq]; rfl) (h.sections _ (by simp)),
    Option.bind_some] at hexecutor
  apply settings?_eq
  · exact hname
  · change _ = (c₀.withRoles.settings js).roles
    rw [roles_withRoles]
    exact roles_fromDisk hroles
  · exact .of_read hcollector
  · exact .of_read hagent h.lookup_ttl
  · exact .of_read hexecutor
  · exact peers_fromDisk hpeers
  · change (envMap js (disk.lookup "env")).1 = (envMap js (c₀.extra.lookup "env")).1
    rw [← hextra, lookup_extraOf (by decide), lookup_merged_free (by rw [base_eq]; rfl)]

theorem not_mem_fields_lookup {k : String} (hk : k ∉ FIELDS) : base.lookup k = none := by
  rw [base_eq]
  apply List.lookup_eq_none_iff.mpr
  intro p hp
  apply bne_iff_ne.mpr
  intro heq
  apply hk
  rw [heq]
  simp only [List.mem_cons, List.not_mem_nil, or_false] at hp
  rcases hp with rfl | rfl | rfl | rfl | rfl <;> decide

/-- What the app does not know it has from the file as it is. -/
theorem mem_of_mem_extraOf {p : String × Value} (hp : p ∈ extraOf (mergedProps disk)) :
    p ∈ disk := by
  have hunheard := unheard_extraOf p hp
  have hnone := not_mem_fields_lookup hunheard
  rcases List.mem_append.mp (List.mem_filter.mp hp).1 with hdisk | hbase
  · obtain ⟨q, hq, rfl⟩ := List.mem_map.mp hdisk
    change base.lookup q.1 = none at hnone
    rw [hnone]
    exact hq
  · obtain hne := List.lookup_eq_none_iff.mp hnone p (List.mem_filter.mp hbase).1
    exact absurd rfl (bne_iff_ne.mp hne)

theorem finite_merge (h : v.Finite) : ∀ p ∈ (merge v).extra, p.2.Finite := by
  intro p hp
  cases hread : readDisk v with
  | none =>
      rw [merge, hread] at hp
      exact absurd hp List.not_mem_nil
  | some c =>
      rw [merge, hread, Option.getD_some] at hp
      cases h with
      | obj disk hdisk =>
          obtain ⟨c₀, hc₀, rfl⟩ := Option.map_eq_some_iff.mp hread
          have hextra := (config_read_iff.mp
            (show FleetConfig.read (.obj (mergedProps disk)) = some c₀ from hc₀)).2.2.2.2.2.2
          apply hdisk
          apply mem_of_mem_extraOf
          rw [hextra]
          exact hp
      | _ => cases hread

end Merged

/-! ## What changes for a component -/

section Applied

variable {js : Js} {form : Form} {c : FleetConfig} {v : Value}

/-- The form's three fields are the settings', and nothing else. -/
theorem settings_onConfig (h : refuse js form = none) :
    (form.onConfig js c).settings js = form.on js (c.settings js) := by
  obtain ⟨-, hport, -⟩ := of_not_refused h
  have hrole : ∀ r : Role, role? (.str r.text) = some r := by
    intro r
    cases r <;> decide
  have hroles : (form.roles.map Role.text).filterMap (fun r => role? (.str r)) = form.roles := by
    rw [List.filterMap_map]
    calc
      form.roles.filterMap ((fun r => role? (.str r)) ∘ Role.text) =
          form.roles.filterMap some := List.filterMap_congr fun r _ => hrole r
      _ = form.roles := List.filterMap_some
  simp only [FleetConfig.settings, Form.onConfig, Form.on, hport, hroles]

/-- Both programs have the same defaults. -/
theorem settings?_defaults :
    settings? Fleet.Config.defaults = some (FleetConfig.default.settings js) := by
  apply settings?_eq
  · rfl
  · rfl
  · exact .of_read (collector_read FleetConfig.default.collector)
  · apply SameAgent.of_read (agent_read FleetConfig.default.agent)
    simp [FleetConfig.default, field, List.lookup]
  · exact .of_read (executor_read FleetConfig.default.executor)
  · rfl
  · rfl

/-- Applying the form changes the roles, the port and the collectors that the
command line has, to what is in the form. Every other variable that a component
is started with stays as it was. -/
theorem applied_settings (hfinite : v.Finite) (h : refuse js form = none) :
    ∃ file old, apply js form (merge v) = .ok file ∧
      settings? (fromDisk js file).1 = some (form.on js old) ∧
      (Readable v → settings? (fromDisk js v).1 = some old) ∧
      (readDisk v = none → settings? Fleet.Config.defaults = some old) ∧
      (∀ host role env, AgreeOff ["FLEET_PORT", "FLEET_URL"]
        (childEnv js host role (form.on js old) env) (childEnv js host role old env)) ∧
      (∀ host env, Free "FLEET_PORT" old env →
        childEnv js host .brain (form.on js old) env "FLEET_PORT" =
          some (js.showNum (portOf js form))) ∧
      ∀ host env, Free "FLEET_URL" old env →
        childEnv js host .agent (form.on js old) env "FLEET_URL" =
          form.lines.head?.or (if .brain ∈ form.roles then
            some ("http://127.0.0.1:" ++ js.showNum (portOf js form)) else none) := by
  have hextra := finite_merge hfinite
  obtain ⟨hroles, -, -⟩ := of_not_refused h
  refine ⟨_, (merge v).settings js, apply_eq hextra h, ?_, ?_, ?_, ?_, ?_, ?_⟩
  · rw [← settings_onConfig h]
    apply settings?_toValue
    rw [settings_onConfig h]
    exact hroles
  · intro hreadable
    obtain ⟨c, hread⟩ := Option.isSome_iff_exists.mp hreadable.typed
    rw [merge, hread, Option.getD_some]
    exact settings?_fromDisk hreadable hread
  · intro hnone
    rw [merge, hnone, Option.getD_none]
    exact settings?_defaults
  · intro host role env
    exact agree_childEnv js host role _ form.roles (portOf js form) form.lines env
  · intro host env hfree
    exact brain_port host ⟨hfree.env, hfree.file⟩
  · intro host env hfree
    have hform : Free "FLEET_URL" (form.on js ((merge v).settings js)) env :=
      ⟨hfree.env, hfree.file⟩
    rw [agent_url host hform, head_agentCollectors]
    rfl

def partFile : Value := .obj [("roles", .arr [.str "agent"]),
  ("collector", .obj [("port", .num (.fin 9000))]), ("theme", .obj [("dark", .bool true)]),
  ("env", .obj [("FLEET_WEB", .bool true)])]

def bothRoles : Form where
  checked r := decide (r ≠ .executor)
  port := "9001"
  collectors := "  http://fleet-host.local:8788 \n"

/-- A file with a part of the settings, and a key that the app has not heard of. -/
theorem applied_settings_part : ∃ file old, apply Js.plain bothRoles (merge partFile) = .ok file ∧
    settings? (fromDisk Js.plain file).1 = some (bothRoles.on Js.plain old) ∧
      settings? (fromDisk Js.plain partFile).1 = some old := by
  have hfinite : partFile.Finite := by
    apply (written_eq_self_iff partFile).mp
    rfl
  have hreadable : Readable partFile := by
    refine ⟨by decide +kernel, ?_, ?_⟩
    · intro k hk w hw
      simp only [List.mem_cons, List.not_mem_nil, or_false] at hk
      rcases hk with rfl | rfl | rfl
      · exact ⟨_, (Option.some.inj hw).symm⟩
      · cases hw
      · cases hw
    · intro w hw
      cases hw
  have htaken : refuse Js.plain bothRoles = none := by decide
  obtain ⟨file, old, happly, hnew, hold, -⟩ := applied_settings hfinite htaken
  exact ⟨file, old, happly, hnew, hold hreadable⟩

end Applied

end FleetRunner.Desktop
