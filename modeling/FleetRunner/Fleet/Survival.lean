import FleetRunner.Fleet.Config
import FleetRunner.Library.Pieces
import Mathlib.Data.Rat.Defs

/-!
# Settings and the next load

A setting survives when the next load reads it as it was coerced, every other path as
before, and setting it again changes nothing. The loader keeps what stands in a place
that it keeps, as the setter's walk finds it.
-/

namespace FleetRunner.Fleet.Config

open Objects

variable {js : Js} {upper : String → String} {file : String}

/-! ## What is loaded -/

/-- What every load makes sure of. -/
structure FleetConfig.Loaded (c : FleetConfig) : Prop where
  roles : c.roles ≠ []
  collector : ∀ p ∈ defaults.collector, (c.collector.lookup p.1).isSome = true
  agent : ∀ p ∈ defaults.agent, (c.agent.lookup p.1).isSome = true
  env : ∀ p ∈ c.env, isEnvKey p.1 = true

theorem lookup_overlay {base : Props} (v : Option Value) {p : String × Value} (hp : p ∈ base) :
    ((overlay base v).lookup p.1).isSome = true := by
  rw [overlay, List.lookup_append]
  cases hover : (v.elim [] spread).lookup p.1 with
  | some u => rfl
  | none =>
    rw [Option.none_or, List.lookup_isSome_iff]
    refine ⟨p, List.mem_filter.mpr ⟨hp, ?_⟩, beq_self_eq_true p.1⟩
    rw [hover]
    rfl

theorem overlay_of_covers {base ps : Props}
    (h : ∀ p ∈ base, (ps.lookup p.1).isSome = true) : overlay base (some (.obj ps)) = ps := by
  have hnone : base.filter (fun p => (ps.lookup p.1).isNone) = [] := by
    rw [List.filter_eq_nil_iff]
    intro p hp
    rw [Option.isNone_eq_false_iff.mpr (h p hp)]
    decide
  rw [overlay, Option.elim_some, spread, hnone, List.append_nil]

theorem isEnvKey_of_mem_envMap {v : Option Value} {p : String × String}
    (h : p ∈ (envMap js v).1) : isEnvKey p.1 = true := by
  unfold envMap at h
  split at h
  · cases h
  · next ps =>
    obtain ⟨q, -, hq⟩ := List.mem_filterMap.mp h
    obtain ⟨s, hs, rfl⟩ := Option.map_eq_some_iff.mp hq
    have hentry := Library.toOption_eq_some.mp hs
    unfold envEntry at hentry
    split at hentry
    · next hkey => exact hkey
    · cases hentry
  · cases h

theorem loaded_fromDisk (v : Value) : (fromDisk js v).1.Loaded := by
  have hroles : ∀ rs : List Role, (if 0 < rs.length then rs else defaults.roles) ≠ [] := by
    intro rs
    split
    · next hlength => exact List.ne_nil_of_length_pos hlength
    · decide
  exact ⟨hroles _, fun p hp => lookup_overlay _ hp, fun p hp => lookup_overlay _ hp,
    fun p hp => isEnvKey_of_mem_envMap hp⟩

theorem loaded_of_load {disk : OnDisk} {c : FleetConfig} {said : List String}
    (h : load js file disk = .ok (c, said)) : c.Loaded := by
  have hdisk : ∃ v, (fromDisk js v).1 = c := by
    unfold load at h
    split at h
    · exact ⟨_, congrArg Prod.fst (Except.ok.inj h)⟩
    · exact ⟨_, congrArg Prod.fst (Except.ok.inj h)⟩
    · cases h
    · exact ⟨_, congrArg Prod.fst (Except.ok.inj h)⟩
  obtain ⟨v, rfl⟩ := hdisk
  exact loaded_fromDisk v

theorem role?_text (r : Role) : role? (.str r.text) = some r := by
  cases r <;> decide

theorem child_toValue (c : FleetConfig) :
    c.toValue.child "name" = c.name ∧
    c.toValue.child "roles" = some (.arr (c.roles.map fun r => .str r.text)) ∧
    c.toValue.child "collector" = some (.obj c.collector) ∧
    c.toValue.child "agent" = some (.obj c.agent) ∧
    c.toValue.child "executor" = some (.obj c.executor) ∧
    c.toValue.child "peers" = some (.arr c.peers) ∧
    c.toValue.child "env" = some (.obj (c.env.map fun p => (p.1, .str p.2))) := by
  refine ⟨?_, rfl, rfl, rfl, rfl, rfl, rfl⟩
  obtain ⟨name, roles, collector, agent, executor, peers, env⟩ := c
  cases name <;> rfl

theorem envMap_toValue {env : List (String × String)} (h : ∀ p ∈ env, isEnvKey p.1 = true) :
    envMap js (some (.obj (env.map fun p => (p.1, .str p.2)))) = (env, []) := by
  have hentry : ∀ p ∈ env, envEntry js p.1 (.str p.2) = .ok p.2 := fun p hp => by
    rw [envEntry, if_pos (h p hp)]
  rw [envMap, List.filterMap_map, List.filterMap_map]
  refine Prod.ext ?_ ?_
  · refine Eq.trans (List.filterMap_congr fun p hp => ?_) (List.filterMap_some)
    rw [Function.comp_apply, hentry p hp]
    rfl
  · refine List.filterMap_eq_nil_iff.mpr fun p hp => ?_
    rw [Function.comp_apply, hentry p hp]

/-- What is loaded is loaded again as it is. -/
theorem load_toValue {c : FleetConfig} (h : c.Loaded) :
    load js file (.parsed c.toValue) = .ok (c, []) := by
  obtain ⟨hname, hroles, hcollector, hagent, hexecutor, hpeers, henv⟩ := child_toValue c
  have hfilter : (c.roles.map fun r => Value.str r.text).filterMap role? = c.roles := by
    rw [List.filterMap_map]
    exact (List.filterMap_congr fun r _ => role?_text r).trans List.filterMap_some
  have hsome : 0 < c.roles.length := List.length_pos_of_ne_nil h.roles
  have hexec : overlay defaults.executor (some (.obj c.executor)) = c.executor :=
    overlay_of_covers (List.forall_mem_nil _)
  change Except.ok (fromDisk js c.toValue) = _
  simp only [fromDisk, hname, hroles, hcollector, hagent, hexecutor, hpeers, henv, hfilter,
    if_pos hsome, overlay_of_covers h.collector, overlay_of_covers h.agent, hexec,
    envMap_toValue h.env]

def FleetConfig.written (c : FleetConfig) : FleetConfig where
  name := c.name.map Value.written
  roles := c.roles
  collector := c.collector.map fun p => (p.1, p.2.written)
  agent := c.agent.map fun p => (p.1, p.2.written)
  executor := c.executor.map fun p => (p.1, p.2.written)
  peers := c.peers.map Value.written
  env := c.env

theorem FleetConfig.Loaded.written {c : FleetConfig} (h : c.Loaded) : c.written.Loaded := by
  refine ⟨h.roles, fun p hp => ?_, fun p hp => ?_, h.env⟩
  · rw [FleetConfig.written, lookup_map Value.written, Option.isSome_map]
    exact h.collector p hp
  · rw [FleetConfig.written, lookup_map Value.written, Option.isSome_map]
    exact h.agent p hp

theorem toValue_written (c : FleetConfig) : c.toValue.written = c.written.toValue := by
  obtain ⟨name, roles, collector, agent, executor, peers, env⟩ := c
  rw [FleetConfig.toValue, written_obj]
  cases name <;>
    simp [FleetConfig.toValue, FleetConfig.written, writtenElems_eq, writtenProps_eq,
      Function.comp_def, Value.written]

/-! ## Places that are kept -/

/-- The loader keeps the value at the path. -/
inductive Stored (t : Value) : List String → Value → Prop where
  | name (v : Value) : Stored t ["name"] v
  | roles {rs : List Role} (h : rs ≠ []) : Stored t ["roles"] (.arr (rs.map fun r => .str r.text))
  | role {k : String} (h : (t.at? ["roles", k]).isSome = true) (r : Role) :
      Stored t ["roles", k] (.str r.text)
  | peers (xs : List Value) : Stored t ["peers"] (.arr xs)
  | env {k : String} (h : isEnvKey k = true) (s : String) : Stored t ["env", k] (.str s)
  | inside {top : String} {rest : List String}
      (htop : top ∈ ["name", "collector", "agent", "executor", "peers"]) (hne : rest ≠ [])
      (h : t.Lands (top :: rest)) (v : Value) : Stored t (top :: rest) v

theorem setIn_single (v : Value) (k : String) (w : Value) : v.setIn [k] w = v.put k w := by
  cases hchild : v.child k with
  | some u => exact setIn_child hchild w
  | none => exact setIn_new hchild w

theorem obj_setIn {path : List String} (hne : path ≠ []) (ps : Props) (v : Value) :
    ∃ ps', (Value.obj ps).setIn path v = .obj ps' ∧
      ∀ k, (ps.lookup k).isSome = true → (ps'.lookup k).isSome = true := by
  obtain ⟨key, rest, rfl⟩ := List.exists_cons_of_ne_nil hne
  have hkeys : ∀ w k, (ps.lookup k).isSome = true →
      ((setProp ps key w).lookup k).isSome = true := by
    intro w k hk
    by_cases heq : k = key
    · rw [heq, lookup_setProp_self]
      rfl
    · rwa [lookup_setProp_of_ne ps heq]
  rw [Value.setIn]
  split
  · exact ⟨_, rfl, hkeys _⟩
  · exact ⟨_, rfl, hkeys _⟩

theorem arr_setIn {path : List String} (hne : path ≠ []) (xs : List Value) (v : Value) :
    ∃ xs', (Value.arr xs).setIn path v = .arr xs' := by
  obtain ⟨key, rest, rfl⟩ := List.exists_cons_of_ne_nil hne
  have hput : ∀ w, ∃ xs', (Value.arr xs).put key w = .arr xs' := by
    intro w
    rw [Value.put]
    split
    · exact ⟨_, rfl⟩
    · exact ⟨_, rfl⟩
  rw [Value.setIn]
  split
  · exact hput _
  · exact hput _

theorem setProp_env {env : List (String × String)} {k : String} (hk : isEnvKey k = true)
    (henv : ∀ p ∈ env, isEnvKey p.1 = true) (s : String) :
    ∃ env' : List (String × String), setProp (env.map fun p => (p.1, .str p.2)) k (.str s) =
        env'.map (fun p => (p.1, .str p.2)) ∧ ∀ p ∈ env', isEnvKey p.1 = true := by
  induction env with
  | nil => exact ⟨[(k, s)], rfl, List.forall_mem_singleton.mpr hk⟩
  | cons p env ih =>
    rw [List.forall_mem_cons] at henv
    rw [List.map_cons, setProp]
    split
    · exact ⟨(k, s) :: env, rfl, List.forall_mem_cons.mpr ⟨hk, henv.2⟩⟩
    · obtain ⟨env', heq, hkeys⟩ := ih henv.2
      exact ⟨p :: env', by rw [heq]; rfl, List.forall_mem_cons.mpr ⟨henv.1, hkeys⟩⟩

/-- A value in such a place makes a configuration that is loaded as it is. -/
theorem stored_config {c : FleetConfig} (hc : c.Loaded) {path : List String} {v : Value}
    (h : Stored c.toValue path v) :
    ∃ c' : FleetConfig, c'.Loaded ∧ c.toValue.setIn path v = c'.toValue := by
  obtain ⟨hname, hroles, hcollector, hagent, hexecutor, hpeers, henv⟩ := child_toValue c
  have hputName : ∀ w, c.toValue.put "name" w = { c with name := some w }.toValue := by
    intro w
    obtain ⟨name, roles, collector, agent, executor, peers, env⟩ := c
    cases name <;> rfl
  cases h with
  | name =>
    rw [setIn_single]
    exact ⟨{ c with name := some v }, ⟨hc.roles, hc.collector, hc.agent, hc.env⟩, hputName v⟩
  | @roles rs hrs =>
    rw [setIn_single]
    exact ⟨{ c with roles := rs }, ⟨hrs, hc.collector, hc.agent, hc.env⟩, rfl⟩
  | @role k hat r =>
    rw [Value.at?, hroles, Option.bind_some, Value.at?, Value.child] at hat
    obtain ⟨w, hw⟩ := Option.isSome_iff_exists.mp hat
    obtain ⟨u, hu, -⟩ := Option.bind_eq_some_iff.mp hw
    obtain ⟨i, hi, -⟩ := Option.bind_eq_some_iff.mp hu
    rw [setIn_child hroles, setIn_single, Value.put, hi]
    refine ⟨{ c with roles := c.roles.set i r }, ⟨?_, hc.collector, hc.agent, hc.env⟩, ?_⟩
    · intro hnil
      have hlength := congrArg List.length hnil
      rw [List.length_set] at hlength
      exact hc.roles (List.eq_nil_of_length_eq_zero hlength)
    · simp only [FleetConfig.toValue, List.map_set]
      rfl
  | peers xs =>
    rw [setIn_single]
    exact ⟨{ c with peers := xs }, ⟨hc.roles, hc.collector, hc.agent, hc.env⟩, rfl⟩
  | @env k hk s =>
    obtain ⟨env', heq, hkeys⟩ := setProp_env hk hc.env s
    rw [setIn_child henv, setIn_single]
    exact ⟨{ c with env := env' }, ⟨hc.roles, hc.collector, hc.agent, hkeys⟩, by
      change c.toValue.put "env" (.obj (setProp _ k (.str s))) = _
      rw [heq]
      rfl⟩
  | @inside top rest htop hne hlands =>
    simp only [List.mem_cons, List.not_mem_nil, or_false] at htop
    rcases htop with rfl | rfl | rfl | rfl | rfl
    · rcases hlands with ⟨u, hu, -⟩ | ⟨-, hnil, -⟩
      · rw [setIn_child hu]
        exact ⟨{ c with name := some (u.setIn rest v) },
          ⟨hc.roles, hc.collector, hc.agent, hc.env⟩, hputName _⟩
      · exact absurd hnil hne
    · obtain ⟨ps, heq, hkeys⟩ := obj_setIn hne c.collector v
      rw [setIn_child hcollector, heq]
      exact ⟨{ c with collector := ps },
        ⟨hc.roles, fun p hp => hkeys _ (hc.collector p hp), hc.agent, hc.env⟩, rfl⟩
    · obtain ⟨ps, heq, hkeys⟩ := obj_setIn hne c.agent v
      rw [setIn_child hagent, heq]
      exact ⟨{ c with agent := ps },
        ⟨hc.roles, hc.collector, fun p hp => hkeys _ (hc.agent p hp), hc.env⟩, rfl⟩
    · obtain ⟨ps, heq, -⟩ := obj_setIn hne c.executor v
      rw [setIn_child hexecutor, heq]
      exact ⟨{ c with executor := ps }, ⟨hc.roles, hc.collector, hc.agent, hc.env⟩, rfl⟩
    · obtain ⟨xs, heq⟩ := arr_setIn hne c.peers v
      rw [setIn_child hpeers, heq]
      exact ⟨{ c with peers := xs }, ⟨hc.roles, hc.collector, hc.agent, hc.env⟩, rfl⟩

/-! ## Paths and indices -/

theorem parts_ne_nil (dotted : String) : parts dotted ≠ [] := by
  rw [parts, ne_eq, List.map_eq_nil_iff]
  exact List.splitOn_ne_nil '.' _

theorem not_dot_of_mem_parts {dotted s : String} (h : s ∈ parts dotted) : '.' ∉ s.toList := by
  obtain ⟨cs, hcs, rfl⟩ := List.mem_map.mp h
  rw [String.toList_ofList]
  exact Library.not_mem_of_mem_splitOn hcs

/-- Texts without a dot are the parts of a path. -/
theorem exists_parts {path : List String} (hne : path ≠ []) (h : ∀ s ∈ path, '.' ∉ s.toList) :
    ∃ q, parts q = path := by
  refine ⟨String.ofList (['.'].intercalate (path.map String.toList)), ?_⟩
  have hsplit : (['.'].intercalate (path.map String.toList)).splitOn '.' =
      path.map String.toList :=
    List.splitOn_intercalate '.' (List.forall_mem_map.mpr h) (by simpa using hne)
  rw [parts, String.toList_ofList, hsplit, List.map_map]
  exact (List.map_congr_left fun s _ => String.ofList_toList).trans (List.map_id path)

theorem isIndex_toString (i : Nat) : Json.isIndex (toString i) = true := Json.isIndex_repr i

theorem toString_ne {i : Nat} {k : String} (hk : Json.isIndex k = false) : toString i ≠ k := by
  rintro rfl
  rw [isIndex_toString] at hk
  cases hk

/-- An index is no name that an array inherits. -/
theorem builtin_index (xs : List Value) (i : Nat) : (Value.arr xs).builtin (toString i) = none := by
  have hmembers : ∀ k ∈ arrayMembers ++ objectMembers, Json.isIndex k = false := by decide
  have hnot : ∀ {names : List String}, (∀ k ∈ names, Json.isIndex k = false) →
      toString i ∉ names := fun hnames hmem => toString_ne (hnames _ hmem) rfl
  rw [Value.builtin, if_neg (toString_ne (by decide)), if_neg (toString_ne (by decide)),
    Proto.member, if_neg (toString_ne (by decide)), if_neg (toString_ne (by decide)),
    if_neg (hnot fun k hk => hmembers k (List.mem_append_left _ hk)),
    if_neg (hnot fun k hk => hmembers k (List.mem_append_right _ hk))]

theorem child_index (xs : List Value) (i : Nat) : (Value.arr xs).child (toString i) = xs[i]? := by
  rw [Value.child]
  cases hindex : index? xs.length (toString i) with
  | some j =>
    obtain ⟨hj, htext⟩ := index?_eq_some.mp hindex
    rw [toString_injective htext]
    rfl
  | none =>
    have hle : xs.length ≤ i := by
      by_contra hlt
      have hsome := index?_eq_some.mpr ⟨Nat.lt_of_not_le hlt, rfl⟩
      rw [hindex] at hsome
      cases hsome
    exact (List.getElem?_eq_none hle).symm

theorem read_index (xs : List Value) (i : Nat) :
    (Ref.own (.arr xs)).read [toString i] = (xs[i]?.map Ref.own).getD .undef := by
  rw [Ref.read, Ref.member, child_index, builtin_index, Option.or_none]
  rfl

theorem read_length (xs : List Value) :
    (Ref.own (.arr xs)).read ["length"] = .own (.num (.fin xs.length)) := by
  have hchild : (Value.arr xs).child "length" = none := by rw [Value.child, index?_length]; rfl
  rw [read_builtin hchild]
  rfl

/-- An object has no value that is not its own. -/
theorem builtin_obj_ne_own (ps : Props) (k : String) (x : Value) :
    ((Value.obj ps).builtin k).getD .undef ≠ .own x := by
  rw [Value.builtin]
  split
  · intro h
    cases h
  · next hproto =>
    rw [Proto.member, if_neg hproto]
    split <;> (intro h; cases h)

theorem child_toValue_none (c : FleetConfig) {top : String}
    (h : top ∉ ["name", "roles", "collector", "agent", "executor", "peers", "env"]) :
    c.toValue.child top = none := by
  simp only [List.mem_cons, List.not_mem_nil, or_false, not_or] at h
  obtain ⟨hname, hroles, hcollector, hagent, hexecutor, hpeers, henv⟩ := h
  rw [FleetConfig.toValue, Value.child, List.lookup_append]
  have hnone : (c.name.toList.map fun v => ("name", v)).lookup top = none := by
    cases c.name with
    | none => rfl
    | some v =>
      change [("name", v)].lookup top = none
      simp only [List.lookup_cons, beq_false_of_ne hname, List.lookup_nil]
  simp only [List.lookup_cons, beq_false_of_ne hroles, beq_false_of_ne hcollector,
    beq_false_of_ne hagent, beq_false_of_ne hexecutor, beq_false_of_ne hpeers,
    beq_false_of_ne henv, List.lookup_nil, hnone, Option.or_none]

/-! ## Surviving -/

/-- The next load reads the setting as it was coerced and every other path as before, and setting it
again changes nothing. -/
def Survives (js : Js) (upper : String → String) (file : String) (c : FleetConfig)
    (dotted raw : String) (next x : Value) : Prop :=
  ∃ c' said, load js file (save next) = .ok (c', said) ∧
    getPath c'.toValue dotted = .own x ∧
    (∀ q, Independent (parts dotted) (parts q) → getPath c'.toValue q = getPath c.toValue q) ∧
    ∃ again, setPath js upper dotted raw c'.toValue = .ok again ∧
      ∀ q, getPath again q = getPath c'.toValue q

/-- The path reads the value already, or stands in a place that is kept; and no infinite number is
read at another path. -/
def Keeps (c : FleetConfig) (dotted : String) (x : Value) : Prop :=
  (getPath c.toValue dotted = .own x ∨ Stored c.toValue (parts dotted) x) ∧
    ∀ q, Independent (parts dotted) (parts q) → ∀ v, getPath c.toValue q = .own v → v.Finite

section Cases

variable {c c' : FleetConfig} {dotted raw : String} {next x : Value} {existing : Ref}

theorem setPathWith_iff {config : Value} :
    setPathWith js upper dotted raw config = .ok (next, x) ↔
      update js upper dotted raw (.own config.written) (parts dotted) = .ok (.own next, x) := by
  rw [setPathWith]
  cases hupdate : update js upper dotted raw (.own config.written) (parts dotted) with
  | error e => exact iff_of_false nofun nofun
  | ok r =>
    obtain ⟨node, v⟩ := r
    obtain ⟨t, rfl, -⟩ := update_effect (parts_ne_nil dotted) hupdate
    simp [Except.map]

theorem Coerced.written (h : Coerced js raw existing x) : x.written = x := by
  cases h with
  | array =>
    rw [written_arr, List.map_map]
    rfl
  | _ => rfl

/-- Only the value itself is written as what was coerced. -/
theorem Coerced.of_written (h : Coerced js raw existing x) {w : Value} (hw : w.written = x) :
    w = x := by
  have hleaf : ∀ {w x : Value}, w.written = x → (∀ xs, x ≠ .arr xs) → (∀ ps, x ≠ .obj ps) →
      x ≠ .null → w = x := by
    intro w x hw harr hobj hnull
    cases w with
    | num n =>
      cases n with
      | fin q => exact hw
      | _ => exact absurd hw.symm hnull
    | arr xs => exact absurd ((written_arr xs).symm.trans hw).symm (harr _)
    | obj ps => exact absurd ((written_obj ps).symm.trans hw).symm (hobj _)
    | _ => exact hw
  cases h with
  | array =>
    cases w with
    | arr xs =>
      rw [written_arr, Value.arr.injEq] at hw
      congr 1
      generalize pieces raw = texts at hw
      induction xs generalizing texts with
      | nil => exact hw
      | cons v xs ih =>
        cases texts with
        | nil => cases hw
        | cons text texts =>
          obtain ⟨hv, hxs⟩ := List.cons.inj hw
          rw [List.map_cons, ← ih _ hxs, hleaf hv nofun nofun nofun]
    | obj ps =>
      rw [written_obj] at hw
      cases hw
    | num n => cases n <;> cases hw
    | _ => cases hw
  | _ => exact hleaf hw nofun nofun nofun

theorem Coerced.ne_obj (h : Coerced js raw existing x) (ps : Props) : x ≠ .obj ps := by
  cases h <;> exact nofun

theorem written_eq_iff (r : Ref) : r.written = r ↔ ∀ v, r = .own v → v.Finite := by
  cases r with
  | own v =>
    rw [Ref.written, Ref.own.injEq, written_eq_self_iff]
    exact ⟨fun h _ heq => Ref.own.inj heq ▸ h, fun h => h v rfl⟩
  | _ => exact iff_of_true rfl nofun

/-- Where other paths read what is written of them, they read as before exactly when it is
finite. -/
theorem reads_before_iff {t : Value} {p : List String}
    (h : ∀ q, Independent p (parts q) → getPath t q = getPath c.toValue.written q) :
    (∀ q, Independent p (parts q) → getPath t q = getPath c.toValue q) ↔
      ∀ q, Independent p (parts q) → ∀ v, getPath c.toValue q = .own v → v.Finite := by
  refine forall₂_congr fun q hq => ?_
  rw [h q hq, getPath, read_written]
  exact written_eq_iff _

theorem survives_of_loaded (hc : c'.Loaded) (hwritten : c'.toValue.written = c'.toValue)
    (hagain : update js upper dotted raw (.own c'.toValue) (parts dotted) =
      .ok (.own c'.toValue, x)) :
    Survives js upper file c dotted raw c'.toValue x ↔
      getPath c'.toValue dotted = .own x ∧
        ∀ q, Independent (parts dotted) (parts q) →
          getPath c'.toValue q = getPath c.toValue q := by
  have hload : load js file (save c'.toValue) = .ok (c', []) := by
    rw [save, hwritten]
    exact load_toValue hc
  constructor
  · rintro ⟨c₁, said, hc₁, hread, hother, -⟩
    rw [hload, Except.ok.injEq, Prod.mk.injEq] at hc₁
    obtain ⟨rfl, -⟩ := hc₁
    exact ⟨hread, hother⟩
  · rintro ⟨hread, hother⟩
    refine ⟨c', [], hload, hread, hother, c'.toValue, ?_, fun q => rfl⟩
    have hset : setPathWith js upper dotted raw c'.toValue = .ok (c'.toValue, x) := by
      rw [setPathWith_iff, hwritten]
      exact hagain
    rw [setPath, hset]
    rfl

end Cases

/-! ## Assignments in the tree -/

section InTree

variable {c c' : FleetConfig} {dotted raw : String} {path : List String} {next x : Value}

theorem not_lands_str {s : String} {k : String} {rest : List String} :
    ¬ (Value.str s).Lands (k :: rest) := by
  rintro (⟨u, hu, -⟩ | ⟨-, -, ⟨ps, hps⟩, -⟩)
  · cases hu
  · cases hps

theorem lands_child {v u : Value} {k : String} {rest : List String} (hchild : v.child k = some u)
    (h : v.Lands (k :: rest)) : u.Lands rest := by
  rcases h with ⟨w, hw, hrest⟩ | ⟨hnone, -⟩
  · rw [hchild, Option.some.injEq] at hw
    exact hw ▸ hrest
  · rw [hchild] at hnone
    cases hnone

theorem role_of_child {rs : List Role} {k : String} {u : Value}
    (h : (Value.arr (rs.map fun r => .str r.text)).child k = some u) :
    (∃ i : Nat, k = toString i) ∧ ∃ r : Role, u = .str r.text := by
  obtain ⟨i, hi, hget⟩ := Option.bind_eq_some_iff.mp h
  rw [List.getElem?_map] at hget
  obtain ⟨r, -, hr⟩ := Option.map_eq_some_iff.mp hget
  exact ⟨⟨i, (index?_eq_some.mp hi).2.symm⟩, r, hr.symm⟩

theorem str_of_child {env : List (String × String)} {k : String} {u : Value}
    (h : (Value.obj (env.map fun p => (p.1, .str p.2))).child k = some u) : ∃ s, u = .str s := by
  rw [Value.child, lookup_map Value.str] at h
  obtain ⟨s, -, hs⟩ := Option.map_eq_some_iff.mp h
  exact ⟨s, hs.symm⟩

/-- A place that takes the value, and that the next load reads as it was set, is one that is
kept. -/
theorem stored_of_reads (hc' : c'.Loaded) (hlands : c.toValue.Lands path) (hne : path ≠ [])
    (hobj : ∀ ps, x ≠ .obj ps)
    (henvKey : ∀ k, path = ["env", k] → isEnvKey k = true ∧ ∃ s, x = .str s)
    (hread : (Ref.own c'.toValue).read path = .own x) : Stored c.toValue path x := by
  obtain ⟨hname, hroles, hcollector, hagent, hexecutor, hpeers, henv⟩ := child_toValue c
  obtain ⟨-, hroles', hcollector', hagent', hexecutor', hpeers', henv'⟩ := child_toValue c'
  obtain ⟨top, rest, rfl⟩ := List.exists_cons_of_ne_nil hne
  by_cases hin : top ∈ ["name", "collector", "agent", "executor", "peers"] ∧ rest ≠ []
  · exact .inside hin.1 hin.2 hlands x
  by_cases hrest : rest = []
  · subst hrest
    have hsection : ∀ {ps : Props}, c'.toValue.child top = some (.obj ps) → False := by
      intro ps hchild
      rw [read_child hchild] at hread
      exact hobj ps (Ref.own.inj hread).symm
    by_cases htop : top ∈ ["name", "roles", "collector", "agent", "executor", "peers", "env"]
    · simp only [List.mem_cons, List.not_mem_nil, or_false] at htop
      rcases htop with rfl | rfl | rfl | rfl | rfl | rfl | rfl
      · exact .name x
      · rw [read_child hroles'] at hread
        exact Ref.own.inj hread ▸ .roles hc'.roles
      · exact (hsection hcollector').elim
      · exact (hsection hagent').elim
      · exact (hsection hexecutor').elim
      · rw [read_child hpeers'] at hread
        exact Ref.own.inj hread ▸ .peers _
      · exact (hsection henv').elim
    · rw [read_builtin (child_toValue_none c' htop)] at hread
      exact absurd hread (builtin_obj_ne_own _ top x)
  · obtain ⟨k, more, rfl⟩ := List.exists_cons_of_ne_nil hrest
    by_cases htop : top ∈ ["roles", "env"]
    · simp only [List.mem_cons, List.not_mem_nil, or_false] at htop
      rcases htop with rfl | rfl
      · have hroleLands := lands_child hroles hlands
        rcases hroleLands with ⟨u, hu, hmore⟩ | ⟨-, -, ⟨ps, hps⟩, -⟩
        · obtain ⟨⟨i, rfl⟩, r, rfl⟩ := role_of_child hu
          cases more with
          | cons j more => exact absurd hmore not_lands_str
          | nil =>
            have hat : c.toValue.at? ["roles", toString i] = some (.str r.text) := by
              rw [Value.at?, hroles, Option.bind_some, Value.at?, hu]
              rfl
            rw [read_child hroles', read_index, List.getElem?_map] at hread
            cases hget : c'.roles[i]? with
            | none =>
              rw [hget] at hread
              cases hread
            | some r' =>
              rw [hget] at hread
              exact Ref.own.inj hread ▸ .role (Option.isSome_iff_exists.mpr ⟨_, hat⟩) r'
        · cases hps
      · have hvarLands := lands_child henv hlands
        cases more with
        | nil =>
          obtain ⟨hkey, s, rfl⟩ := henvKey k rfl
          exact .env hkey s
        | cons j more =>
          rcases hvarLands with ⟨u, hu, hmore⟩ | ⟨-, hnil, -⟩
          · obtain ⟨s, rfl⟩ := str_of_child hu
            exact absurd hmore not_lands_str
          · cases hnil
    · have hnone : c.toValue.child top = none := by
        refine child_toValue_none c fun hmem => ?_
        simp only [List.mem_cons, List.not_mem_nil, or_false, not_or] at hmem htop
        rcases hmem with rfl | rfl | rfl | rfl | rfl | rfl | rfl
        · exact hin ⟨by simp, hrest⟩
        · exact htop.1 rfl
        · exact hin ⟨by simp, hrest⟩
        · exact hin ⟨by simp, hrest⟩
        · exact hin ⟨by simp, hrest⟩
        · exact hin ⟨by simp, hrest⟩
        · exact htop.2 rfl
      rcases hlands with ⟨u, hu, -⟩ | ⟨-, hnil, -⟩
      · rw [hnone] at hu
        cases hu
      · cases hnil

theorem lands_single {v : Value} {k : String} (hobj : ∃ ps, v = .obj ps) (hk : k ≠ "__proto__") :
    v.Lands [k] := by
  cases hchild : v.child k with
  | some u => exact Or.inl ⟨u, hchild, trivial⟩
  | none => exact Or.inr ⟨hchild, rfl, hobj, hk⟩

theorem lands_of_stored (h : Stored c.toValue path x) : c.toValue.Lands path := by
  obtain ⟨-, hroles, -, -, -, -, henv⟩ := child_toValue c
  have hobj : ∃ ps, c.toValue = .obj ps := ⟨_, rfl⟩
  cases h with
  | name => exact lands_single hobj (by decide)
  | roles => exact lands_single hobj (by decide)
  | role hat =>
    obtain ⟨u, hu⟩ := Option.isSome_iff_exists.mp hat
    exact lands_of_at? hu
  | peers => exact lands_single hobj (by decide)
  | env hkey =>
    refine Or.inl ⟨_, henv, lands_single ⟨_, rfl⟩ ?_⟩
    rintro rfl
    exact absurd hkey (by decide)
  | inside htop hne hlands => exact hlands

theorem stored_written_iff : Stored c.written.toValue path x ↔ Stored c.toValue path x := by
  rw [← toValue_written]
  constructor
  · intro h
    cases h with
    | name => exact .name x
    | roles hrs => exact .roles hrs
    | role hat r =>
      rw [at?_written, Option.isSome_map] at hat
      exact .role hat r
    | peers xs => exact .peers xs
    | env hkey s => exact .env hkey s
    | inside htop hne hlands => exact .inside htop hne ((lands_written _ _).mp hlands) x
  · intro h
    cases h with
    | name => exact .name x
    | roles hrs => exact .roles hrs
    | role hat r =>
      refine .role ?_ r
      rwa [at?_written, Option.isSome_map]
    | peers xs => exact .peers xs
    | env hkey s => exact .env hkey s
    | inside htop hne hlands => exact .inside htop hne ((lands_written _ _).mpr hlands) x

/-! ## The length of an array -/

theorem arrayLength?_eq_some {n : Nat} (h : arrayLength? x = some n) : x = .num (.fin n) := by
  unfold arrayLength? at h
  split at h
  · next q =>
    split at h
    · next hq =>
      obtain ⟨hden, hpos, -⟩ := hq
      have hnat : ((n : Int) : Rat) = q := by
        rw [← Option.some.inj h, Int.toNat_of_nonneg hpos]
        exact Rat.coe_int_num_of_den_eq_one hden
      rw [← hnat, Rat.intCast_natCast]
    · cases h
  · cases h

theorem independent_append {init : List String} {a b : String} (hne : a ≠ b) :
    Independent (init ++ [a]) (init ++ [b]) := by
  have hsingle : ∀ {a b : String}, [a] <+: [b] → a = b := fun h =>
    (List.cons_prefix_cons.mp h).1
  exact ⟨fun h => hne (hsingle ((List.prefix_append_right_inj init).mp h)),
    fun h => hne (hsingle ((List.prefix_append_right_inj init).mp h)).symm⟩

theorem not_lands_length {v : Value} {init : List String} {xs : List Value}
    (hat : v.at? init = some (.arr xs)) : ¬ v.Lands (init ++ ["length"]) := by
  induction init generalizing v with
  | nil =>
    obtain rfl := Option.some.inj hat
    rintro (⟨u, hu, -⟩ | ⟨-, -, ⟨ps, hps⟩, -⟩)
    · rw [Value.child, index?_length] at hu
      cases hu
    · cases hps
  | cons k rest ih =>
    obtain ⟨u, hu, hrest⟩ := Option.bind_eq_some_iff.mp hat
    exact fun h => ih hrest (lands_child hu h)

/-- An array of the configuration is the list of roles, or stands where any array is kept. -/
theorem array_place {init : List String} {xs : List Value}
    (hat : c.toValue.at? init = some (.arr xs)) (ys : List Value) :
    init = ["roles"] ∨ Stored c.toValue init (.arr ys) := by
  obtain ⟨hname, hroles, hcollector, hagent, hexecutor, hpeers, henv⟩ := child_toValue c
  cases init with
  | nil => cases hat
  | cons top rest =>
    obtain ⟨u, hu, hrest⟩ := Option.bind_eq_some_iff.mp hat
    by_cases hin : top ∈ ["name", "collector", "agent", "executor", "peers"] ∧ rest ≠ []
    · exact Or.inr (.inside hin.1 hin.2 (lands_of_at? hat) _)
    by_cases htop : top ∈ ["name", "roles", "collector", "agent", "executor", "peers", "env"]
    · have hflat : rest ≠ [] → top = "roles" ∨ top = "env" := by
        intro hne
        simp only [List.mem_cons, List.not_mem_nil, or_false] at htop hin
        tauto
      cases rest with
      | nil =>
        obtain rfl := Option.some.inj hrest
        simp only [List.mem_cons, List.not_mem_nil, or_false] at htop
        rcases htop with rfl | rfl | rfl | rfl | rfl | rfl | rfl
        · exact Or.inr (.name _)
        · exact Or.inl rfl
        · cases hcollector.symm.trans hu
        · cases hagent.symm.trans hu
        · cases hexecutor.symm.trans hu
        · exact Or.inr (.peers ys)
        · cases henv.symm.trans hu
      | cons k more =>
        have hstr : ∀ {s : String}, (Value.str s).at? more ≠ some (.arr xs) := by
          intro s hs
          cases more with
          | nil => cases hs
          | cons j more => cases hs
        obtain ⟨w, hw, hmore⟩ := Option.bind_eq_some_iff.mp hrest
        rcases hflat (by simp) with rfl | rfl
        · rw [hroles, Option.some.injEq] at hu
          obtain ⟨-, r, rfl⟩ := role_of_child (hu ▸ hw)
          exact absurd hmore hstr
        · rw [henv, Option.some.injEq] at hu
          obtain ⟨s, rfl⟩ := str_of_child (hu ▸ hw)
          exact absurd hmore hstr
    · rw [child_toValue_none c htop] at hu
      cases hu

theorem written_resized {xs : List Value} (h : (Value.arr xs).written = .arr xs) (n : Nat) :
    (Value.arr (resized xs n)).written = .arr (resized xs n) := by
  rw [written_arr, Value.arr.injEq] at h ⊢
  rw [resized, List.map_append, List.map_take, h, List.map_replicate]
  rfl

theorem length_resized (xs : List Value) (n : Nat) : (resized xs n).length = n := by
  rw [resized, List.length_append, List.length_take, List.length_replicate]
  omega

theorem resized_self (xs : List Value) : resized xs xs.length = xs := by
  rw [resized, List.take_length, Nat.sub_self]
  exact List.append_nil xs

/-- Where the length changes, an index reads something else: what is cut off, or what is new. -/
theorem exists_index_ne {xs : List Value} {n : Nat} (hn : n ≠ xs.length) :
    ∃ i : Nat, (Ref.own (.arr (resized xs n))).read [toString i] ≠
      (Ref.own (.arr xs)).read [toString i] ∧
      (n < xs.length → i = n) := by
  rcases Nat.lt_or_gt_of_ne hn with hlt | hgt
  · refine ⟨n, ?_, fun _ => rfl⟩
    rw [read_index, read_index, List.getElem?_eq_getElem hlt,
      List.getElem?_eq_none (length_resized xs n).le]
    exact nofun
  · refine ⟨xs.length, ?_, fun hlt => absurd hlt (Nat.lt_asymm hgt)⟩
    have hnew : (resized xs n)[xs.length]? = some .null := by
      rw [resized, List.take_of_length_le hgt.le, List.getElem?_append_right le_rfl, Nat.sub_self,
        List.getElem?_replicate, if_pos (Nat.sub_pos_of_lt hgt)]
    rw [read_index, read_index, hnew, List.getElem?_eq_none le_rfl]
    exact nofun

end InTree

/-! ## Exactly what survives -/

section Exactly

variable {c : FleetConfig} {dotted raw : String} {init : List String} {xs : List Value} {n : Nat}
  {next x : Value} {r : Ref}

theorem child_setIn_single {v : Value} {k : String} (h : v.Lands [k]) (w : Value) :
    (v.setIn [k] w).child k = some w := by
  rw [setIn_single]
  exact child_put_self (takes_of_lands h) w

/-- The roles behind a change of the list's length. -/
theorem roles_resized (hc : c.Loaded) (hn : n ≠ c.roles.length) {c' : FleetConfig}
    (hroles : c'.roles = (fromDisk js (c.toValue.setIn ["roles"]
      (.arr (resized (c.roles.map fun r => .str r.text) n)))).1.roles)
    (hlength : c'.roles.length = n) : n < c.roles.length ∧ c'.roles = c.roles.take n := by
  have hobj : ∃ ps, c.toValue = .obj ps := ⟨_, rfl⟩
  have hchild := child_setIn_single (lands_single hobj (by decide : "roles" ≠ "__proto__"))
    (.arr (resized (c.roles.map fun r => .str r.text) n))
  have hfilter : (resized (c.roles.map fun r => Value.str r.text) n).filterMap role? =
      c.roles.take n := by
    have htake : ((c.roles.map fun r => Value.str r.text).take n).filterMap role? =
        c.roles.take n := by
      rw [← List.map_take, List.filterMap_map]
      exact (List.filterMap_congr fun r _ => role?_text r).trans List.filterMap_some
    have hholes : ∀ m, (List.replicate m Value.null).filterMap role? = [] := by
      intro m
      refine List.filterMap_eq_nil_iff.mpr fun v hv => ?_
      rw [List.eq_of_mem_replicate hv]
      rfl
    rw [resized, List.filterMap_append, htake, hholes, List.append_nil]
  simp only [fromDisk, hchild, hfilter] at hroles
  split at hroles
  · have htake : (c.roles.take n).length = n := hroles ▸ hlength
    rw [List.length_take] at htake
    exact ⟨by omega, hroles⟩
  · next hnone =>
    have hzero : n = 0 := by
      rw [List.length_take] at hnone
      have hsome : 0 < c.roles.length := List.length_pos_of_ne_nil hc.roles
      omega
    rw [hroles, hzero] at hlength
    cases hlength

theorem toValue_written_written (c : FleetConfig) :
    c.written.toValue.written = c.written.toValue := by
  rw [← toValue_written, written_written]

/-- A changed length is not all that changes. -/
theorem not_survives_resized (hc : c.Loaded) (hparts : parts dotted = init ++ ["length"])
    (hat : c.written.toValue.at? init = some (.arr xs)) (hn : n ≠ xs.length) :
    ¬ Survives js upper file c dotted raw
      (c.written.toValue.setIn init (.arr (resized xs n))) (.num (.fin n)) := by
  rintro ⟨c', said, hload, hread, hother, -⟩
  have hww := toValue_written_written c
  have hxs : (Value.arr xs).written = .arr xs := by
    have hmap := at?_written c.written.toValue init
    rw [hww, hat, Option.map_some, Option.some.injEq] at hmap
    exact hmap.symm
  have hnext : (c.written.toValue.setIn init (.arr (resized xs n))).written =
      c.written.toValue.setIn init (.arr (resized xs n)) := by
    rw [written_setIn, hww, written_resized hxs]
  rw [save, hnext] at hload
  obtain ⟨i, hi, hcut⟩ := exists_index_ne hn
  have hdots : ∀ s ∈ init ++ [toString i], '.' ∉ s.toList := by
    intro s hs
    rcases List.mem_append.mp hs with hs | hs
    · exact not_dot_of_mem_parts (hparts ▸ List.mem_append_left _ hs)
    · rw [List.mem_singleton.mp hs]
      intro hdot
      have hdigits := List.all_eq_true.mp (isIndex_toString i) '.' hdot
      exact absurd hdigits (by decide)
  obtain ⟨q, hq⟩ := exists_parts (by simp) hdots
  have hafter := hother q (by
    rw [hparts, hq]
    exact independent_append (toString_ne (by decide)).symm)
  have hbefore : (getPath c.toValue q).written = (Ref.own (.arr xs)).read [toString i] := by
    rw [getPath, ← read_written, toValue_written, hq, read_append, read_of_at? hat]
  suffices hnew : getPath c'.toValue q = (Ref.own (.arr (resized xs n))).read [toString i] by
    refine hi ?_
    rw [← hbefore, ← hafter, hnew, ← read_written, written_resized hxs]
  rcases array_place hat (resized xs n) with rfl | hstored
  · obtain ⟨-, hroles, -⟩ := child_toValue c.written
    obtain ⟨-, hroles', -⟩ := child_toValue c'
    have hlist : xs = c.roles.map fun r => .str r.text := by
      rw [Value.at?, hroles] at hat
      exact (Value.arr.inj (Option.some.inj hat)).symm
    subst hlist
    rw [List.length_map] at hn hcut
    have hfrom : c'.roles = (fromDisk js (c.written.toValue.setIn ["roles"]
        (.arr (resized (c.written.roles.map fun r => .str r.text) n)))).1.roles := by
      rw [setIn_single] at hload ⊢
      exact (congrArg (fun r => r.1.roles) (Except.ok.inj hload)).symm
    have hlength : c'.roles.length = n := by
      rw [getPath, hparts, List.singleton_append, read_child hroles', read_length,
        List.length_map] at hread
      have hrat : ((c'.roles.length : Nat) : Rat) = n :=
        JsNum.fin.inj (Value.num.inj (Ref.own.inj hread))
      exact_mod_cast hrat
    obtain ⟨hlt, htake⟩ := roles_resized hc.written hn hfrom hlength
    rw [getPath, hq, List.singleton_append, read_child hroles', read_index, read_index, hcut hlt,
      List.getElem?_eq_none (by rw [List.length_map, hlength]),
      List.getElem?_eq_none (length_resized _ n).le]
  · obtain ⟨c₁, hc₁, hset⟩ := stored_config hc.written hstored
    have hlands := lands_of_stored hstored
    rw [hset, load_toValue hc₁, Except.ok.injEq, Prod.mk.injEq] at hload
    obtain ⟨rfl, -⟩ := hload
    rw [getPath, hq, ← hset, read_append, read_setIn_self hlands]

/-- An assignment that is in no text leaves everything as it was. -/
theorem survives_unchanged (hc : c.Loaded) {existing : Ref} (hx : Coerced js raw existing x)
    (hupdate : update js upper dotted raw (.own c.written.toValue) (parts dotted) =
      .ok (.own c.written.toValue, x))
    (hlands : ¬ c.written.toValue.Lands (parts dotted)) :
    Survives js upper file c dotted raw c.written.toValue x ↔ Keeps c dotted x := by
  have hstored : ¬ Stored c.toValue (parts dotted) x := fun h =>
    hlands (lands_of_stored (stored_written_iff.mpr h))
  rw [survives_of_loaded hc.written (toValue_written_written c) hupdate, Keeps,
    or_iff_left hstored,
    reads_before_iff (t := c.written.toValue) fun q _ => by rw [toValue_written]]
  refine and_congr_left fun _ => ?_
  rw [getPath, ← toValue_written, read_written]
  constructor
  · intro h
    cases hread : getPath c.toValue dotted with
    | own w =>
      rw [getPath] at hread
      rw [hread] at h
      rw [hx.of_written (Ref.own.inj h)]
    | _ =>
      rw [getPath] at hread
      rw [hread] at h
      cases h
  · intro h
    rw [getPath] at h
    rw [h, Ref.written, hx.written]

/-- A setting that is accepted survives exactly where it is kept. -/
theorem survives_iff {disk : OnDisk} {said : List String}
    (hload : load js file disk = .ok (c, said))
    (hset : setPathWith js upper dotted raw c.toValue = .ok (next, x)) :
    Survives js upper file c dotted raw next x ↔ Keeps c dotted x := by
  have hc := loaded_of_load hload
  have hww := toValue_written_written c
  rw [setPathWith_iff, toValue_written] at hset
  obtain ⟨init, leaf, hpath⟩ : ∃ init leaf, parts dotted = init ++ [leaf] :=
    ⟨_, _, (List.dropLast_concat_getLast (parts_ne_nil dotted)).symm⟩
  have hvalue : leafValue js upper dotted raw ((Ref.own c.written.toValue).read init) leaf =
      .ok x := update_value (hpath ▸ hset)
  obtain ⟨existing, hcoerce⟩ := (leafValue_coerced hvalue).1
  have hx := coerced_of_coerce hcoerce
  obtain ⟨t, ht, heffect⟩ := update_effect (parts_ne_nil dotted) hset
  obtain rfl := Ref.own.inj ht
  cases heffect with
  | none hlands => exact survives_unchanged hc hx hset hlands
  | @length place xs n hplace hat hn =>
    have hnum := arrayLength?_eq_some hn
    have hlands := hplace ▸ not_lands_length hat
    by_cases hsame : n = xs.length
    · rw [hsame, resized_self, setIn_self hat] at hset ⊢
      exact survives_unchanged hc hx hset hlands
    · subst hnum
      refine iff_of_false (not_survives_resized hc hplace hat hsame) ?_
      rintro ⟨hread | hstored, -⟩
      · have hlength : (Ref.own c.written.toValue).read (parts dotted) = .own (.num (.fin n)) := by
          rw [getPath] at hread
          rw [← toValue_written, read_written, hread]
          rfl
        rw [hplace, read_append, read_of_at? hat, read_length] at hlength
        have hrat : ((xs.length : Nat) : Rat) = n :=
          JsNum.fin.inj (Value.num.inj (Ref.own.inj hlength))
        exact hsame (by exact_mod_cast hrat.symm)
      · exact hlands (lands_of_stored (stored_written_iff.mpr hstored))
  | set hlands =>
    by_cases hstored : Stored c.toValue (parts dotted) x
    · obtain ⟨c₁, hc₁, hkept⟩ := stored_config hc.written (stored_written_iff.mpr hstored)
      have hwritten : (c.written.toValue.setIn (parts dotted) x).written =
          c.written.toValue.setIn (parts dotted) x := by
        rw [written_setIn, hww, hx.written]
      have hagain := update_again (parts_ne_nil dotted) hlands hset
      have hread : getPath c₁.toValue dotted = .own x := by
        rw [getPath, ← hkept, read_setIn_self hlands]
      have hother : ∀ q, Independent (parts dotted) (parts q) →
          getPath c₁.toValue q = getPath c.toValue.written q := fun q hq => by
        rw [getPath, ← hkept, read_setIn_of_independent hlands hq, getPath, toValue_written]
      rw [hkept] at hwritten hagain ⊢
      rw [survives_of_loaded hc₁ hwritten hagain, reads_before_iff hother, Keeps]
      exact and_congr_left fun _ => iff_of_true hread (Or.inr hstored)
    · have henvKey : ∀ k, parts dotted = ["env", k] →
          isEnvKey k = true ∧ ∃ s, x = .str s := fun k hk => by
        have hleaf : init ++ [leaf] = ["env"] ++ [k] := hpath.symm.trans hk
        obtain rfl := (List.cons.inj (List.append_inj' hleaf rfl).2).1
        obtain ⟨hkey, rfl⟩ := leafValue_env_ok hk hvalue
        exact ⟨hkey, raw, rfl⟩
      have hno : ∀ {c' : FleetConfig}, c'.Loaded →
          (Ref.own c'.toValue).read (parts dotted) ≠ .own x := fun hc' hread =>
        hstored (stored_written_iff.mp
          (stored_of_reads hc' hlands (parts_ne_nil dotted) hx.ne_obj henvKey hread))
      refine iff_of_false ?_ ?_
      · rintro ⟨c', said, hc', hread, -⟩
        exact hno (loaded_of_load hc') hread
      · rintro ⟨hread | hyes, -⟩
        · refine hno hc.written ?_
          rw [getPath] at hread
          rw [← toValue_written, read_written, hread, Ref.written, hx.written]
        · exact hstored hyes

end Exactly

/-! ## A port and a misspelt role -/

theorem finite_of_read {v w : Value} {p : List String} (hv : v.Finite)
    (h : (Ref.own v).read p = .own w) : w.Finite := by
  rw [← written_eq_self_iff] at hv ⊢
  have hread := read_written v p
  rw [hv, h] at hread
  exact (Ref.own.inj hread).symm

theorem load_missing : load Js.plain "config.json" .missing = .ok (defaults, []) := by
  rfl

def ported : FleetConfig where
  name := none
  roles := defaults.roles
  collector := setProp defaults.collector "port" (.num (.fin 9000))
  agent := defaults.agent
  executor := defaults.executor
  peers := defaults.peers
  env := defaults.env

theorem set_port : setPathWith Js.plain Js.lowerAscii "collector.port" "9000" defaults.toValue =
    .ok (ported.toValue, .num (.fin 9000)) := by
  rfl

theorem survives_port : Survives Js.plain Js.lowerAscii "config.json" defaults "collector.port"
    "9000" ported.toValue (.num (.fin 9000)) := by
  refine (survives_iff load_missing set_port).mpr ⟨Or.inr ?_, fun q _ v hv => ?_⟩
  · have hparts : parts "collector.port" = ["collector", "port"] := by rfl
    have hlands : defaults.toValue.Lands ["collector", "port"] :=
      Or.inl ⟨.obj defaults.collector, rfl, lands_single ⟨_, rfl⟩ (by decide)⟩
    rw [hparts]
    exact .inside (by simp) (by simp) hlands _
  · refine finite_of_read ?_ hv
    rw [← written_eq_self_iff]
    rfl

/-- `fleet config set roles brian`: the file says so, and the fleet runs with the defaults. -/
theorem survives_fails :
    load Js.plain "config.json" .missing = .ok (defaults, []) ∧
      setPathWith Js.plain Js.lowerAscii "roles" "brian" defaults.toValue =
        .ok (defaults.toValue.put "roles" (.arr [.str "brian"]), .arr [.str "brian"]) ∧
      ¬ Survives Js.plain Js.lowerAscii "config.json" defaults "roles" "brian"
        (defaults.toValue.put "roles" (.arr [.str "brian"])) (.arr [.str "brian"]) := by
  refine ⟨load_missing, by rfl, ?_⟩
  rintro ⟨c', said, hload, hread, -⟩
  have hagain : load Js.plain "config.json"
      (save (defaults.toValue.put "roles" (.arr [.str "brian"]))) = .ok (defaults, []) := by rfl
  rw [hagain, Except.ok.injEq, Prod.mk.injEq] at hload
  obtain ⟨rfl, -⟩ := hload
  have hroles : getPath defaults.toValue "roles" = .own (.arr [.str "brain", .str "agent"]) := by
    rfl
  rw [hroles] at hread
  have hlength := congrArg List.length (Value.arr.inj (Ref.own.inj hread))
  cases hlength

end FleetRunner.Fleet.Config
