import FleetRunner.Js.Value
import FleetRunner.Library.Runs
import FleetRunner.Library.Table
import Mathlib.Data.List.Nodup
import Mathlib.Data.Rat.Floor

/-!
# Alerts (`alerts.ts`, `api/mutations.ts`)

The rules return what is wrong right now; a reconcile pass folds that into
rows, one for a condition for as long as it holds. An alert is opened when its
condition appears, refreshed while it lasts and resolved when it is gone; a
person may acknowledge or snooze it in between.

## Implementation notes

The source keys a pass's findings by rule and subject with a NUL between them
and relies on no rule's name containing one: a finding and a row carry the
proof. A finding's place in that map is its first, its content its last.
-/

namespace FleetRunner.Alerts

open Library

/-- How bad it is. -/
inductive Severity where
  | warning | critical
  deriving DecidableEq

/-- Where an alert is in its life. -/
inductive State where
  | open_ | acked | snoozed | resolved
  deriving DecidableEq

def nul : Char := Char.ofNat 0

/-- What a pass finds wrong. -/
structure Finding where
  rule : String
  subject : String
  severity : Severity
  message : String
  rule_clean : nul ∉ rule.toList

/-- A row of `alerts`. -/
structure AlertRow where
  id : Nat
  rule : String
  subject : String
  severity : Severity
  message : String
  state : State
  first_seen : Nat
  last_seen : Nat
  resolved_at : Option Nat
  snooze_until : Option Nat
  seen_count : Nat
  rule_clean : nul ∉ rule.toList

/-- A rule and what it is about, as one string. -/
def keyOf (rule subject : String) : String := rule ++ String.singleton nul ++ subject

/-- What an alert is known by. -/
def Finding.key (f : Finding) : String := keyOf f.rule f.subject

def AlertRow.key (r : AlertRow) : String := keyOf r.rule r.subject

/-- The table and the clock. -/
structure AlertsDb where
  /-- milliseconds -/
  now : Nat
  alerts : Table AlertRow.id
  /-- the largest id the table has given out -/
  seq : Nat

namespace AlertsDb

def empty : AlertsDb := ⟨0, .empty, 0⟩

def sqlNow (db : AlertsDb) : Nat := db.now / 1000

/-- `UPDATE alerts SET … WHERE …` -/
def updateWhere (db : AlertsDb) (p : AlertRow → Bool) (f : AlertRow → AlertRow)
    (hf : ∀ r, (f r).id = r.id := by intro; rfl) : AlertsDb :=
  { db with alerts := db.alerts.updateWhere p f hf }

def updateRow (db : AlertsDb) (id : Nat) (f : AlertRow → AlertRow)
    (hf : ∀ r, (f r).id = r.id := by intro; rfl) : AlertsDb :=
  { db with alerts := db.alerts.update id f hf }

end AlertsDb

/-- The alert is not over. -/
def unresolved (r : AlertRow) : Bool := decide (r.state ≠ .resolved)

/-! ## A reconcile pass -/

/-- A finding seen again. -/
def refresh (now : Nat) (f : Finding) (r : AlertRow) : AlertRow :=
  { r with last_seen := now, seen_count := r.seen_count + 1, message := f.message,
           severity := f.severity }

/-- What is no longer found is resolved. -/
def resolve (now : Nat) (r : AlertRow) : AlertRow :=
  { r with state := .resolved, resolved_at := some now }

/-- Still true, or no longer. -/
def settle (now : Nat) (found : Option Finding) (r : AlertRow) : AlertRow :=
  match found with
  | some f => refresh now f r
  | none => resolve now r

@[simp] theorem settle_id (now : Nat) (found : Option Finding) (r : AlertRow) :
    (settle now found r).id = r.id := by
  cases found <;> rfl

@[simp] theorem settle_key (now : Nat) (found : Option Finding) (r : AlertRow) :
    (settle now found r).key = r.key := by
  cases found <;> rfl

/-- One row that is not over meets the findings nothing has claimed yet. -/
def seeOne (s : AlertsDb × Table Finding.key) (a : AlertRow) : AlertsDb × Table Finding.key :=
  (s.1.updateRow a.id (settle s.1.sqlNow (s.2.find? a.key)) (settle_id _ _),
    s.2.deleteWhere fun f => decide (f.key = a.key))

/-- The row of a new finding. -/
def newAlert (now id : Nat) (f : Finding) : AlertRow where
  id := id
  rule := f.rule
  subject := f.subject
  severity := f.severity
  message := f.message
  state := .open_
  first_seen := now
  last_seen := now
  resolved_at := none
  snooze_until := none
  seen_count := 1
  rule_clean := f.rule_clean

/-- Opens an alert for a finding. -/
def openOne (s : AlertsDb × List AlertRow) (f : Finding) : AlertsDb × List AlertRow :=
  let row := newAlert s.1.sqlNow (s.1.seq + 1) f
  ({ s.1 with alerts := s.1.alerts.insertNew row, seq := s.1.seq + 1 }, s.2 ++ [row])

/-- Fold the current findings into stored state; returns the alerts that just opened. -/
def reconcile (db : AlertsDb) (findings : List Finding) : AlertsDb × List AlertRow :=
  let current := findings.foldl Table.upsert (.empty : Table Finding.key)
  let seen := (db.alerts.rows.filter unresolved).foldl seeOne (db, current)
  seen.2.rows.foldl openOne (seen.1, [])

/-! ## What people do -/

/-- A snooze is over. -/
def wake (r : AlertRow) : AlertRow := { r with state := .open_, snooze_until := none }

/-- Snoozed alerts wake up once the snooze expires. -/
def expireSnoozes (db : AlertsDb) : AlertsDb :=
  db.updateWhere (fun r => decide (r.state = .snoozed) &&
    r.snooze_until.any fun t => decide (t ≤ db.sqlNow)) wake

/-- Somebody has seen an alert. -/
def ack (db : AlertsDb) (id : Nat) : AlertsDb :=
  db.updateWhere (fun r => decide (r.id = id) && unresolved r) fun r => { r with state := .acked }

/-- The last second `datetime` can write. -/
def lastSecond : Nat := 253402300799

/-- `datetime('now', '+… minutes')` -/
def snoozeUntil (now : Nat) (minutes : Rat) : Option Nat :=
  let at_ := now + 60 * (minutes + 1 / 2).floor.toNat
  if at_ ≤ lastSecond then some at_ else none

/-- A number that is not finite, or under a minute, is refused. -/
def snooze (db : AlertsDb) (id : Nat) (minutes : Option JsNum) : AlertsDb :=
  match minutes.getD (.fin 60) with
  | .fin m =>
    if m < 1 then db
    else db.updateWhere (fun r => decide (r.id = id) && unresolved r) fun r =>
      { r with state := .snoozed, snooze_until := snoozeUntil db.sqlNow m }
  | _ => db

/-! ## Runs -/

/-- A pass, or what a person does. -/
inductive Request where
  | tick (ms : Nat)
  | pass (findings : List Finding)
  | ack (id : Nat)
  | snooze (id : Nat) (minutes : Option JsNum)
  | expire

/-- One request. -/
def step (db : AlertsDb) : Request → AlertsDb
  | .tick ms => { db with now := db.now + ms }
  | .pass findings => (reconcile db findings).1
  | .ack id => ack db id
  | .snooze id minutes => snooze db id minutes
  | .expire => expireSnoozes db

abbrev after (reqs : List Request) : AlertsDb := run step .empty reqs

/-! ## Pairs and keys -/

def Finding.pair (f : Finding) : String × String := (f.rule, f.subject)

def AlertRow.pair (r : AlertRow) : String × String := (r.rule, r.subject)

/-- No two pairs collide. -/
theorem keyOf_eq_iff {rule rule' subject subject' : String} (h : nul ∉ rule.toList)
    (h' : nul ∉ rule'.toList) :
    keyOf rule subject = keyOf rule' subject' ↔ (rule, subject) = (rule', subject') := by
  have htoList : ∀ r s : String, (keyOf r s).toList = r.toList ++ nul :: s.toList := by
    intro r s
    simp [keyOf, String.toList_append]
  have hbefore : ∀ r s : List Char, nul ∉ r →
      (r ++ nul :: s).takeWhile (fun c => decide (c ≠ nul)) = r := by
    intro r s hr
    rw [List.takeWhile_append_of_pos (fun c hc => by
      simpa using fun hnul : c = nul => hr (hnul ▸ hc))]
    simp
  constructor
  · intro heq
    have hlist : rule.toList ++ nul :: subject.toList = rule'.toList ++ nul :: subject'.toList := by
      rw [← htoList, ← htoList, heq]
    have hrule : rule.toList = rule'.toList := by
      rw [← hbefore _ subject.toList h, hlist, hbefore _ _ h']
    rw [hrule] at hlist
    have hsubject := (List.cons.inj (List.append_cancel_left hlist)).2
    rw [String.toList_injective hrule, String.toList_injective hsubject]
  · intro heq
    obtain ⟨rfl, rfl⟩ := Prod.mk.inj heq
    rfl

theorem Finding.key_eq_iff (f : Finding) (r : AlertRow) : f.key = r.key ↔ f.pair = r.pair :=
  keyOf_eq_iff f.rule_clean r.rule_clean

theorem AlertRow.key_eq_iff (r q : AlertRow) : r.key = q.key ↔ r.pair = q.pair :=
  keyOf_eq_iff r.rule_clean q.rule_clean

/-! ## What a pass does -/

/-- Every id of the table was given out by it. -/
def Fresh (db : AlertsDb) : Prop := ∀ r ∈ db.alerts.rows, r.id ≤ db.seq

/-- A condition has one alert that is not over. -/
def OnePer (db : AlertsDb) : Prop :=
  ∀ r ∈ db.alerts.rows, ∀ q ∈ db.alerts.rows, unresolved r = true → unresolved q = true →
    r.key = q.key → r = q

/-- What a pass finds, by key. -/
def found (findings : List Finding) : Table Finding.key := findings.foldl Table.upsert .empty

theorem isSome_found_iff (findings : List Finding) (k : String) :
    ((found findings).find? k).isSome = true ↔ ∃ f ∈ findings, f.key = k := by
  simp [found, Table.isSome_find?_foldl_upsert]

/-- The rows a pass meets are settled, each by the finding that has its key, and take
these findings out of the map. -/
theorem seen_spec (todo : List AlertRow) (s : AlertsDb × Table Finding.key)
    (hids : (todo.map AlertRow.id).Nodup) (hkeys : (todo.map AlertRow.key).Nodup)
    (hrows : ∀ a ∈ todo, s.1.alerts.find? a.id = some a) :
    (todo.foldl seeOne s).1.now = s.1.now ∧ (todo.foldl seeOne s).1.seq = s.1.seq ∧
      (∀ a ∈ todo, (todo.foldl seeOne s).1.alerts.find? a.id =
        some (settle s.1.sqlNow (s.2.find? a.key) a)) ∧
      (∀ id ∉ todo.map AlertRow.id, (todo.foldl seeOne s).1.alerts.find? id = s.1.alerts.find? id) ∧
      ∀ k, (todo.foldl seeOne s).2.find? k =
        if k ∈ todo.map AlertRow.key then none else s.2.find? k := by
  induction todo generalizing s with
  | nil => simp
  | cons a rest ih =>
      rw [List.map_cons, List.nodup_cons] at hids hkeys
      have hmoved : ∀ b ∈ rest, (seeOne s a).1.alerts.find? b.id = some b := by
        intro b hb
        have hne : b.id ≠ a.id := fun h => hids.1 (h ▸ List.mem_map_of_mem hb)
        rw [← hrows b (List.mem_cons_of_mem _ hb)]
        exact Table.find?_update_of_ne _ hne _ (settle_id _ _)
      have hfree : ∀ k, (seeOne s a).2.find? k = if k = a.key then none else s.2.find? k := by
        intro k
        change (s.2.deleteWhere _).find? k = _
        rw [Table.find?_deleteWhere]
        cases hk : s.2.find? k with
        | none => simp
        | some f =>
            have hf : f.key = k := Table.key_of_find? hk
            by_cases ha : k = a.key <;> simp [Option.filter, hf, ha]
      obtain ⟨hnow, hseq, hmet, hrest, hleft⟩ := ih (seeOne s a) hids.2 hkeys.2 hmoved
      refine ⟨hnow, hseq, ?_, ?_, ?_⟩
      · intro b hb
        rcases List.mem_cons.mp hb with rfl | hb
        · rw [List.foldl_cons, hrest _ hids.1]
          have hself := Table.find?_update_self s.1.alerts b.id
            (settle s.1.sqlNow (s.2.find? b.key)) (settle_id _ _)
          rw [hrows b List.mem_cons_self] at hself
          exact hself
        · have hne : b.key ≠ a.key := fun h => hkeys.1 (h ▸ List.mem_map_of_mem hb)
          rw [List.foldl_cons, hmet b hb, hfree, if_neg hne]
          rfl
      · intro id hid
        rw [List.map_cons, List.mem_cons, not_or] at hid
        rw [List.foldl_cons, hrest id hid.2]
        exact Table.find?_update_of_ne _ hid.1 _ (settle_id _ _)
      · intro k
        rw [List.foldl_cons, hleft, hfree]
        by_cases ha : k = a.key <;> simp [ha]

/-- What is left is opened, one row for each. -/
theorem opened_spec (fs : List Finding) (s : AlertsDb × List AlertRow) (hfresh : Fresh s.1) :
    ∃ news, (fs.foldl openOne s).2 = s.2 ++ news ∧
      (fs.foldl openOne s).1.alerts.rows = s.1.alerts.rows ++ news ∧
      news.map AlertRow.key = fs.map Finding.key ∧ (∀ r ∈ news, r.state = .open_) ∧
      Fresh (fs.foldl openOne s).1 := by
  induction fs generalizing s with
  | nil => exact ⟨[], by simp, by simp, rfl, by simp, hfresh⟩
  | cons f rest ih =>
      let row := newAlert s.1.sqlNow (s.1.seq + 1) f
      have hfree : s.1.alerts.find? row.id = none := by
        rw [Table.find?_eq_none_iff]
        intro r hr heq
        have hle := hfresh r hr
        have hid : row.id = s.1.seq + 1 := rfl
        omega
      have hrows : (openOne s f).1.alerts.rows = s.1.alerts.rows ++ [row] :=
        Table.rows_insertNew_of_free hfree
      have hnext : Fresh (openOne s f).1 := by
        intro r hr
        change r.id ≤ s.1.seq + 1
        rw [hrows, List.mem_append, List.mem_singleton] at hr
        rcases hr with hr | rfl
        · exact Nat.le_succ_of_le (hfresh r hr)
        · exact Nat.le_refl _
      obtain ⟨news, hopened, hrows', hkeys, hopen, hend⟩ := ih (openOne s f) hnext
      refine ⟨row :: news, ?_, ?_, ?_, ?_, hend⟩
      · rw [List.foldl_cons, hopened]
        simp [openOne, row]
      · rw [List.foldl_cons, hrows', hrows]
        simp
      · rw [List.map_cons, List.map_cons, hkeys]
        rfl
      · intro r hr
        rcases List.mem_cons.mp hr with rfl | hr
        · rfl
        · exact hopen r hr

/-- A row after a pass. -/
def passed (db : AlertsDb) (findings : List Finding) (r : AlertRow) : AlertRow :=
  if unresolved r then settle db.sqlNow ((found findings).find? r.key) r else r

/-- The key has an alert that is not over. -/
def Live (db : AlertsDb) (k : String) : Prop :=
  ∃ r ∈ db.alerts.rows, unresolved r = true ∧ r.key = k

@[simp] theorem passed_id (db : AlertsDb) (findings : List Finding) (r : AlertRow) :
    (passed db findings r).id = r.id := by
  unfold passed
  split <;> simp

@[simp] theorem passed_key (db : AlertsDb) (findings : List Finding) (r : AlertRow) :
    (passed db findings r).key = r.key := by
  unfold passed
  split <;> simp

/-- A row is not over after a pass if it was not and its condition is still there. -/
theorem unresolved_passed_iff (db : AlertsDb) (findings : List Finding) (r : AlertRow) :
    unresolved (passed db findings r) = true ↔
      unresolved r = true ∧ ∃ f ∈ findings, f.key = r.key := by
  rw [← isSome_found_iff]
  unfold passed
  by_cases hu : unresolved r = true
  · rw [if_pos hu]
    cases (found findings).find? r.key with
    | none => simp [settle, resolve, unresolved]
    | some f =>
        have hkept : unresolved (settle db.sqlNow (some f) r) = unresolved r := rfl
        simp [hkept, hu]
  · simp [hu]

/-- The rows a pass meets. -/
def notOver (db : AlertsDb) : List AlertRow := db.alerts.rows.filter unresolved

theorem mem_notOver {db : AlertsDb} {a : AlertRow} :
    a ∈ notOver db ↔ a ∈ db.alerts.rows ∧ unresolved a = true := List.mem_filter

theorem mem_notOver_keys {db : AlertsDb} {k : String} :
    k ∈ (notOver db).map AlertRow.key ↔ Live db k := by
  simp only [List.mem_map, mem_notOver, Live, and_assoc]

theorem notOver_ids_nodup (db : AlertsDb) : ((notOver db).map AlertRow.id).Nodup :=
  db.alerts.nodup.sublist (List.filter_sublist.map _)

theorem notOver_keys_nodup {db : AlertsDb} (hone : OnePer db) :
    ((notOver db).map AlertRow.key).Nodup := by
  refine (List.Nodup.of_map _ (notOver_ids_nodup db)).map_on ?_
  intro a ha b hb hkey
  obtain ⟨ha, hua⟩ := mem_notOver.mp ha
  obtain ⟨hb, hub⟩ := mem_notOver.mp hb
  exact hone a ha b hb hua hub hkey

/-- What the first loop of a pass leaves. -/
def seen (db : AlertsDb) (findings : List Finding) : AlertsDb × Table Finding.key :=
  (notOver db).foldl seeOne (db, found findings)

/-- Every row is where its old one was, and the findings without a row are left. -/
theorem seen_find? {db : AlertsDb} (hone : OnePer db) (findings : List Finding) :
    (seen db findings).1.seq = db.seq ∧
      (∀ id, (seen db findings).1.alerts.find? id =
        (db.alerts.find? id).map (passed db findings)) ∧
      ∀ k, (seen db findings).2.find? k =
        if k ∈ (notOver db).map AlertRow.key then none else (found findings).find? k := by
  have hmet : ∀ a ∈ notOver db, db.alerts.find? a.id = some a := fun a ha =>
    Table.mem_rows_iff.mp (mem_notOver.mp ha).1
  obtain ⟨-, hseq, hsettled, hrest, hleft⟩ :=
    seen_spec (notOver db) (db, found findings) (notOver_ids_nodup db) (notOver_keys_nodup hone) hmet
  refine ⟨hseq, fun id => ?_, hleft⟩
  unfold seen
  by_cases hid : id ∈ (notOver db).map AlertRow.id
  · obtain ⟨a, ha, rfl⟩ := List.mem_map.mp hid
    rw [hsettled a ha, hmet a ha]
    simp [passed, (mem_notOver.mp ha).2]
  · rw [hrest id hid]
    cases hq : db.alerts.find? id with
    | none => simp
    | some q =>
        obtain ⟨hmem, rfl⟩ := Table.find?_eq_some_iff.mp hq
        have hu : ¬unresolved q = true := fun hu =>
          hid (List.mem_map_of_mem (mem_notOver.mpr ⟨hmem, hu⟩))
        simp [passed, hu]

theorem mem_seen_rows {db : AlertsDb} (hone : OnePer db) (findings : List Finding) (r : AlertRow) :
    r ∈ (seen db findings).1.alerts.rows ↔ ∃ q ∈ db.alerts.rows, r = passed db findings q := by
  rw [Table.mem_rows_iff, (seen_find? hone findings).2.1]
  constructor
  · intro h
    obtain ⟨q, hq, rfl⟩ := Option.map_eq_some_iff.mp h
    exact ⟨q, (Table.find?_eq_some_iff.mp hq).1, rfl⟩
  · rintro ⟨q, hq, rfl⟩
    rw [passed_id, Table.mem_rows_iff.mp hq]
    rfl

/-- A pass settles every row that is not over and opens one for each finding without one. -/
structure Reconciled (db : AlertsDb) (findings : List Finding) (db' : AlertsDb)
    (opened : List AlertRow) : Prop where
  fresh : Fresh db'
  rows : ∀ r, r ∈ db'.alerts.rows ↔ (∃ q ∈ db.alerts.rows, r = passed db findings q) ∨ r ∈ opened
  opened_open : ∀ r ∈ opened, r.state = .open_
  opened_nodup : (opened.map AlertRow.key).Nodup
  mem_opened : ∀ k, k ∈ opened.map AlertRow.key ↔ (∃ f ∈ findings, f.key = k) ∧ ¬Live db k

theorem reconcile_spec {db : AlertsDb} (hfresh : Fresh db) (hone : OnePer db)
    (findings : List Finding) :
    Reconciled db findings (reconcile db findings).1 (reconcile db findings).2 := by
  obtain ⟨hseq, -, hleft⟩ := seen_find? hone findings
  have hfreshSeen : Fresh (seen db findings).1 := by
    intro r hr
    obtain ⟨q, hq, rfl⟩ := (mem_seen_rows hone findings r).mp hr
    rw [passed_id]
    exact (hfresh q hq).trans hseq.ge
  obtain ⟨news, hopened, hrows, hnews, hopen, hend⟩ :=
    opened_spec (seen db findings).2.rows ((seen db findings).1, []) hfreshSeen
  have hresult : (reconcile db findings).2 = news := hopened
  refine ⟨hend, ?_, ?_, ?_, ?_⟩
  · intro r
    have hfinal : (reconcile db findings).1.alerts.rows = (seen db findings).1.alerts.rows ++ news :=
      hrows
    rw [hfinal, List.mem_append, mem_seen_rows hone, hresult]
  · rw [hresult]
    exact hopen
  · rw [hresult, hnews]
    exact (seen db findings).2.nodup
  · intro k
    have hmem : k ∈ (seen db findings).2.rows.map Finding.key ↔
        ((seen db findings).2.find? k).isSome = true := by
      rw [Option.isSome_iff_exists]
      simp only [Table.find?_eq_some_iff, List.mem_map]
    rw [hresult, hnews, hmem, hleft, ← mem_notOver_keys, ← isSome_found_iff]
    by_cases hk : k ∈ (notOver db).map AlertRow.key
    · simp [hk]
    · rw [if_neg hk]
      simp only [hk, not_false_eq_true, and_true]

/-! ## Runs of passes -/

/-- An acknowledgement, a snooze and its end move no alert in or out of those not over. -/
def Quiet (db db' : AlertsDb) : Prop :=
  db'.seq = db.seq ∧ ∃ g : AlertRow → AlertRow,
    (∀ r, (g r).id = r.id ∧ (g r).key = r.key ∧ unresolved (g r) = unresolved r) ∧
      db'.alerts.rows = db.alerts.rows.map g

theorem quiet_refl (db db' : AlertsDb) (halerts : db'.alerts = db.alerts) (hseq : db'.seq = db.seq) :
    Quiet db db' := by
  refine ⟨hseq, id, fun r => ?_, by simp [halerts]⟩
  simp

theorem quiet_updateWhere (db : AlertsDb) (p : AlertRow → Bool) (f : AlertRow → AlertRow)
    (hid : ∀ r, (f r).id = r.id) (hkey : ∀ r, (f r).key = r.key)
    (hu : ∀ r, p r = true → unresolved (f r) = unresolved r) : Quiet db (db.updateWhere p f hid) := by
  refine ⟨rfl, fun r => if p r then f r else r, fun r => ?_, rfl⟩
  by_cases hp : p r = true
  · simp only [if_pos hp]
    exact ⟨hid r, hkey r, hu r hp⟩
  · simp [hp]

theorem quiet_step (db : AlertsDb) {req : Request} (h : ∀ findings, req ≠ .pass findings) :
    Quiet db (step db req) := by
  cases req with
  | tick ms => exact quiet_refl db _ rfl rfl
  | pass findings => exact absurd rfl (h findings)
  | ack id =>
      apply quiet_updateWhere db
      · exact fun r => rfl
      intro r hp
      simp only [Bool.and_eq_true] at hp
      rw [hp.2]
      rfl
  | snooze id minutes =>
      simp only [step, snooze]
      split
      · split
        · exact quiet_refl db db rfl rfl
        · apply quiet_updateWhere db
          · exact fun r => rfl
          intro r hp
          simp only [Bool.and_eq_true] at hp
          rw [hp.2]
          rfl
      · exact quiet_refl db db rfl rfl
  | expire =>
      apply quiet_updateWhere db
      · exact fun r => rfl
      intro r hp
      simp only [Bool.and_eq_true, decide_eq_true_eq] at hp
      simp [hp.1, wake, unresolved]

section Quiet

variable {db db' : AlertsDb}

theorem Quiet.fresh (h : Quiet db db') (hfresh : Fresh db) : Fresh db' := by
  obtain ⟨hseq, g, hg, hrows⟩ := h
  intro r hr
  rw [hrows] at hr
  obtain ⟨q, hq, rfl⟩ := List.mem_map.mp hr
  rw [(hg q).1, hseq]
  exact hfresh q hq

theorem Quiet.onePer (h : Quiet db db') (hone : OnePer db) : OnePer db' := by
  obtain ⟨-, g, hg, hrows⟩ := h
  intro r hr q hq hur huq hkey
  rw [hrows] at hr hq
  obtain ⟨a, ha, rfl⟩ := List.mem_map.mp hr
  obtain ⟨b, hb, rfl⟩ := List.mem_map.mp hq
  rw [(hg a).2.2] at hur
  rw [(hg b).2.2] at huq
  rw [(hg a).2.1, (hg b).2.1] at hkey
  rw [hone a ha b hb hur huq hkey]

theorem Quiet.live_iff (h : Quiet db db') (k : String) : Live db' k ↔ Live db k := by
  obtain ⟨-, g, hg, hrows⟩ := h
  unfold Live
  rw [hrows]
  constructor
  · rintro ⟨r, hr, hu, hk⟩
    obtain ⟨q, hq, rfl⟩ := List.mem_map.mp hr
    exact ⟨q, hq, (hg q).2.2 ▸ hu, (hg q).2.1 ▸ hk⟩
  · rintro ⟨q, hq, hu, hk⟩
    exact ⟨g q, List.mem_map_of_mem hq, (hg q).2.2.trans hu, (hg q).2.1.trans hk⟩

end Quiet

section Reconciled

variable {db db' : AlertsDb} {findings : List Finding} {opened : List AlertRow}

theorem Reconciled.onePer (h : Reconciled db findings db' opened) (hone : OnePer db) :
    OnePer db' := by
  have hclash : ∀ q ∈ db.alerts.rows, ∀ r ∈ opened, unresolved q = true → q.key ≠ r.key := by
    intro q hq r hr hu hkey
    exact ((h.mem_opened r.key).mp (List.mem_map_of_mem hr)).2 ⟨q, hq, hu, hkey⟩
  intro r hr q hq hur huq hkey
  rcases (h.rows r).mp hr with ⟨a, ha, rfl⟩ | hr
  · rcases (h.rows q).mp hq with ⟨b, hb, rfl⟩ | hq
    · rw [passed_key, passed_key] at hkey
      have hua := ((unresolved_passed_iff db findings a).mp hur).1
      have hub := ((unresolved_passed_iff db findings b).mp huq).1
      rw [hone a ha b hb hua hub hkey]
    · have hua := ((unresolved_passed_iff db findings a).mp hur).1
      exact absurd (by simpa using hkey) (hclash a ha q hq hua)
  · rcases (h.rows q).mp hq with ⟨b, hb, rfl⟩ | hq
    · have hub := ((unresolved_passed_iff db findings b).mp huq).1
      exact absurd (by simpa using hkey.symm) (hclash b hb r hr hub)
    · exact List.inj_on_of_nodup_map h.opened_nodup hr hq hkey

/-- After a pass exactly what it found is not over. -/
theorem Reconciled.live_iff (h : Reconciled db findings db' opened) (k : String) :
    Live db' k ↔ ∃ f ∈ findings, f.key = k := by
  constructor
  · rintro ⟨r, hr, hu, rfl⟩
    rcases (h.rows r).mp hr with ⟨q, hq, rfl⟩ | hr
    · rw [passed_key]
      exact ((unresolved_passed_iff db findings q).mp hu).2
    · exact ((h.mem_opened r.key).mp (List.mem_map_of_mem hr)).1
  · intro hfound
    by_cases hlive : Live db k
    · obtain ⟨q, hq, hu, rfl⟩ := hlive
      exact ⟨passed db findings q, (h.rows _).mpr (Or.inl ⟨q, hq, rfl⟩),
        (unresolved_passed_iff db findings q).mpr ⟨hu, hfound⟩, passed_key db findings q⟩
    · obtain ⟨r, hr, hk⟩ := List.mem_map.mp ((h.mem_opened k).mpr ⟨hfound, hlive⟩)
      exact ⟨r, (h.rows r).mpr (Or.inr hr), by simp [unresolved, h.opened_open r hr], hk⟩

end Reconciled

/-- What the last pass found; nothing before the first. -/
def lastFindings (reqs : List Request) : List Finding :=
  reqs.foldl (fun last req => match req with
    | .pass findings => findings
    | _ => last) []

theorem lastFindings_pass (reqs : List Request) (findings : List Finding) :
    lastFindings (reqs ++ [.pass findings]) = findings := by
  simp [lastFindings]

theorem lastFindings_quiet (reqs : List Request) {req : Request}
    (h : ∀ findings, req ≠ .pass findings) : lastFindings (reqs ++ [req]) = lastFindings reqs := by
  cases req with
  | pass findings => exact absurd rfl (h findings)
  | _ => simp [lastFindings]

/-- The table is in order, and what is not over is what the last pass found. -/
structure Current (reqs : List Request) (db : AlertsDb) : Prop where
  fresh : Fresh db
  onePer : OnePer db
  live_iff : ∀ k, Live db k ↔ ∃ f ∈ lastFindings reqs, f.key = k

theorem current_after (reqs : List Request) : Current reqs (after reqs) := by
  have hfree : Along step (fun _ _ => True) .empty reqs :=
    along_of_forall (fun _ _ => trivial) _ reqs
  refine history_invariant (I := Current) ?_ ?_ hfree
  · refine ⟨?_, ?_, ?_⟩ <;> simp [Fresh, OnePer, Live, AlertsDb.empty, Table.empty, lastFindings]
  · intro past req hpast _
    by_cases hquiet : ∀ findings, req ≠ .pass findings
    · have hq := quiet_step (run step .empty past) hquiet
      refine ⟨hq.fresh hpast.fresh, hq.onePer hpast.onePer, fun k => ?_⟩
      rw [hq.live_iff, hpast.live_iff, lastFindings_quiet past hquiet]
    · push Not at hquiet
      obtain ⟨findings, rfl⟩ := hquiet
      have hpass := reconcile_spec hpast.fresh hpast.onePer findings
      refine ⟨hpass.fresh, hpass.onePer hpast.onePer, fun k => ?_⟩
      rw [lastFindings_pass]
      exact hpass.live_iff k

/-! ## The lifecycle -/

/-- The pairs whose alerts are not over. -/
def live (db : AlertsDb) : List (String × String) :=
  (db.alerts.rows.filter unresolved).map AlertRow.pair

/-- How many alerts a request returns as opened for a pair. -/
def openings (p : String × String) (db : AlertsDb) : Request → Nat
  | .pass findings => ((reconcile db findings).2.map AlertRow.pair).count p
  | _ => 0

theorem live_nodup {db : AlertsDb} (hone : OnePer db) : (live db).Nodup := by
  refine (List.Nodup.of_map _ (notOver_ids_nodup db)).map_on ?_
  intro a ha b hb hpair
  exact List.inj_on_of_nodup_map (notOver_keys_nodup hone) ha hb ((a.key_eq_iff b).mpr hpair)

/-- The same keys are the same pairs. -/
theorem mem_live_iff {db : AlertsDb} {findings : List Finding}
    (h : ∀ k, Live db k ↔ ∃ f ∈ findings, f.key = k) (p : String × String) :
    p ∈ live db ↔ p ∈ findings.map Finding.pair := by
  constructor
  · intro hp
    obtain ⟨r, hr, rfl⟩ := List.mem_map.mp hp
    obtain ⟨hmem, hu⟩ := List.mem_filter.mp hr
    obtain ⟨f, hf, hkey⟩ := (h r.key).mp ⟨r, hmem, hu, rfl⟩
    exact List.mem_map.mpr ⟨f, hf, (f.key_eq_iff r).mp hkey⟩
  · intro hp
    obtain ⟨f, hf, rfl⟩ := List.mem_map.mp hp
    obtain ⟨r, hmem, hu, hkey⟩ := (h f.key).mpr ⟨f, hf, rfl⟩
    exact List.mem_map.mpr ⟨r, List.mem_filter.mpr ⟨hmem, hu⟩, ((f.key_eq_iff r).mp hkey.symm).symm⟩

/-- A pass opens an alert for a pair exactly when the pair is new to it, and then one. -/
theorem count_opened {reqs : List Request} {db : AlertsDb} (hcur : Current reqs db)
    (findings : List Finding) (p : String × String) :
    ((reconcile db findings).2.map AlertRow.pair).count p =
      if p ∈ findings.map Finding.pair ∧ p ∉ (lastFindings reqs).map Finding.pair then 1 else 0 := by
  have hpass := reconcile_spec hcur.fresh hcur.onePer findings
  have hnodup : ((reconcile db findings).2.map AlertRow.pair).Nodup := by
    refine (List.Nodup.of_map _ hpass.opened_nodup).map_on ?_
    intro a ha b hb hpair
    exact List.inj_on_of_nodup_map hpass.opened_nodup ha hb ((a.key_eq_iff b).mpr hpair)
  have hlast := mem_live_iff hcur.live_iff
  have hmem : p ∈ (reconcile db findings).2.map AlertRow.pair ↔
      p ∈ findings.map Finding.pair ∧ p ∉ (lastFindings reqs).map Finding.pair := by
    constructor
    · intro hp
      obtain ⟨r, hr, rfl⟩ := List.mem_map.mp hp
      obtain ⟨⟨f, hf, hkey⟩, hnew⟩ := (hpass.mem_opened r.key).mp (List.mem_map_of_mem hr)
      refine ⟨List.mem_map.mpr ⟨f, hf, (f.key_eq_iff r).mp hkey⟩, fun hold => hnew ?_⟩
      obtain ⟨q, hq, hpair⟩ := List.mem_map.mp ((hlast r.pair).mpr hold)
      obtain ⟨hmem, hu⟩ := List.mem_filter.mp hq
      exact ⟨q, hmem, hu, (q.key_eq_iff r).mpr hpair⟩
    · rintro ⟨hp, hnew⟩
      obtain ⟨f, hf, rfl⟩ := List.mem_map.mp hp
      have habsent : ¬Live db f.key := by
        rintro ⟨q, hq, hu, hkey⟩
        have hpair := (f.key_eq_iff q).mp hkey.symm
        exact hnew ((hlast _).mp (List.mem_map.mpr ⟨q, List.mem_filter.mpr ⟨hq, hu⟩, hpair.symm⟩))
      obtain ⟨r, hr, hkey⟩ := List.mem_map.mp ((hpass.mem_opened f.key).mpr ⟨⟨f, hf, rfl⟩, habsent⟩)
      exact List.mem_map.mpr ⟨r, hr, ((f.key_eq_iff r).mp hkey.symm).symm⟩
  split
  · exact List.count_eq_one_of_mem hnodup (hmem.mpr (by assumption))
  · exact List.count_eq_zero_of_not_mem fun hp => absurd (hmem.mp hp) (by assumption)

/-- Once the condition is there, the alert opened for it is the only one as long as it lasts. -/
theorem total_openings {past : List Request} {p : String × String}
    (hstart : p ∉ (lastFindings past).map Finding.pair) {episode : List Request}
    (hlasts : ∀ findings, .pass findings ∈ episode → p ∈ findings.map Finding.pair) :
    (p ∈ (lastFindings (past ++ episode)).map Finding.pair ↔ ∃ findings, .pass findings ∈ episode) ∧
      total step (openings p) (after past) episode =
        if p ∈ (lastFindings (past ++ episode)).map Finding.pair then 1 else 0 := by
  induction episode using List.reverseRecOn with
  | nil => simp [hstart]
  | append_singleton episode req ih =>
      obtain ⟨hiff, htotal⟩ := ih fun findings h => hlasts findings (List.mem_append_left _ h)
      have hstate : run step (after past) episode = after (past ++ episode) :=
        (run_append step .empty past episode).symm
      rw [total_concat, htotal, hstate, ← List.append_assoc]
      by_cases hquiet : ∀ findings, req ≠ .pass findings
      · have hzero : openings p (after (past ++ episode)) req = 0 := by
          cases req with
          | pass findings => exact absurd rfl (hquiet findings)
          | _ => rfl
        rw [lastFindings_quiet _ hquiet, hzero]
        refine ⟨hiff.trans (exists_congr fun findings => ?_), rfl⟩
        simp [(hquiet findings).symm]
      · push Not at hquiet
        obtain ⟨findings, rfl⟩ := hquiet
        have hp := hlasts findings (by simp)
        rw [lastFindings_pass]
        refine ⟨⟨fun _ => ⟨findings, by simp⟩, fun _ => hp⟩, ?_⟩
        simp only [openings, count_opened (current_after (past ++ episode)) findings p, hp, true_and,
          if_true]
        split <;> simp_all

/-- At any time a condition has one alert that is not over at most. A pass returns an alert
as opened, and one, exactly when the condition is in what it found and not in what the pass
before it found, and leaves exactly what it found not over. So passes in a row that find a
condition, after one that did not, open one alert between them, whatever is acknowledged or
snoozed on the way. -/
theorem alert_lifecycle (reqs : List Request) :
    (live (after reqs)).Nodup ∧
      (∀ findings p, ((reconcile (after reqs) findings).2.map AlertRow.pair).count p =
        if p ∈ findings.map Finding.pair ∧ p ∉ (lastFindings reqs).map Finding.pair then 1 else 0) ∧
      (∀ findings p, p ∈ live (after (reqs ++ [.pass findings])) ↔ p ∈ findings.map Finding.pair) ∧
      ∀ episode p, p ∉ (lastFindings reqs).map Finding.pair →
        (∃ findings, .pass findings ∈ episode) →
        (∀ findings, .pass findings ∈ episode → p ∈ findings.map Finding.pair) →
          total step (openings p) (after reqs) episode = 1 := by
  refine ⟨live_nodup (current_after reqs).onePer, count_opened (current_after reqs), ?_, ?_⟩
  · intro findings p
    have hcur := (current_after (reqs ++ [.pass findings])).live_iff
    rw [lastFindings_pass] at hcur
    exact mem_live_iff hcur p
  · intro episode p hstart hsome hlasts
    obtain ⟨hiff, htotal⟩ := total_openings hstart hlasts
    rw [htotal, if_pos (hiff.mpr hsome)]

end FleetRunner.Alerts
