import FleetRunner.Library.Runs
import FleetRunner.Library.Settling
import Mathlib.Algebra.Ring.Int.Defs
import Mathlib.Logic.Function.Basic

/-!
# The driver's server (`DriverHTTP.swift`)

The UI-test runner on a device takes commands over HTTP. A connection brings one
request, whose bytes come in pieces of any size; what is complete waits in a
queue, and the test's own loop takes the requests off one at a time.

## Implementation notes

What Foundation makes of a text is a parameter. Pieces of any number of
connections come in any order, and the loop takes a request at any time.
-/

namespace FleetRunner.Ios.DriverHTTP

open Library

/-! ## A request -/

/-- The functions of Swift and Foundation the parser calls. -/
structure Foundation where
  /-- `String(data:encoding:)` for UTF-8 -/
  utf8 : List UInt8 → Option String
  /-- `components(separatedBy: "\r\n")` -/
  lines : String → List String
  /-- `split(separator: " ", omittingEmptySubsequences: true)` -/
  words : String → List String
  /-- What stands in front of the first colon and behind it. -/
  aroundColon : String → Option (String × String)
  trim : String → String
  lowercased : String → String
  uppercased : String → String
  /-- `Int(s)` -/
  int : String → Option Int
  /-- The path of a URL, and its query items. -/
  urlComponents : String → Option (String × List (String × Option String))

structure Request where
  method : String
  path : String
  query : List (String × String)
  headers : List (String × String)
  body : List UInt8

/-- A dictionary, in which a key set twice has its last value. -/
def put (d : List (String × String)) (key value : String) : List (String × String) :=
  (key, value) :: d

inductive Parsed where
  | incomplete
  | bad (why : String)
  | done (request : Request)

def maxBody : Int := 2 ^ 20

section Parse

variable (f : Foundation)

/-- The bytes in front of the first empty line, and those behind it. -/
def splitHead (buf : List UInt8) : Option (List UInt8 × List UInt8) :=
  if [13, 10, 13, 10].isPrefixOf buf then some ([], buf.drop 4)
  else
    match buf with
    | [] => none
    | b :: rest => (splitHead rest).map fun p => (b :: p.1, p.2)

def addHeader (headers : List (String × String)) (line : String) : List (String × String) :=
  match f.aroundColon line with
  | none => headers
  | some (key, value) => put headers (f.lowercased (f.trim key)) (f.trim value)

structure Head where
  method : String
  target : String
  headers : List (String × String)
  length : Int

def parseHead (bytes : List UInt8) : Except String Head :=
  match f.utf8 bytes with
  | none => .error "headers are not UTF-8"
  | some head =>
    match f.words ((f.lines head).headD "") with
    | method :: target :: _ =>
      let headers := (f.lines head).tail.foldl (addHeader f) []
      .ok { method, target, headers,
            length := (f.int ((headers.lookup "content-length").getD "0")).getD 0 }
    | _ => .error "malformed request line"

def requestOf (head : Head) (body : List UInt8) : Request :=
  let comps := f.urlComponents ("http://driver" ++ head.target)
  { method := f.uppercased head.method
    path := (comps.map Prod.fst).getD head.target
    query := ((comps.map Prod.snd).getD []).foldl (fun q item => put q item.1 (item.2.getD "")) []
    headers := head.headers
    body }

def parse (buf : List UInt8) : Parsed :=
  match splitHead buf with
  | none => .incomplete
  | some (headBytes, rest) =>
    match parseHead f headBytes with
    | .error why => .bad why
    | .ok head =>
      if head.length < 0 ∨ maxBody < head.length then
        .bad ("bad Content-Length " ++ toString head.length)
      else if rest.length < head.length then .incomplete
      else .done (requestOf f head (rest.take head.length.toNat))

end Parse

/-! ## Connections -/

inductive Outcome where
  | cancelled
  | answered (status : Nat) (error : String)
  | queued (request : Request)

/-- A connection is read while it has no outcome. -/
structure Conn where
  buffer : List UInt8
  outcome : Option Outcome

def Conn.opened : Conn := ⟨[], none⟩

structure Server where
  conns : Nat → Option Conn
  pending : List (Nat × Request)
  /-- What the loop has taken off, in order. -/
  handled : List (Nat × Request)

def Server.started : Server := ⟨fun _ => none, [], []⟩

inductive Step where
  | accept (i : Nat)
  | receive (i : Nat) (data : List UInt8) (isComplete failed : Bool)
  /-- The test's loop takes the oldest request. -/
  | next

section Program

variable (f : Foundation) (token : Option String)

/-- An empty token is none. -/
def requiredToken : Option String := token.filter fun t => decide (t ≠ "")

/-- Does the request carry the token, where there is one? -/
def authorized (request : Request) : Bool :=
  match requiredToken token with
  | none => true
  | some t => decide (request.headers.lookup "x-fleet-driver-token" = some t)

/-- What becomes of a connection for its bytes; none while they are not all there. -/
def verdict (buf : List UInt8) : Option Outcome :=
  match parse f buf with
  | .incomplete => none
  | .bad why => some (.answered 400 why)
  | .done request =>
    some (if authorized token request then .queued request
          else .answered 401 "missing or wrong X-Fleet-Driver-Token")

/-- Bytes without a verdict that are too many for any request. -/
def tooLarge (buf : List UInt8) : Option Outcome :=
  if maxBody + 16 * 1024 < buf.length then some (.answered 413 "request too large") else none

/-- More bytes of a connection that is being read. -/
def Conn.receive (c : Conn) (data : List UInt8) (isComplete failed : Bool) : Conn :=
  let buf := c.buffer ++ data
  if failed then ⟨buf, some .cancelled⟩
  else
    match verdict f token buf with
    | some outcome => ⟨buf, some outcome⟩
    | none => if isComplete then ⟨buf, some .cancelled⟩ else ⟨buf, tooLarge buf⟩

/-- The request of a connection that has come to one. -/
def Conn.request? (c : Conn) : Option Request :=
  match c.outcome with
  | some (.queued request) => some request
  | _ => none

def Server.step (g : Server) (s : Step) : Server :=
  match s with
  | .accept i =>
    if (g.conns i).isSome then g
    else { g with conns := Function.update g.conns i (some .opened) }
  | .receive i data isComplete failed =>
    match (g.conns i).filter fun c => c.outcome.isNone with
    | none => g
    | some c =>
      let c' := c.receive f token data isComplete failed
      { g with conns := Function.update g.conns i (some c')
               pending := g.pending ++ (c'.request?.map fun r => (i, r)).toList }
  | .next =>
    match g.pending with
    | [] => g
    | job :: rest => { g with pending := rest, handled := g.handled ++ [job] }

end Program

/-! ## What comes behind a request does not change it -/

section Settled

variable {f : Foundation} {token : Option String}

theorem splitHead_cons {b : UInt8} {rest : List UInt8}
    (h : [13, 10, 13, 10].isPrefixOf (b :: rest) = false) :
    splitHead (b :: rest) = (splitHead rest).map fun p => (b :: p.1, p.2) := by
  rw [splitHead, if_neg (by simp [h])]

theorem splitHead_found {buf : List UInt8} (h : [13, 10, 13, 10].isPrefixOf buf = true) :
    splitHead buf = some ([], buf.drop 4) := by
  unfold splitHead
  exact if_pos h

/-- An empty line is found. -/
theorem splitHead_isSome (head more : List UInt8) :
    (splitHead (head ++ [13, 10, 13, 10] ++ more)).isSome = true := by
  induction head with
  | nil => rfl
  | cons b bs ih =>
      by_cases hstops : [13, 10, 13, 10].isPrefixOf (b :: bs ++ [13, 10, 13, 10] ++ more) = true
      · rw [splitHead_found hstops]
        rfl
      · rw [List.cons_append, List.cons_append] at hstops ⊢
        rw [splitHead_cons (Bool.eq_false_iff.mpr hstops), Option.isSome_map]
        exact ih

theorem eq_of_splitHead {buf head rest : List UInt8} (h : splitHead buf = some (head, rest)) :
    buf = head ++ [13, 10, 13, 10] ++ rest := by
  induction buf generalizing head with
  | nil => cases h
  | cons b bs ih =>
      by_cases hstops : [13, 10, 13, 10].isPrefixOf (b :: bs) = true
      · rw [splitHead_found hstops] at h
        obtain ⟨rfl, rfl⟩ := Prod.mk.inj (Option.some.inj h)
        obtain ⟨more, hmore⟩ := List.isPrefixOf_iff_prefix.mp hstops
        rw [← hmore]
        rfl
      · rw [splitHead_cons (Bool.eq_false_iff.mpr hstops)] at h
        obtain ⟨⟨front, back⟩, hfront, heq⟩ := Option.map_eq_some_iff.mp h
        obtain ⟨rfl, rfl⟩ := Prod.mk.inj heq
        rw [ih hfront]
        rfl

theorem splitHead_append {buf head rest : List UInt8} (h : splitHead buf = some (head, rest))
    (more : List UInt8) : splitHead (buf ++ more) = some (head, rest ++ more) := by
  induction buf generalizing head with
  | nil => cases h
  | cons b bs ih =>
      by_cases hstops : [13, 10, 13, 10].isPrefixOf (b :: bs) = true
      · have hlater : [13, 10, 13, 10].isPrefixOf (b :: bs ++ more) = true :=
          List.isPrefixOf_iff_prefix.mpr
            ((List.isPrefixOf_iff_prefix.mp hstops).trans (List.prefix_append _ more))
        rw [splitHead_found hstops] at h
        obtain ⟨rfl, rfl⟩ := Prod.mk.inj (Option.some.inj h)
        have hlong : 4 ≤ (b :: bs).length := (List.isPrefixOf_iff_prefix.mp hstops).length_le
        rw [splitHead_found hlater, List.drop_append_of_le_length hlong]
      · have hsome := h
        rw [splitHead_cons (Bool.eq_false_iff.mpr hstops)] at h
        obtain ⟨⟨front, back⟩, hfront, heq⟩ := Option.map_eq_some_iff.mp h
        obtain ⟨rfl, rfl⟩ := Prod.mk.inj heq
        have hlong : [13, 10, 13, 10].length ≤ (b :: bs).length := by
          rw [eq_of_splitHead hsome]
          simp only [List.length_append]
          omega
        have hlater : [13, 10, 13, 10].isPrefixOf (b :: (bs ++ more)) = false := by
          rw [Bool.eq_false_iff]
          intro hfull
          apply hstops
          apply List.isPrefixOf_iff_prefix.mpr
          exact List.prefix_of_prefix_length_le (List.isPrefixOf_iff_prefix.mp hfull)
            (List.prefix_append (b :: bs) more) hlong
        rw [List.cons_append, splitHead_cons hlater, ih hfront]
        rfl

/-- A head that has ended is found as soon as its end is there. -/
theorem splitHead_of_length {whole buf head rest : List UInt8} (hfront : buf <+: whole)
    (h : splitHead whole = some (head, rest)) (hlong : head.length + 4 ≤ buf.length) :
    ∃ rest', splitHead buf = some (head, rest') := by
  have hend : head ++ [13, 10, 13, 10] <+: buf := by
    apply List.prefix_of_prefix_length_le _ hfront (by simpa using hlong)
    exact ⟨rest, (eq_of_splitHead h).symm⟩
  obtain ⟨more, hmore⟩ := hend
  obtain ⟨p, hp⟩ := Option.isSome_iff_exists.mp (splitHead_isSome head more)
  rw [hmore] at hp
  obtain ⟨later, rfl⟩ := hfront
  have heq := h.symm.trans (splitHead_append hp later)
  exact ⟨p.2, by rw [hp, (Prod.mk.inj (Option.some.inj heq)).1]⟩

/-- A parse of more than the beginning of a request is the parse of all that comes. -/
theorem parse_append {buf : List UInt8} (h : parse f buf ≠ .incomplete) (more : List UInt8) :
    parse f (buf ++ more) = parse f buf := by
  unfold parse at h ⊢
  cases hsplit : splitHead buf with
  | none => exact absurd (by rw [hsplit]) h
  | some p =>
      obtain ⟨headBytes, rest⟩ := p
      rw [splitHead_append hsplit]
      rw [hsplit] at h
      dsimp only at h ⊢
      cases hhead : parseHead f headBytes with
      | error why => rfl
      | ok head =>
          rw [hhead] at h
          dsimp only at h ⊢
          by_cases hlength : head.length < 0 ∨ maxBody < head.length
          · rw [if_pos hlength, if_pos hlength]
          · rw [if_neg hlength] at h ⊢
            have henough : ¬(rest.length : Int) < head.length := by
              intro hshort
              exact h (if_pos hshort)
            have hmore : ¬((rest ++ more).length : Int) < head.length := by
              rw [List.length_append]
              omega
            rw [if_neg hlength, if_neg hmore, if_neg henough,
              List.take_append_of_le_length (by omega)]

theorem settles_verdict : Settles (verdict f token) := by
  intro buf outcome h more
  have hdone : parse f buf ≠ .incomplete := by
    intro hincomplete
    rw [verdict, hincomplete] at h
    cases h
  rw [verdict, parse_append hdone]
  exact h

/-- Input that is small enough never to be given up: it is, or its head has ended early. -/
def Modest (whole : List UInt8) : Prop :=
  (whole.length : Int) ≤ maxBody + 16 * 1024 ∨
    ∃ head rest, splitHead whole = some (head, rest) ∧ head.length + 4 ≤ 16 * 1024

/-- A request that waits for its body has at most the longest body behind its head. -/
theorem length_of_incomplete {buf head rest : List UInt8}
    (hsplit : splitHead buf = some (head, rest))
    (h : parse f buf = .incomplete) : (rest.length : Int) < maxBody := by
  unfold parse at h
  rw [hsplit] at h
  dsimp only at h
  split at h
  · cases h
  · split at h
    · cases h
    · rename_i hlength
      split at h
      · omega
      · cases h

theorem patient {whole buf : List UInt8} (hmodest : Modest whole) (hfront : buf <+: whole)
    (hopen : verdict f token buf = none) : tooLarge buf = none := by
  have hincomplete : parse f buf = .incomplete := by
    unfold verdict at hopen
    split at hopen
    · assumption
    · cases hopen
    · cases hopen
  have hwhole := hfront.length_le
  apply if_neg
  rcases hmodest with hsmall | ⟨head, rest, hsplit, hhead⟩
  · omega
  · by_cases hlong : head.length + 4 ≤ buf.length
    · obtain ⟨rest', hsplit'⟩ := splitHead_of_length hfront hsplit hlong
      have hbody := length_of_incomplete hsplit' hincomplete
      have hlength := congrArg List.length (eq_of_splitHead hsplit')
      simp only [List.length_append, List.length_cons, List.length_nil] at hlength
      omega
    · have hmax : maxBody = 2 ^ 20 := rfl
      omega

end Settled

/-! ## Runs -/

/-- What the loop has taken and what waits for it. -/
def Server.jobs (g : Server) : List (Nat × Request) := g.handled ++ g.pending

def Step.bytesOf (i : Nat) : Step → List UInt8
  | .receive j data _ _ => if j = i then data else []
  | _ => []

/-- The bytes of a connection, in the order they came. -/
def bytesOf (i : Nat) (steps : List Step) : List UInt8 := steps.flatMap (Step.bytesOf i)

/-- Nothing fails on the connection, and it does not end. -/
def Step.Calm (i : Nat) : Step → Prop
  | .receive j _ isComplete failed => j = i → isComplete = false ∧ failed = false
  | _ => True

section Runs

variable {f : Foundation} {token : Option String} {g : Server} {s : Step}

theorem request?_eq_some {c : Conn} {r : Request} :
    c.request? = some r ↔ c.outcome = some (.queued r) := by
  obtain ⟨buffer, outcome⟩ := c
  rcases outcome with - | (- | - | request) <;> simp [Conn.request?]

theorem verdict_queued {buf : List UInt8} {r : Request} :
    verdict f token buf = some (.queued r) ↔ parse f buf = .done r ∧ authorized token r = true := by
  cases hparse : parse f buf with
  | incomplete => simp [verdict, hparse]
  | bad why => simp [verdict, hparse]
  | done request =>
      cases hauth : authorized token request with
      | false =>
          simp only [verdict, hparse, hauth, Bool.false_eq_true, if_false, Option.some.injEq,
            reduceCtorEq, Parsed.done.injEq, false_iff, not_and, Bool.not_eq_true]
          rintro rfl
          exact hauth
      | true =>
          simp only [verdict, hparse, hauth, if_true, Option.some.injEq, Outcome.queued.injEq,
            Parsed.done.injEq, iff_self_and]
          rintro rfl
          exact hauth

@[simp] theorem receive_buffer (c : Conn) (data : List UInt8) (isComplete failed : Bool) :
    (c.receive f token data isComplete failed).buffer = c.buffer ++ data := by
  unfold Conn.receive
  dsimp only
  split
  · rfl
  · split
    · rfl
    · split <;> rfl

/-- A connection that comes to a request has read one that carries the token. -/
theorem receive_queued {c : Conn} {data : List UInt8} {isComplete failed : Bool} {r : Request}
    (h : (c.receive f token data isComplete failed).outcome = some (.queued r)) :
    verdict f token (c.buffer ++ data) = some (.queued r) := by
  unfold Conn.receive at h
  dsimp only at h
  split at h
  · cases h
  · split at h
    · rename_i outcome hverdict
      exact hverdict.trans h
    · split at h
      · cases h
      · unfold tooLarge at h
        split at h <;> cases h

theorem receive_calm (c : Conn) (data : List UInt8) :
    c.receive f token data false false =
      ⟨c.buffer ++ data, (readPiece (verdict f token) tooLarge c.buffer data).2⟩ := by
  unfold Conn.receive readPiece
  dsimp only
  cases verdict f token (c.buffer ++ data) <;> rfl

variable (f token g s) in
/-- What a step does: nothing to the connections and requests, or a connection opens, or one
that is open reads. -/
theorem Server.step_cases :
    ((g.step f token s).conns = g.conns ∧ (g.step f token s).jobs = g.jobs ∧
        ∀ i data isComplete failed c, s = .receive i data isComplete failed →
          g.conns i = some c → c.outcome.isSome) ∨
      (∃ i, s = .accept i ∧ g.conns i = none ∧
        (g.step f token s).conns = Function.update g.conns i (some .opened) ∧
        (g.step f token s).jobs = g.jobs) ∨
      ∃ i data isComplete failed c, s = .receive i data isComplete failed ∧
        g.conns i = some c ∧ c.outcome = none ∧
        (g.step f token s).conns =
          Function.update g.conns i (some (c.receive f token data isComplete failed)) ∧
        (g.step f token s).jobs = g.jobs ++
          ((c.receive f token data isComplete failed).request?.map fun r => (i, r)).toList := by
  cases s with
  | accept i =>
      cases hi : g.conns i with
      | some c => exact Or.inl (by simp [Server.step, hi])
      | none => exact Or.inr (Or.inl ⟨i, by simp [Server.step, Server.jobs, hi]⟩)
  | next =>
      apply Or.inl
      cases hpending : g.pending with
      | nil => simp [Server.step, hpending]
      | cons job rest => simp [Server.step, Server.jobs, hpending]
  | receive i data isComplete failed =>
      cases hi : (g.conns i).filter fun c => c.outcome.isNone with
      | none =>
          refine Or.inl ⟨by simp [Server.step, hi], by simp [Server.step, hi], ?_⟩
          rintro j _ _ _ c ⟨⟩ hc
          exact Option.isSome_iff_ne_none.mpr (by simpa [hc] using hi)
      | some c =>
          obtain ⟨hc, hopen⟩ := Option.filter_eq_some_iff.mp hi
          refine Or.inr (Or.inr ⟨i, data, isComplete, failed, c, rfl, hc, by simpa using hopen, ?_⟩)
          simp [Server.step, Server.jobs, hi]

/-- Each request once, and exactly those of the connections that came to one. -/
structure Served (g : Server) : Prop where
  once : (g.jobs.map Prod.fst).Nodup
  queued : ∀ i r, (i, r) ∈ g.jobs ↔ ∃ c, g.conns i = some c ∧ c.outcome = some (.queued r)

theorem served_started : Served .started :=
  ⟨List.nodup_nil, fun i r => by simp [Server.jobs, Server.started]⟩

theorem Served.not_mem_of_open (h : Served g) {i : Nat}
    (hopen : ∀ c, g.conns i = some c → c.outcome = none) : i ∉ g.jobs.map Prod.fst := by
  intro hmem
  obtain ⟨⟨j, r⟩, hjob, rfl⟩ := List.mem_map.mp hmem
  obtain ⟨c, hc, hqueued⟩ := (h.queued j r).mp hjob
  exact absurd ((hopen c hc).symm.trans hqueued) (Option.some_ne_none _).symm

/-- A connection that had come to nothing gets an outcome, and its request if it has one. -/
theorem Served.update (h : Served g) {g' : Server} {i : Nat} {c' : Conn}
    (hopen : ∀ c, g.conns i = some c → c.outcome = none)
    (hconns : g'.conns = Function.update g.conns i (some c'))
    (hjobs : g'.jobs = g.jobs ++ (c'.request?.map fun r => (i, r)).toList) : Served g' := by
  have hnot := h.not_mem_of_open hopen
  constructor
  · rw [hjobs, List.map_append, List.nodup_append]
    refine ⟨h.once, ?_, ?_⟩
    · cases c'.request? <;> simp
    · intro j hj k hk heq
      cases hrequest : c'.request? with
      | none => simp [hrequest] at hk
      | some r =>
          have hki : k = i := by simpa [hrequest] using hk
          exact hnot (hki ▸ heq ▸ hj)
  · intro j r
    rw [hjobs, List.mem_append, hconns]
    by_cases hj : j = i
    · subst hj
      have hold : (j, r) ∉ g.jobs := fun hmem => hnot (List.mem_map_of_mem hmem)
      simp [hold, ← request?_eq_some]
    · simp [hj, h.queued j r, Ne.symm hj]

theorem Served.step (h : Served g) : Served (g.step f token s) := by
  rcases Server.step_cases f token g s with ⟨hconns, hjobs, -⟩ | ⟨i, rfl, hi, hconns, hjobs⟩ |
    ⟨i, _, _, _, c, rfl, hc, hopen, hconns, hjobs⟩
  · exact ⟨by rw [hjobs]; exact h.once, by rw [hjobs, hconns]; exact h.queued⟩
  · apply h.update (by simp [hi]) hconns
    rw [hjobs]
    exact (List.append_nil _).symm
  · apply h.update _ hconns hjobs
    intro c' hc'
    rwa [← Option.some.inj (hc.symm.trans hc')]

theorem served_run (f : Foundation) (token : Option String) (steps : List Step) :
    Served (run (Server.step f token) .started steps) :=
  invariant_all (fun _ _ h => h.step) served_started steps

/-- No request is lost, and none overtakes another. -/
theorem jobs_step : g.jobs <+: (g.step f token s).jobs := by
  rcases Server.step_cases f token g s with
    ⟨-, hjobs, -⟩ | ⟨_, -, -, -, hjobs⟩ | ⟨_, _, _, _, _, -, -, -, -, hjobs⟩
  · exact hjobs ▸ List.prefix_rfl
  · exact hjobs ▸ List.prefix_rfl
  · exact hjobs ▸ List.prefix_append _ _

theorem jobs_later (g : Server) (later : List Step) :
    g.jobs <+: (run (Server.step f token) g later).jobs := by
  apply invariant_all (I := fun (g' : Server) => g.jobs <+: g'.jobs) _ List.prefix_rfl later
  exact fun _ _ h => h.trans jobs_step

theorem jobs_run {past steps : List Step} (h : past <+: steps) :
    (run (Server.step f token) .started past).jobs <+:
      (run (Server.step f token) .started steps).jobs := by
  obtain ⟨later, rfl⟩ := h
  rw [run_append]
  exact jobs_later _ later

theorem bytesOf_concat (i : Nat) (past : List Step) (s : Step) :
    bytesOf i (past ++ [s]) = bytesOf i past ++ s.bytesOf i := by
  simp [bytesOf]

/-! ### What a connection has read -/

/-- A connection has read a part of its bytes, up to the last one while it is open; the part has
the request it came to. -/
structure HasRead (f : Foundation) (token : Option String) (sent : List UInt8) (c : Conn) :
    Prop where
  part : c.buffer <:+: sent
  last : c.outcome = none → c.buffer <:+ sent
  queued : ∀ r, c.outcome = some (.queued r) → verdict f token c.buffer = some (.queued r)

theorem HasRead.more {sent : List UInt8} {c : Conn} (h : HasRead f token sent c)
    (hdone : c.outcome.isSome) (more : List UInt8) : HasRead f token (sent ++ more) c where
  part := h.part.trans (List.prefix_append sent more).isInfix
  last hopen := absurd hdone (by simp [hopen])
  queued := h.queued

theorem HasRead.receive {sent : List UInt8} {c : Conn} (h : HasRead f token sent c)
    (hopen : c.outcome = none) (data : List UInt8) (isComplete failed : Bool) :
    HasRead f token (sent ++ data) (c.receive f token data isComplete failed) := by
  have hlast : c.buffer ++ data <:+ sent ++ data := by
    obtain ⟨front, hfront⟩ := h.last hopen
    exact ⟨front, by rw [← hfront, List.append_assoc]⟩
  constructor
  · rw [receive_buffer]
    exact hlast.isInfix
  · intro _
    rw [receive_buffer]
    exact hlast
  · intro r hr
    rw [receive_buffer]
    exact receive_queued hr

theorem hasRead_step {past : List Step}
    (h : ∀ i c, g.conns i = some c → HasRead f token (bytesOf i past) c) (i : Nat) (c : Conn)
    (hc : (g.step f token s).conns i = some c) :
    HasRead f token (bytesOf i (past ++ [s])) c := by
  rw [bytesOf_concat]
  rcases Server.step_cases f token g s with
    ⟨hconns, -, hdone⟩ | ⟨j, rfl, hj, hconns, -⟩ | ⟨j, _, _, _, old, rfl, hold, hopen, hconns, -⟩
  · rw [hconns] at hc
    cases s with
    | accept j => exact (List.append_nil (bytesOf i past)).symm ▸ h i c hc
    | next => exact (List.append_nil (bytesOf i past)).symm ▸ h i c hc
    | receive j data isComplete failed =>
        by_cases hj : j = i
        · exact (h i c hc).more (hdone j data isComplete failed c rfl (hj ▸ hc)) _
        · simpa [Step.bytesOf, hj] using h i c hc
  · rw [hconns] at hc
    rw [show (Step.accept j).bytesOf i = [] from rfl, List.append_nil]
    by_cases hji : i = j
    · rw [hji, Function.update_self] at hc
      rw [← Option.some.inj hc]
      exact ⟨List.nil_infix, fun _ => List.nil_suffix, fun _ hr => by cases hr⟩
    · rw [Function.update_of_ne hji] at hc
      exact h i c hc
  · rw [hconns] at hc
    by_cases hji : i = j
    · subst hji
      rw [Function.update_self] at hc
      rw [← Option.some.inj hc, Step.bytesOf, if_pos rfl]
      exact (h i old hold).receive hopen _ _ _
    · rw [Function.update_of_ne hji] at hc
      rw [Step.bytesOf, if_neg (Ne.symm hji), List.append_nil]
      exact h i c hc

theorem hasRead_run (f : Foundation) (token : Option String) (steps : List Step) (i : Nat)
    (c : Conn) (hc : (run (Server.step f token) .started steps).conns i = some c) :
    HasRead f token (bytesOf i steps) c := by
  revert i c
  have hok : Along (Server.step f token) (fun _ _ => True) .started steps :=
    along_of_forall (fun _ _ => trivial) _ steps
  refine history_invariant (I := fun past (g : Server) =>
    ∀ i c, g.conns i = some c → HasRead f token (bytesOf i past) c) ?_ ?_ hok
  · intro i c hc
    cases hc
  · intro past s h _
    exact hasRead_step h

/-- Whatever the connections send, and however their pieces come: the loop takes a request of a
connection once at most, each parses from bytes of its connection and carries the token, and they
are taken in the order in which they were complete. -/
theorem taken_once_authorized (f : Foundation) (token : Option String) (steps : List Step) :
    let g := run (Server.step f token) .started steps
    (g.handled.map Prod.fst).Nodup ∧
      (∀ job ∈ g.handled, ∃ sent, sent <:+: bytesOf job.1 steps ∧ parse f sent = .done job.2 ∧
        authorized token job.2 = true) ∧
      ∀ past, past <+: steps →
        (run (Server.step f token) .started past).jobs <+: g.handled ++ g.pending := by
  intro g
  have hserved : Served g := served_run f token steps
  have hhandled : g.handled <+: g.jobs := List.prefix_append _ _
  refine ⟨?_, ?_, fun past hpast => jobs_run hpast⟩
  · exact hserved.once.sublist (hhandled.sublist.map _)
  · intro ⟨i, r⟩ hjob
    obtain ⟨c, hc, hqueued⟩ := (hserved.queued i r).mp (hhandled.subset hjob)
    have hread := hasRead_run f token steps i c hc
    exact ⟨c.buffer, hread.part, verdict_queued.mp (hread.queued r hqueued)⟩

/-! ### A calm connection -/

theorem follows_step {past : List Step} {i : Nat} {c : Conn} (hc : g.conns i = some c)
    (hcalm : s.Calm i) {whole : List UInt8} (hmodest : Modest whole)
    (hpart : bytesOf i (past ++ [s]) <+: whole)
    (h : Follows (verdict f token) (bytesOf i past) (c.buffer, c.outcome)) :
    ∃ c', (g.step f token s).conns i = some c' ∧
      Follows (verdict f token) (bytesOf i (past ++ [s])) (c'.buffer, c'.outcome) := by
  rw [bytesOf_concat] at hpart ⊢
  rcases Server.step_cases f token g s with
    ⟨hconns, -, hdone⟩ | ⟨j, rfl, hj, hconns, -⟩ | ⟨j, _, _, _, old, rfl, hold, hopen, hconns, -⟩
  · refine ⟨c, by rw [hconns, hc], ?_⟩
    cases s with
    | accept j => exact (List.append_nil (bytesOf i past)).symm ▸ h
    | next => exact (List.append_nil (bytesOf i past)).symm ▸ h
    | receive j data isComplete failed =>
        by_cases hj : j = i
        · exact h.of_isSome settles_verdict (hdone j data isComplete failed c rfl (hj ▸ hc)) _
        · simpa [Step.bytesOf, hj] using h
  · have hji : i ≠ j := by
      rintro rfl
      exact absurd (hj.symm.trans hc) (Option.some_ne_none c).symm
    rw [hconns, Function.update_of_ne hji]
    exact ⟨c, hc, (List.append_nil (bytesOf i past)).symm ▸ h⟩
  · by_cases hji : j = i
    · subst hji
      obtain rfl := Option.some.inj (hold.symm.trans hc)
      obtain ⟨rfl, rfl⟩ := hcalm rfl
      rw [Step.bytesOf, if_pos rfl] at hpart ⊢
      have hreads := h.readPiece hopen (patient hmodest hpart)
      rw [hconns, Function.update_self, receive_calm]
      exact ⟨_, rfl, hreads⟩
    · rw [hconns, Function.update_of_ne (Ne.symm hji), Step.bytesOf, if_neg hji, List.append_nil]
      exact ⟨c, hc, h⟩

theorem verdict_nil : verdict f token [] = none := rfl

theorem outcome_run {before after : List Step} {i : Nat}
    (hnew : (run (Server.step f token) .started before).conns i = none)
    (hcalm : ∀ s ∈ after, s.Calm i) (hmodest : Modest (bytesOf i after)) :
    ∃ c, (run (Server.step f token) .started (before ++ .accept i :: after)).conns i = some c ∧
      c.outcome = verdict f token (bytesOf i after) := by
  rw [run_append, run_cons]
  have hfollows : bytesOf i after <+: bytesOf i after →
      ∃ c, (run (Server.step f token) ((run (Server.step f token) .started before).step f token
        (.accept i)) after).conns i = some c ∧
        Follows (verdict f token) (bytesOf i after) (c.buffer, c.outcome) := by
    refine history_invariant (I := fun past (g : Server) => bytesOf i past <+: bytesOf i after →
      ∃ c, g.conns i = some c ∧
        Follows (verdict f token) (bytesOf i past) (c.buffer, c.outcome)) ?_ ?_
      (along_of_mem hcalm _)
    · intro _
      exact ⟨.opened, by simp [Server.step, hnew], verdict_nil.symm, fun _ => rfl⟩
    · intro past s ih hs hpart
      have hearlier : bytesOf i past <+: bytesOf i after := by
        rw [bytesOf_concat] at hpart
        exact (List.prefix_append _ _).trans hpart
      obtain ⟨c, hc, h⟩ := ih hearlier
      exact follows_step hc hs hmodest hpart h
  obtain ⟨c, hc, h⟩ := hfollows List.prefix_rfl
  exact ⟨c, hc, h.1⟩

/-- However the bytes of a request are cut into pieces, and whatever other connections send in
between: the connection comes to what the parser makes of all its bytes at once, and its request
waits for the loop or has been taken exactly when that is a request with the token. -/
theorem pieces_read_as_whole (f : Foundation) (token : Option String) (before after : List Step)
    (i : Nat)
    (hnew : (run (Server.step f token) .started before).conns i = none)
    (hcalm : ∀ s ∈ after, s.Calm i) (hmodest : Modest (bytesOf i after)) :
    let g := run (Server.step f token) .started (before ++ .accept i :: after)
    (g.conns i).map Conn.outcome = some (verdict f token (bytesOf i after)) ∧
      ∀ r, (i, r) ∈ g.handled ++ g.pending ↔
        parse f (bytesOf i after) = .done r ∧ authorized token r = true := by
  intro g
  obtain ⟨c, hc, houtcome⟩ := outcome_run hnew hcalm hmodest
  have hserved : Served g := served_run f token _
  refine ⟨by rw [hc, Option.map_some, houtcome], fun r => ?_⟩
  have hqueued := hserved.queued i r
  rw [hc] at hqueued
  rw [← verdict_queued, ← houtcome]
  exact hqueued.trans (by simp)

/-- `GET /`, and a header with the token. -/
def tapped : List UInt8 :=
  [71, 69, 84, 32, 47, 13, 10, 88, 45, 70, 108, 101, 101, 116, 45, 68, 114, 105, 118, 101, 114, 45,
    84, 111, 107, 101, 110, 58, 32, 116]

/-- What Foundation makes of the texts of that request. -/
def asked : Foundation where
  utf8 bytes := if bytes = tapped then some "GET /\r\nX-Fleet-Driver-Token: t" else none
  lines s := if s = "GET /\r\nX-Fleet-Driver-Token: t" then ["GET /", "X-Fleet-Driver-Token: t"]
    else [s]
  words s := if s = "GET /" then ["GET", "/"] else [s]
  aroundColon s :=
    if s = "X-Fleet-Driver-Token: t" then some ("X-Fleet-Driver-Token", " t") else none
  trim s := if s = " t" then "t" else s
  lowercased s := if s = "X-Fleet-Driver-Token" then "x-fleet-driver-token" else s
  uppercased s := s
  int s := if s = "0" then some 0 else none
  urlComponents s := if s = "http://driver/" then some ("/", []) else none

/-- The request in two pieces, cut inside its header's end, with another connection between. -/
theorem pieces_read_as_whole_tapped :
    let g := run (Server.step asked (some "t")) .started
      [.accept 0, .accept 1, .receive 1 (tapped ++ [13, 10, 13]) false false,
        .receive 0 [71, 69] false false, .receive 1 [10] false false, .next]
    (1, ⟨"GET", "/", [], [("x-fleet-driver-token", "t")], []⟩) ∈ g.handled ++ g.pending := by
  have hread := pieces_read_as_whole asked (some "t") [.accept 0]
    [.receive 1 (tapped ++ [13, 10, 13]) false false, .receive 0 [71, 69] false false,
      .receive 1 [10] false false, .next] 1 rfl (by simp [Step.Calm]) (Or.inl (by decide))
  exact (hread.2 _).mpr ⟨by rfl, by decide⟩

end Runs

end FleetRunner.Ios.DriverHTTP
