import FleetRunner.Library.Fallible
import FleetRunner.Machine.Job

/-!
# A model server for the length of a lease (`workloads/serve.ts`)

A serve job starts `llama-server` on an address out of a closed set and on a
port, and announces that endpoint with every row it posts.

## Implementation notes

How `llama-server` reads its arguments is its own and not in this repository:
how many values an option takes, which address a host text is, which port a
port text is. It is a `LlamaServer`, of which only this is fixed: the three
options the agent passes take one value, and a numeric address is itself.
-/

namespace FleetRunner.Machine

open Library

/-! ## Binding -/

structure Interface where
  family : String
  address : String
  internal : Bool

/-- The addresses of each interface, in order. -/
abbrev Interfaces := List (String × List Interface)

/-- A part of a dotted address: one to three digits. -/
def isPart (cs : List Char) : Bool :=
  decide (1 ≤ cs.length) && decide (cs.length ≤ 3) && cs.all Char.isDigit

/-- Tailscale hands out 100.64.0.0/10. -/
def isTailnetV4 (addr : String) : Bool :=
  match addr.toList.splitOn '.' with
  | [a, b, c, d] =>
      isPart a && isPart b && isPart c && isPart d &&
        decide (Js.digits? a = some 100) && (Js.digits? b).any fun n => 64 ≤ n && n ≤ 127
  | _ => false

/-- This machine's tailnet address, or nothing when it is not on one. -/
def tailnetAddress (interfaces : Interfaces) : Option String :=
  ((interfaces.flatMap Prod.snd).find? fun a =>
    a.family = "IPv4" && !a.internal && isTailnetV4 a.address).map Interface.address

variable (js : Js)

/-- Where the server may listen: loopback, or the tailnet. -/
def resolveBindHost (param : Option Json) (serveBind : Option String) (interfaces : Interfaces) :
    Except String String :=
  let named := (param.bind Json.asStr?).filter fun s => decide (jsTrim s ≠ "")
  let want := jsTrim (named.getD (serveBind.getD "loopback"))
  if want = "loopback" ∨ want = "127.0.0.1" ∨ want = "localhost" then .ok "127.0.0.1"
  else if want = "tailnet" then
    match tailnetAddress interfaces with
    | some addr => .ok addr
    | none => .error "params.bind is 'tailnet' but this machine has no 100.64.0.0/10 address"
  else if isTailnetV4 want then
    if tailnetAddress interfaces = some want then .ok want
    else .error ("params.bind " ++ want ++ " is not an address on this machine (tailnet address is " ++
      (tailnetAddress interfaces).getD "absent" ++ ")")
  else .error ("params.bind must be 'loopback' or 'tailnet' (got " ++ Json.stringify js (.str want) ++
    "). The collector has no authentication and the network is the access control, so a model " ++
    "server is never bound to a wildcard or to the LAN.")

/-- The addresses a model server may listen on. -/
def Private (interfaces : Interfaces) (host : String) : Prop :=
  host = "127.0.0.1" ∨ tailnetAddress interfaces = some host

theorem resolveBindHost_private {param : Option Json} {serveBind : Option String}
    {interfaces : Interfaces} {host : String}
    (h : resolveBindHost js param serveBind interfaces = .ok host) : Private interfaces host := by
  simp only [resolveBindHost] at h
  split at h
  · exact Or.inl (Except.ok.inj h).symm
  · split at h
    · split at h
      · rename_i addr haddr
        exact Or.inr (haddr.trans (congrArg some (Except.ok.inj h)))
      · cases h
    · split at h
      · split at h
        · rename_i hown
          exact Or.inr (hown.trans (congrArg some (Except.ok.inj h)))
        · cases h
      · cases h

/-! ## Starting the server -/

/-- The machine, as a serve job meets it. -/
structure ServeHost where
  /-- where `llama-server` is, if it is anywhere -/
  server : Option String
  serveBind : Option String
  interfaces : Interfaces
  modelFile : String → String
  /-- is the model on disk with its hash -/
  held : String → Bool
  fetched : String → Except String Unit
  freePort : String → Except String Nat

/-- `/^[0-9a-f]{64}$/i` -/
def isSha256Any (s : String) : Bool :=
  decide (s.toList.length = 64) &&
    s.toList.all fun c => c.isDigit || ('a' ≤ c && c ≤ 'f') || ('A' ≤ c && c ≤ 'F')

/-- A server about to be started, and where the job's rows will say it is. -/
structure Serving where
  cmd : String
  args : List String
  host : String
  port : Int
  endpoint : String
  durationS : Int
  readyTimeoutS : Int

/-- `job.model?.sha256 ?? stringParam(job.params, "model_sha256")` -/
def modelSha (job : JobSpec) : Option Json :=
  match optProp job.model "sha256" with
  | none | some .null => (stringParam job.params "model_sha256").map .str
  | some sha => some sha

def resolveServer (w : ServeHost) : Except String String :=
  w.server.elim (.error "serve needs llama-server on PATH (or FLEET_LLAMA_SERVER)") .ok

def resolveModel (job : JobSpec) : Except String String :=
  match (modelSha job).bind Json.asStr? with
  | some sha =>
      if isSha256Any sha then .ok (js.lower sha)
      else .error "serve needs a model artifact: job.model.sha256 or params.model_sha256"
  | none => .error "serve needs a model artifact: job.model.sha256 or params.model_sha256"

def holdModel (w : ServeHost) (sha : String) : Except String Unit :=
  if w.held sha then .ok ()
  else (w.fetched sha).mapError fun e => "fetching the model failed: " ++ e

/-- `intParam(job.params, "port", 0) || (await freePort(host))` -/
def resolvePort (w : ServeHost) (job : JobSpec) (host : String) : Except String Int :=
  if intParam js job.params "port" 0 ≠ 0 then .ok (intParam js job.params "port" 0)
  else ((w.freePort host).map Int.ofNat).mapError fun e => "no free port on " ++ host ++ ": " ++ e

/-- `["-m", modelFile, "--host", host, "--port", String(port), ...extra]` -/
def serverArgs (modelFile host port : String) (extra : List String) : List String :=
  ["-m", modelFile, "--host", host, "--port", port] ++ extra

/-- What a serve job starts, or the error of its only row. -/
def runServe (w : ServeHost) (job : JobSpec) : Except String Serving := do
  let server ← resolveServer w
  let sha ← resolveModel js job
  let host ← resolveBindHost js (optProp job.params "bind") w.serveBind w.interfaces
  holdModel w sha
  let port ← resolvePort js w job host
  .ok {
    cmd := server
    args := serverArgs (w.modelFile sha) host (js.showNum port) (stringsParam job.params "args")
    host := host
    port := port
    endpoint := "http://" ++ host ++ ":" ++ js.showNum port
    durationS := intParam js job.params "duration_s" 1800
    readyTimeoutS := intParam js job.params "ready_timeout_s" 300 }

/-! ## How the server reads its arguments -/

structure LlamaServer where
  /-- how many of the arguments after an option belong to it -/
  takes : String → Nat
  address : String → String
  port : String → Int
  takes_own : ∀ opt ∈ ["-m", "--host", "--port"], takes opt = 1
  address_numeric : ∀ a, a = "127.0.0.1" ∨ isTailnetV4 a = true → address a = a

/-- The values given for an option, reading from the left; `owed` arguments still belong to the
option before. -/
def valuesOf (server : LlamaServer) (opt : String) : Nat → List String → List String
  | _, [] => []
  | owed + 1, _ :: rest => valuesOf server opt owed rest
  | 0, a :: rest =>
      (if a = opt then rest.head?.toList else []) ++ valuesOf server opt (server.takes a) rest

/-- The last occurrence of an option wins. -/
def optionOf (server : LlamaServer) (opt : String) (args : List String) : Option String :=
  (valuesOf server opt 0 args).getLast?

/-- The server listens on loopback or on this machine's tailnet address, and on the port that the
endpoint names. -/
structure Bound (server : LlamaServer) (w : ServeHost) (s : Serving) : Prop where
  host : ∃ v, optionOf server "--host" s.args = some v ∧ Private w.interfaces (server.address v)
  port : ∃ v, optionOf server "--port" s.args = some v ∧ server.port v = server.port (js.showNum s.port)
  endpoint : Private w.interfaces s.host ∧ s.endpoint = "http://" ++ s.host ++ ":" ++ js.showNum s.port

/-- The last host and the last port the job's own arguments name, if they name any, are allowed
ones. -/
structure Keeps (server : LlamaServer) (w : ServeHost) (job : JobSpec) (port : Int) : Prop where
  host : ∀ v, optionOf server "--host" (stringsParam job.params "args") = some v →
    Private w.interfaces (server.address v)
  port : ∀ v, optionOf server "--port" (stringsParam job.params "args") = some v →
    server.port v = server.port (js.showNum port)

section Reading

variable {js : Js} {server : LlamaServer} {w : ServeHost} {job : JobSpec} {s : Serving}

/-- The agent's own options are read first, and stand where the job names none. -/
theorem options_serverArgs (server : LlamaServer) (modelFile host port : String)
    (extra : List String) :
    optionOf server "--host" (serverArgs modelFile host port extra) =
        some ((optionOf server "--host" extra).getD host) ∧
      optionOf server "--port" (serverArgs modelFile host port extra) =
        some ((optionOf server "--port" extra).getD port) := by
  have hm : server.takes "-m" = 1 := server.takes_own _ (by simp)
  have hh : server.takes "--host" = 1 := server.takes_own _ (by simp)
  have hp : server.takes "--port" = 1 := server.takes_own _ (by simp)
  constructor <;> simp [optionOf, serverArgs, valuesOf, hm, hh, hp, List.getLast?_cons]

theorem isTailnetV4_of_tailnetAddress {interfaces : Interfaces} {addr : String}
    (h : tailnetAddress interfaces = some addr) : isTailnetV4 addr = true := by
  obtain ⟨a, ha, rfl⟩ := Option.map_eq_some_iff.mp h
  have hsome := List.find?_some ha
  simp only [Bool.and_eq_true] at hsome
  exact hsome.2

/-- An allowed address, given as a host, is that address. -/
theorem address_of_private {interfaces : Interfaces} {host : String}
    (h : Private interfaces host) : server.address host = host := by
  apply server.address_numeric
  rcases h with h | h
  · exact Or.inl h
  · exact Or.inr (isTailnetV4_of_tailnetAddress h)

/-- What the workload starts when it accepts a job. -/
theorem runServe_ok (h : runServe js w job = .ok s) :
    Private w.interfaces s.host ∧ s.endpoint = "http://" ++ s.host ++ ":" ++ js.showNum s.port ∧
      ∃ file, s.args = serverArgs file s.host (js.showNum s.port) (stringsParam job.params "args") := by
  obtain ⟨server, -, h⟩ := bind_eq_ok h
  obtain ⟨sha, -, h⟩ := bind_eq_ok h
  obtain ⟨host, hhost, h⟩ := bind_eq_ok h
  obtain ⟨-, -, h⟩ := bind_eq_ok h
  obtain ⟨port, -, h⟩ := bind_eq_ok h
  obtain rfl := Except.ok.inj h
  exact ⟨resolveBindHost_private js hhost, rfl, w.modelFile sha, rfl⟩

end Reading

/-- A served model listens where its rows say, on loopback or the tailnet, exactly when the job's
own arguments name no other host and no other port last. -/
theorem serve_bound_iff (server : LlamaServer) (w : ServeHost) (job : JobSpec) (s : Serving)
    (h : runServe js w job = .ok s) :
    Bound js server w s ↔ Keeps js server w job s.port := by
  obtain ⟨hprivate, hendpoint, file, hargs⟩ := runServe_ok h
  obtain ⟨hhost, hport⟩ := options_serverArgs server file s.host (js.showNum s.port)
    (stringsParam job.params "args")
  rw [← hargs] at hhost hport
  constructor
  · intro hbound
    obtain ⟨v, hv, hok⟩ := hbound.host
    obtain ⟨p, hp, heq⟩ := hbound.port
    constructor
    · intro u hu
      rw [hhost, hu] at hv
      rwa [← Option.some.inj hv] at hok
    · intro q hq
      rw [hport, hq] at hp
      rwa [← Option.some.inj hp] at heq
  · intro hkeeps
    refine ⟨⟨_, hhost, ?_⟩, ⟨_, hport, ?_⟩, hprivate, hendpoint⟩
    · cases hv : optionOf server "--host" (stringsParam job.params "args") with
      | none => simpa [address_of_private hprivate] using hprivate
      | some v => exact hkeeps.host v hv
    · cases hp : optionOf server "--port" (stringsParam job.params "args") with
      | none => rfl
      | some p => exact hkeeps.port p hp

/-- A server whose other options take no value, on a machine off the tailnet. -/
def flagsOnly : LlamaServer where
  takes opt := if opt ∈ ["-m", "--host", "--port"] then 1 else 0
  address a := a
  port v := (Js.digits? v.toList).getD 0
  takes_own _ h := if_pos h
  address_numeric _ _ := rfl

def laptop : ServeHost where
  server := some "/usr/local/bin/llama-server"
  serveBind := none
  interfaces := [("en0", [⟨"IPv4", "192.168.1.20", false⟩])]
  modelFile sha := "/models/" ++ sha ++ ".gguf"
  held _ := true
  fetched _ := .ok ()
  freePort _ := .ok 8080

/-- A serve job with arguments of its own. -/
def serveJob (extra : List String) : JobSpec where
  job_id := "j1"
  workload := "serve"
  model := some (.obj [("sha256", .str (String.ofList (List.replicate 64 'a')))])
  params := some (.obj [("args", .arr (extra.map .str))])

theorem serve_bound_flags : ∃ s, runServe .plain laptop (serveJob ["--flash-attn"]) = .ok s ∧
    Bound .plain flagsOnly laptop s := by
  have hok : okAnd (runServe .plain laptop (serveJob ["--flash-attn"])) (fun _ => true) = true := by
    decide
  obtain ⟨s, hs, -⟩ := exists_of_okAnd hok
  refine ⟨s, hs, (serve_bound_iff .plain flagsOnly laptop _ s hs).mpr ⟨?_, ?_⟩⟩
  · intro v hv
    cases hv
  · intro v hv
    cases hv

/-- The last `--host` wins, and it is the job's. -/
theorem serve_not_bound : ¬∀ (server : LlamaServer) (w : ServeHost) (job : JobSpec) (s : Serving),
    runServe .plain w job = .ok s → Bound .plain server w s := by
  intro h
  have hok : okAnd (runServe .plain laptop (serveJob ["--host", "0.0.0.0"])) (fun s =>
      decide (optionOf flagsOnly "--host" s.args = some "0.0.0.0")) = true := by
    decide
  obtain ⟨s, hs, hhost⟩ := exists_of_okAnd hok
  obtain ⟨v, hv, hprivate⟩ := (h flagsOnly laptop _ s hs).host
  rw [of_decide_eq_true hhost] at hv
  obtain rfl := Option.some.inj hv
  rcases hprivate with hloop | htailnet
  · exact absurd hloop (by decide)
  · exact absurd htailnet (by decide)

end FleetRunner.Machine
