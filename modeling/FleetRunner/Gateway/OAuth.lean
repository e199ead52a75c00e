import FleetRunner.Js.Text
import FleetRunner.Library.Runs
import Mathlib.Logic.Function.Basic

/-!
# Verifying a token (`oauth.ts`)

The gateway accepts a bearer token for a signature by a key the issuer
publishes. It keeps the keys it last fetched. Any number of tokens are verified
at once, and each may wait for a fetch of its own, so the keys one call goes by
may have been fetched by another, and an older answer may come last.

## Implementation notes

Steps of other calls may come between a refresh and the reading of the keys
behind it, also when nothing was fetched. The issuer is a function from the
time to what it publishes, and an answer was published at some time between
the request and its arrival. Decoding, loading a key and checking a signature
are parameters.
-/

namespace FleetRunner.Gateway.OAuth

open Library

/-! ## Tokens and keys -/

/-- The signatures the verifier knows. -/
inductive Alg where
  | RS256
  | PS256
  | ES256
  deriving DecidableEq

def Alg.ofName? (s : String) : Option Alg :=
  [("RS256", .RS256), ("PS256", .PS256), ("ES256", .ES256)].lookup s

/-- A key as an issuer publishes it. -/
structure Jwk where
  kid : Option String
  use_ : Option String
  /-- What the key is made of. -/
  material : String
  deriving DecidableEq

/-- `node:crypto`, and the parts of a token as JSON. -/
structure Crypto (K : Type) where
  /-- `JSON.parse(b64url(part).toString("utf8"))` -/
  decode : String → Option Json
  createPublicKey : Jwk → Option K
  verify : Alg → K → (signed signature : String) → Bool

/-- What the gateway is configured with. -/
structure Config where
  issuer : String
  audience : String
  jwksUri : Option String
  readScope : String
  runScope : String
  identityClaims : Option (List String)

/-- What a caller may do. -/
inductive GatewayScope where
  | read
  | run
  deriving DecidableEq

/-- Who is calling. -/
structure Principal where
  subject : String
  scopes : List GatewayScope
  granted : List String
  expiresAt : Rat

/-- Why a token is not taken. -/
inductive Refusal where
  /-- A `TokenError` of status 401. -/
  | invalid_token (message : String)
  /-- The identity provider could not be reached. -/
  | unreachable
  | thrown (e : JsError)

def SKEW_S : Rat := 60

/-- A token in its parts. -/
structure Jwt where
  header : Json
  claims : Json
  signed : String
  signature : String

variable {K : Type} (crypto : Crypto K) (js : Js) (cfg : Config)

/-- The parts of a token, before anything is checked. -/
def parse (token : String) : Except Refusal Jwt :=
  match (token.toList.splitOn '.').map String.ofList with
  | [header, claims, signature] =>
    match crypto.decode header, crypto.decode claims with
    | some h, some c =>
      .ok { header := h, claims := c, signed := header ++ "." ++ claims, signature }
    | _, _ => .error (.invalid_token "the token is not valid JSON")
  | _ => .error (.invalid_token "not a JWT")

/-! ## Claims -/

/-- `typeof v === "string" ? v.split(" ") : []` -/
def words : Option Json → List String
  | some (.str s) => (s.toList.splitOn ' ').map String.ofList
  | _ => []

/-- `Array.isArray(v) ? v.map(String) : []` -/
def texts : Option Json → Except JsError (List String)
  | some (.arr xs) => xs.mapM (Json.text js)
  | _ => .ok []

/-- Every scope or role the token carries. -/
def grantedOf (claims : Json) : Except JsError (List String) := do
  let scps ← texts js (claims.prop "scp")
  let roles ← texts js (claims.prop "roles")
  .ok ((words (claims.prop "scp") ++ words (claims.prop "scope") ++ scps ++ roles).filter
    fun s => decide (s ≠ ""))

/-- The scopes of the gateway among those that were granted. -/
def scopesOf (granted : List String) : List GatewayScope :=
  (if cfg.runScope ∈ granted then [.run, .read] else []) ++
    if cfg.readScope ∈ granted then [.read] else []

/-- Whom the token names. -/
def subjectOf (claims : Json) : Option String :=
  (cfg.identityClaims.getD ["preferred_username", "upn", "email", "unique_name", "sub"]).findSome?
    fun c => match claims.prop c with
      | some (.str s) => if s = "" then none else some s
      | _ => none

/-- Whom the claims are for, one or several. -/
def audienceOf (claims : Json) : List Json :=
  match claims.prop "aud" with
  | some (.arr xs) => xs
  | some x => [x]
  | none => []

/-- Does a claim of `exp` keep a token from being accepted at a second? -/
def expired (exp : Option Json) (t : Rat) : Bool :=
  match exp with
  | some (.num e) => decide (e + SKEW_S < t)
  | _ => true

/-- Are the claims for later than now? -/
def notYetValid (nbf : Option Json) (t : Rat) : Bool :=
  match nbf with
  | some (.num n) => decide (t < n - SKEW_S)
  | _ => false

/-- When the claims end, in milliseconds. -/
def expiry (claims : Json) : Rat :=
  match claims.prop "exp" with
  | some (.num e) => e * 1000
  | _ => 0

/-- The claims, once the signature has been checked. -/
def checkClaims (claims : Json) (now : Nat) : Except Refusal Principal :=
  let t : Rat := (now / 1000 : Nat)
  if !(claims.prop "iss").any (·.isStr cfg.issuer) then .error (.invalid_token "wrong issuer")
  else if !(audienceOf claims).any (·.isStr cfg.audience) then
    .error (.invalid_token "this token is not for this resource")
  else if expired (claims.prop "exp") t then .error (.invalid_token "expired")
  else if notYetValid (claims.prop "nbf") t then .error (.invalid_token "not yet valid")
  else
    match grantedOf js claims with
    | .error e => .error (.thrown e)
    | .ok granted =>
      match subjectOf cfg claims with
      | none => .error (.invalid_token "the token names nobody")
      | some subject => .ok { subject := jsSlice subject 120, scopes := scopesOf cfg granted,
                              granted, expiresAt := expiry claims }

/-! ## The verifier -/

/-- A `Map`, in which a key set twice has its last value. -/
def getKey (keys : List (String × K)) (kid : String) : Option K := keys.lookup kid

/-- Puts a key under its name, in place of the one that was there. -/
def setKey (keys : List (String × K)) (kid : String) (key : K) : List (String × K) :=
  if (keys.lookup kid).isSome then keys.map fun e => if e.1 = kid then (kid, key) else e
  else keys ++ [(kid, key)]

/-- A key for something else than signatures. -/
def Jwk.isOther (k : Jwk) : Bool := k.use_.any fun u => decide (u ≠ "" ∧ u ≠ "sig")

/-- The keys of an answer that a signature can be checked with. -/
def loadKeys (published : List Jwk) : List (String × K) :=
  published.foldl (fun keys k =>
    if k.isOther then keys
    else
      match crypto.createPublicKey k with
      | none => keys
      | some key => setKey keys (k.kid.getD "") key) []

/-- What the verifier keeps from call to call. -/
structure Verifier (K : Type) where
  keys : List (String × K)
  fetchedAt : Nat
  jwksUri : Option String

/-- `kid ?? ""`, where it is a text. -/
def kidText : Option Json → Option String
  | none => some ""
  | some .null => some ""
  | some (.str s) => some s
  | some _ => none

/-- The key of a token without a forced fetch: one without a `kid` may go by the only key. -/
def firstKey (keys : List (String × K)) (kid : Option Json) : Option K :=
  ((kidText kid).bind (getKey keys)).or
    (if kid.isNone ∧ keys.length = 1 then keys.head?.map Prod.snd else none)

/-- The key that a refreshed set has for the token. -/
def forcedKey (keys : List (String × K)) (kid : Option Json) : Option K :=
  (kidText kid).bind (getKey keys)

/-- The algorithm a header names. -/
def algOf : Json → Option Alg
  | .str s => Alg.ofName? s
  | _ => none

/-- The signature and the claims, once the key is known. -/
def finish (jwt : Jwt) (now : Nat) (key : K) : Except Refusal Principal :=
  match (jwt.header.prop "alg").bind algOf with
  | none =>
    match Val.text js (optVal (jwt.header.prop "alg")) with
    | .error e => .error (.thrown e)
    | .ok name => .error (.invalid_token ("algorithm " ++ name ++ " is not accepted"))
  | some alg =>
    if !crypto.verify alg key jwt.signed jwt.signature then .error (.invalid_token "bad signature")
    else
      match jwt.claims with
      | .null => .error (.thrown .typeError)
      | claims => checkClaims js cfg claims now

/-! ## Calls side by side -/

/-- What a refresh is waiting for. -/
inductive Stage where
  | discovery
  | keys

/-- How far a verification has got. -/
inductive Phase where
  /-- Waiting for an answer. -/
  | fetching (force : Bool) (stage : Stage) (startedAt : Nat)
  /-- Behind a refresh, before the keys are read again. -/
  | refreshed (force : Bool)
  | ended (endedAt : Nat) (result : Except Refusal Principal)

/-- A verification in flight. -/
structure Call where
  token : String
  jwt : Jwt
  /-- When `verify` was called. -/
  now : Nat
  phase : Phase

/-- The gateway with all verifications in flight. -/
structure Server (K : Type) where
  now : Nat
  verifier : Verifier K
  calls : Nat → Option Call

/-- What happens next. -/
inductive Step where
  | tick (ms : Nat)
  | verify (i : Nat) (token : String)
  /-- The issuer's OpenID configuration has arrived. -/
  | discovered (i : Nat) (jwks_uri : Option String)
  /-- An answer has arrived, with the keys the issuer published at a time. -/
  | keys (i : Nat) (served : Nat)
  | failed (i : Nat)
  /-- A call behind its refresh goes on. -/
  | resume (i : Nat)

/-- `refresh`, up to its first wait. -/
def refresh (v : Verifier K) (force : Bool) (now : Nat) : Phase :=
  if force = false ∧ now - v.fetchedAt < 600000 ∧ v.keys ≠ [] then .refreshed force
  else if force = true ∧ now - v.fetchedAt < 60000 then .refreshed force
  else .fetching force (if v.jwksUri.getD "" = "" then .discovery else .keys) now

/-- `key`, behind its first or its second refresh, and the rest of `verify`. -/
def afterRefresh (v : Verifier K) (c : Call) (force : Bool) (now : Nat) : Phase :=
  match (if force then forcedKey else firstKey) v.keys (c.jwt.header.prop "kid") with
  | some key => .ended now (finish crypto js cfg c.jwt c.now key)
  | none =>
    if force then
      .ended now
        (.error (.invalid_token "the token was signed with a key the issuer does not publish"))
    else refresh v true now

/-- A call up to its first wait. -/
def begin_ (v : Verifier K) (jwt : Jwt) (now : Nat) : Phase :=
  match jwt.header with
  | .null => .ended now (.error (.thrown .typeError))
  | _ => refresh v false now

variable (issuer : Nat → List Jwk)

/-- A fetch is given up after ten seconds. -/
def inTime (startedAt served now : Nat) : Bool :=
  decide (startedAt ≤ served ∧ served ≤ now ∧ now ≤ startedAt + 10000)

def Server.setCall (g : Server K) (i : Nat) (c : Call) : Server K :=
  { g with calls := Function.update g.calls i (some c) }

/-- A verification that ends with the identity provider out of reach. -/
def unreachable (now : Nat) : Phase := .ended now (.error .unreachable)

/-- The OpenID configuration names where the keys are, or the call ends. -/
def Server.discovered (g : Server K) (i : Nat) (c : Call) (force : Bool)
    (jwks_uri : Option String) : Server K :=
  if jwks_uri.getD "" = "" then g.setCall i { c with phase := unreachable g.now }
  else
    { g with verifier := { g.verifier with jwksUri := jwks_uri } }.setCall i
      { c with phase := .fetching force .keys g.now }

/-- The keys of an answer replace the keys there were. -/
def Server.fetched (g : Server K) (i : Nat) (c : Call) (force : Bool) (startedAt served : Nat) :
    Server K :=
  if inTime startedAt served g.now then
    { g with verifier := { g.verifier with keys := loadKeys crypto (issuer served),
                                           fetchedAt := g.now } }.setCall i
      { c with phase := .refreshed force }
  else g.setCall i { c with phase := unreachable g.now }

/-- A verification goes on with what has arrived. -/
def Server.advance (g : Server K) (i : Nat) (c : Call) (s : Step) : Server K :=
  match c.phase, s with
  | .fetching force .discovery _, .discovered _ jwks_uri => g.discovered i c force jwks_uri
  | .fetching force .keys startedAt, .keys _ served =>
    g.fetched crypto issuer i c force startedAt served
  | .fetching _ _ _, .failed _ => g.setCall i { c with phase := unreachable g.now }
  | .refreshed force, .resume _ =>
    g.setCall i { c with phase := afterRefresh crypto js cfg g.verifier c force g.now }
  | _, _ => g

/-- The call a step is for. -/
def Step.call? : Step → Option Nat
  | .tick _ => none
  | .verify i _ => some i
  | .discovered i _ => some i
  | .keys i _ => some i
  | .failed i => some i
  | .resume i => some i

def Server.step (g : Server K) (s : Step) : Server K :=
  match s with
  | .tick ms => { g with now := g.now + ms }
  | .verify i token =>
    match g.calls i, parse crypto token with
    | none, .ok jwt =>
      g.setCall i { token, jwt, now := g.now, phase := begin_ g.verifier jwt g.now }
    -- A token that is not a JWT is refused at once, and changes nothing.
    | _, _ => g
  | _ =>
    match s.call?, s.call?.bind g.calls with
    | some i, some c => g.advance crypto js cfg issuer i c s
    | _, _ => g

/-- A gateway that has fetched nothing yet. -/
def Server.start (now : Nat) : Server K where
  now
  verifier := { keys := [], fetchedAt := 0, jwksUri := cfg.jwksUri }
  calls := fun _ => none

/-! ## The keys of an answer -/

section Keys

variable {crypto} {v : Verifier K}

/-- The issuer published the key at a time, for signatures, under a name. -/
def Published (crypto : Crypto K) (issuer : Nat → List Jwk) (served : Nat) (kid : String)
    (key : K) : Prop :=
  ∃ jwk ∈ issuer served, jwk.isOther = false ∧ crypto.createPublicKey jwk = some key ∧
    jwk.kid.getD "" = kid

theorem mem_setKey {keys : List (String × K)} {kid kid' : String} {key key' : K}
    (h : (kid', key') ∈ setKey keys kid key) :
    (kid', key') = (kid, key) ∨ (kid', key') ∈ keys := by
  unfold setKey at h
  split at h
  · obtain ⟨e, he, heq⟩ := List.mem_map.mp h
    split at heq
    · exact Or.inl heq.symm
    · exact Or.inr (heq ▸ he)
  · rcases List.mem_append.mp h with h | h
    · exact Or.inr h
    · exact Or.inl (List.mem_singleton.mp h)

theorem mem_loadKeys {published : List Jwk} {kid : String} {key : K}
    (h : (kid, key) ∈ loadKeys crypto published) : ∃ jwk ∈ published, jwk.isOther = false ∧
      crypto.createPublicKey jwk = some key ∧ jwk.kid.getD "" = kid := by
  induction published using List.reverseRecOn with
  | nil => cases h
  | append_singleton front jwk ih =>
      have hfront : (kid, key) ∈ loadKeys crypto front → ∃ jwk' ∈ front ++ [jwk],
          jwk'.isOther = false ∧ crypto.createPublicKey jwk' = some key ∧
            jwk'.kid.getD "" = kid := by
        intro hmem
        obtain ⟨jwk', hmem', hrest⟩ := ih hmem
        exact ⟨jwk', List.mem_append_left _ hmem', hrest⟩
      unfold loadKeys at h
      rw [List.foldl_append, List.foldl_cons, List.foldl_nil] at h
      split at h
      · exact hfront h
      · rename_i hsigns
        split at h
        · exact hfront h
        · rename_i key' hloads
          rcases mem_setKey h with heq | hold
          · obtain ⟨rfl, rfl⟩ := Prod.mk.inj heq
            exact ⟨jwk, by simp, by simpa using hsigns, hloads, rfl⟩
          · exact hfront hold

/-- The key a token names, or the only one when it names none. -/
def Names (jwt : Jwt) (kid : String) : Prop :=
  kidText (jwt.header.prop "kid") = some kid ∨ jwt.header.prop "kid" = none

theorem mem_of_getKey {keys : List (String × K)} {kid : String} {key : K}
    (h : getKey keys kid = some key) : (kid, key) ∈ keys := by
  obtain ⟨_, _, hsplit, -⟩ := List.lookup_eq_some_iff.mp h
  rw [hsplit]
  simp

theorem mem_of_forcedKey {jwt : Jwt} {key : K}
    (h : forcedKey v.keys (jwt.header.prop "kid") = some key) :
    ∃ kid, (kid, key) ∈ v.keys ∧ Names jwt kid := by
  obtain ⟨kid, hkid, hkey⟩ := Option.bind_eq_some_iff.mp h
  exact ⟨kid, mem_of_getKey hkey, Or.inl hkid⟩

theorem mem_of_firstKey {jwt : Jwt} {key : K}
    (h : firstKey v.keys (jwt.header.prop "kid") = some key) :
    ∃ kid, (kid, key) ∈ v.keys ∧ Names jwt kid := by
  rcases Option.or_eq_some_iff.mp h with hnamed | ⟨-, honly⟩
  · exact mem_of_forcedKey hnamed
  · split at honly
    · rename_i hone
      obtain ⟨⟨kid, key'⟩, hhead, rfl⟩ := Option.map_eq_some_iff.mp honly
      exact ⟨kid, List.mem_of_head? hhead, Or.inr (Option.isNone_iff_eq_none.mp hone.1)⟩
    · cases honly

end Keys

/-! ## What is checked of a token -/

section Checked

variable {crypto js cfg}

/-- The claims a principal is read from, at a second. -/
structure Claimed (js : Js) (cfg : Config) (claims : Json) (t : Rat) (p : Principal) : Prop where
  issued : claims.prop "iss" = some (.str cfg.issuer)
  meant : .str cfg.audience ∈ audienceOf claims
  unexpired : ∃ e, claims.prop "exp" = some (.num e) ∧ t ≤ e + SKEW_S ∧ p.expiresAt = e * 1000
  begun : ∀ n, claims.prop "nbf" = some (.num n) → n - SKEW_S ≤ t
  granted : grantedOf js claims = .ok p.granted
  runs : .run ∈ p.scopes ↔ cfg.runScope ∈ p.granted
  reads : .read ∈ p.scopes ↔ cfg.runScope ∈ p.granted ∨ cfg.readScope ∈ p.granted
  named : ∃ s, subjectOf cfg claims = some s ∧ p.subject = jsSlice s 120

theorem exp_of_expired {exp : Option Json} {t : Rat} (h : expired exp t = false) :
    ∃ e, exp = some (.num e) ∧ t ≤ e + SKEW_S := by
  unfold expired at h
  split at h
  · rename_i e
    exact ⟨e, rfl, Rat.not_lt.mp (of_decide_eq_false h)⟩
  · cases h

theorem nbf_of_notYetValid {nbf : Option Json} {t n : Rat} (h : notYetValid nbf t = false)
    (hn : nbf = some (.num n)) : n - SKEW_S ≤ t := by
  subst hn
  have hlt : decide (t < n - SKEW_S) = false := h
  exact Rat.not_lt.mp (of_decide_eq_false hlt)

theorem run_mem_scopesOf {granted : List String} :
    .run ∈ scopesOf cfg granted ↔ cfg.runScope ∈ granted := by
  unfold scopesOf
  by_cases hrun : cfg.runScope ∈ granted <;> by_cases hread : cfg.readScope ∈ granted <;>
    simp [hrun, hread]

theorem read_mem_scopesOf {granted : List String} :
    .read ∈ scopesOf cfg granted ↔ cfg.runScope ∈ granted ∨ cfg.readScope ∈ granted := by
  unfold scopesOf
  by_cases hrun : cfg.runScope ∈ granted <;> by_cases hread : cfg.readScope ∈ granted <;>
    simp [hrun, hread]

theorem claimed_of_checkClaims {claims : Json} {now : Nat} {p : Principal}
    (h : checkClaims js cfg claims now = .ok p) :
    Claimed js cfg claims ((now / 1000 : Nat) : Rat) p := by
  unfold checkClaims at h
  simp only [Bool.not_eq_true'] at h
  split at h
  · cases h
  rename_i hissuer
  split at h
  · cases h
  rename_i haudience
  split at h
  · cases h
  rename_i hexpired
  split at h
  · cases h
  rename_i hnotYet
  split at h
  · cases h
  rename_i granted hgranted
  split at h
  · cases h
  rename_i subject hsubject
  obtain rfl := Except.ok.inj h
  obtain ⟨e, he, ht⟩ := exp_of_expired (by simpa using hexpired)
  constructor
  case issued =>
    obtain ⟨v, hv, hstr⟩ := (Option.any_eq_true _ _).mp (by simpa using hissuer)
    exact hv.trans (congrArg some (Json.isStr_eq_true.mp hstr))
  case meant =>
    obtain ⟨v, hv, hstr⟩ := List.any_eq_true.mp (by simpa using haudience)
    exact Json.isStr_eq_true.mp hstr ▸ hv
  case unexpired => exact ⟨e, he, ht, by simp only [expiry, he]⟩
  case begun => exact fun n hn => nbf_of_notYetValid (by simpa using hnotYet) hn
  case granted => exact hgranted
  case runs => exact run_mem_scopesOf
  case reads => exact read_mem_scopesOf
  case named => exact ⟨subject, hsubject, rfl⟩

theorem finish_eq_ok {jwt : Jwt} {now : Nat} {key : K} {p : Principal}
    (h : finish crypto js cfg jwt now key = .ok p) :
    (∃ alg, (jwt.header.prop "alg").bind algOf = some alg ∧
      crypto.verify alg key jwt.signed jwt.signature = true) ∧
    checkClaims js cfg jwt.claims now = .ok p := by
  unfold finish at h
  split at h
  · split at h <;> cases h
  · rename_i alg halg
    split at h
    · cases h
    · rename_i hverify
      split at h
      · cases h
      · exact ⟨⟨alg, halg, by simpa using hverify⟩, h⟩

/-- What is read is what was signed. -/
theorem parse_eq_ok {token : String} {jwt : Jwt} (h : parse crypto token = .ok jwt) :
    ∃ header claims, token = header ++ "." ++ claims ++ "." ++ jwt.signature ∧
      jwt.signed = header ++ "." ++ claims ∧ crypto.decode header = some jwt.header ∧
      crypto.decode claims = some jwt.claims := by
  unfold parse at h
  split at h
  · rename_i header claims signature hparts
    split at h
    · rename_i hd cl hheader hclaims
      obtain rfl := Except.ok.inj h
      refine ⟨header, claims, ?_, rfl, hheader, hclaims⟩
      have hlists : token.toList.splitOn '.' =
          [header.toList, claims.toList, signature.toList] := by
        have hmap := congrArg (List.map String.toList) hparts
        simpa [Function.comp_def] using hmap
      have hjoin : List.intercalate ['.'] (token.toList.splitOn '.') = token.toList :=
        List.intercalate_splitOn '.'
      rw [hlists] at hjoin
      apply String.toList_injective
      rw [← hjoin]
      simp [List.intercalate]
    · cases h
  · cases h

end Checked

/-! ## Every run -/

section Runs

variable {crypto js cfg issuer} {g : Server K}

/-- The verifier's keys were published no more than a fetch before they came. -/
def Trusted (crypto : Crypto K) (issuer : Nat → List Jwk) (v : Verifier K) : Prop :=
  ∀ kid key, (kid, key) ∈ v.keys → ∃ served, Published crypto issuer served kid key ∧
    served ≤ v.fetchedAt ∧ v.fetchedAt ≤ served + 10000

/-- What an accepted token had when it was accepted. -/
structure Accepted (crypto : Crypto K) (js : Js) (cfg : Config) (issuer : Nat → List Jwk)
    (c : Call) (endedAt : Nat) (p : Principal) : Prop where
  signed : ∃ header claims, c.token = header ++ "." ++ claims ++ "." ++ c.jwt.signature ∧
    c.jwt.signed = header ++ "." ++ claims ∧ crypto.decode header = some c.jwt.header ∧
    crypto.decode claims = some c.jwt.claims
  key : ∃ kid key served alg, Published crypto issuer served kid key ∧ served ≤ endedAt ∧
    c.now < served + 610000 ∧ Names c.jwt kid ∧ (c.jwt.header.prop "alg").bind algOf = some alg ∧
    crypto.verify alg key c.jwt.signed c.jwt.signature = true
  claims : Claimed js cfg c.jwt.claims ((c.now / 1000 : Nat) : Rat) p

/-- A call of a run: behind its refresh the keys are at most ten minutes older than it is. -/
structure CallSound (crypto : Crypto K) (js : Js) (cfg : Config) (issuer : Nat → List Jwk)
    (v : Verifier K) (now : Nat) (c : Call) : Prop where
  parsed : parse crypto c.token = .ok c.jwt
  past : c.now ≤ now
  recent : ∀ force, c.phase = .refreshed force → c.now < v.fetchedAt + 600000
  accepted : ∀ endedAt p, c.phase = .ended endedAt (.ok p) →
    Accepted crypto js cfg issuer c endedAt p

structure Sound (crypto : Crypto K) (js : Js) (cfg : Config) (issuer : Nat → List Jwk)
    (g : Server K) : Prop where
  trusted : Trusted crypto issuer g.verifier
  past : g.verifier.fetchedAt ≤ g.now
  calls : ∀ i c, g.calls i = some c → CallSound crypto js cfg issuer g.verifier g.now c

/-- A later fetch and a later time do a call no harm. -/
theorem CallSound.later {v w : Verifier K} {now then_ : Nat} {c : Call}
    (h : CallSound crypto js cfg issuer v now c) (hv : v.fetchedAt ≤ w.fetchedAt)
    (ht : now ≤ then_) : CallSound crypto js cfg issuer w then_ c where
  parsed := h.parsed
  past := h.past.trans ht
  recent force hphase := (h.recent force hphase).trans_le (Nat.add_le_add_right hv _)
  accepted := h.accepted

/-- A call that neither ends with a principal nor has its refresh behind it. -/
theorem CallSound.waits {v : Verifier K} {now : Nat} {c : Call} {phase : Phase}
    (h : CallSound crypto js cfg issuer v now c)
    (hrefreshed : ∀ force, phase ≠ .refreshed force)
    (hended : ∀ endedAt p, phase ≠ .ended endedAt (.ok p)) :
    CallSound crypto js cfg issuer v now { c with phase } where
  parsed := h.parsed
  past := h.past
  recent force hphase := absurd hphase (hrefreshed force)
  accepted endedAt p hphase := absurd hphase (hended endedAt p)

theorem CallSound.refused {v : Verifier K} {now : Nat} {c : Call}
    (h : CallSound crypto js cfg issuer v now c) :
    CallSound crypto js cfg issuer v now { c with phase := unreachable now } := by
  apply h.waits
  · intro force heq
    cases heq
  · intro endedAt p heq
    cases heq

theorem Sound.setCall (h : Sound crypto js cfg issuer g) {i : Nat} {c : Call}
    (hc : CallSound crypto js cfg issuer g.verifier g.now c) :
    Sound crypto js cfg issuer (g.setCall i c) where
  trusted := h.trusted
  past := h.past
  calls j d hd := by
    have hd : Function.update g.calls i (some c) j = some d := hd
    by_cases hj : j = i
    · subst hj
      rw [Function.update_self] at hd
      exact Option.some.inj hd ▸ hc
    · rw [Function.update_of_ne hj] at hd
      exact h.calls j d hd

theorem Sound.tick (h : Sound crypto js cfg issuer g) (ms : Nat) :
    Sound crypto js cfg issuer { g with now := g.now + ms } where
  trusted := h.trusted
  past := h.past.trans (Nat.le_add_right _ _)
  calls i c hc := (h.calls i c hc).later le_rfl (Nat.le_add_right _ _)

/-- New keys, fetched now. -/
theorem Sound.replace (h : Sound crypto js cfg issuer g) {v : Verifier K}
    (hv : Trusted crypto issuer v) (hold : g.verifier.fetchedAt ≤ v.fetchedAt)
    (hpast : v.fetchedAt ≤ g.now) : Sound crypto js cfg issuer { g with verifier := v } where
  trusted := hv
  past := hpast
  calls i c hc := (h.calls i c hc).later hold le_rfl

/-- A refresh that fetches nothing leaves keys of the last ten minutes. -/
theorem recent_of_refresh {v : Verifier K} {force b : Bool} {now : Nat}
    (h : refresh v force now = .refreshed b) : now < v.fetchedAt + 600000 := by
  unfold refresh at h
  split at h
  · omega
  · split at h
    · omega
    · cases h

theorem refresh_ne_ended {v : Verifier K} {force : Bool} {now endedAt : Nat}
    {r : Except Refusal Principal} : refresh v force now ≠ .ended endedAt r := by
  intro h
  unfold refresh at h
  split at h
  · cases h
  · split at h <;> cases h

/-- A call that begins, or refreshes again. -/
theorem CallSound.refresh {v : Verifier K} {now : Nat} {c : Call} {force : Bool}
    (h : parse crypto c.token = .ok c.jwt) (hpast : c.now ≤ now) :
    CallSound crypto js cfg issuer v now { c with phase := OAuth.refresh v force now } where
  parsed := h
  past := hpast
  recent _ hphase := hpast.trans_lt (recent_of_refresh hphase)
  accepted _ _ hphase := absurd hphase refresh_ne_ended

theorem Sound.verify (h : Sound crypto js cfg issuer g) {i : Nat} {token : String} {jwt : Jwt}
    (hparse : parse crypto token = .ok jwt) :
    Sound crypto js cfg issuer
      (g.setCall i { token, jwt, now := g.now, phase := begin_ g.verifier jwt g.now }) := by
  apply h.setCall
  have hidle : CallSound crypto js cfg issuer g.verifier g.now
      { token, jwt, now := g.now, phase := OAuth.refresh g.verifier false g.now } :=
    CallSound.refresh (c := ⟨token, jwt, g.now, .refreshed false⟩) hparse le_rfl
  unfold begin_
  split
  · apply hidle.waits
    · intro force heq
      cases heq
    · intro endedAt p heq
      cases heq
  · exact hidle

theorem Sound.discovered (h : Sound crypto js cfg issuer g) {i : Nat} {c : Call} {force : Bool}
    {jwks_uri : Option String} (hc : g.calls i = some c) :
    Sound crypto js cfg issuer (g.discovered i c force jwks_uri) := by
  unfold Server.discovered
  split
  · exact h.setCall (h.calls i c hc).refused
  · have hfound : Sound crypto js cfg issuer
        { g with verifier := { g.verifier with jwksUri := jwks_uri } } :=
      h.replace h.trusted le_rfl h.past
    apply hfound.setCall
    apply (hfound.calls i c hc).waits
    · intro force' heq
      cases heq
    · intro endedAt p heq
      cases heq

/-- The keys of an answer in time are the issuer's. -/
theorem trusted_of_inTime {startedAt served now : Nat} (h : inTime startedAt served now = true)
    (uri : Option String) :
    Trusted crypto issuer { keys := loadKeys crypto (issuer served), fetchedAt := now,
                            jwksUri := uri } := by
  obtain ⟨hafter, hserved, hbefore⟩ := of_decide_eq_true h
  intro kid key hmem
  exact ⟨served, mem_loadKeys hmem, hserved, hbefore.trans (Nat.add_le_add_right hafter _)⟩

theorem Sound.fetched (h : Sound crypto js cfg issuer g) {i : Nat} {c : Call} {force : Bool}
    {startedAt served : Nat} (hc : g.calls i = some c) :
    Sound crypto js cfg issuer (g.fetched crypto issuer i c force startedAt served) := by
  unfold Server.fetched
  split
  · rename_i hin
    have hnew := h.replace (trusted_of_inTime hin g.verifier.jwksUri) h.past le_rfl
    apply hnew.setCall
    have hsound := hnew.calls i c hc
    constructor
    case parsed => exact hsound.parsed
    case past => exact hsound.past
    case recent =>
      intro _ _
      exact hsound.past.trans_lt (Nat.lt_add_of_pos_right (by decide))
    case accepted =>
      intro endedAt p heq
      cases heq
  · exact h.setCall (h.calls i c hc).refused

/-- A call goes by keys the verifier has. -/
theorem accepted_of_afterRefresh (h : Sound crypto js cfg issuer g) {c : Call}
    (hc : CallSound crypto js cfg issuer g.verifier g.now c) {force : Bool}
    (hphase : c.phase = .refreshed force) {endedAt : Nat} {p : Principal}
    (hafter : afterRefresh crypto js cfg g.verifier c force g.now = .ended endedAt (.ok p)) :
    Accepted crypto js cfg issuer c endedAt p := by
  unfold afterRefresh at hafter
  split at hafter
  · rename_i key hkey
    simp only [Phase.ended.injEq] at hafter
    obtain ⟨rfl, hfinish⟩ := hafter
    obtain ⟨kid, hmem, hnames⟩ : ∃ kid, (kid, key) ∈ g.verifier.keys ∧ Names c.jwt kid := by
      cases force with
      | true => exact mem_of_forcedKey hkey
      | false => exact mem_of_firstKey hkey
    obtain ⟨served, hpublished, hserved, hsoon⟩ := h.trusted kid key hmem
    obtain ⟨⟨alg, halg, hverify⟩, hchecked⟩ := finish_eq_ok hfinish
    have hrecent := hc.recent force hphase
    constructor
    case signed => exact parse_eq_ok hc.parsed
    case key =>
      exact ⟨kid, key, served, alg, hpublished, hserved.trans h.past, by omega, hnames, halg,
        hverify⟩
    case claims => exact claimed_of_checkClaims hchecked
  · split at hafter
    · cases hafter
    · exact absurd hafter refresh_ne_ended

theorem recent_of_afterRefresh {v : Verifier K} {c : Call} {force b : Bool} {now : Nat}
    (hafter : afterRefresh crypto js cfg v c force now = .refreshed b) :
    now < v.fetchedAt + 600000 := by
  unfold afterRefresh at hafter
  split at hafter
  · cases hafter
  · split at hafter
    · cases hafter
    · exact recent_of_refresh hafter

theorem Sound.resume (h : Sound crypto js cfg issuer g) {i : Nat} {c : Call} {force : Bool}
    (hc : g.calls i = some c) (hphase : c.phase = .refreshed force) :
    Sound crypto js cfg issuer
      (g.setCall i { c with phase := afterRefresh crypto js cfg g.verifier c force g.now }) := by
  have hsound := h.calls i c hc
  apply h.setCall
  constructor
  case parsed => exact hsound.parsed
  case past => exact hsound.past
  case recent =>
    intro _ hafter
    exact hsound.past.trans_lt (recent_of_afterRefresh hafter)
  case accepted =>
    intro endedAt p hafter
    obtain ⟨hsigned, hkey, hclaims⟩ := accepted_of_afterRefresh h hsound hphase hafter
    exact ⟨hsigned, hkey, hclaims⟩

theorem Sound.advance (h : Sound crypto js cfg issuer g) {i : Nat} {c : Call} (s : Step)
    (hc : g.calls i = some c) :
    Sound crypto js cfg issuer (g.advance crypto js cfg issuer i c s) := by
  unfold Server.advance
  split
  · exact h.discovered hc
  · exact h.fetched hc
  · exact h.setCall (h.calls i c hc).refused
  · rename_i hphase
    exact h.resume hc hphase
  · exact h

theorem sound_step (h : Sound crypto js cfg issuer g) (s : Step) :
    Sound crypto js cfg issuer (g.step crypto js cfg issuer s) := by
  unfold Server.step
  split
  · exact h.tick _
  · split
    · rename_i hparse
      exact h.verify hparse
    · exact h
  · split
    · rename_i i c hcall hc
      rw [hcall] at hc
      exact h.advance s hc
    · exact h

theorem sound_start (now : Nat) : Sound crypto js cfg issuer (Server.start cfg now) where
  trusted kid key hmem := absurd hmem List.not_mem_nil
  past := Nat.zero_le now
  calls i c hc := by cases hc

end Runs

variable {crypto js cfg issuer}

/-- However many tokens are verified at once, and whichever call's fetch comes last: a token is
accepted only for a signature, over the very text its claims are read from, by a key the issuer
published for signatures under the name the token gives, no longer than ten minutes and a
fetch before the call. -/
theorem accepted_by_published_key {now : Nat} {steps : List Step} {i : Nat} {c : Call}
    (hc : (run (Server.step crypto js cfg issuer) (Server.start cfg now) steps).calls i = some c)
    {endedAt : Nat} {p : Principal} (hp : c.phase = .ended endedAt (.ok p)) :
    Accepted crypto js cfg issuer c endedAt p := by
  have hsound : Sound crypto js cfg issuer
      (run (Server.step crypto js cfg issuer) (Server.start cfg now) steps) :=
    invariant_all (I := Sound crypto js cfg issuer) (fun _ s h => sound_step h s)
      (sound_start now) steps
  exact (hsound.calls i c hc).accepted endedAt p hp

namespace Sample

def header : String := "eyJhbGciOiJFUzI1NiIsImtpZCI6ImsxIn0"

def claims : String :=
  "eyJpc3MiOiJodHRwczovL2lkIiwiYXVkIjoiYXBpIiwiZXhwIjoxMTAwLCJzdWIiOiJhZGEiLCJzY3AiOiJydW4ifQ"

def signature : String :=
  "qfckkAGpHDdK-msNhV1Es7OO7fLS3KlXA7XCENhJOOw7p8ozJst2bAGoisgH6trMrWQUhcM_OnO6mNhgd7nXSg"

/-- The coordinates of a key on P-256. -/
def point : String :=
  "L4ClTBWtMRgO4PzENOtHN3QI6Iktw71KPgb6GeWj3IU C7VHjrpjssm1Vj4DIgFwBXqVIRhS6TL75QwWfyYXaGM"

/-- One key, and the one token signed with it. -/
def nodeCrypto : Crypto String where
  decode s :=
    if s = header then some (.obj [("alg", .str "ES256"), ("kid", .str "k1")])
    else if s = claims then
      some (.obj [("iss", .str "https://id"), ("aud", .str "api"), ("exp", .num 1100),
        ("sub", .str "ada"), ("scp", .str "run")])
    else none
  createPublicKey k := if k.material = point then some point else none
  verify alg key signed sig :=
    decide (alg = .ES256 ∧ key = point ∧ signed = header ++ "." ++ claims ∧ sig = signature)

def config : Config where
  issuer := "https://id"
  audience := "api"
  jwksUri := some "https://id/keys"
  readScope := "read"
  runScope := "run"
  identityClaims := none

def publishes : Nat → List Jwk :=
  fun _ => [{ kid := some "k1", use_ := some "sig", material := point }]

def token : String := header ++ "." ++ claims ++ "." ++ signature

def isAccepted (c : Call) : Bool :=
  match c.phase with
  | .ended _ (.ok p) => decide (p.subject = "ada")
  | _ => false

theorem exists_of_isAccepted {c : Call} (h : isAccepted c = true) :
    ∃ endedAt p, c.phase = .ended endedAt (.ok p) ∧ p.subject = "ada" := by
  unfold isAccepted at h
  split at h
  · rename_i endedAt p hphase
    exact ⟨endedAt, p, hphase, of_decide_eq_true h⟩
  · cases h

end Sample

/-- A token checked with a key that was fetched for it. -/
theorem accepted_by_published_key_fetched : ∃ c endedAt p, p.subject = "ada" ∧
    (run (Server.step Sample.nodeCrypto Js.plain Sample.config Sample.publishes)
      (Server.start Sample.config 1000000)
      [.verify 0 Sample.token, .tick 40, .keys 0 1000020, .resume 0]).calls 0 = some c ∧
    Accepted Sample.nodeCrypto Js.plain Sample.config Sample.publishes c endedAt p := by
  obtain ⟨c, hc, haccepted⟩ := (Option.any_eq_true _ _).mp (show
    ((run (Server.step Sample.nodeCrypto Js.plain Sample.config Sample.publishes)
      (Server.start Sample.config 1000000)
      [.verify 0 Sample.token, .tick 40, .keys 0 1000020, .resume 0]).calls 0).any
        Sample.isAccepted = true from by decide +kernel)
  obtain ⟨endedAt, p, hphase, hsubject⟩ := Sample.exists_of_isAccepted haccepted
  exact ⟨c, endedAt, p, hsubject, hc, accepted_by_published_key hc hphase⟩

end FleetRunner.Gateway.OAuth
