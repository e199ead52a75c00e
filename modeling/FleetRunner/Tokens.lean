import FleetRunner.Auth
import FleetRunner.Js.Text
import FleetRunner.Library.Regex
import FleetRunner.Library.Runs

/-!
# Tokens, and what a collector remembers of them (`auth.ts`)

Tokens live in a file that the command line edits and the collector reads
again when it has changed. It looks at most once a second. What a request is
granted is therefore what the file said at some moment of the second before.

## Implementation notes

The clock counts milliseconds and does not go back. An edit of the file ends
before the next begins, and one may fall between the collector's look at the
file's time and its reading of the file. The hash is a parameter. Requests that
the collector sends itself are not modelled.
-/

namespace FleetRunner.Auth

open Library

/-! ## Scopes -/

/-- What a token allows. -/
inductive Scope where
  | read | run | admin | agent | delegate
  deriving DecidableEq

/-- The scopes by name. -/
def SCOPES : List (String × Scope) :=
  [("read", .read), ("run", .run), ("admin", .admin), ("agent", .agent), ("delegate", .delegate)]

def Scope.ofName? (s : String) : Option Scope := SCOPES.lookup s

def Scope.name : Scope → String
  | .read => "read"
  | .run => "run"
  | .admin => "admin"
  | .agent => "agent"
  | .delegate => "delegate"

/-- `admin` implies `run` and `agent`, and `run` implies `read`. -/
def expand (scopes : List String) : List Scope :=
  let out := scopes.filterMap Scope.ofName?
  let out := if .admin ∈ out then out ++ [.run, .agent] else out
  if .run ∈ out then out ++ [.read] else out

/-! ## The file -/

/-- A token in the file, by its hash. -/
structure TokenRecord where
  id : String
  name : String
  hash : String
  scopes : List String
  created_at : Nat
  expires_at : Option Nat
  revoked_at : Option Nat
  deriving DecidableEq

/-- The file of the tokens. -/
structure Disk where
  content : Except String (List TokenRecord)
  /-- When it was last written, -1 while there is no file. -/
  mtimeMs : Int

/-- A file that cannot be read holds no tokens. -/
def Disk.tokens (d : Disk) : List TokenRecord :=
  match d.content with
  | .ok tokens => tokens
  | .error _ => []

/-- `/^[\w.@:-]{1,64}$/` -/
def isTokenName (name : String) : Bool :=
  decide (0 < name.length ∧ name.length ≤ 64) &&
    name.toList.all fun c => isWordChar c || c = '.' || c = '@' || c = ':' || c = '-'

/-- What a new token is created with. -/
structure NewToken where
  name : String
  scopes : List String
  expiresDays : Option Nat
  /-- What the random generator gave. -/
  token : String
  id : String

variable (sha256 : String → String)

def hashToken (token : String) : String := "sha256:" ++ sha256 token

/-- Adds a token to the file, or says why not. -/
def createToken (now : Nat) (opts : NewToken) (tokens : List TokenRecord) :
    Except String (List TokenRecord) :=
  let name := jsTrim opts.name
  let unknown := opts.scopes.filter fun s => (Scope.ofName? s).isNone
  if !isTokenName name then .error "token name must be 1-64 of letters, digits, . _ - @ :"
  else if unknown ≠ [] then
    .error ("unknown scope(s): " ++ ", ".intercalate unknown ++ ". Scopes are " ++
      ", ".intercalate (SCOPES.map Prod.fst) ++ ".")
  else if opts.scopes = [] then .error "a token needs at least one scope"
  else if tokens.any fun t => decide (t.name = name) && t.revoked_at.isNone then
    .error ("a live token named " ++ name ++ " already exists; revoke it first")
  else
    let days := opts.expiresDays.filter fun n => decide (n ≠ 0)
    .ok (tokens ++ [{
      id := opts.id, name, hash := hashToken sha256 opts.token, scopes := opts.scopes.eraseDups,
      created_at := now, expires_at := days.map fun n => now + n * 86400000, revoked_at := none }])

/-- Does a revocation name this record, and is it still live? -/
def TokenRecord.revokedBy (t : TokenRecord) (idOrName : String) : Bool :=
  (decide (t.id = idOrName) || decide (t.name = idOrName)) && t.revoked_at.isNone

/-- Revokes the record if it is meant. -/
def TokenRecord.revoke (now : Nat) (idOrName : String) (t : TokenRecord) : TokenRecord :=
  if t.revokedBy idOrName then { t with revoked_at := some now } else t

/-- Revoke by id or name, and how many were. -/
def revokeToken (now : Nat) (idOrName : String) (tokens : List TokenRecord) :
    List TokenRecord × Nat :=
  (tokens.map (TokenRecord.revoke now idOrName), tokens.countP fun t => t.revokedBy idOrName)

/-- A change of the file. -/
inductive Edit where
  | create (opts : NewToken)
  | revoke (idOrName : String)
  /-- Someone replaces the file by hand. -/
  | put (content : Except String (List TokenRecord))

/-- An edit that fails writes nothing. -/
def Disk.edit (now : Nat) (d : Disk) : Edit → Disk
  | .create opts =>
    match d.content.bind (createToken sha256 now opts) with
    | .error _ => d
    | .ok tokens => { content := .ok tokens, mtimeMs := now }
  | .revoke idOrName =>
    match d.content with
    | .error _ => d
    | .ok tokens =>
      let (tokens, n) := revokeToken now idOrName tokens
      if n = 0 then d else { content := .ok tokens, mtimeMs := now }
  | .put content => { content, mtimeMs := now }

/-! ## What the collector remembers -/

/-- What the server keeps of the file. -/
structure Cache where
  mtimeMs : Int
  checkedAt : Nat
  data : List TokenRecord

/-- The file after an edit by another process, if there is one. -/
def Disk.meanwhile (now : Nat) (d : Disk) : Option Edit → Disk
  | none => d
  | some e => d.edit sha256 now e

/-- What is read, and what is remembered of it: the time is that of the look before. -/
def reread (now : Nat) (d d' : Disk) : List TokenRecord × Option Cache × Disk :=
  (d'.tokens, some { mtimeMs := d.mtimeMs, checkedAt := now, data := d'.tokens }, d')

/-- The tokens, read again at most once a second and only when the file has changed; `between` is
an edit that falls between the look and the reading. -/
def liveTokens (now : Nat) (cache : Option Cache) (d : Disk) (between : Option Edit) :
    List TokenRecord × Option Cache × Disk :=
  match cache with
  | none => reread now d (d.meanwhile sha256 now between)
  | some c =>
    if now - c.checkedAt < 1000 then (c.data, some c, d)
    else if c.mtimeMs = d.mtimeMs then (c.data, some { c with checkedAt := now }, d)
    else reread now d (d.meanwhile sha256 now between)

/-- The first record of the token decides. -/
def lookup (now : Nat) (token : String) (tokens : List TokenRecord) : Option TokenRecord :=
  match tokens.find? fun t => decide (t.hash = hashToken sha256 token) with
  | none => none
  | some t =>
    if t.revoked_at.isSome then none
    else if t.expires_at.any fun at_ => decide (at_ ≤ now) then none
    else some t

/-! ## A request -/

/-- The headers that are read. -/
structure Headers where
  authorization : Option String
  fleetToken : Option String
  cookie : Option String
  fleetActor : Option String
  fleetSource : Option String

/-- A request, as far as it is weighed. -/
structure Asked where
  method : Method
  url : String
  headers : Headers

/-- `/^Bearer\s+\S+$/i`, and what stands behind it. -/
def authorizationToken (h : List Char) : Option String :=
  let rest := h.drop 6
  let token := rest.dropWhile isJsSpace
  if (h.take 6).map foldCase = "bearer".toList.map Char.toNat ∧ token.length < rest.length ∧
      token ≠ [] ∧ token.all fun c => !isJsSpace c then some (String.ofList token)
  else none

/-- The bytes of a text whose escapes are undone. -/
def percentBytes : List Char → Option (List UInt8)
  | [] => some []
  | '%' :: x :: y :: rest =>
    match hexValue x, hexValue y, percentBytes rest with
    | some h, some l, some bytes => some (UInt8.ofNat (16 * h + l) :: bytes)
    | _, _, _ => none
  | '%' :: _ => none
  | c :: rest => (percentBytes rest).map fun bytes => String.utf8EncodeChar c ++ bytes

/-- What the escapes stand for, unless they are malformed. -/
def decodeURIComponent (cs : List Char) : Except String String :=
  match (percentBytes cs).bind fun bytes => String.fromUTF8? ⟨bytes.toArray⟩ with
  | none => .error "URI malformed"
  | some s => .ok s

/-- `fleet_token=([^;]+)` at the front of a text. -/
def cookieAt (cs : List Char) : Option (List Char) :=
  let name := "fleet_token=".toList
  let value := (cs.drop name.length).takeWhile fun c => decide (c ≠ ';')
  if name.isPrefixOf cs ∧ value ≠ [] then some value else none

/-- `(?:^|;\s*)` before it, anywhere. -/
def cookieAfter : List Char → Option (List Char)
  | [] => none
  | c :: rest =>
    if c = ';' then (cookieAt (rest.dropWhile isJsSpace)).or (cookieAfter rest)
    else cookieAfter rest

/-- The token that a cookie carries. -/
def cookieToken (cs : List Char) : Option (List Char) := (cookieAt cs).or (cookieAfter cs)

/-- A header first; a session cookie stands in for reads only. -/
def bearer (req : Asked) : Except String (Option String) :=
  match req.headers.authorization.bind fun h => authorizationToken h.toList with
  | some token => .ok (some token)
  | none =>
    match req.headers.fleetToken.filter fun t => decide (t ≠ "") with
    | some token => .ok (some token)
    | none =>
      if req.method = .GET ∨ req.method = .HEAD then
        match cookieToken (req.headers.cookie.getD "").toList with
        | none => .ok none
        | some value => (decodeURIComponent value).map some
      else .ok none

/-- A name as a caller may state it. -/
def label (raw : Option String) (max : Nat) : Option String :=
  (raw.map fun s => jsSlice (jsTrim s) max).filter fun v =>
    decide (v ≠ "") && v.toList.all fun c =>
      isWordChar c || c = '.' || c = '@' || c = ':' || c = '+' || c = '-' || c = ' '

/-- What the hook decided about a request, with tokens on. -/
structure AuthContext where
  actor : Option String
  verified : Bool
  token : Option (String × String)
  scopes : List Scope
  source : Option String

/-- Who acts with a record, and through what. -/
def resolveContext (req : Asked) (record : Option TokenRecord) : AuthContext :=
  let source := label req.headers.fleetSource 40
  let claimed := label req.headers.fleetActor 120
  match record with
  | none => { actor := none, verified := false, token := none, scopes := [], source }
  | some t =>
    let scopes := expand t.scopes
    { actor := if .delegate ∈ scopes ∧ claimed.isSome then claimed else some t.name,
      verified := true, token := some (t.id, t.name), scopes, source }

/-- What becomes of a request. -/
inductive Verdict where
  | admitted (ctx : AuthContext)
  | denied (status : Nat) (code message : String) (required_scope : Option String)
  /-- The hook threw. -/
  | failed (error : String)

def Verdict.isAdmitted : Verdict → Bool
  | .admitted _ => true
  | _ => false

theorem exists_of_isAdmitted {v : Verdict} (h : v.isAdmitted = true) :
    ∃ ctx, v = .admitted ctx := by
  cases v with
  | admitted ctx => exact ⟨ctx, rfl⟩
  | denied status code message required_scope => cases h
  | failed error => cases h

/-- A route that needs one scope. -/
def needsScope (ctx : AuthContext) (scope : Scope) (name : String) : Verdict :=
  if ctx.token.isNone then
    .denied 401 "unauthorized" "a bearer token is required (FLEET_AUTH=tokens)" none
  else if scope ∉ ctx.scopes then
    .denied 403 "insufficient_scope" ("this needs the " ++ name ++ " scope") (some name)
  else .admitted ctx

/-- `FLEET_AUTH_PROTOCOL` is `open` or `token`. -/
def weigh (protocolOpen : Bool) (req : Asked) (ctx : AuthContext) : Need → Verdict
  | .public => .admitted ctx
  | .protocol =>
    if protocolOpen then .admitted ctx
    else if .agent ∈ ctx.scopes ∨ req.method = .GET ∧ .read ∈ ctx.scopes then .admitted ctx
    else if ctx.token.isNone then
      .denied 401 "unauthorized" "a token with the agent scope is required" none
    else
      .denied 403 "insufficient_scope" "this token cannot speak the runner protocol" (some "agent")
  | .read => needsScope ctx .read "read"
  | .run => needsScope ctx .run "run"
  | .admin => needsScope ctx .admin "admin"

/-! ## The collector, its file and its callers -/

/-- The clock, the file, the server's cache and what the file was. -/
structure World where
  now : Nat
  disk : Disk
  cache : Option Cache
  /-- What the file was, with the time, after each step. -/
  history : List (Nat × Disk)

/-- A server that has not read the file yet. -/
def World.start (d : Disk) : World := { now := 0, disk := d, cache := none, history := [(0, d)] }

/-- Time passes, the file changes or a request comes. -/
inductive Step where
  | tick (ms : Nat)
  | edit (e : Edit)
  | ask (req : Asked) (between : Option Edit)

/-- The hook on one request. -/
def World.ask (protocolOpen : Bool) (w : World) (req : Asked) (between : Option Edit) :
    World × Verdict :=
  let need := requirement req.method req.url.toList
  match bearer req with
  | .error e => (w, .failed e)
  | .ok none => (w, weigh protocolOpen req (resolveContext req none) need)
  | .ok (some presented) =>
    let (tokens, cache, disk) := liveTokens sha256 w.now w.cache w.disk between
    ({ w with cache, disk, history := w.history ++ [(w.now, disk)] },
      weigh protocolOpen req (resolveContext req (lookup sha256 w.now presented tokens)) need)

def World.step (protocolOpen : Bool) (w : World) : Step → World
  | .tick ms => { w with now := w.now + ms, history := w.history ++ [(w.now + ms, w.disk)] }
  | .edit e =>
    let disk := w.disk.edit sha256 w.now e
    { w with disk, history := w.history ++ [(w.now, disk)] }
  | .ask req between => (w.ask sha256 protocolOpen req between).1

/-! ## Scopes and what they cover -/

section Scopes

variable {scopes : List String}

theorem ofName?_eq_some {s : String} {x : Scope} : Scope.ofName? s = some x ↔ s = x.name := by
  constructor
  · intro h
    obtain ⟨_, _, hsplit, -⟩ := List.lookup_eq_some_iff.mp h
    have hmem : (s, x) ∈ SCOPES := by
      rw [hsplit]
      simp
    simp only [SCOPES, List.mem_cons, Prod.mk.injEq, List.not_mem_nil, or_false] at hmem
    rcases hmem with h | h | h | h | h <;> obtain ⟨rfl, rfl⟩ := h <;> rfl
  · rintro rfl
    cases x <;> rfl

theorem mem_filterMap_ofName? {x : Scope} :
    x ∈ scopes.filterMap Scope.ofName? ↔ x.name ∈ scopes := by
  simp only [List.mem_filterMap, ofName?_eq_some]
  constructor
  · rintro ⟨s, hs, rfl⟩
    exact hs
  · exact fun h => ⟨_, h, rfl⟩

/-- A scope is granted by name, or by one that implies it. -/
def impliedBy : Scope → List String
  | .read => ["read", "run", "admin"]
  | .run => ["run", "admin"]
  | .admin => ["admin"]
  | .agent => ["agent", "admin"]
  | .delegate => ["delegate"]

theorem mem_expand_iff {x : Scope} : x ∈ expand scopes ↔ ∃ s ∈ impliedBy x, s ∈ scopes := by
  have hnamed : ∀ y : Scope, y ∈ scopes.filterMap Scope.ofName? ↔ y.name ∈ scopes :=
    fun _ => mem_filterMap_ofName?
  unfold expand
  cases x <;> simp only [impliedBy] <;> split_ifs <;> simp_all [Scope.name]

end Scopes

/-! ## How old an answer may be -/

section Staleness

variable {sha256 : String → String} {w : World}

theorem edit_eq_or (sha256 : String → String) (now : Nat) (d : Disk) (e : Edit) :
    d.edit sha256 now e = d ∨ (d.edit sha256 now e).mtimeMs = now := by
  cases e with
  | create opts =>
      simp only [Disk.edit]
      split
      · exact Or.inl rfl
      · exact Or.inr rfl
  | revoke idOrName =>
      simp only [Disk.edit]
      split
      · exact Or.inl rfl
      · split
        · exact Or.inl rfl
        · exact Or.inr rfl
  | put content => exact Or.inr rfl

/-- The file is not written twice in one millisecond. -/
def Spaced (w : World) : Step → Prop
  | .tick _ => True
  | .edit _ => w.disk.mtimeMs < w.now
  | .ask _ between => between.isSome = true → w.disk.mtimeMs < w.now

instance (w : World) : ∀ s, Decidable (Spaced w s)
  | .tick _ => .isTrue trivial
  | .edit _ => inferInstanceAs (Decidable (w.disk.mtimeMs < w.now))
  | .ask _ between => inferInstanceAs (Decidable (between.isSome = true → w.disk.mtimeMs < w.now))

/-- What is remembered was the file's content when it was last checked, and is so still if the
file's time is. -/
structure Cached (w : World) (c : Cache) : Prop where
  then_ : ∃ d, (c.checkedAt, d) ∈ w.history ∧ d.tokens = c.data
  older : c.mtimeMs ≤ w.disk.mtimeMs
  now_ : c.mtimeMs = w.disk.mtimeMs → w.disk.tokens = c.data

/-- The cache is what the file was when it was read, and the history is past. -/
structure World.Sound (w : World) : Prop where
  cached : ∀ c, w.cache = some c → Cached w c
  past : ∀ x ∈ w.history, x.1 ≤ w.now

theorem Cached.later {c : Cache} (h : Cached w c) {w' : World} {x : Nat × Disk}
    (hhistory : w'.history = w.history ++ [x])
    (hdisk : w'.disk = w.disk ∨ w.disk.mtimeMs < w'.disk.mtimeMs) : Cached w' c := by
  obtain ⟨d, hmem, hdata⟩ := h.then_
  have hthen : ∃ d, (c.checkedAt, d) ∈ w'.history ∧ d.tokens = c.data := by
    refine ⟨d, ?_, hdata⟩
    rw [hhistory]
    exact List.mem_append_left _ hmem
  rcases hdisk with hsame | hnewer
  · exact ⟨hthen, hsame ▸ h.older, hsame ▸ h.now_⟩
  · have holder := h.older
    exact ⟨hthen, by omega, fun heq => by omega⟩

/-- Where an edit leaves the file's time. -/
theorem edit_spaced {e : Edit} (h : w.disk.mtimeMs < w.now) :
    w.disk.edit sha256 w.now e = w.disk ∨
      w.disk.mtimeMs < (w.disk.edit sha256 w.now e).mtimeMs := by
  rcases edit_eq_or sha256 w.now w.disk e with hsame | hnew
  · exact Or.inl hsame
  · rw [hnew]
    exact Or.inr h

theorem World.Sound.kept (h : w.Sound) {c : Option Cache} {d : Disk}
    (hdisk : d = w.disk ∨ w.disk.mtimeMs < d.mtimeMs)
    (hcache : ∀ c', c = some c' → w.cache = some c' ∨
      Cached { w with cache := c, disk := d, history := w.history ++ [(w.now, d)] } c') :
    World.Sound { w with cache := c, disk := d, history := w.history ++ [(w.now, d)] } where
  cached c' hc := by
    rcases hcache c' hc with hold | hnew
    · exact (h.cached c' hold).later rfl hdisk
    · exact hnew
  past x hx := by
    rcases List.mem_append.mp hx with hx | hx
    · exact h.past x hx
    · rw [List.mem_singleton.mp hx]

/-- What the collector goes by was in the file less than a second ago. -/
theorem liveTokens_recent (h : w.Sound) {between : Option Edit}
    (hspaced : between.isSome = true → w.disk.mtimeMs < w.now) {tokens : List TokenRecord}
    {cache : Option Cache} {disk : Disk}
    (hlive : liveTokens sha256 w.now w.cache w.disk between = (tokens, cache, disk)) :
    (∃ x ∈ w.history ++ [(w.now, disk)], w.now < x.1 + 1000 ∧ x.2.tokens = tokens) ∧
      World.Sound { w with cache, disk, history := w.history ++ [(w.now, disk)] } := by
  have hedit : w.disk.meanwhile sha256 w.now between = w.disk ∨
      w.disk.mtimeMs < (w.disk.meanwhile sha256 w.now between).mtimeMs := by
    cases between with
    | none => exact Or.inl rfl
    | some e => exact edit_spaced (hspaced rfl)
  have hread : reread w.now w.disk (w.disk.meanwhile sha256 w.now between) =
      (tokens, cache, disk) →
        (∃ x ∈ w.history ++ [(w.now, disk)], w.now < x.1 + 1000 ∧ x.2.tokens = tokens) ∧
        World.Sound { w with cache, disk, history := w.history ++ [(w.now, disk)] } := by
    generalize w.disk.meanwhile sha256 w.now between = d' at hedit
    intro heq
    simp only [reread, Prod.mk.injEq] at heq
    obtain ⟨rfl, rfl, rfl⟩ := heq
    have hnow : (w.now, d') ∈ w.history ++ [(w.now, d')] := List.mem_append_right _ (by simp)
    refine ⟨⟨_, hnow, by omega, rfl⟩, h.kept hedit ?_⟩
    intro c' hc'
    obtain rfl := Option.some.inj hc'
    refine Or.inr ⟨⟨d', hnow, rfl⟩, ?_, fun _ => rfl⟩
    rcases hedit with rfl | hnewer
    · exact le_refl _
    · exact hnewer.le
  unfold liveTokens at hlive
  cases hcache : w.cache with
  | none =>
      rw [hcache] at hlive
      exact hread hlive
  | some c =>
      obtain ⟨⟨d, hmem, hdata⟩, holder, hsame⟩ := h.cached c hcache
      rw [hcache] at hlive
      simp only at hlive
      split at hlive
      · rename_i hrecent
        simp only [Prod.mk.injEq] at hlive
        obtain ⟨rfl, rfl, rfl⟩ := hlive
        refine ⟨⟨_, List.mem_append_left _ hmem, by omega, hdata⟩, h.kept (Or.inl rfl) ?_⟩
        intro c' hc'
        exact Or.inl (hcache.trans hc')
      · split at hlive
        · rename_i htime
          simp only [Prod.mk.injEq] at hlive
          obtain ⟨rfl, rfl, rfl⟩ := hlive
          have hnow : (w.now, w.disk) ∈ w.history ++ [(w.now, w.disk)] :=
            List.mem_append_right _ (by simp)
          refine ⟨⟨_, hnow, by omega, hsame htime⟩, h.kept (Or.inl rfl) ?_⟩
          intro c' hc'
          obtain rfl := Option.some.inj hc'
          exact Or.inr ⟨⟨_, hnow, hsame htime⟩, holder, hsame⟩
        · exact hread hlive

theorem sound_start (d : Disk) : (World.start d).Sound where
  cached c hc := by cases hc
  past x hx := by
    rw [List.mem_singleton.mp hx]
    exact Nat.le_refl _

/-- What one step preserves. -/
theorem sound_step {protocolOpen : Bool} (h : w.Sound) {s : Step} (hok : Spaced w s) :
    (w.step sha256 protocolOpen s).Sound := by
  cases s with
  | tick ms =>
      refine ⟨?_, ?_⟩
      · intro c hc
        exact (h.cached c hc).later rfl (Or.inl rfl)
      · intro x hx
        rcases List.mem_append.mp hx with hx | hx
        · exact (h.past x hx).trans (Nat.le_add_right _ _)
        · rw [List.mem_singleton.mp hx]
          exact Nat.le_refl _
  | edit e => exact h.kept (edit_spaced hok) (fun c hc => Or.inl hc)
  | ask req between =>
      simp only [World.step, World.ask]
      split
      · exact h
      · exact h
      · exact (liveTokens_recent h hok rfl).2

end Staleness

/-! ## Who is admitted -/

section Admission

variable {sha256 : String → String} {protocolOpen : Bool} {w : World} {req : Asked}

/-- The record that speaks for a token. -/
structure Vouches (sha256 : String → String) (now : Nat) (tokens : List TokenRecord)
    (presented : String) (t : TokenRecord) : Prop where
  first : tokens.find? (fun t => decide (t.hash = hashToken sha256 presented)) = some t
  live : t.revoked_at = none
  unexpired : ∀ e, t.expires_at = some e → now < e

theorem vouches_of_lookup {now : Nat} {tokens : List TokenRecord} {presented : String}
    {t : TokenRecord} (h : lookup sha256 now presented tokens = some t) :
    Vouches sha256 now tokens presented t := by
  unfold lookup at h
  split at h
  · cases h
  · rename_i t' hfirst
    split at h
    · cases h
    · rename_i hlive
      split at h
      · cases h
      · rename_i hlate
        obtain rfl := Option.some.inj h
        refine ⟨hfirst, by simpa using hlive, ?_⟩
        intro e he
        simpa [he] using hlate

/-- Routes that are weighed without a token. -/
def isFree (protocolOpen : Bool) : Need → Prop
  | .public => True
  | .protocol => protocolOpen = true
  | _ => False

/-- Does a record's list of scopes cover a need? -/
def Covers (req : Asked) (scopes : List String) : Need → Prop
  | .public => True
  | .protocol => (∃ s ∈ impliedBy .agent, s ∈ scopes) ∨
      req.method = .GET ∧ ∃ s ∈ impliedBy .read, s ∈ scopes
  | .read => ∃ s ∈ impliedBy .read, s ∈ scopes
  | .run => ∃ s ∈ impliedBy .run, s ∈ scopes
  | .admin => ∃ s ∈ impliedBy .admin, s ∈ scopes

theorem admitted_of_needsScope {ctx ctx' : AuthContext} {scope : Scope} {name : String}
    (h : needsScope ctx scope name = .admitted ctx') : ctx' = ctx ∧ scope ∈ ctx.scopes := by
  unfold needsScope at h
  split at h
  · cases h
  · split at h
    · cases h
    · rename_i hscope
      cases h
      exact ⟨rfl, not_not.mp hscope⟩

/-- An admitted request carries a scope, unless its route is free. -/
theorem admitted_of_weigh {record : Option TokenRecord} {need : Need} {ctx : AuthContext}
    (hfree : ¬isFree protocolOpen need)
    (h : weigh protocolOpen req (resolveContext req record) need = .admitted ctx) :
    ∃ t, record = some t ∧ ctx = resolveContext req (some t) ∧ Covers req t.scopes need := by
  have hscopes : ∀ x, x ∈ (resolveContext req record).scopes →
      ∃ t, record = some t ∧ ∃ s ∈ impliedBy x, s ∈ t.scopes := by
    intro x hx
    cases record with
    | none => simp [resolveContext] at hx
    | some t => exact ⟨t, rfl, mem_expand_iff.mp hx⟩
  cases need with
  | «public» => exact absurd trivial hfree
  | protocol =>
      simp only [weigh] at h
      split at h
      · rename_i hopen
        exact absurd hopen hfree
      · split at h
        · rename_i hheld
          cases h
          rcases hheld with hagent | ⟨hget, hread⟩
          · obtain ⟨t, rfl, hcover⟩ := hscopes _ hagent
            exact ⟨t, rfl, rfl, Or.inl hcover⟩
          · obtain ⟨t, rfl, hcover⟩ := hscopes _ hread
            exact ⟨t, rfl, rfl, Or.inr ⟨hget, hcover⟩⟩
        · split at h <;> cases h
  | read =>
      obtain ⟨rfl, hscope⟩ := admitted_of_needsScope h
      obtain ⟨t, rfl, hcover⟩ := hscopes _ hscope
      exact ⟨t, rfl, rfl, hcover⟩
  | run =>
      obtain ⟨rfl, hscope⟩ := admitted_of_needsScope h
      obtain ⟨t, rfl, hcover⟩ := hscopes _ hscope
      exact ⟨t, rfl, rfl, hcover⟩
  | admin =>
      obtain ⟨rfl, hscope⟩ := admitted_of_needsScope h
      obtain ⟨t, rfl, hcover⟩ := hscopes _ hscope
      exact ⟨t, rfl, rfl, hcover⟩

/-- Only a read may be asked for with a cookie. -/
theorem header_of_bearer {presented : String} (h : bearer req = .ok (some presented))
    (hget : req.method ≠ .GET) (hhead : req.method ≠ .HEAD) :
    (req.headers.authorization.bind fun a => authorizationToken a.toList) = some presented ∨
      req.headers.fleetToken = some presented := by
  unfold bearer at h
  split at h
  · rename_i token htoken
    cases h
    exact Or.inl htoken
  · split at h
    · rename_i token htoken
      cases h
      exact Or.inr (Option.filter_eq_some_iff.mp htoken).1
    · simp [hget, hhead] at h

/-- Whose name a request goes by: its token's, or one a delegating token vouches for. -/
theorem actor_resolveContext (t : TokenRecord) : (resolveContext req (some t)).verified = true ∧
    ((resolveContext req (some t)).actor = some t.name ∨ "delegate" ∈ t.scopes) := by
  refine ⟨rfl, ?_⟩
  simp only [resolveContext]
  split
  · rename_i hdelegate
    have hscope := mem_expand_iff.mp hdelegate.1
    simp only [impliedBy, List.mem_singleton, exists_eq_left] at hscope
    exact Or.inr hscope
  · exact Or.inl rfl

/-- A request to a route that is not free is admitted for a token it carries, which no cookie
brings a request that writes; a record that was in the file less than a second ago vouches for
the token, live and not expired, with a scope that covers the route and under a name it may
use. -/
theorem admitted_vouched (sha256 : String → String) (protocolOpen : Bool) (d : Disk)
    {steps : List Step}
    (hspaced : Along (World.step sha256 protocolOpen) Spaced (.start d) steps) (req : Asked)
    {between : Option Edit} {ctx : AuthContext}
    (hfree : ¬isFree protocolOpen (requirement req.method req.url.toList))
    (hlast : Spaced (run (World.step sha256 protocolOpen) (.start d) steps) (.ask req between))
    (hadmitted : ((run (World.step sha256 protocolOpen) (.start d) steps).ask sha256 protocolOpen
      req between).2 = .admitted ctx) :
    let w := run (World.step sha256 protocolOpen) (.start d) steps
    ∃ presented t, bearer req = .ok (some presented) ∧
      (req.method ≠ .GET → req.method ≠ .HEAD →
        (req.headers.authorization.bind fun a => authorizationToken a.toList) = some presented ∨
          req.headers.fleetToken = some presented) ∧
      (∃ x ∈ (w.ask sha256 protocolOpen req between).1.history, w.now < x.1 + 1000 ∧
        Vouches sha256 w.now x.2.tokens presented t) ∧
      Covers req t.scopes (requirement req.method req.url.toList) ∧
      (ctx.actor = some t.name ∨ "delegate" ∈ t.scopes) := by
  intro w
  have hsound : w.Sound :=
    invariant (I := World.Sound) (fun _ _ h hok => sound_step h hok) (sound_start d) hspaced
  have hask : (w.ask sha256 protocolOpen req between).2 = .admitted ctx := hadmitted
  unfold World.ask at hask ⊢
  cases hbearer : bearer req with
  | error e =>
      rw [hbearer] at hask
      cases hask
  | ok presented =>
      rw [hbearer] at hask
      cases presented with
      | none =>
          obtain ⟨t, ht, -⟩ := admitted_of_weigh hfree hask
          cases ht
      | some presented =>
          obtain ⟨⟨x, hx, hrecent, hdata⟩, -⟩ := liveTokens_recent hsound hlast rfl
          obtain ⟨t, ht, rfl, hcovers⟩ := admitted_of_weigh hfree hask
          refine ⟨presented, t, rfl, header_of_bearer hbearer, ⟨x, hx, hrecent, ?_⟩, hcovers,
            (actor_resolveContext t).2⟩
          rw [hdata]
          exact vouches_of_lookup ht

end Admission

namespace Sample

/-- One token and its hash. -/
def digest (token : String) : String :=
  if token = "fr_key" then "4ec5cf666e2baed1f15df83fe619ba9a38c6d8522795a3fbb5e4bad810fa8742"
  else ""

def noFile : Disk := { content := .ok [], mtimeMs := -1 }

def created : Edit :=
  .create { name := "ci", scopes := ["run"], expiresDays := none, token := "fr_key", id := "a1" }

def record : TokenRecord where
  id := "a1"
  name := "ci"
  hash := hashToken digest "fr_key"
  scopes := ["run"]
  created_at := 1000
  expires_at := none
  revoked_at := none

/-- A job posted with the token in a header. -/
def posted : Asked where
  method := .POST
  url := "/jobs?wait=1"
  headers := { authorization := some "Bearer fr_key", fleetToken := none, cookie := none,
               fleetActor := none, fleetSource := none }

end Sample

/-- A job posted a second after its token was created. -/
theorem admitted_vouched_posted :
    let w := run (World.step Sample.digest false) (.start Sample.noFile)
      [.tick 1000, .edit Sample.created, .tick 1000]
    ∃ t, ∃ x ∈ (w.ask Sample.digest false Sample.posted none).1.history, w.now < x.1 + 1000 ∧
      Vouches Sample.digest w.now x.2.tokens "fr_key" t := by
  have hspaced : Along (World.step Sample.digest false) Spaced (.start Sample.noFile)
      [.tick 1000, .edit Sample.created, .tick 1000] := by
    decide +kernel
  have hneed : requirement Sample.posted.method Sample.posted.url.toList = .run := by
    decide +kernel
  have hbearer : bearer Sample.posted = .ok (some "fr_key") := by
    decide +kernel
  obtain ⟨ctx, hadmitted⟩ : ∃ ctx, ((run (World.step Sample.digest false) (.start Sample.noFile)
      [.tick 1000, .edit Sample.created, .tick 1000]).ask Sample.digest false Sample.posted
        none).2 = .admitted ctx := by
    apply exists_of_isAdmitted
    decide +kernel
  have hfree : ¬isFree false (requirement Sample.posted.method Sample.posted.url.toList) := by
    rw [hneed]
    exact id
  obtain ⟨presented, t, hcarried, -, hvouched, -⟩ := admitted_vouched Sample.digest false
    Sample.noFile hspaced Sample.posted hfree (fun h => absurd h (by decide)) hadmitted
  obtain rfl := Option.some.inj (Except.ok.inj (hcarried.symm.trans hbearer))
  exact ⟨t, hvouched⟩

/-! ## After a revocation -/

section Revocation

variable {sha256 : String → String} {protocolOpen : Bool} {w : World} {h : String}

/-- Nothing but `fleet token create` and `fleet token revoke` edits the file. -/
def Edit.byCommand : Edit → Prop
  | .put _ => False
  | _ => True

def Step.byCommand : Step → Prop
  | .edit e => e.byCommand
  | .ask _ (some e) => e.byCommand
  | _ => True

/-- The first record of a hash is revoked. -/
def Dead (h : String) (tokens : List TokenRecord) : Prop :=
  ∃ t, tokens.find? (fun t => decide (t.hash = h)) = some t ∧ t.revoked_at.isSome = true

theorem lookup_of_dead {now : Nat} {presented : String} {tokens : List TokenRecord}
    (hdead : Dead (hashToken sha256 presented) tokens) :
    lookup sha256 now presented tokens = none := by
  obtain ⟨t, hfirst, hrevoked⟩ := hdead
  unfold lookup
  rw [hfirst]
  exact if_pos hrevoked

/-- A new record stands behind the old ones. -/
theorem dead_createToken {now : Nat} {opts : NewToken} {tokens tokens' : List TokenRecord}
    (hdead : Dead h tokens) (hnew : createToken sha256 now opts tokens = .ok tokens') :
    Dead h tokens' := by
  obtain ⟨t, hfirst, hrevoked⟩ := hdead
  unfold createToken at hnew
  simp only at hnew
  split_ifs at hnew
  cases hnew
  refine ⟨t, ?_, hrevoked⟩
  rw [List.find?_append, hfirst]
  rfl

theorem revoke_hash (now : Nat) (idOrName : String) (t : TokenRecord) :
    (t.revoke now idOrName).hash = t.hash := by
  unfold TokenRecord.revoke
  split <;> rfl

theorem revoked_of_revoke {now : Nat} {idOrName : String} {t : TokenRecord}
    (hdies : t.revoked_at.isSome = true ∨ t.id = idOrName ∨ t.name = idOrName) :
    (t.revoke now idOrName).revoked_at.isSome = true := by
  unfold TokenRecord.revoke
  split
  · rfl
  · rename_i hnot
    rcases hdies with hrevoked | hnamed
    · exact hrevoked
    · by_contra hlive
      apply hnot
      simp only [TokenRecord.revokedBy, Bool.and_eq_true, Bool.or_eq_true, decide_eq_true_eq]
      exact ⟨hnamed, by simpa using hlive⟩

theorem dead_revokeToken {now : Nat} {idOrName : String} {tokens : List TokenRecord}
    {t : TokenRecord} (hfirst : tokens.find? (fun t => decide (t.hash = h)) = some t)
    (hdies : t.revoked_at.isSome = true ∨ t.id = idOrName ∨ t.name = idOrName) :
    Dead h (revokeToken now idOrName tokens).1 := by
  refine ⟨t.revoke now idOrName, ?_, revoked_of_revoke hdies⟩
  have hhash : ((fun t : TokenRecord => decide (t.hash = h)) ∘ TokenRecord.revoke now idOrName) =
      fun t => decide (t.hash = h) := by
    funext t
    simp [revoke_hash]
  rw [revokeToken, List.find?_map, hhash, hfirst]
  rfl

/-- Where nothing is revoked, nothing changes. -/
theorem revokeToken_of_zero {now : Nat} {idOrName : String} {tokens : List TokenRecord}
    (hzero : (revokeToken now idOrName tokens).2 = 0) :
    (revokeToken now idOrName tokens).1 = tokens := by
  have hnone : ∀ t ∈ tokens, t.revoke now idOrName = t := by
    intro t ht
    exact if_neg (List.countP_eq_zero.mp hzero t ht)
  calc tokens.map (TokenRecord.revoke now idOrName) = tokens.map id := List.map_congr_left hnone
    _ = tokens := List.map_id _

theorem tokens_of_dead {d : Disk} (hdead : Dead h d.tokens) :
    ∃ tokens, d.content = .ok tokens ∧ Dead h tokens := by
  unfold Disk.tokens at hdead
  split at hdead
  · rename_i tokens hcontent
    exact ⟨tokens, hcontent, hdead⟩
  · obtain ⟨t, hfirst, -⟩ := hdead
    cases hfirst

/-- A revocation is written, unless it finds nothing to revoke. -/
theorem dead_revoke {now : Nat} {idOrName : String} {d : Disk} {tokens : List TokenRecord}
    (hcontent : d.content = .ok tokens) {t : TokenRecord}
    (hfirst : tokens.find? (fun t => decide (t.hash = h)) = some t)
    (hdies : t.revoked_at.isSome = true ∨ t.id = idOrName ∨ t.name = idOrName) :
    Dead h (d.edit sha256 now (.revoke idOrName)).tokens := by
  have hdead : Dead h (revokeToken now idOrName tokens).1 := dead_revokeToken hfirst hdies
  simp only [Disk.edit, hcontent]
  split
  · rename_i hzero
    rw [revokeToken_of_zero hzero] at hdead
    simpa [Disk.tokens, hcontent] using hdead
  · exact hdead

/-- What is dead stays dead. -/
theorem dead_edit {now : Nat} {d : Disk} {e : Edit} (hdead : Dead h d.tokens) (he : e.byCommand) :
    Dead h (d.edit sha256 now e).tokens := by
  obtain ⟨tokens, hcontent, htokens⟩ := tokens_of_dead hdead
  cases e with
  | create opts =>
      simp only [Disk.edit, hcontent, Except.bind]
      split
      · exact hdead
      · rename_i tokens' hnew
        exact dead_createToken htokens hnew
  | revoke idOrName =>
      obtain ⟨t, hfirst, hrevoked⟩ := htokens
      exact dead_revoke hcontent hfirst (Or.inl hrevoked)
  | put content => exact absurd he id

/-- Since a moment, every version of the file has the token dead. -/
structure DeadSince (h : String) (moment : Nat) (w : World) : Prop where
  disk : Dead h w.disk.tokens
  history : ∀ x ∈ w.history, Dead h x.2.tokens ∨ x.1 ≤ moment

theorem deadSince_step (sha256 : String → String) (protocolOpen : Bool) {moment : Nat}
    (hdead : DeadSince h moment w) {s : Step} (hs : s.byCommand) :
    DeadSince h moment (w.step sha256 protocolOpen s) := by
  have hlive : ∀ between : Option Edit, (∀ e, between = some e → e.byCommand) →
      Dead h (liveTokens sha256 w.now w.cache w.disk between).2.2.tokens := by
    intro between hcommand
    have hmeanwhile : Dead h (w.disk.meanwhile sha256 w.now between).tokens := by
      cases between with
      | none => exact hdead.disk
      | some e => exact dead_edit hdead.disk (hcommand e rfl)
    unfold liveTokens
    split
    · exact hmeanwhile
    · split
      · exact hdead.disk
      · split
        · exact hdead.disk
        · exact hmeanwhile
  have hnew : ∀ d : Disk, Dead h d.tokens → ∀ x ∈ w.history ++ [(w.now, d)],
      Dead h x.2.tokens ∨ x.1 ≤ moment := by
    intro d hd x hx
    rcases List.mem_append.mp hx with hx | hx
    · exact hdead.history x hx
    · rw [List.mem_singleton.mp hx]
      exact Or.inl hd
  cases s with
  | tick ms =>
      refine ⟨hdead.disk, ?_⟩
      intro x hx
      rcases List.mem_append.mp hx with hx | hx
      · exact hdead.history x hx
      · rw [List.mem_singleton.mp hx]
        exact Or.inl hdead.disk
  | edit e => exact ⟨dead_edit hdead.disk hs, hnew _ (dead_edit hdead.disk hs)⟩
  | ask req between =>
      have hcommand : ∀ e, between = some e → e.byCommand := by
        rintro e rfl
        exact hs
      simp only [World.step, World.ask]
      split
      · exact hdead
      · exact hdead
      · exact ⟨hlive between hcommand, hnew _ (hlive between hcommand)⟩

/-- A second after its revocation a token is worth nothing, and it stays so whatever is created or
revoked later: a request that carries it is weighed like one that carries none. -/
theorem revoked_refused (sha256 : String → String) (protocolOpen : Bool) (d : Disk)
    {before later : List Step} {idOrName presented : String} {tokens : List TokenRecord}
    {t : TokenRecord} {req : Asked} {between : Option Edit}
    (hspaced : Along (World.step sha256 protocolOpen) Spaced (.start d)
      (before ++ .edit (.revoke idOrName) :: later ++ [.ask req between]))
    (hcontent : (run (World.step sha256 protocolOpen) (.start d) before).disk.content = .ok tokens)
    (hfirst : tokens.find? (fun t => decide (t.hash = hashToken sha256 presented)) = some t)
    (hnamed : t.id = idOrName ∨ t.name = idOrName)
    (hcommand : ∀ s ∈ later ++ [.ask req between], s.byCommand)
    (hsecond : (run (World.step sha256 protocolOpen) (.start d) before).now + 1000 ≤
      (run (World.step sha256 protocolOpen) (.start d)
        (before ++ .edit (.revoke idOrName) :: later)).now)
    (hbearer : bearer req = .ok (some presented)) :
    ((run (World.step sha256 protocolOpen) (.start d)
      (before ++ .edit (.revoke idOrName) :: later)).ask sha256 protocolOpen req between).2 =
      weigh protocolOpen req (resolveContext req none) (requirement req.method req.url.toList) := by
  rw [List.append_assoc, along_append, List.cons_append, along_cons, along_append] at hspaced
  obtain ⟨hbefore, hedit, hlater, hask, -⟩ := hspaced
  rw [run_append, run_cons] at hsecond ⊢
  have hsound := invariant (I := World.Sound) (fun _ _ h hok => sound_step h hok) (sound_start d)
    hbefore
  generalize run (World.step sha256 protocolOpen) (.start d) before = w at *
  have hrevoked : DeadSince (hashToken sha256 presented) w.now
      (w.step sha256 protocolOpen (.edit (.revoke idOrName))) := by
    have hdisk : Dead (hashToken sha256 presented)
        (w.disk.edit sha256 w.now (.revoke idOrName)).tokens :=
      dead_revoke hcontent hfirst (Or.inr hnamed)
    refine ⟨hdisk, ?_⟩
    intro x hx
    rcases List.mem_append.mp hx with hx | hx
    · exact Or.inr (hsound.past x hx)
    · rw [List.mem_singleton.mp hx]
      exact Or.inl hdisk
  have hsound' := invariant (I := World.Sound) (fun _ _ h hok => sound_step h hok)
    (sound_step hsound hedit) hlater
  have hcommands : Along (World.step sha256 protocolOpen) (fun _ s => s.byCommand)
      (w.step sha256 protocolOpen (.edit (.revoke idOrName))) later :=
    along_of_mem (fun s hs => hcommand s (List.mem_append_left _ hs)) _
  have hdead := invariant (I := DeadSince (hashToken sha256 presented) w.now)
    (fun _ _ h hok => deadSince_step sha256 protocolOpen h hok) hrevoked hcommands
  generalize run (World.step sha256 protocolOpen) _ later = w' at *
  have hlast := deadSince_step sha256 protocolOpen hdead
    (hcommand (.ask req between) (by simp))
  rcases hlive : liveTokens sha256 w'.now w'.cache w'.disk between with ⟨live, cache, disk⟩
  simp only [World.step, World.ask, hbearer, hlive] at hlast ⊢
  obtain ⟨⟨x, hx, hrecent, hdata⟩, -⟩ := liveTokens_recent hsound' hask hlive
  have hx' : Dead (hashToken sha256 presented) x.2.tokens := by
    rcases hlast.history x hx with hd | hold
    · exact hd
    · omega
  rw [← hdata, lookup_of_dead hx']

/-- A token used, revoked, and tried again a second later. -/
theorem revoked_refused_posted :
    ((run (World.step Sample.digest false) (.start Sample.noFile)
      ([.tick 1000, .edit Sample.created, .tick 1000, .ask Sample.posted none] ++
        .edit (.revoke "ci") :: [.tick 1000])).ask Sample.digest false Sample.posted none).2 =
      .denied 401 "unauthorized" "a bearer token is required (FLEET_AUTH=tokens)" none := by
  have hspaced : Along (World.step Sample.digest false) Spaced (.start Sample.noFile)
      ([.tick 1000, .edit Sample.created, .tick 1000, .ask Sample.posted none] ++
        .edit (.revoke "ci") :: [.tick 1000] ++ [.ask Sample.posted none]) := by
    decide +kernel
  have hcontent : (run (World.step Sample.digest false) (.start Sample.noFile)
      [.tick 1000, .edit Sample.created, .tick 1000, .ask Sample.posted none]).disk.content =
        .ok [Sample.record] := by
    rfl
  have hfirst : [Sample.record].find? (fun t =>
      decide (t.hash = hashToken Sample.digest "fr_key")) = some Sample.record := by
    decide +kernel
  have hsecond : (run (World.step Sample.digest false) (.start Sample.noFile)
      [.tick 1000, .edit Sample.created, .tick 1000, .ask Sample.posted none]).now + 1000 ≤
      (run (World.step Sample.digest false) (.start Sample.noFile)
        ([.tick 1000, .edit Sample.created, .tick 1000, .ask Sample.posted none] ++
          .edit (.revoke "ci") :: [.tick 1000])).now := by
    decide +kernel
  have hbearer : bearer Sample.posted = .ok (some "fr_key") := by
    decide +kernel
  have hneed : requirement Sample.posted.method Sample.posted.url.toList = .run := by
    decide +kernel
  have hcommand : ∀ s ∈ [Step.tick 1000] ++ [.ask Sample.posted none], s.byCommand := by
    simp [Step.byCommand]
  rw [revoked_refused Sample.digest false Sample.noFile hspaced hcontent hfirst (Or.inr rfl)
    hcommand hsecond hbearer, hneed]
  rfl

end Revocation

end FleetRunner.Auth
