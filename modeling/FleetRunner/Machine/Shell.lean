import FleetRunner.Machine.Job

/-!
# Scripts the owner listed (`allowlist.ts`, `workloads/shell.ts`)

A shell job names a script by its hash. The hash is looked up in a file the
machine's owner keeps, the script is fetched, and an interpreter is started on
it in a fresh directory.

## Implementation notes

What the machine answers is a `World`: its environment, the allowlist file, the
artifact store, which program a command is, and what a started script came to.
What the script printed is given as it stands after the machine's secrets have
been struck from it.
-/

namespace FleetRunner.Machine

variable (js : Js)

/-! ## The allowlist -/

def isLineTerminator (c : Char) : Bool :=
  c = '\n' || c = '\r' || c = Char.ofNat 0x2028 || c = Char.ofNat 0x2029

/-- `line.replace(/#.*$/, "")` -/
def dropComment : List Char → List Char
  | [] => []
  | c :: rest =>
      if c = '#' ∧ rest.all (fun d => !isLineTerminator d) = true then [] else c :: dropComment rest

/-- `text.split(/\r?\n/)` -/
def splitLines : List Char → List (List Char)
  | [] => [[]]
  | '\r' :: '\n' :: rest => [] :: splitLines rest
  | '\n' :: rest => [] :: splitLines rest
  | c :: rest =>
      match splitLines rest with
      | [] => [[c]]
      | line :: more => (c :: line) :: more

def isHexDigit (c : Char) : Bool := ('0' ≤ c && c ≤ '9') || ('a' ≤ c && c ≤ 'f')

/-- `SHA256_RE` -/
def isSha256 (s : String) : Bool := decide (s.toList.length = 64) && s.toList.all isHexDigit

/-- The first word of a line, when it has one. -/
def firstWord (line : List Char) : Option String :=
  match (dropComment line).dropWhile isJsSpace with
  | [] => none
  | word => some (String.ofList (word.takeWhile fun c => !isJsSpace c))

structure Allowlist where
  allowed : List String
  rejected : List String

def parseAllowlist (text : String) : Allowlist :=
  (splitLines text.toList).foldl (fun list raw =>
    match firstWord raw with
    | none => list
    | some first =>
        if isSha256 (js.lower first) then
          if js.lower first ∈ list.allowed then list
          else { list with allowed := list.allowed ++ [js.lower first] }
        else { list with rejected := list.rejected ++ [jsSlice first 80] }) ⟨[], []⟩

/-- `sha.trim().toLowerCase()` -/
def normalSha (sha : String) : String := js.lower (jsTrim sha)

def isAllowlisted (sha : Json) (allowed : List String) : Bool :=
  match sha with
  | .str s => isSha256 (normalSha js s) && decide (normalSha js s ∈ allowed)
  | _ => false

/-! ## The environment a script gets -/

abbrev Env := List (String × String)

/-- `/^[A-Za-z_][A-Za-z0-9_]*$/` -/
def isEnvName (k : String) : Bool :=
  match k.toList with
  | [] => false
  | c :: rest =>
      (c.isAlpha || c = '_') && rest.all fun d => d.isAlphanum || d = '_'

/-- `String(v)` of the values a variable may have. -/
def scalarText : Json → Option String
  | .str s => some s
  | .num q => some (js.showNum q)
  | .bool b => some (boolText b)
  | _ => none

def baseEnv (env : Env) (workDir : String) (job : JobSpec) : Env :=
  [("PATH", (env.lookup "PATH").getD "/usr/bin:/bin:/usr/sbin:/sbin"), ("HOME", workDir),
    ("TMPDIR", workDir), ("PWD", workDir), ("LANG", (env.lookup "LANG").getD "en_US.UTF-8"),
    ("TERM", "dumb"), ("CI", "1"), ("FLEET_JOB_ID", job.job_id)]

/-- `k in base` -/
def inEnv (base : Env) (k : String) : Bool := (base.lookup k).isSome || (js.inherited k).isSome

/-- The job's own variables, but for those whose name is taken or is no name. -/
def jobEnv (base : Env) : Fields → Env
  | [] => []
  | (k, v) :: rest =>
      match scalarText js v with
      | some text =>
          if isEnvName k && !inEnv js base k then (k, text) :: jobEnv (base ++ [(k, text)]) rest
          else jobEnv base rest
      | none => jobEnv base rest

/-- The entries of `params.env`, when it is an object. -/
def envEntries (job : JobSpec) : Fields :=
  match optProp job.params "env" with
  | some (.obj fields) => fields
  | _ => []

def minimalEnv (env : Env) (workDir : String) (job : JobSpec) : Env :=
  baseEnv env workDir job ++ jobEnv js (baseEnv env workDir job) (envEntries job)

/-! ## Running it -/

/-- What a started script came to. -/
structure Outcome where
  code : Option Int
  signal : Option String
  captured : String
  timedOut : Bool
  cancelled : Bool
  spawnError : Option String
  elapsedS : Rat

/-- A command to start, and what is in the file it is started on. -/
structure Spawn where
  cmd : String
  args : List String
  cwd : String
  env : Env
  timeoutMs : Int
  script : Bytes

/-- The machine, as a shell job meets it. -/
structure World where
  env : Env
  allowlistFile : String
  /-- the text of the allowlist file, if it can be read -/
  allowlist : Option String
  artifact : String → Answer
  workDir : String
  /-- which program a command is -/
  program : String → String
  outcome : Spawn → Outcome
  /-- the hash the output was uploaded under -/
  uploaded : Option String

/-- The final row. -/
structure Row where
  ok : Bool
  error : Option String := none
  exit_code : Option Int := none
  elapsed_s : Option Rat := none
  artifacts : List String := []

inductive Effect where
  | fetch (sha : String)
  | spawn (s : Spawn)
  | post (row : Row)
  | throws

def refuse (reason : String) : List Effect := [.post { ok := false, error := some reason }]

/-- `stringParam(job.params, "sha256") ?? job.model?.sha256`, when it is truthy. -/
def requested (job : JobSpec) : Option Json :=
  (((stringParam job.params "sha256").map Json.str).or (optProp job.model "sha256")).filter Json.truthy

def interpreterOf (job : JobSpec) : String :=
  (stringParam job.params "interpreter").getD "/bin/sh"

def scriptPath (w : World) : String := w.workDir ++ "/script"

def commandOf (w : World) (job : JobSpec) (bytes : Bytes) : Spawn where
  cmd := interpreterOf job
  args := scriptPath w :: stringsParam job.params "args"
  cwd := w.workDir
  env := minimalEnv js w.env w.workDir job
  timeoutMs := intParam js job.params "timeout_s" 3600 * 1000
  script := bytes

def hasNul (s : String) : Bool := s.toList.any fun c => decide (c.toNat = 0)

/-- `spawn` throws on an empty command and on text with a zero in it. -/
def spawnable (s : Spawn) : Bool :=
  decide (s.cmd ≠ "") && !hasNul s.cmd && s.args.all (fun a => !hasNul a) &&
    s.env.all fun p => !hasNul p.1 && !hasNul p.2

def lastLine (s : String) : String :=
  match ((splitLines s.toList).map fun l => jsTrim (String.ofList l)).filter (· ≠ "") |>.getLast? with
  | some line => jsSlice line 300
  | none => ""

/-- The row a run that was started ends with. -/
def rowOf (s : Spawn) (o : Outcome) (logRef : Option String) : Row :=
  let row : Row := ⟨false, none, o.code, some o.elapsedS, logRef.toList⟩
  match o.spawnError with
  | some e =>
      { row with error := some ("could not run " ++ s.cmd ++ ": " ++ e), exit_code := none }
  | none =>
      if o.timedOut then
        { row with error := some ("script timed out after " ++
            js.showNum (mathRound (s.timeoutMs / 1000 : Rat)) ++ "s") }
      else if o.cancelled then { row with error := some "cancelled" }
      else if o.code = some 0 then { row with ok := true }
      else
        let how := match o.code with
          | some code => js.showNum code
          | none => "on signal " ++ o.signal.getD "?"
        let last := if lastLine o.captured = "" then "no output" else lastLine o.captured
        { row with error := some ("script exited " ++ how ++ ": " ++ last) }

/-- From the gate on: the owner vouched for the hash. -/
def runListed (sha256 : Bytes → String) (w : World) (job : JobSpec) (sha : String) : List Effect :=
  .fetch sha ::
    match fetchArtifact sha256 sha (w.artifact sha) with
    | .error e => refuse ("fetching the script failed: " ++ e)
    | .ok bytes =>
        let s := commandOf js w job bytes
        if spawnable s then [.spawn s, .post (rowOf js s (w.outcome s) w.uploaded)] else [.throws]

def runShell (sha256 : Bytes → String) (w : World) (job : JobSpec) : List Effect :=
  match requested job with
  | none => refuse "shell needs params.sha256: the sha256 of an allowlisted script artifact"
  | some named =>
      match w.allowlist with
      | none => refuse ("shell is refused: this machine has no allowlist at " ++ w.allowlistFile)
      | some text =>
          let list := parseAllowlist js text
          if list.allowed = [] then
            refuse ("shell is refused: the allowlist at " ++ w.allowlistFile ++
              " lists no script hashes")
          else
            match named with
            | .str s =>
                if isAllowlisted js named list.allowed then runListed js sha256 w job (normalSha js s)
                else
                  let shape := if isSha256 (normalSha js s) then "" else " (which is not a sha256)"
                  let note := if list.rejected = [] then "" else
                    ". Note that " ++ toString list.rejected.length ++
                      " line(s) in that file are not sha256s and were ignored"
                  refuse ("shell is refused: " ++ jsSlice s 80 ++ shape ++ " is not in " ++
                    w.allowlistFile ++ note)
            -- a hash that is no string is no entry, and has no `trim`
            | _ => [.throws]

/-! ## What a job decides -/

/-- Names from which the machine's loader, or the interpreter, takes in code. -/
abbrev CodeNames := String → Bool

/-- The commands a run starts. -/
def spawned (effects : List Effect) : List Spawn :=
  effects.filterMap fun e =>
    match e with
    | .spawn s => some s
    | _ => none

def fetched (effects : List Effect) : List String :=
  effects.filterMap fun e =>
    match e with
    | .fetch sha => some sha
    | _ => none

/-- The hash the job asks for, when the owner listed it. -/
def listed (w : World) (job : JobSpec) : Option String :=
  match requested job, w.allowlist with
  | some (.str s), some text =>
      if isAllowlisted js (.str s) (parseAllowlist js text).allowed then some (normalSha js s) else none
  | _, _ => none

/-- `sha` is the hash the job asks for, and the owner's file lists it. -/
def Listed (w : World) (job : JobSpec) (sha : String) : Prop :=
  ∃ named text, requested job = some (.str named) ∧ sha = normalSha js named ∧
    w.allowlist = some text ∧ sha ∈ (parseAllowlist js text).allowed

/-- Nothing but the listed script runs: what is fetched was listed, the bytes have that hash,
the program and the code it takes in are the agent's own choice, and of the agent's environment
the script sees two variables. -/
structure Confined (sha256 : Bytes → String) (loads : CodeNames) (w : World) (job : JobSpec) :
    Prop where
  fetched : ∀ sha ∈ fetched (runShell js sha256 w job), Listed js w job sha
  script : ∀ s ∈ spawned (runShell js sha256 w job), Listed js w job (sha256 s.script)
  program : ∀ s ∈ spawned (runShell js sha256 w job), w.program s.cmd = w.program "/bin/sh" ∧
    s.args.head? = some (scriptPath w)
  code : ∀ s ∈ spawned (runShell js sha256 w job),
    s.env.filter (fun p => loads p.1) =
      (baseEnv w.env w.workDir job).filter fun p => loads p.1
  secret : ∀ s ∈ spawned (runShell js sha256 w job), ∀ env : Env,
    env.lookup "PATH" = w.env.lookup "PATH" → env.lookup "LANG" = w.env.lookup "LANG" →
      s.env = minimalEnv js env w.workDir job

/-- The job is let through to the point where a command is started. -/
def Starts (sha256 : Bytes → String) (w : World) (job : JobSpec) : Prop :=
  ∃ sha bytes, listed js w job = some sha ∧ fetchArtifact sha256 sha (w.artifact sha) = .ok bytes ∧
    spawnable (commandOf js w job bytes) = true

/-- The job names no other interpreter, and sets no variable code is taken from. -/
def Plain (loads : CodeNames) (w : World) (job : JobSpec) : Prop :=
  w.program (interpreterOf job) = w.program "/bin/sh" ∧
    ∀ p ∈ jobEnv js (baseEnv w.env w.workDir job) (envEntries job), loads p.1 = false

section Runs

variable {js : Js} {sha256 : Bytes → String} {w : World} {job : JobSpec}

theorem listed_spec {sha : String} (h : listed js w job = some sha) : Listed js w job sha := by
  unfold listed at h
  split at h
  · rename_i named text hreq htext
    split at h
    · rename_i hmem
      obtain rfl := Option.some.inj h
      simp only [isAllowlisted, Bool.and_eq_true, decide_eq_true_eq] at hmem
      exact ⟨named, text, hreq, rfl, htext, hmem.2⟩
    · cases h
  · cases h

theorem runShell_of_listed (sha256 : Bytes → String) {sha : String} (h : listed js w job = some sha) :
    runShell js sha256 w job = runListed js sha256 w job sha := by
  unfold listed at h
  split at h
  · rename_i s text hreq hlist
    split at h
    · rename_i hok
      obtain rfl := Option.some.inj h
      have hne : (parseAllowlist js text).allowed ≠ [] := by
        intro hempty
        simp [isAllowlisted, hempty] at hok
      simp only [runShell, hreq, hlist, hne, if_false, hok, if_true]
    · cases h
  · cases h

/-- A job whose hash is not listed fetches nothing and starts nothing. -/
theorem silent_of_unlisted (sha256 : Bytes → String) (h : listed js w job = none) :
    fetched (runShell js sha256 w job) = [] ∧ spawned (runShell js sha256 w job) = [] := by
  unfold runShell
  split
  · exact ⟨rfl, rfl⟩
  · rename_i named hreq
    split
    · exact ⟨rfl, rfl⟩
    · rename_i text hlist
      dsimp only
      split
      · exact ⟨rfl, rfl⟩
      · split
        · rename_i s
          have hno : isAllowlisted js (.str s) (parseAllowlist js text).allowed = false := by
            simpa [listed, hreq, hlist] using h
          rw [hno]
          exact ⟨rfl, rfl⟩
        · exact ⟨rfl, rfl⟩

/-- What a listed job starts: at most one command, on the bytes that were fetched. -/
theorem mem_spawned_runListed {sha : String} {s : Spawn}
    (h : s ∈ spawned (runListed js sha256 w job sha)) :
    ∃ bytes, fetchArtifact sha256 sha (w.artifact sha) = .ok bytes ∧
      spawnable (commandOf js w job bytes) = true ∧ s = commandOf js w job bytes := by
  unfold runListed at h
  split at h
  · simp [spawned, refuse] at h
  · rename_i bytes hbytes
    dsimp only at h
    split at h
    · rename_i hok
      exact ⟨bytes, hbytes, hok, by simpa [spawned] using h⟩
    · simp [spawned] at h

theorem fetched_runListed (sha : String) :
    fetched (runListed js sha256 w job sha) = [sha] := by
  unfold runListed
  split
  · rfl
  · dsimp only
    split <;> rfl

theorem mem_spawned_of_starts {sha : String} {bytes : Bytes} (hlisted : listed js w job = some sha)
    (hbytes : fetchArtifact sha256 sha (w.artifact sha) = .ok bytes)
    (hok : spawnable (commandOf js w job bytes) = true) :
    commandOf js w job bytes ∈ spawned (runShell js sha256 w job) := by
  rw [runShell_of_listed sha256 hlisted, runListed, hbytes]
  simp [hok, spawned]

/-- The environment depends on the agent's through two variables. -/
theorem minimalEnv_congr {env env' : Env} (workDir : String)
    (hpath : env.lookup "PATH" = env'.lookup "PATH") (hlang : env.lookup "LANG" = env'.lookup "LANG") :
    minimalEnv js env workDir job = minimalEnv js env' workDir job := by
  have hbase : baseEnv env workDir job = baseEnv env' workDir job := by
    simp only [baseEnv, hpath, hlang]
  simp only [minimalEnv, hbase]

/-- The code an environment brings in is the agent's own where the job sets no such name. -/
theorem minimalEnv_filter_iff (loads : CodeNames) (env : Env) (workDir : String) :
    (minimalEnv js env workDir job).filter (fun p => loads p.1) =
        (baseEnv env workDir job).filter (fun p => loads p.1) ↔
      ∀ p ∈ jobEnv js (baseEnv env workDir job) (envEntries job), loads p.1 = false := by
  rw [minimalEnv, List.filter_append, List.append_right_eq_self, List.filter_eq_nil_iff]
  simp

end Runs

/-- A shell job is confined to what the owner listed exactly when, if it gets as far as starting a
command, it names no other interpreter and sets no variable that code is taken from. -/
theorem shell_confined_iff (sha256 : Bytes → String) (loads : CodeNames) (w : World)
    (job : JobSpec) :
    Confined js sha256 loads w job ↔ (Starts js sha256 w job → Plain js loads w job) := by
  constructor
  · rintro h ⟨sha, bytes, hlisted, hbytes, hok⟩
    have hs := mem_spawned_of_starts hlisted hbytes hok
    refine ⟨(h.program _ hs).1, ?_⟩
    exact (minimalEnv_filter_iff loads w.env w.workDir).mp (h.code _ hs)
  · intro h
    cases hlisted : listed js w job with
    | none =>
        obtain ⟨hfetched, hspawned⟩ := silent_of_unlisted sha256 hlisted
        constructor <;> simp [hfetched, hspawned]
    | some sha =>
        have hrun := runShell_of_listed sha256 hlisted
        have hcommand : ∀ s ∈ spawned (runShell js sha256 w job), ∃ bytes,
            sha256 bytes = sha ∧ s = commandOf js w job bytes ∧ Plain js loads w job := by
          intro s hs
          rw [hrun] at hs
          obtain ⟨bytes, hbytes, hok, rfl⟩ := mem_spawned_runListed hs
          exact ⟨bytes, fetchArtifact_ok hbytes, rfl, h ⟨sha, bytes, hlisted, hbytes, hok⟩⟩
        constructor
        · intro sha' hsha'
          rw [hrun, fetched_runListed] at hsha'
          rw [List.mem_singleton.mp hsha']
          exact listed_spec hlisted
        · intro s hs
          obtain ⟨bytes, hsha, rfl, -⟩ := hcommand s hs
          have hlisted : Listed js w job (sha256 bytes) := hsha ▸ listed_spec hlisted
          exact hlisted
        · intro s hs
          obtain ⟨bytes, -, rfl, hplain⟩ := hcommand s hs
          exact ⟨hplain.1, rfl⟩
        · intro s hs
          obtain ⟨bytes, -, rfl, hplain⟩ := hcommand s hs
          exact (minimalEnv_filter_iff loads w.env w.workDir).mpr hplain.2
        · intro s hs env hpath hlang
          obtain ⟨bytes, -, rfl, -⟩ := hcommand s hs
          exact minimalEnv_congr w.workDir hpath.symm hlang.symm

/-- The hash of the one script the owner listed. -/
def nightly : String := String.ofList (List.replicate 64 'a')

def oneScript : World where
  env := [("PATH", "/usr/bin:/bin"), ("FLEET_TOKEN", "fr_secret")]
  allowlistFile := "/etc/fleet/shell-allowlist.txt"
  allowlist := some (nightly ++ "  # the nightly clean-up")
  artifact _ := .body []
  workDir := "/tmp/fleet-shell-j1"
  program := id
  outcome _ := ⟨some 0, none, "", false, false, none, 0⟩
  uploaded := none

/-- A job for that script that asks for another interpreter. -/
def throughFind : JobSpec where
  job_id := "j1"
  workload := "shell"
  model := none
  params := some (.obj [("sha256", .str nightly), ("interpreter", .str "/usr/bin/find"),
    ("args", .arr [.str "-exec", .str "rm", .str "-rf", .str "/home", .str ";"])])

/-- The interpreter is the job's choice, so a listed hash lets any program be started. -/
theorem shell_not_confined : ¬∀ (sha256 : Bytes → String) (loads : CodeNames) (w : World)
    (job : JobSpec), Confined .plain sha256 loads w job := by
  intro h
  have hlisted : listed .plain oneScript throughFind = some nightly := by decide +kernel
  have hok : spawnable (commandOf .plain oneScript throughFind []) = true := by decide
  have hs : commandOf .plain oneScript throughFind [] ∈
      spawned (runShell .plain (fun _ => nightly) oneScript throughFind) :=
    mem_spawned_of_starts hlisted (by simp [fetchArtifact, oneScript]) hok
  have hprogram := ((h (fun _ => nightly) (fun _ => false) oneScript throughFind).program _ hs).1
  have hcmd : interpreterOf throughFind = "/usr/bin/find" := by decide
  simp [commandOf, oneScript, hcmd] at hprogram

end FleetRunner.Machine
