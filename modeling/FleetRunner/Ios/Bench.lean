import FleetRunner.Library.Fallible
import FleetRunner.Library.Postings
import Mathlib.Algebra.Order.Ring.Rat
import Mathlib.Data.Rat.Defs

/-!
# The benchmark jobs (`FleetAgent.swift`, `BenchSession.swift`)

A benchmark opens a session, warms it up, measures a number of iterations with a row
for each, and ends with a final row of their means. The counts come from the job as they
are: they go into ranges, into products and into conversions that trap.

A row whose numbers are not all finite cannot be encoded; it is dropped without a word.

## Implementation notes

Integers are exact, and the operations that Swift checks trap where the result does not
fit. Finite numbers are exact as well; a mean of nothing is not finite. What a backend
gives, what the device reports, and when a lease is found gone are fields of a record.
-/

namespace FleetRunner.Ios

open Library

/-! ## Numbers -/

def intMin : Int := -2 ^ 63
def intMax : Int := 2 ^ 63 - 1
def int32Min : Int := -2 ^ 31
def int32Max : Int := 2 ^ 31 - 1

/-- The result of an operation on `Int`. -/
def int (i : Int) : Except Stop Int := if intMin ≤ i ∧ i ≤ intMax then .ok i else .error .trap

/-- `Int32(i)` -/
def int32 (i : Int) : Except Stop Int :=
  if int32Min ≤ i ∧ i ≤ int32Max then .ok i else .error .trap

/-- The length of `low..<high`. -/
def range (low high : Int) : Except Stop Nat :=
  if low ≤ high then .ok (high - low).toNat else .error .trap

/-- The length of `low...high`. A closed range may not be empty. -/
def closedRange (low high : Int) : Except Stop Nat :=
  if low ≤ high then .ok (high - low + 1).toNat else .error .trap

/-- A `Double`. -/
inductive Num where
  | finite (q : Rat)
  | notFinite
  deriving DecidableEq

/-- `xs.reduce(0, +) / Double(xs.count)` -/
def mean (xs : List Rat) : Num :=
  if xs.length = 0 then .notFinite else .finite (xs.sum / xs.length)

/-! ## Rows -/

/-- The numbers of a row. -/
structure Metrics where
  loadMs : Option Int := none
  prefillTokS : Option Num := none
  decodeTokS : Option Num := none
  ttftMs : Option Num := none
  peakMemMb : Option Int := none
  memMethod : Option String := none
  thermal : Option (List String) := none
  batteryStartPct : Option Int := none
  batteryEndPct : Option Int := none
  top1Pct : Option Num := none
  top5Pct : Option Num := none
  p50Ms : Option Num := none
  p95Ms : Option Num := none
  imagesPerS : Option Num := none

/-- Those that may not be finite. -/
def Metrics.numbers (m : Metrics) : List (Option Num) :=
  [m.prefillTokS, m.decodeTokS, m.ttftMs, m.top1Pct, m.top5Pct, m.p50Ms, m.p95Ms, m.imagesPerS]

/-- A row that is posted. -/
structure ResultPost where
  kind : String := "result"
  jobId : String
  deviceId : String
  iter : Int
  final : Bool := false
  ok : Option Bool := none
  device : Option String := none
  metrics : Option Metrics := none
  error : Option String := none
  artifacts : Option (List String) := none

/-- All numbers of the row are finite. -/
def ResultPost.Finite (row : ResultPost) : Prop :=
  ∀ m, row.metrics = some m → some Num.notFinite ∉ m.numbers

/-- The encoder takes the row. -/
def ResultPost.encodes (row : ResultPost) : Bool :=
  row.metrics.all fun m => decide (some Num.notFinite ∉ m.numbers)

/-- `try? await client.postResult(row)`, where the request itself succeeds. -/
def postResult (row : ResultPost) : Posting ResultPost Unit :=
  ⟨if row.encodes then [row] else [], .ok ()⟩

/-- The model a job names. -/
structure ModelRef where
  name : String
  format : String
  sha256 : String

/-- The parameters of a benchmark. -/
structure BenchParams where
  promptTokens : Option Int
  genTokens : Option Int
  warmupIters : Option Int
  measureIters : Option Int
  nThreads : Option Int
  inputSha256 : Option String
  maxItems : Option Int
  computeUnits : Option String

/-- A job as the app decodes it. -/
structure JobSpec where
  jobId : String
  model : Option ModelRef
  backend : Option String
  params : Option BenchParams

/-- What the device reports, and whether the job's lease is found gone at an iteration. -/
structure Device where
  deviceId : String
  descriptor : String
  batteryStart : Int
  batteryEnd : Int
  /-- Behind an iteration. -/
  thermal : Nat → String
  physFootprintMb : Nat → Int
  endFootprintMb : Int
  isCancelled : Nat → Bool
  activeProcessorCount : Nat

/-! ## Sessions -/

/-- What an iteration measured. -/
structure IterResult where
  prefillTokS : Rat
  decodeTokS : Rat
  ttftMs : Rat

/-- The milliseconds of a synthetic iteration. -/
structure Times where
  prefillMs : Nat
  firstTokenMs : Nat
  restMs : Nat

def roundsPerToken : Int := 1000

/-- The loop over the rounds of these tokens. -/
def hashTokens (tokens : Int) : Except Stop Unit := do
  let rounds ← int (tokens * roundsPerToken)
  let _ ← range 0 rounds
  return ()

/-- An iteration, which stops the app where a product or a range does. -/
def runIteration (promptTokens genTokens : Int) (times : Times) : Except Stop IterResult := do
  hashTokens promptTokens
  hashTokens 1
  let rest ← int (genTokens - 1)
  hashTokens (max rest 0)
  let decodeMs := times.firstTokenMs + times.restMs
  return ⟨promptTokens * 1000 / max (times.prefillMs : Rat) 1,
    genTokens * 1000 / max (decodeMs : Rat) 1, times.prefillMs + times.firstTokenMs⟩

/-- What a call of `bench` meets. -/
inductive Decode where
  | prefillFailed
  | failed
  | done (prefillMs decodeMs ttftMs : Rat)

/-- The loops of `bench`: over the prompt's tokens before the prefill, and over the generated ones
behind it. -/
def bench (pp tg : Int) (d : Decode) : Except Stop (Option (Rat × Rat × Rat)) := do
  let _ ← range 0 pp
  match d with
  | .prefillFailed => return none
  | .failed =>
    let _ ← range 0 tg
    return none
  | .done prefillMs decodeMs ttftMs =>
    let _ ← range 0 tg
    return some (prefillMs, decodeMs, ttftMs)

/-- `measure()` of the llama session. -/
def measureLlama (pp tg : Int) (d : Decode) : Except Stop (Option IterResult) := do
  let b ← bench pp tg d
  return b.map fun (prefillMs, decodeMs, ttftMs) =>
    ⟨pp * 1000 / max prefillMs 1, tg * 1000 / max decodeMs 1, ttftMs⟩

/-- A warm-up: so many runs whose results are not looked at. -/
def warmUp {α : Type} (run : Nat → Except Stop α) : Nat → Nat → Except Stop Unit
  | 0, _ => .ok ()
  | left + 1, i => do
    let _ ← run i
    warmUp run left (i + 1)

/-! ## Iterations -/

/-- How the iterations end. -/
inductive LoopEnd where
  | done
  | cancelled
  | failed
  deriving DecidableEq

/-- What the loop has measured so far. -/
structure Measured where
  iters : List IterResult
  thermals : List String
  ending : LoopEnd

section Iterations

variable (job : JobSpec) (device : Device)

/-- The row of an iteration. -/
def iterRow (i : Nat) (r : IterResult) : ResultPost :=
  { jobId := job.jobId, deviceId := device.deviceId, iter := i,
    metrics := some
      { prefillTokS := some (.finite r.prefillTokS), decodeTokS := some (.finite r.decodeTokS),
        ttftMs := some (.finite r.ttftMs), peakMemMb := some (device.physFootprintMb i),
        memMethod := some "phys_footprint", thermal := some [device.thermal i] } }

/-- The loop over the iterations, from `i` on. -/
def iterations (measure : Nat → Except Stop (Option IterResult)) :
    Nat → Nat → List IterResult → List String → Posting ResultPost Measured
  | 0, _, iters, thermals => pure ⟨iters, thermals, .done⟩
  | left + 1, i, iters, thermals =>
    if device.isCancelled i then pure ⟨iters, thermals, .cancelled⟩
    else do
      match ← Posting.ofExcept (measure i) with
      | none => pure ⟨iters, thermals, .failed⟩
      | some r => do
        postResult (iterRow job device i r)
        iterations measure left (i + 1) (iters ++ [r]) (thermals ++ [device.thermal i])

/-- The row of a job that cannot run. -/
def failRow (message : String) : ResultPost :=
  { jobId := job.jobId, deviceId := device.deviceId, iter := 0, final := true, ok := some false,
    device := some device.descriptor, error := some message }

/-- The last row. -/
def summaryRow (loadMs : Int) (out : Measured) : ResultPost :=
  { jobId := job.jobId, deviceId := device.deviceId, iter := 0, final := true, ok := some true,
    device := some device.descriptor,
    metrics := some
      { loadMs := some loadMs, prefillTokS := some (mean (out.iters.map IterResult.prefillTokS)),
        decodeTokS := some (mean (out.iters.map IterResult.decodeTokS)),
        ttftMs := some (mean (out.iters.map IterResult.ttftMs)),
        peakMemMb := some device.endFootprintMb, memMethod := some "phys_footprint",
        thermal := some out.thermals, batteryStartPct := some device.batteryStart,
        batteryEndPct := some device.batteryEnd } }

end Iterations

/-! ## The jobs -/

/-- What the synthetic backend meets: a measured iteration without times has failed. -/
structure Synthetic where
  loadMs : Int
  warm : Nat → Times
  measured : Nat → Option Times

/-- What the llama backend meets. -/
structure Llama where
  /-- The binary has the framework. -/
  linked : Bool
  baseURL : Option String
  download : Except String Unit
  load : Option Int
  warm : Nat → Decode
  measured : Nat → Decode

/-- `session.measure()` of the synthetic session. -/
def measureSynthetic (synthetic : Synthetic) (pp tg : Int) (i : Nat) :
    Except Stop (Option IterResult) :=
  match synthetic.measured i with
  | none => do
    let _ ← runIteration pp tg ⟨0, 0, 0⟩
    return none
  | some times => do
    let r ← runIteration pp tg times
    return some r

section Jobs

variable (job : JobSpec) (device : Device)

/-- The session of the synthetic backend and its iterations. -/
def syntheticTask (synthetic : Synthetic) (pp tg warmups measures : Int) :
    Posting ResultPost Measured := do
  let n ← Posting.ofExcept (range 0 warmups)
  Posting.ofExcept (warmUp (fun i => runIteration pp tg (synthetic.warm i)) n 0)
  let count ← Posting.ofExcept (closedRange 1 measures)
  iterations job device (measureSynthetic synthetic pp tg) count 1 [] []

/-- The warm-up and the iterations of a llama session. -/
def llamaIterations (llama : Llama) (pp tg warmups measures : Int) :
    Posting ResultPost Measured := do
  let n ← Posting.ofExcept (range 0 warmups)
  Posting.ofExcept (warmUp (fun i => bench pp tg (llama.warm i)) n 0)
  let count ← Posting.ofExcept (closedRange 1 measures)
  iterations job device (fun i => measureLlama pp tg (llama.measured i)) count 1 [] []

/-- The session of the llama backend and its iterations; a load that fails is thrown, and so are a
lease that is gone and an iteration that fails. -/
def llamaTask (llama : Llama) (pp tg warmups measures : Int) :
    Posting ResultPost (Int × Measured) := do
  let sum ← Posting.ofExcept (int (pp + tg))
  let context ← Posting.ofExcept (int (sum + 8))
  let _nCtx ← Posting.ofExcept (int32 (max 1024 context))
  let _nThreads ← Posting.ofExcept (int32
    ((job.params.bind BenchParams.nThreads).getD (min device.activeProcessorCount 6)))
  let pp ← Posting.ofExcept (int32 pp)
  let tg ← Posting.ofExcept (int32 tg)
  match llama.load with
  | none => Posting.stop (.thrown "llama.cpp failed to load model")
  | some loadMs => do
    let out ← llamaIterations job device llama pp tg warmups measures
    match out.ending with
    | .cancelled => Posting.stop (.thrown "cancelled")
    | .failed => Posting.stop (.thrown "llama.cpp decode failed")
    | .done => pure (loadMs, out)

/-- The benchmark of a model. -/
def runLlamaBenchmark (llama : Llama) (pp tg warmups measures : Int) : Posting ResultPost Unit :=
  let fail message := postResult (failRow job device message)
  if !llama.linked then
    fail "llama.cpp not built into this binary (llama.xcframework missing at build time)"
  else if !job.model.any (fun ref => decide (ref.format = "gguf")) then
    fail "llama.cpp job needs a gguf model ref"
  else if llama.baseURL.isNone then fail "agent started without a collector URL"
  else
    match llama.download with
    | .error message => fail s!"artifact download failed: {message}"
    | .ok () =>
      Posting.catching (do
        let (loadMs, out) ← llamaTask job device llama pp tg warmups measures
        postResult (summaryRow job device loadMs out)) fail

/-- The counts as the benchmark takes them. -/
def promptTokens : Int := (job.params.bind BenchParams.promptTokens).getD 512
def genTokens : Int := (job.params.bind BenchParams.genTokens).getD 128
def warmupIters : Int := (job.params.bind BenchParams.warmupIters).getD 1
def measureIters : Int := (job.params.bind BenchParams.measureIters).getD 3

/-- The benchmark, by its backend. -/
def runBenchmark (synthetic : Synthetic) (llama : Llama) : Posting ResultPost Unit :=
  let pp := promptTokens job
  let tg := genTokens job
  let warmups := warmupIters job
  let measures := measureIters job
  if job.backend = some "llama.cpp" then
    runLlamaBenchmark job device llama pp tg warmups measures
  else if ¬ (job.backend = none ∨ job.backend = some "synthetic") then
    let backend := job.backend.getD "?"
    postResult (failRow job device s!"backend '{backend}' not supported on iOS")
  else do
    let out ← syntheticTask job device synthetic pp tg warmups measures
    if out.ending = .cancelled then postResult (failRow job device "cancelled")
    else postResult (summaryRow job device synthetic.loadMs out)

end Jobs

/-! ## Final rows -/

/-- The task returns, and of the rows that it posts one is final, with finite numbers. -/
def EndsOnce (t : Posting ResultPost Unit) : Prop :=
  t.result = .ok () ∧ ∃ row, t.posts.filter ResultPost.final = [row] ∧ row.Finite

/-- A row that is not final. -/
def Passing (row : ResultPost) : Prop := row.final = false

theorem finite_iff {row : ResultPost} : row.Finite ↔ row.encodes = true := by
  unfold ResultPost.Finite ResultPost.encodes
  cases row.metrics with
  | none => simp
  | some m => simp

theorem posts_postResult {row : ResultPost} {P : ResultPost → Prop} (h : P row) :
    (postResult row).Posts P := by
  unfold Posting.Posts postResult
  split
  · exact List.forall_mem_singleton.mpr h
  · exact List.forall_mem_nil P

theorem filter_final {rows : List ResultPost} (h : ∀ row ∈ rows, Passing row) :
    rows.filter ResultPost.final = [] :=
  List.filter_eq_nil_iff.mpr fun row hrow => by
    rw [h row hrow]
    exact Bool.false_ne_true

/-- A final row behind rows that are not ends a task exactly where it can be encoded. -/
theorem endsOnce_post {rows : List ResultPost} (hrows : ∀ row ∈ rows, Passing row)
    {row : ResultPost} (hfinal : row.final = true) :
    EndsOnce ⟨rows ++ (postResult row).posts, .ok ()⟩ ↔ row.encodes = true := by
  unfold EndsOnce postResult
  rw [List.filter_append, filter_final hrows, List.nil_append]
  cases hencodes : row.encodes with
  | true =>
    rw [if_pos rfl, List.filter_cons_of_pos hfinal]
    exact iff_of_true ⟨rfl, row, rfl, finite_iff.mpr hencodes⟩ rfl
  | false =>
    refine iff_of_false ?_ Bool.false_ne_true
    rintro ⟨-, row', hrow', -⟩
    cases hrow'

theorem endsOnce_postResult {row : ResultPost} (hfinal : row.final = true) :
    EndsOnce (postResult row) ↔ row.encodes = true :=
  endsOnce_post (List.forall_mem_nil Passing) hfinal

theorem not_endsOnce_of_traps {t : Posting ResultPost Unit} (h : t.Traps) : ¬ EndsOnce t := by
  rintro ⟨hresult, -⟩
  rw [h] at hresult
  cases hresult

/-- A task whose rows are not final, with a final row behind it. -/
theorem endsOnce_bind {α : Type} {t : Posting ResultPost α} (hposts : t.Posts Passing)
    (htraps : ∀ message, t.result ≠ .error (.thrown message)) {row : α → ResultPost}
    (hfinal : ∀ a, (row a).final = true) :
    EndsOnce (t >>= fun a => postResult (row a)) ↔
      ∃ a, t.result = .ok a ∧ (row a).encodes = true := by
  cases hresult : t.result with
  | ok a =>
    rw [Posting.bind_ok hresult]
    change EndsOnce ⟨t.posts ++ (postResult (row a)).posts, .ok ()⟩ ↔ _
    rw [endsOnce_post hposts (hfinal a)]
    simp
  | error s =>
    cases s with
    | thrown message => exact absurd hresult (htraps message)
    | trap =>
      refine iff_of_false (not_endsOnce_of_traps ?_) (by simp)
      rw [Posting.Traps, Posting.bind_error hresult]

/-- The same where what is thrown is made a final row. -/
theorem endsOnce_catching {α : Type} {t : Posting ResultPost α} (hposts : t.Posts Passing)
    {row : α → ResultPost} {failed : String → ResultPost} (hfinal : ∀ a, (row a).final = true)
    (hfailed : ∀ message, (failed message).final = true ∧ (failed message).encodes = true) :
    EndsOnce (Posting.catching (t >>= fun a => postResult (row a)) fun m => postResult (failed m)) ↔
      ¬ t.Traps ∧ ∀ a, t.result = .ok a → (row a).encodes = true := by
  unfold Posting.Traps
  cases hresult : t.result with
  | ok a =>
    rw [Posting.bind_ok hresult]
    change EndsOnce ⟨t.posts ++ (postResult (row a)).posts, .ok ()⟩ ↔ _
    rw [endsOnce_post hposts (hfinal a)]
    simp
  | error s =>
    rw [Posting.bind_error hresult]
    cases s with
    | thrown message =>
      change EndsOnce ⟨t.posts ++ (postResult (failed message)).posts, .ok ()⟩ ↔ _
      rw [endsOnce_post hposts (hfailed message).1]
      simp [(hfailed message).2]
    | trap => exact iff_of_false (not_endsOnce_of_traps rfl) (by simp)

/-! ## Steps that trap -/

section Steps

theorem range_eq_ok {low high : Int} {n : Nat} :
    range low high = .ok n ↔ low ≤ high ∧ (high - low).toNat = n := by
  unfold range
  split
  · next h => simp [h]
  · next h => simp [h]

theorem closedRange_eq_ok {low high : Int} {n : Nat} :
    closedRange low high = .ok n ↔ low ≤ high ∧ (high - low + 1).toNat = n := by
  unfold closedRange
  split
  · next h => simp [h]
  · next h => simp [h]

theorem int32_eq_ok {i j : Int} : int32 i = .ok j ↔ (int32Min ≤ i ∧ i ≤ int32Max) ∧ i = j := by
  unfold int32
  split
  · next h => simp [h]
  · next h => simp [h]

theorem int_eq_ok {i j : Int} : int i = .ok j ↔ (intMin ≤ i ∧ i ≤ intMax) ∧ i = j := by
  unfold int
  split
  · next h => simp [h]
  · next h => simp [h]

/-- The step throws nothing: it gives a value or traps. -/
def Unthrown {α : Type} (x : Except Stop α) : Prop := ∀ message, x ≠ .error (.thrown message)

variable {α β : Type}

theorem Unthrown.bind {x : Except Stop α} {f : α → Except Stop β} (h : Unthrown x)
    (hf : ∀ a, Unthrown (f a)) : Unthrown (x >>= f) := by
  cases x with
  | error s => exact fun message hs => h message (congrArg Except.error (Except.error.inj hs))
  | ok a => exact hf a

theorem unthrown_ok (a : α) : Unthrown (.ok a : Except Stop α) := fun _ => nofun

theorem unthrown_int (i : Int) : Unthrown (int i) := by
  intro message
  unfold int
  split <;> simp

theorem unthrown_range (low high : Int) : Unthrown (range low high) := by
  intro message
  unfold range
  split <;> simp

theorem unthrown_closedRange (low high : Int) : Unthrown (closedRange low high) := by
  intro message
  unfold closedRange
  split <;> simp

/-- A warm-up goes through exactly where all its runs do. -/
theorem warmUp_eq_ok {run : Nat → Except Stop α} {n i : Nat} :
    warmUp run n i = .ok () ↔ ∀ k < n, ∃ a, run (i + k) = .ok a := by
  induction n generalizing i with
  | zero => simp [warmUp]
  | succ n ih =>
    rw [warmUp, bind_ok_iff]
    constructor
    · rintro ⟨a, ha, hrest⟩ k hk
      cases k with
      | zero => exact ⟨a, ha⟩
      | succ k =>
        obtain ⟨b, hb⟩ := ih.mp hrest k (by omega)
        exact ⟨b, by rw [← hb]; congr 1; omega⟩
    · intro h
      obtain ⟨a, ha⟩ := h 0 (Nat.succ_pos n)
      refine ⟨a, ha, ih.mpr fun k hk => ?_⟩
      obtain ⟨b, hb⟩ := h (k + 1) (by omega)
      exact ⟨b, by rw [← hb]; congr 1; omega⟩

theorem unthrown_warmUp {run : Nat → Except Stop α} (h : ∀ i, Unthrown (run i)) (n i : Nat) :
    Unthrown (warmUp run n i) := by
  induction n generalizing i with
  | zero => exact unthrown_ok ()
  | succ n ih => exact (h i).bind fun _ => ih (i + 1)

end Steps

/-! ## Iterations -/

section Iterations

variable {job : JobSpec} {device : Device} {measure : Nat → Except Stop (Option IterResult)}
  {left i : Nat} {iters : List IterResult} {thermals : List String} {out : Measured}

theorem passing_iterRow (i : Nat) (r : IterResult) : Passing (iterRow job device i r) := rfl

theorem iterations_posts :
    (iterations job device measure left i iters thermals).Posts Passing := by
  induction left generalizing i iters thermals with
  | zero => exact List.forall_mem_nil Passing
  | succ left ih =>
    rw [iterations]
    split
    · exact List.forall_mem_nil Passing
    · refine Posting.posts_bind (List.forall_mem_nil Passing) fun r => ?_
      cases r with
      | none => exact List.forall_mem_nil Passing
      | some r => exact Posting.posts_bind (posts_postResult (passing_iterRow i r)) fun _ => ih

theorem iterations_unthrown (h : ∀ i, Unthrown (measure i)) :
    (iterations job device measure left i iters thermals).Unthrown := by
  induction left generalizing i iters thermals with
  | zero => exact fun _ => nofun
  | succ left ih =>
    rw [iterations]
    split
    · exact fun _ => nofun
    · refine Posting.unthrown_bind (h i) fun r => ?_
      cases r with
      | none => exact fun _ => nofun
      | some r => exact Posting.unthrown_bind (fun _ => nofun) fun _ => ih

/-- An iteration that is not cut off: it is cancelled, it fails, or the loop goes on behind it. -/
theorem iterations_eq_ok :
    (iterations job device measure (left + 1) i iters thermals).result = .ok out ↔
      (device.isCancelled i = true ∧ ⟨iters, thermals, .cancelled⟩ = out) ∨
      (device.isCancelled i = false ∧ measure i = .ok none ∧ ⟨iters, thermals, .failed⟩ = out) ∨
      (device.isCancelled i = false ∧ ∃ r, measure i = .ok (some r) ∧
        (iterations job device measure left (i + 1) (iters ++ [r])
          (thermals ++ [device.thermal i])).result = .ok out) := by
  rw [iterations]
  cases hcancelled : device.isCancelled i with
  | true => simp
  | false =>
    rw [if_neg Bool.false_ne_true, Posting.bind_eq_ok]
    constructor
    · rintro ⟨r, hr, hrest⟩
      cases r with
      | none => exact .inr (.inl ⟨rfl, hr, Except.ok.inj hrest⟩)
      | some r =>
        obtain ⟨-, -, hrest⟩ := Posting.bind_eq_ok.mp hrest
        exact .inr (.inr ⟨rfl, r, hr, hrest⟩)
    · rintro (⟨h, -⟩ | ⟨-, hr, rfl⟩ | ⟨-, r, hr, hrest⟩)
      · cases h
      · exact ⟨none, hr, rfl⟩
      · exact ⟨some r, hr, Posting.bind_eq_ok.mpr ⟨(), rfl, hrest⟩⟩

/-- No iteration is lost, and all are there when the loop comes to its end. -/
theorem iterations_length
    (h : (iterations job device measure left i iters thermals).result = .ok out) :
    iters.length ≤ out.iters.length ∧
      (out.ending = .done → out.iters.length = iters.length + left) := by
  induction left generalizing i iters thermals with
  | zero =>
    obtain rfl := Except.ok.inj h
    exact ⟨Nat.le_refl _, fun _ => rfl⟩
  | succ left ih =>
    rcases iterations_eq_ok.mp h with ⟨-, rfl⟩ | ⟨-, -, rfl⟩ | ⟨-, r, -, hrest⟩
    · exact ⟨Nat.le_refl _, nofun⟩
    · exact ⟨Nat.le_refl _, nofun⟩
    · obtain ⟨hle, hdone⟩ := ih hrest
      rw [List.length_append, List.length_singleton] at hle hdone
      exact ⟨by omega, fun hend => by rw [hdone hend]; omega⟩

/-- Where no iteration traps, the loop comes to an end. -/
theorem iterations_ends (h : ∀ i, ∃ r, measure i = .ok r) (left i : Nat) (iters : List IterResult)
    (thermals : List String) :
    ∃ out, (iterations job device measure left i iters thermals).result = .ok out := by
  induction left generalizing i iters thermals with
  | zero => exact ⟨_, rfl⟩
  | succ left ih =>
    obtain ⟨r, hr⟩ := h i
    cases hcancelled : device.isCancelled i with
    | true => exact ⟨_, iterations_eq_ok.mpr (.inl ⟨hcancelled, rfl⟩)⟩
    | false =>
      cases r with
      | none => exact ⟨_, iterations_eq_ok.mpr (.inr (.inl ⟨hcancelled, hr, rfl⟩))⟩
      | some r =>
        obtain ⟨out, hout⟩ := ih (i + 1) (iters ++ [r]) (thermals ++ [device.thermal i])
        exact ⟨out, iterations_eq_ok.mpr (.inr (.inr ⟨hcancelled, r, hr, hout⟩))⟩

end Iterations

/-! ## The synthetic benchmark -/

/-- The counts of tokens go through the products and the ranges. -/
structure TokensFit (pp tg : Int) : Prop where
  prompt : 0 ≤ pp ∧ pp * 1000 ≤ intMax
  generated : intMin ≤ tg - 1 ∧ tg - 1 ≤ intMax ∧ max (tg - 1) 0 * 1000 ≤ intMax

theorem hashTokens_eq_ok {tokens : Int} :
    hashTokens tokens = .ok () ↔ 0 ≤ tokens ∧ tokens * 1000 ≤ intMax := by
  unfold hashTokens roundsPerToken
  rw [bind_ok_iff]
  constructor
  · rintro ⟨rounds, hrounds, hrest⟩
    obtain ⟨⟨-, hmax⟩, rfl⟩ := int_eq_ok.mp hrounds
    obtain ⟨n, hn, -⟩ := bind_ok_iff.mp hrest
    obtain ⟨hnonneg, -⟩ := range_eq_ok.mp hn
    exact ⟨by omega, hmax⟩
  · rintro ⟨hnonneg, hmax⟩
    have hmin : intMin ≤ tokens * 1000 := by
      unfold intMin
      omega
    have hrange : range 0 (tokens * 1000) = .ok (tokens * 1000 - 0).toNat :=
      range_eq_ok.mpr ⟨by omega, rfl⟩
    exact ⟨_, int_eq_ok.mpr ⟨⟨hmin, hmax⟩, rfl⟩, bind_ok_iff.mpr ⟨_, hrange, rfl⟩⟩

theorem unthrown_hashTokens (tokens : Int) : Unthrown (hashTokens tokens) :=
  (unthrown_int _).bind fun _ => (unthrown_range _ _).bind fun _ => unthrown_ok ()

theorem unthrown_runIteration (pp tg : Int) (times : Times) :
    Unthrown (runIteration pp tg times) :=
  (unthrown_hashTokens pp).bind fun _ => (unthrown_hashTokens 1).bind fun _ =>
    (unthrown_int _).bind fun _ => (unthrown_hashTokens _).bind fun _ => unthrown_ok _

theorem runIteration_ok_iff {pp tg : Int} {times : Times} :
    (∃ r, runIteration pp tg times = .ok r) ↔ TokensFit pp tg := by
  constructor
  · rintro ⟨r, hr⟩
    obtain ⟨⟨⟩, hprompt, hr⟩ := bind_ok_iff.mp hr
    obtain ⟨-, -, hr⟩ := bind_ok_iff.mp hr
    obtain ⟨rest, hrest, hr⟩ := bind_ok_iff.mp hr
    obtain ⟨⟨⟩, hgenerated, -⟩ := bind_ok_iff.mp hr
    obtain ⟨⟨hmin, hmax⟩, rfl⟩ := int_eq_ok.mp hrest
    exact ⟨hashTokens_eq_ok.mp hprompt, hmin, hmax, (hashTokens_eq_ok.mp hgenerated).2⟩
  · rintro ⟨hprompt, hmin, hmax, hgenerated⟩
    have hone : hashTokens 1 = .ok () := rfl
    have hrest : hashTokens (max (tg - 1) 0) = .ok () :=
      hashTokens_eq_ok.mpr ⟨le_max_right _ _, hgenerated⟩
    exact ⟨_, bind_ok_iff.mpr ⟨(), hashTokens_eq_ok.mpr hprompt, bind_ok_iff.mpr ⟨(), hone,
      bind_ok_iff.mpr ⟨_, int_eq_ok.mpr ⟨⟨hmin, hmax⟩, rfl⟩, bind_ok_iff.mpr ⟨(), hrest, rfl⟩⟩⟩⟩⟩

section Synthetic

variable {job : JobSpec} {device : Device} {synthetic : Synthetic} {pp tg warmups measures : Int}

theorem unthrown_measureSynthetic (i : Nat) : Unthrown (measureSynthetic synthetic pp tg i) := by
  unfold measureSynthetic
  split
  · exact (unthrown_runIteration _ _ _).bind fun _ => unthrown_ok _
  · exact (unthrown_runIteration _ _ _).bind fun _ => unthrown_ok _

/-- A measured iteration fails where the backend does, once the counts have gone through. -/
theorem measureSynthetic_eq_ok {i : Nat} {r : Option IterResult}
    (h : measureSynthetic synthetic pp tg i = .ok r) :
    TokensFit pp tg ∧ (r = none ↔ synthetic.measured i = none) := by
  unfold measureSynthetic at h
  split at h
  · next hnone =>
    obtain ⟨_, hrun, hr⟩ := bind_ok_iff.mp h
    obtain rfl := Except.ok.inj hr
    exact ⟨runIteration_ok_iff.mp ⟨_, hrun⟩, iff_of_true rfl hnone⟩
  · next times htimes =>
    obtain ⟨_, hrun, hr⟩ := bind_ok_iff.mp h
    obtain rfl := Except.ok.inj hr
    refine ⟨runIteration_ok_iff.mp ⟨_, hrun⟩, iff_of_false nofun ?_⟩
    rw [htimes]
    exact nofun

theorem measureSynthetic_ok (h : TokensFit pp tg) (i : Nat) :
    ∃ r, measureSynthetic synthetic pp tg i = .ok r := by
  unfold measureSynthetic
  split
  · obtain ⟨_, hrun⟩ := runIteration_ok_iff.mpr h
    exact ⟨_, bind_ok_iff.mpr ⟨_, hrun, rfl⟩⟩
  · obtain ⟨_, hrun⟩ := runIteration_ok_iff.mpr h
    exact ⟨_, bind_ok_iff.mpr ⟨_, hrun, rfl⟩⟩

/-- What a synthetic benchmark needs of the counts, of the lease and of its first iteration. -/
structure SyntheticFits (device : Device) (synthetic : Synthetic) (pp tg warmups measures : Int) :
    Prop where
  warm : 0 ≤ warmups
  measured : 1 ≤ measures
  tokens : 0 < warmups ∨ device.isCancelled 1 = false → TokensFit pp tg
  first : device.isCancelled 1 = false → synthetic.measured 1 ≠ none

theorem syntheticTask_posts :
    (syntheticTask job device synthetic pp tg warmups measures).Posts Passing :=
  Posting.posts_bind (List.forall_mem_nil Passing) fun _ =>
    Posting.posts_bind (List.forall_mem_nil Passing) fun _ =>
      Posting.posts_bind (List.forall_mem_nil Passing) fun _ => iterations_posts

theorem syntheticTask_unthrown :
    (syntheticTask job device synthetic pp tg warmups measures).Unthrown :=
  Posting.unthrown_bind (unthrown_range _ _) fun _ =>
    Posting.unthrown_bind (unthrown_warmUp (fun _ => unthrown_runIteration _ _ _) _ _) fun _ =>
      Posting.unthrown_bind (unthrown_closedRange _ _) fun _ =>
        iterations_unthrown unthrown_measureSynthetic

theorem syntheticTask_eq_ok {out : Measured} :
    (syntheticTask job device synthetic pp tg warmups measures).result = .ok out ↔
      0 ≤ warmups ∧ (0 < warmups → TokensFit pp tg) ∧ 1 ≤ measures ∧
        (iterations job device (measureSynthetic synthetic pp tg) measures.toNat 1 [] []).result =
          .ok out := by
  unfold syntheticTask
  rw [Posting.bind_eq_ok]
  constructor
  · rintro ⟨n, hn, hrest⟩
    obtain ⟨⟨⟩, hwarm, hrest⟩ := Posting.bind_eq_ok.mp hrest
    obtain ⟨count, hcount, hrest⟩ := Posting.bind_eq_ok.mp hrest
    obtain ⟨hwarmups, rfl⟩ := range_eq_ok.mp hn
    obtain ⟨hmeasures, rfl⟩ := closedRange_eq_ok.mp hcount
    refine ⟨hwarmups, fun hpos => ?_, hmeasures, ?_⟩
    · exact runIteration_ok_iff.mp (warmUp_eq_ok.mp hwarm 0 (by omega))
    · rwa [Int.sub_add_cancel] at hrest
  · rintro ⟨hwarmups, htokens, hmeasures, hrest⟩
    refine ⟨_, range_eq_ok.mpr ⟨hwarmups, rfl⟩, Posting.bind_eq_ok.mpr ⟨(), ?_, ?_⟩⟩
    · exact warmUp_eq_ok.mpr fun k hk => runIteration_ok_iff.mpr (htokens (by omega))
    · refine Posting.bind_eq_ok.mpr ⟨_, closedRange_eq_ok.mpr ⟨hmeasures, rfl⟩, ?_⟩
      rwa [Int.sub_add_cancel]

/-- The final row of a synthetic benchmark. -/
def syntheticRow (job : JobSpec) (device : Device) (synthetic : Synthetic) (out : Measured) :
    ResultPost :=
  if out.ending = .cancelled then failRow job device "cancelled"
  else summaryRow job device synthetic.loadMs out

/-- The means of something are finite, and those of nothing are not. -/
theorem encodes_summaryRow {loadMs : Int} {out : Measured} :
    (summaryRow job device loadMs out).encodes = true ↔ out.iters ≠ [] := by
  unfold summaryRow ResultPost.encodes Metrics.numbers mean
  simp only [List.length_map, Option.all_some, decide_eq_true_eq, List.length_eq_zero_iff]
  split
  · next h => simp [h]
  · next h => simp [h]

/-- A synthetic benchmark ends in one final row exactly under these conditions. -/
theorem synthetic_iff :
    EndsOnce (syntheticTask job device synthetic pp tg warmups measures >>= fun out =>
      postResult (syntheticRow job device synthetic out)) ↔
      SyntheticFits device synthetic pp tg warmups measures := by
  have hfinal : ∀ out, (syntheticRow job device synthetic out).final = true := fun out => by
    unfold syntheticRow
    split <;> rfl
  rw [endsOnce_bind syntheticTask_posts syntheticTask_unthrown hfinal]
  constructor
  · rintro ⟨out, hout, hencodes⟩
    obtain ⟨hwarmups, htokens, hmeasures, hout⟩ := syntheticTask_eq_ok.mp hout
    obtain ⟨left, hleft⟩ : ∃ left, measures.toNat = left + 1 := ⟨measures.toNat - 1, by omega⟩
    rw [hleft] at hout
    rcases iterations_eq_ok.mp hout with ⟨hcancelled, -⟩ | ⟨-, -, rfl⟩ | ⟨hgoing, r, hr, -⟩
    · refine ⟨hwarmups, hmeasures, fun h => htokens (h.resolve_right ?_), fun h => ?_⟩
      · simp [hcancelled]
      · rw [hcancelled] at h
        cases h
    · rw [syntheticRow, if_neg nofun, encodes_summaryRow] at hencodes
      exact absurd rfl hencodes
    · obtain ⟨hfit, hnone⟩ := measureSynthetic_eq_ok hr
      exact ⟨hwarmups, hmeasures, fun _ => hfit, fun _ h => nomatch hnone.mpr h⟩
  · rintro ⟨hwarmups, hmeasures, htokens, hfirst⟩
    obtain ⟨left, hleft⟩ : ∃ left, measures.toNat = left + 1 := ⟨measures.toNat - 1, by omega⟩
    have hends : ∃ out, (iterations job device (measureSynthetic synthetic pp tg) (left + 1) 1 []
        []).result = .ok out ∧ (syntheticRow job device synthetic out).encodes = true := by
      cases hcancelled : device.isCancelled 1 with
      | true => exact ⟨_, iterations_eq_ok.mpr (.inl ⟨hcancelled, rfl⟩), rfl⟩
      | false =>
        have hfit := htokens (.inr hcancelled)
        obtain ⟨out, hout⟩ := iterations_ends (measureSynthetic_ok hfit) (left + 1) 1 [] []
        refine ⟨out, hout, ?_⟩
        rcases iterations_eq_ok.mp hout with ⟨h, -⟩ | ⟨-, hnone, -⟩ | ⟨-, r, -, hrest⟩
        · rw [hcancelled] at h
          cases h
        · exact absurd ((measureSynthetic_eq_ok hnone).2.mp rfl) (hfirst hcancelled)
        · unfold syntheticRow
          split
          · rfl
          · rw [encodes_summaryRow, ← List.length_pos_iff]
            exact (iterations_length hrest).1
    obtain ⟨out, hout, hencodes⟩ := hends
    refine ⟨out, syntheticTask_eq_ok.mpr ⟨hwarmups, fun h => htokens (.inl h), hmeasures, ?_⟩,
      hencodes⟩
    rwa [hleft]

end Synthetic

/-! ## The llama benchmark -/

section Safe

variable {α : Type} {i low high : Int}

/-- A step that throws nothing, where the rest does not trap behind it. -/
theorem safe_step {β : Type} {x : Except Stop β} (hx : Unthrown x)
    (f : β → Posting ResultPost α) :
    ¬ (Posting.ofExcept x >>= f).Traps ↔ ∃ a, x = .ok a ∧ ¬ (f a).Traps := by
  cases x with
  | ok a => simp [Posting.ofExcept]
  | error s =>
    cases s with
    | thrown message => exact absurd rfl (hx message)
    | trap => simp [Posting.ofExcept, Posting.Traps]

theorem unthrown_int32 (i : Int) : Unthrown (int32 i) := by
  intro message
  unfold int32
  split <;> simp

theorem safe_int (f : Int → Posting ResultPost α) : ¬ (Posting.ofExcept (int i) >>= f).Traps ↔
    (intMin ≤ i ∧ i ≤ intMax) ∧ ¬ (f i).Traps := by
  rw [safe_step (unthrown_int i)]
  simp only [int_eq_ok, and_assoc, exists_and_left, exists_eq_left']

theorem safe_int32 (f : Int → Posting ResultPost α) : ¬ (Posting.ofExcept (int32 i) >>= f).Traps ↔
    (int32Min ≤ i ∧ i ≤ int32Max) ∧ ¬ (f i).Traps := by
  rw [safe_step (unthrown_int32 i)]
  simp only [int32_eq_ok, and_assoc, exists_and_left, exists_eq_left']

theorem safe_range (f : Nat → Posting ResultPost α) :
    ¬ (Posting.ofExcept (range low high) >>= f).Traps ↔
      low ≤ high ∧ ¬ (f (high - low).toNat).Traps := by
  rw [safe_step (unthrown_range low high)]
  simp only [range_eq_ok, and_assoc, exists_and_left, exists_eq_left']

/-- The last step does not trap. -/
theorem safe_last {β : Type} {t : Posting ResultPost β} {next : β → Posting ResultPost α}
    (h : ∀ a, ¬ (next a).Traps) : ¬ (t >>= next).Traps ↔ ¬ t.Traps := by
  rw [Posting.traps_bind, or_iff_left fun ⟨a, _, ha⟩ => h a ha]

theorem safe_closedRange (f : Nat → Posting ResultPost α) :
    ¬ (Posting.ofExcept (closedRange low high) >>= f).Traps ↔
      low ≤ high ∧ ¬ (f (high - low + 1).toNat).Traps := by
  rw [safe_step (unthrown_closedRange low high)]
  simp only [closedRange_eq_ok, and_assoc, exists_and_left, exists_eq_left']

end Safe

section Llama

variable {job : JobSpec} {device : Device} {llama : Llama} {pp tg warmups measures : Int}

/-- A call of `bench` comes through: the prompt's tokens can be counted, and the generated ones
unless the prefill fails before them. -/
def Benches (pp tg : Int) (d : Decode) : Prop := 0 ≤ pp ∧ (tg < 0 → d = .prefillFailed)

theorem unthrown_bench (pp tg : Int) (d : Decode) : Unthrown (bench pp tg d) := by
  refine (unthrown_range 0 pp).bind fun _ => ?_
  cases d with
  | prefillFailed => exact unthrown_ok _
  | failed => exact (unthrown_range 0 tg).bind fun _ => unthrown_ok _
  | done p d t => exact (unthrown_range 0 tg).bind fun _ => unthrown_ok _

theorem bench_ok_iff {d : Decode} : (∃ r, bench pp tg d = .ok r) ↔ Benches pp tg d := by
  unfold bench Benches
  cases d with
  | prefillFailed => simp [bind_ok_iff, range_eq_ok, pure, Except.pure]
  | failed => simp [bind_ok_iff, range_eq_ok, pure, Except.pure]
  | done p d t => simp [bind_ok_iff, range_eq_ok, pure, Except.pure]

/-- Where `bench` gives times, both counts are such that it always comes through. -/
theorem counts_of_bench {d : Decode} {r : Rat × Rat × Rat} (h : bench pp tg d = .ok (some r)) :
    0 ≤ pp ∧ 0 ≤ tg := by
  obtain ⟨hpp, htg⟩ := bench_ok_iff.mp ⟨_, h⟩
  refine ⟨hpp, not_lt.mp fun hlt => ?_⟩
  obtain rfl := htg hlt
  obtain ⟨n, -, hr⟩ := bind_ok_iff.mp h
  cases hr

theorem measureLlama_ok_iff {d : Decode} :
    (∃ r, measureLlama pp tg d = .ok r) ↔ Benches pp tg d := by
  rw [← bench_ok_iff]
  unfold measureLlama
  constructor
  · rintro ⟨r, hr⟩
    obtain ⟨b, hb, -⟩ := bind_ok_iff.mp hr
    exact ⟨b, hb⟩
  · rintro ⟨b, hb⟩
    exact ⟨_, bind_ok_iff.mpr ⟨b, hb, rfl⟩⟩

theorem unthrown_measureLlama (d : Decode) : Unthrown (measureLlama pp tg d) :=
  (unthrown_bench pp tg d).bind fun _ => unthrown_ok _

/-- The iterations of llama come to their end where the first one does. -/
theorem iterations_llama_iff {left : Nat} :
    ¬ (iterations job device (fun i => measureLlama pp tg (llama.measured i)) (left + 1) 1 []
        []).Traps ↔ (device.isCancelled 1 = false → Benches pp tg (llama.measured 1)) := by
  have hunthrown : (iterations job device (fun i => measureLlama pp tg (llama.measured i))
      (left + 1) 1 [] []).Unthrown := iterations_unthrown fun i => unthrown_measureLlama _
  constructor
  · intro htraps hcancelled
    cases hresult : (iterations job device (fun i => measureLlama pp tg (llama.measured i))
        (left + 1) 1 [] []).result with
    | error s =>
      cases s with
      | thrown message => exact absurd hresult (hunthrown message)
      | trap => exact absurd hresult htraps
    | ok out =>
      rcases iterations_eq_ok.mp hresult with ⟨h, -⟩ | ⟨-, hr, -⟩ | ⟨-, r, hr, -⟩
      · rw [hcancelled] at h
        cases h
      · exact measureLlama_ok_iff.mp ⟨_, hr⟩
      · exact measureLlama_ok_iff.mp ⟨_, hr⟩
  · intro hfirst
    have hends : ∃ out, (iterations job device (fun i => measureLlama pp tg (llama.measured i))
        (left + 1) 1 [] []).result = .ok out := by
      cases hcancelled : device.isCancelled 1 with
      | true => exact ⟨_, iterations_eq_ok.mpr (.inl ⟨hcancelled, rfl⟩)⟩
      | false =>
        obtain ⟨r, hr⟩ := measureLlama_ok_iff.mpr (hfirst hcancelled)
        cases r with
        | none => exact ⟨_, iterations_eq_ok.mpr (.inr (.inl ⟨hcancelled, hr, rfl⟩))⟩
        | some r =>
          obtain ⟨b, hb, hmap⟩ := bind_ok_iff.mp hr
          cases b with
          | none => cases hmap
          | some b =>
            -- the first iteration has measured, so that the counts trap nowhere
            obtain ⟨hpp, htg⟩ := counts_of_bench hb
            have hall : ∀ i, ∃ r, measureLlama pp tg (llama.measured i) = .ok r := fun i =>
              measureLlama_ok_iff.mpr ⟨hpp, fun hlt => absurd hlt (not_lt.mpr htg)⟩
            obtain ⟨out, hout⟩ := iterations_ends hall left 2 [r] [device.thermal 1]
            exact ⟨out, iterations_eq_ok.mpr (.inr (.inr ⟨hcancelled, r, hr, hout⟩))⟩
    obtain ⟨out, hout⟩ := hends
    rw [Posting.Traps, hout]
    exact nofun

/-- The number of threads that is asked for. -/
def threads (job : JobSpec) (device : Device) : Int :=
  (job.params.bind BenchParams.nThreads).getD (min device.activeProcessorCount 6)

/-- What a llama benchmark needs of the counts, once the model is there. -/
structure LlamaFits (job : JobSpec) (device : Device) (llama : Llama)
    (pp tg warmups measures : Int) : Prop where
  prompt : int32Min ≤ pp ∧ pp ≤ int32Max
  generated : int32Min ≤ tg ∧ tg ≤ int32Max
  context : pp + tg + 8 ≤ int32Max
  threads : int32Min ≤ threads job device ∧ threads job device ≤ int32Max
  session : llama.load.isSome = true → 0 ≤ warmups ∧ 1 ≤ measures ∧
    (∀ k : Nat, (k : Int) < warmups → Benches pp tg (llama.warm k)) ∧
    (device.isCancelled 1 = false → Benches pp tg (llama.measured 1))

theorem llamaIterations_posts :
    (llamaIterations job device llama pp tg warmups measures).Posts Passing :=
  Posting.posts_bind (List.forall_mem_nil Passing) fun _ =>
    Posting.posts_bind (List.forall_mem_nil Passing) fun _ =>
      Posting.posts_bind (List.forall_mem_nil Passing) fun _ => iterations_posts

theorem llamaIterations_safe_iff :
    ¬ (llamaIterations job device llama pp tg warmups measures).Traps ↔
      0 ≤ warmups ∧ 1 ≤ measures ∧
        (∀ k : Nat, (k : Int) < warmups → Benches pp tg (llama.warm k)) ∧
        (device.isCancelled 1 = false → Benches pp tg (llama.measured 1)) := by
  unfold llamaIterations
  rw [safe_range, safe_step (unthrown_warmUp (fun _ => unthrown_bench _ _ _) _ _)]
  refine and_congr_right fun hwarmups => ?_
  have hwarm : warmUp (fun i => bench pp tg (llama.warm i)) (warmups - 0).toNat 0 = .ok () ↔
      ∀ k : Nat, (k : Int) < warmups → Benches pp tg (llama.warm k) := by
    rw [warmUp_eq_ok]
    refine forall_congr' fun k => imp_congr (by omega) ?_
    rw [Nat.zero_add]
    exact bench_ok_iff
  constructor
  · rintro ⟨⟨⟩, hok, hrest⟩
    obtain ⟨hmeasures, hrest⟩ := (safe_closedRange _).mp hrest
    obtain ⟨left, hleft⟩ : ∃ left, (measures - 1 + 1).toNat = left + 1 :=
      ⟨measures.toNat - 1, by omega⟩
    rw [hleft] at hrest
    exact ⟨hmeasures, hwarm.mp hok, iterations_llama_iff.mp hrest⟩
  · rintro ⟨hmeasures, hok, hfirst⟩
    obtain ⟨left, hleft⟩ : ∃ left, (measures - 1 + 1).toNat = left + 1 :=
      ⟨measures.toNat - 1, by omega⟩
    refine ⟨(), hwarm.mpr hok, (safe_closedRange _).mpr ⟨hmeasures, ?_⟩⟩
    rw [hleft]
    exact iterations_llama_iff.mpr hfirst

theorem llamaTask_posts : (llamaTask job device llama pp tg warmups measures).Posts Passing := by
  refine Posting.posts_bind (List.forall_mem_nil Passing) fun _ => ?_
  refine Posting.posts_bind (List.forall_mem_nil Passing) fun _ => ?_
  refine Posting.posts_bind (List.forall_mem_nil Passing) fun _ => ?_
  refine Posting.posts_bind (List.forall_mem_nil Passing) fun _ => ?_
  refine Posting.posts_bind (List.forall_mem_nil Passing) fun _ => ?_
  refine Posting.posts_bind (List.forall_mem_nil Passing) fun _ => ?_
  split
  · exact List.forall_mem_nil Passing
  · refine Posting.posts_bind llamaIterations_posts fun out => ?_
    split <;> exact List.forall_mem_nil Passing

/-- What goes on behind the conversions. -/
theorem session_safe_iff {load : Option Int} :
    ¬ (match load with
      | none => Posting.stop (.thrown "llama.cpp failed to load model")
      | some loadMs => do
        let out ← llamaIterations job device llama pp tg warmups measures
        match out.ending with
        | .cancelled => Posting.stop (.thrown "cancelled")
        | .failed => Posting.stop (.thrown "llama.cpp decode failed")
        | .done => pure (loadMs, out) : Posting ResultPost (Int × Measured)).Traps ↔
      (load.isSome = true → ¬ (llamaIterations job device llama pp tg warmups measures).Traps) := by
  cases load with
  | none => exact iff_of_true nofun nofun
  | some loadMs =>
    rw [safe_last fun out => by split <;> exact nofun]
    exact ⟨fun h _ => h, fun h => h rfl⟩

theorem llamaTask_safe_iff : ¬ (llamaTask job device llama pp tg warmups measures).Traps ↔
    LlamaFits job device llama pp tg warmups measures := by
  unfold llamaTask
  rw [safe_int, safe_int, safe_int32, safe_int32, safe_int32, safe_int32, session_safe_iff,
    llamaIterations_safe_iff]
  constructor
  · rintro ⟨-, -, ⟨-, hcontext⟩, hthreads, hprompt, hgenerated, hsession⟩
    exact ⟨hprompt, hgenerated, (le_max_right _ _).trans hcontext, hthreads, hsession⟩
  · rintro ⟨hprompt, hgenerated, hcontext, hthreads, hsession⟩
    have hmin : intMin = -2 ^ 63 := rfl
    have hmax : intMax = 2 ^ 63 - 1 := rfl
    unfold int32Min int32Max at *
    exact ⟨by omega, by omega, by omega, hthreads, hprompt, hgenerated, hsession⟩

/-- A model that is there has been measured once at least. -/
theorem llamaTask_eq_ok {result : Int × Measured}
    (h : (llamaTask job device llama pp tg warmups measures).result = .ok result) :
    result.2.iters ≠ [] := by
  unfold llamaTask at h
  obtain ⟨_, _, h⟩ := Posting.bind_eq_ok.mp h
  obtain ⟨_, _, h⟩ := Posting.bind_eq_ok.mp h
  obtain ⟨_, _, h⟩ := Posting.bind_eq_ok.mp h
  obtain ⟨_, _, h⟩ := Posting.bind_eq_ok.mp h
  obtain ⟨_, _, h⟩ := Posting.bind_eq_ok.mp h
  obtain ⟨_, _, h⟩ := Posting.bind_eq_ok.mp h
  cases hload : llama.load with
  | none =>
    rw [hload] at h
    cases h
  | some loadMs =>
    rw [hload] at h
    obtain ⟨out, hout, h⟩ := Posting.bind_eq_ok.mp h
    cases hending : out.ending with
    | cancelled =>
      rw [hending] at h
      cases h
    | failed =>
      rw [hending] at h
      cases h
    | done =>
      rw [hending] at h
      obtain rfl := Except.ok.inj h
      obtain ⟨_, _, hout⟩ := Posting.bind_eq_ok.mp hout
      obtain ⟨_, _, hout⟩ := Posting.bind_eq_ok.mp hout
      obtain ⟨count, hcount, hout⟩ := Posting.bind_eq_ok.mp hout
      obtain ⟨hmeasures, rfl⟩ := closedRange_eq_ok.mp hcount
      have hlength := (iterations_length hout).2 hending
      rw [List.length_nil] at hlength
      refine List.length_pos_iff.mp ?_
      change 0 < out.iters.length
      omega

/-- The job is for llama and its model is there. -/
structure Provided (job : JobSpec) (llama : Llama) : Prop where
  linked : llama.linked = true
  gguf : job.model.any (fun ref => decide (ref.format = "gguf")) = true
  baseURL : llama.baseURL.isSome = true
  download : llama.download = .ok ()

/-- A llama benchmark ends in one final row exactly where its counts fit, if its model is there. -/
theorem llama_iff : EndsOnce (runLlamaBenchmark job device llama pp tg warmups measures) ↔
    (Provided job llama → LlamaFits job device llama pp tg warmups measures) := by
  have hfail : ∀ message, EndsOnce (postResult (failRow job device message)) := fun message =>
    (endsOnce_postResult rfl).mpr rfl
  have hnot : ∀ {b : Bool}, b = true → ¬ (!b) = true := fun h => by
    rw [h]
    decide
  unfold runLlamaBenchmark
  dsimp only
  by_cases hlinked : llama.linked = true
  · by_cases hgguf : job.model.any (fun ref => decide (ref.format = "gguf")) = true
    · by_cases hbase : llama.baseURL.isSome = true
      · rw [if_neg (hnot hlinked), if_neg (hnot hgguf), ← Option.not_isSome, if_neg (hnot hbase)]
        cases hdownload : llama.download with
        | error message =>
          refine iff_of_true (hfail _) fun hprovided => ?_
          rw [hprovided.download] at hdownload
          cases hdownload
        | ok u =>
          dsimp only
          rw [endsOnce_catching llamaTask_posts (fun _ => rfl) fun _ => ⟨rfl, rfl⟩]
          have hencodes : ∀ a, (llamaTask job device llama pp tg warmups measures).result = .ok a →
              (summaryRow job device a.1 a.2).encodes = true := fun a ha =>
            encodes_summaryRow.mpr (llamaTask_eq_ok ha)
          rw [and_iff_left hencodes, llamaTask_safe_iff]
          exact ⟨fun h _ => h, fun h => h ⟨hlinked, hgguf, hbase, hdownload⟩⟩
      · rw [if_neg (hnot hlinked), if_neg (hnot hgguf), if_pos (by simpa using hbase)]
        exact iff_of_true (hfail _) fun hprovided => absurd hprovided.baseURL hbase
    · rw [if_neg (hnot hlinked), if_pos (by rw [Bool.not_eq_true _ |>.mp hgguf]; rfl)]
      exact iff_of_true (hfail _) fun hprovided => absurd hprovided.gguf hgguf
  · rw [if_pos (by simpa using hlinked)]
    exact iff_of_true (hfail _) fun hprovided => absurd hprovided.linked hlinked

end Llama

/-! ## The benchmark -/

section Benchmark

variable (job : JobSpec) (device : Device) (synthetic : Synthetic) (llama : Llama)

/-- What a benchmark needs: of a backend that it has. -/
def BenchmarkFits : Prop :=
  (job.backend = some "llama.cpp" → Provided job llama → LlamaFits job device llama
    (promptTokens job) (genTokens job) (warmupIters job) (measureIters job)) ∧
  (job.backend = none ∨ job.backend = some "synthetic" → SyntheticFits device synthetic
    (promptTokens job) (genTokens job) (warmupIters job) (measureIters job))

theorem runBenchmark_iff : EndsOnce (runBenchmark job device synthetic llama) ↔
    BenchmarkFits job device synthetic llama := by
  unfold runBenchmark BenchmarkFits
  dsimp only
  by_cases hllama : job.backend = some "llama.cpp"
  · rw [if_pos hllama]
    have hother : ¬ (job.backend = none ∨ job.backend = some "synthetic") := by simp [hllama]
    refine llama_iff.trans ⟨fun h => ⟨fun _ => h, fun h => absurd h hother⟩, fun h => h.1 hllama⟩
  · rw [if_neg hllama]
    by_cases hsynthetic : job.backend = none ∨ job.backend = some "synthetic"
    · rw [if_neg (not_not.mpr hsynthetic)]
      have hrow : ∀ out : Measured, (if out.ending = .cancelled then
          postResult (failRow job device "cancelled")
          else postResult (summaryRow job device synthetic.loadMs out)) =
          postResult (syntheticRow job device synthetic out) := fun out => by
        unfold syntheticRow
        split <;> rfl
      simp only [hrow]
      exact synthetic_iff.trans
        ⟨fun h => ⟨fun h' => absurd h' hllama, fun _ => h⟩, fun h => h.2 hsynthetic⟩
    · rw [if_pos hsynthetic]
      exact iff_of_true ((endsOnce_postResult rfl).mpr rfl)
        ⟨fun h => absurd h hllama, fun h => absurd h hsynthetic⟩

end Benchmark

end FleetRunner.Ios
