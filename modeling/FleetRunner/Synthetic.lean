import FleetRunner.Ios.Bench
import FleetRunner.Library.Lockstep
import FleetRunner.Library.Overwrite
import Mathlib

/-!
# The synthetic benchmark on every runner (`SyntheticBackend.kt`, `SyntheticBackend.swift`,
`synthetic.ts`, `SyntheticBackend.brs`, `conformance.ts`)

A token is a thousand hashes of a block, with each hash folded back into the
front of the block. The rates of all runners stand in one table, so that all of
them have to do the same work. They share no code: one has signed bytes, one
traps, one reads its hashes as text.

## Implementation notes

SHA-256 is a parameter. Integers have the width of their language, and finite
numbers are exact. What the clock says of an iteration is `Times`.
-/

namespace FleetRunner.Synthetic

open Library
open FleetRunner.Ios (IterResult Times)

/-- The size of the block that is hashed. -/
def BLOCK_SIZE : Nat := 4096

abbrev Block := Vector UInt8 BLOCK_SIZE

/-- The hash, as a parameter. -/
abbrev Sha256 := List UInt8 → Vector UInt8 32

/-! ## What is to be done -/

/-- The block that every run starts with. -/
def start : Block := .ofFn fun i => .ofNat (i * 31)

section Work

variable (sha : Sha256)

/-- A round: the block's hash over the front of the block. -/
def fold (block : Block) : Block := overwrite 0 (sha block.toList).toList block

/-- The rounds of an iteration. -/
def rounds (promptTokens genTokens : Int) : Nat :=
  (promptTokens * 1000).toNat + 1000 + (max (genTokens - 1) 0 * 1000).toNat

/-- What an iteration reports of its times. -/
def rates (promptTokens genTokens : Int) (times : Times) : IterResult where
  prefillTokS := promptTokens * 1000 / max (times.prefillMs : Rat) 1
  decodeTokS := genTokens * 1000 / max ((times.firstTokenMs + times.restMs : Nat) : Rat) 1
  ttftMs := times.prefillMs + times.firstTokenMs

/-- The block behind an iteration. -/
def worked (promptTokens genTokens : Int) : Block → Block :=
  (fold sha)^[rounds promptTokens genTokens]

end Work

/-! ## Android -/

namespace Android

def ROUNDS_PER_TOKEN : Int32 := 1000

/-- A block of signed bytes. -/
def signed {n : Nat} (b : Vector UInt8 n) : Vector Int8 n := b.map UInt8.toInt8

/-- `MessageDigest.digest` -/
def digest (sha : Sha256) (b : Vector Int8 BLOCK_SIZE) : Vector Int8 32 :=
  signed (sha (b.toList.map Int8.toUInt8))

/-- `System.arraycopy` -/
def arraycopy {m n : Nat} (src : Vector Int8 m) (srcPos : Nat) (dest : Vector Int8 n)
    (destPos length : Nat) : Option (Vector Int8 n) :=
  if srcPos + length ≤ m ∧ destPos + length ≤ n then
    some (.ofFn fun i =>
      if destPos ≤ i.val ∧ i.val < destPos + length then
        src[srcPos + (i.val - destPos)]?.getD dest[i]
      else dest[i])
  else none

/-- `ByteArray(BLOCK_SIZE) { (it * 31).toByte() }` -/
def load : Vector Int8 BLOCK_SIZE := .ofFn fun i => (Int32.ofNat i * 31).toInt8

section Backend

variable (sha : Sha256)

def round (block : Vector Int8 BLOCK_SIZE) : Option (Vector Int8 BLOCK_SIZE) :=
  let out := digest sha block
  arraycopy out 0 block 0 32

/-- `repeat` does nothing for a count below zero. -/
def hashTokens (tokens : Int32) (block : Vector Int8 BLOCK_SIZE) :
    Option (Vector Int8 BLOCK_SIZE) :=
  timesM (round sha) (tokens * ROUNDS_PER_TOKEN).toInt.toNat block

def runIteration (promptTokens genTokens : Int32) (times : Times) (block : Vector Int8 BLOCK_SIZE) :
    Option (IterResult × Vector Int8 BLOCK_SIZE) := do
  let block ← hashTokens sha promptTokens block
  let block ← hashTokens sha 1 block
  let block ← hashTokens sha (genTokens - 1) block
  let decodeMs := times.firstTokenMs + times.restMs
  some (⟨promptTokens.toInt * 1000 / max (times.prefillMs : Rat) 1,
    genTokens.toInt * 1000 / max (decodeMs : Rat) 1, times.prefillMs + times.firstTokenMs⟩, block)

end Backend

end Android

/-! ## iOS -/

namespace Ios

/-- `UInt8(truncatingIfNeeded: $0 &* 31)` -/
def load : Block := .ofFn fun i => (Int64.ofNat i * 31).toUInt64.toUInt8

/-- `block[i] = byte; i += 1` -/
def put (p : Block × Nat) (byte : UInt8) : Except Stop (Block × Nat) :=
  if h : p.2 < BLOCK_SIZE then .ok (p.1.set p.2 byte, p.2 + 1) else .error .trap

section Backend

variable (sha : Sha256)

def round (block : Block) : Except Stop Block := do
  let digest := sha block.toList
  let p ← digest.toList.foldlM put (block, 0)
  return p.1

/-- The count goes through a product and a range. -/
def hashTokens (tokens : Int) (block : Block) : Except Stop Block := do
  FleetRunner.Ios.hashTokens tokens
  timesM (round sha) (tokens * FleetRunner.Ios.roundsPerToken).toNat block

def runIteration (promptTokens genTokens : Int) (times : Times) (block : Block) :
    Except Stop (IterResult × Block) := do
  let block ← hashTokens sha promptTokens block
  let block ← hashTokens sha 1 block
  let rest ← FleetRunner.Ios.int (genTokens - 1)
  let block ← hashTokens sha (max rest 0) block
  let decodeMs := times.firstTokenMs + times.restMs
  return (⟨promptTokens * 1000 / max (times.prefillMs : Rat) 1,
    genTokens * 1000 / max (decodeMs : Rat) 1, times.prefillMs + times.firstTokenMs⟩, block)

end Backend

end Ios

/-! ## The machine runner -/

namespace Machine

def ROUNDS_PER_TOKEN : Int := 1000

/-- How many rounds are hashed to attest a runner. -/
def ATTEST_ROUNDS : Int := ROUNDS_PER_TOKEN

/-- `source.copy(target, targetStart, sourceStart, sourceEnd)` -/
def copy (source : List UInt8) (target : Block) (targetStart sourceStart sourceEnd : Nat) : Block :=
  .ofFn fun i =>
    if targetStart ≤ i.val then
      ((source.take sourceEnd).drop sourceStart)[i.val - targetStart]?.getD target[i]
    else target[i]

/-- The block that a run starts with. -/
def initBlock : Block := .ofFn fun i => .ofNat (i * 31 &&& 0xff)

/-- A digit of `digest("hex")` -/
def hexDigit (n : UInt8) : Char := Nat.digitChar n.toNat

def hexText (bs : List UInt8) : String :=
  String.ofList (bs.flatMap fun b => [hexDigit (b / 16), hexDigit (b % 16)])

section Backend

variable (sha : Sha256)

/-- The hash of the block is copied over its front, this many times. -/
def foldBlock (block : Block) (rounds : Int) : Block :=
  (fun block => let out := (sha block.toList).toList
    copy out block 0 0 out.length)^[rounds.toNat] block

/-- The rounds of these tokens. -/
def hashTokens (tokens : Int) (block : Block) : Block :=
  foldBlock sha block (tokens * ROUNDS_PER_TOKEN)

/-- The row of an iteration. -/
def iterResult (promptTokens genTokens : Int) (prefillMs firstTokenMs decodeMs : Nat) :
    IterResult :=
  ⟨promptTokens * 1000 / max (prefillMs : Rat) 1, genTokens * 1000 / max (decodeMs : Rat) 1,
    prefillMs + firstTokenMs⟩

def runIteration (promptTokens genTokens : Int) (times : Times) (block : Block) :
    IterResult × Block :=
  let block := hashTokens sha promptTokens block
  let block := hashTokens sha 1 block
  let block := hashTokens sha (max (genTokens - 1) 0) block
  let decodeMs := times.firstTokenMs + times.restMs
  (iterResult promptTokens genTokens times.prefillMs times.firstTokenMs decodeMs, block)

/-- The hash of the block after these rounds. -/
def attestDigest (rounds : Int) : String :=
  let block := foldBlock sha initBlock rounds
  hexText (sha block.toList).toList

/-- `referenceDigest`, which the collector's conformance check is written with -/
def referenceDigest (rounds : Int) : String :=
  let block : Block := .ofFn fun i => .ofNat (i * 31 &&& 0xff)
  let block := (fun block : Block => let out := (sha block.toList).toList
    copy out block 0 0 out.length)^[rounds.toNat] block
  hexText (sha block.toList).toList

end Backend

end Machine

/-! ## Roku -/

namespace Roku

def FLEET_BLOCK_SIZE : Nat := 4096
def FLEET_ROUNDS_PER_TOKEN : Nat := 1000
def FLEET_ATTEST_ROUNDS : Nat := FLEET_ROUNDS_PER_TOKEN

/-- What a Roku has to come to. -/
def FLEET_EXPECTED_ATTEST_DIGEST : String :=
  "d7e8b70dfb48593edebc84967a969e78429f9ac6da8d0c681a4b57a2fe078a84"

/-- `b[i] = v` on an `roByteArray`, which grows. -/
def put (b : List UInt8) (i : Nat) (v : UInt8) : List UInt8 :=
  if i < b.length then b.set i v else b ++ List.replicate (i - b.length) 0 ++ [v]

/-- The block that an iteration starts with. -/
def fleetInitBlock : List UInt8 :=
  (List.range FLEET_BLOCK_SIZE).foldl (fun b i => put b i (.ofNat (i * 31 &&& 255)))
    (put [] (FLEET_BLOCK_SIZE - 1) 0)

def hexValue (c : Char) : UInt8 :=
  if c.isDigit then .ofNat (c.toNat - 48) else .ofNat (c.toNat - 87)

/-- The bytes of `FromHexString` -/
def fromHex : List Char → List UInt8
  | high :: low :: rest => (hexValue high * 16 + hexValue low) :: fromHex rest
  | _ => []

section Backend

variable (sha : Sha256)

/-- `digest.Process(block)`, which gives text -/
def process (block : List UInt8) : String := Machine.hexText (sha block).toList

/-- The same rounds on an array, with the hash read back from its digits. -/
def fleetFoldBlock (block : List UInt8) (rounds : Nat) : List UInt8 :=
  (fun block =>
    let hex := process sha block
    let out := fromHex hex.toList
    (List.range 32).foldl (fun block j => put block j (out.getD j 0)) block)^[rounds] block

/-- The digest that a Roku attests. -/
def fleetAttestDigest : String :=
  let block := fleetInitBlock
  let block := fleetFoldBlock sha block FLEET_ATTEST_ROUNDS
  process sha block

/-- How a Roku's test of its hashing ended. -/
structure SelfTest where
  ok : Bool
  digest : String
  detail : String
  deriving DecidableEq

/-- Checks the block, its hash and the digest, in this order. -/
def fleetSelfTest : SelfTest :=
  let block := fleetInitBlock
  if block.length ≠ FLEET_BLOCK_SIZE then
    ⟨false, "", "block is " ++ toString block.length ++ " bytes, not 4096"⟩
  else if block[0]? ≠ some 0 ∨ block[1]? ≠ some 31 ∨ block[10]? ≠ some 54 then
    ⟨false, "", "block initialisation is not (i * 31) AND 255"⟩
  else
    let tail := block[4095]?
    let block := fleetFoldBlock sha block 1
    if block[4095]? ≠ tail then ⟨false, "", "a fold overwrote past byte 32"⟩
    else if String.ofList ((Machine.hexText block).toList.take 64) ≠
        "695fb69684bbdf7f0df73d0cbcf84b46104edfe6504fd3a1dcbd340f628f8d8a" then
      ⟨false, "", "one fold does not match the reference SHA-256"⟩
    else
      let attested := fleetAttestDigest sha
      if attested ≠ FLEET_EXPECTED_ATTEST_DIGEST then
        ⟨false, attested, "attestation digest does not match the fleet reference"⟩
      else ⟨true, attested, "synthetic block matches the fleet reference"⟩

/-- What the agent says it can run. -/
def capabilities (selfTest : SelfTest) : List String :=
  if selfTest.ok then ["benchmark:roevp"] else []

/-- Tokens, and whether the job is cancelled. A beacon behind a token may find the claim gone. -/
def runTokens (renewed : Nat → Bool) : Nat → Nat → List UInt8 → List UInt8 × Bool
  | 0, _, block => (block, false)
  | count + 1, i, block =>
    let block := fleetFoldBlock sha block FLEET_ROUNDS_PER_TOKEN
    if renewed i then runTokens renewed count (i + 1) block else (block, true)

/-- Behind which tokens of an iteration the claim is still there. -/
structure Claims where
  prompt : Nat → Bool
  first : Nat → Bool
  generated : Nat → Bool

/-- An iteration, on a block of its own, unless the job is cancelled. -/
def runIteration (promptTokens genTokens : Int) (claims : Claims) (times : Times) :
    Option (IterResult × List UInt8) :=
  let block := fleetInitBlock
  let prefill := runTokens sha claims.prompt promptTokens.toNat 0 block
  let first := runTokens sha claims.first 1 0 prefill.1
  let decode := runTokens sha claims.generated (genTokens - 1).toNat 0 first.1
  let decodeMs := times.firstTokenMs + times.restMs
  if prefill.2 ∨ first.2 ∨ decode.2 then none
  else some (⟨promptTokens * 1000 / max (times.prefillMs : Rat) 1,
    genTokens * 1000 / max (decodeMs : Rat) 1, times.prefillMs + times.firstTokenMs⟩, decode.1)

end Backend

end Roku

/-! ## Every runner does what is to be done -/

section Agree

variable {sha : Sha256}

/-- The counts are in the range of Android's integers, with none below zero for iOS. -/
structure Fits (promptTokens genTokens : Int32) : Prop where
  prompt : 0 ≤ promptTokens.toInt ∧ promptTokens.toInt * 1000 < 2 ^ 31
  generated : -2 ^ 31 ≤ (genTokens.toInt - 1) * 1000 ∧ (genTokens.toInt - 1) * 1000 < 2 ^ 31

/-- The three parts of an iteration, one after the other. -/
theorem worked_eq (pp tg : Int) (block : Block) : worked sha pp tg block =
    (fold sha)^[(max (tg - 1) 0 * 1000).toNat]
      ((fold sha)^[1000] ((fold sha)^[(pp * 1000).toNat] block)) := by
  rw [worked, rounds, Nat.add_comm, Function.iterate_add_apply, Nat.add_comm,
    Function.iterate_add_apply]

end Agree

/-! ### Signed bytes -/

namespace Android

variable {sha : Sha256}

theorem load_eq : load = signed start := by
  apply Vector.ext
  intro i hi
  simp [load, signed, start]

theorem toUInt8_signed {n : Nat} (b : Vector UInt8 n) :
    (signed b).toList.map Int8.toUInt8 = b.toList := by
  rw [signed, Vector.toList_map, List.map_map]
  exact List.map_id'' (fun x => UInt8.toUInt8_toInt8 x) _

theorem arraycopy_signed (out : Vector UInt8 32) (block : Block) :
    arraycopy (signed out) 0 (signed block) 0 32 =
      some (signed (overwrite 0 out.toList block)) := by
  rw [arraycopy, if_pos ⟨by decide, by decide⟩]
  apply congrArg some
  apply Vector.ext
  intro i hi
  by_cases hlt : i < 32
  · simp [signed, getElem_overwrite, hlt]
  · simp [signed, getElem_overwrite, hlt]

theorem round_signed (block : Block) :
    round sha (signed block) = some (signed (fold sha block)) := by
  rw [round, digest, toUInt8_signed, arraycopy_signed, fold]

theorem hashTokens_signed (tokens : Int32) (block : Block) :
    hashTokens sha tokens (signed block) =
      some (signed ((fold sha)^[(tokens * 1000).toInt.toNat] block)) := by
  exact timesM_lockstep (e := signed) (f := fold sha) round_signed _ block

/-- A product that fits is the product. -/
theorem toInt_mul_thousand {tokens : Int32} (hlow : -2 ^ 31 ≤ tokens.toInt * 1000)
    (hhigh : tokens.toInt * 1000 < 2 ^ 31) : (tokens * 1000).toInt = tokens.toInt * 1000 := by
  rw [Int32.toInt_mul]
  exact Int.bmod_eq_of_le (by simpa using hlow) (by simpa using hhigh)

theorem toInt_sub_one {tokens : Int32} (hlow : -2 ^ 31 ≤ (tokens.toInt - 1) * 1000) :
    (tokens - 1).toInt = tokens.toInt - 1 := by
  have hlt := tokens.toInt_lt
  rw [Int32.toInt_sub]
  apply Int.bmod_eq_of_le
  · change -2147483648 ≤ tokens.toInt - 1
    omega
  · change tokens.toInt - 1 < 2147483648
    omega

theorem hashTokens_fits {tokens : Int32} (hlow : -2 ^ 31 ≤ tokens.toInt * 1000)
    (hhigh : tokens.toInt * 1000 < 2 ^ 31) (block : Block) :
    hashTokens sha tokens (signed block) =
      some (signed ((fold sha)^[(tokens.toInt * 1000).toNat] block)) := by
  rw [hashTokens_signed, toInt_mul_thousand hlow hhigh]

theorem runIteration_signed {promptTokens genTokens : Int32} (h : Fits promptTokens genTokens)
    (times : Times) (block : Block) :
    runIteration sha promptTokens genTokens times (signed block) =
      some (rates promptTokens.toInt genTokens.toInt times,
        signed (worked sha promptTokens.toInt genTokens.toInt block)) := by
  obtain ⟨⟨hzero, hprompt⟩, hlow, hhigh⟩ := h
  have hminus := toInt_sub_one hlow
  have hmax : (max (genTokens.toInt - 1) 0 * 1000).toNat =
      ((genTokens - 1).toInt * 1000).toNat := by omega
  rw [← hminus] at hlow hhigh
  have hfirst : ∀ b : Block, hashTokens sha 1 (signed b) = some (signed ((fold sha)^[1000] b)) :=
    fun b => hashTokens_fits (by decide) (by decide) b
  rw [runIteration, hashTokens_fits (by omega) hprompt, Option.bind_eq_bind, Option.bind_some,
    hfirst, Option.bind_some, hashTokens_fits hlow hhigh, Option.bind_some, worked_eq, hmax]
  rfl

end Android

/-! ### One byte after the other -/

namespace Ios

variable {sha : Sha256}

theorem load_eq : load = start := by
  apply Vector.ext
  intro i hi
  have hbyte : (Int64.toUInt64 31).toUInt8 = 31 := by decide
  simp [load, start, hbyte]

/-- The writes stay in the block as long as there is room. -/
theorem foldlM_put (xs : List UInt8) (block : Block) {k : Nat} (h : k + xs.length ≤ BLOCK_SIZE) :
    xs.foldlM put (block, k) = .ok (overwrite k xs block, k + xs.length) := by
  induction xs generalizing block k with
  | nil => rw [overwrite_nil]; rfl
  | cons x rest ih =>
      rw [List.length_cons] at h
      have hk : k < BLOCK_SIZE := by omega
      have hput : put (block, k) x = .ok (block.set k x, k + 1) := by
        rw [put, dif_pos hk]
      rw [List.foldlM_cons, hput, overwrite_cons hk, List.length_cons, Nat.add_comm rest.length,
        ← Nat.add_assoc]
      exact ih (block.set k x) (by omega)

theorem round_eq (block : Block) : round sha block = .ok (fold sha block) := by
  have hroom : 0 + (sha block.toList).toList.length ≤ BLOCK_SIZE := by
    rw [Vector.length_toList]
    decide
  rw [round, foldlM_put _ _ hroom]
  rfl

theorem hashTokens_fits {tokens : Int} (hzero : 0 ≤ tokens)
    (hmax : tokens * 1000 ≤ FleetRunner.Ios.intMax) (block : Block) :
    hashTokens sha tokens block = .ok ((fold sha)^[(tokens * 1000).toNat] block) := by
  rw [hashTokens, FleetRunner.Ios.hashTokens_eq_ok.mpr ⟨hzero, hmax⟩]
  exact timesM_lockstep (e := id) (f := fold sha) round_eq _ block

theorem runIteration_eq {pp tg : Int} (h : FleetRunner.Ios.TokensFit pp tg) (times : Times)
    (block : Block) :
    runIteration sha pp tg times block = .ok (rates pp tg times, worked sha pp tg block) := by
  obtain ⟨⟨hzero, hprompt⟩, hmin, hmax, hgenerated⟩ := h
  have hfirst : ∀ b : Block, hashTokens sha 1 b = .ok ((fold sha)^[1000] b) :=
    fun b => hashTokens_fits (by decide) (by decide) b
  have hrest : FleetRunner.Ios.int (tg - 1) = .ok (tg - 1) := if_pos ⟨hmin, hmax⟩
  rw [runIteration, worked_eq]
  refine bind_ok_iff.mpr ⟨_, hashTokens_fits hzero hprompt block, ?_⟩
  refine bind_ok_iff.mpr ⟨_, hfirst _, ?_⟩
  refine bind_ok_iff.mpr ⟨_, hrest, ?_⟩
  refine bind_ok_iff.mpr ⟨_, hashTokens_fits (le_max_right _ _) hgenerated _, ?_⟩
  rfl

theorem hashTokens_bench (sha : Sha256) (tokens : Int) (block : Block) :
    (hashTokens sha tokens block).map (fun _ => ()) = FleetRunner.Ios.hashTokens tokens := by
  rw [hashTokens]
  cases FleetRunner.Ios.hashTokens tokens with
  | error e => rfl
  | ok u =>
      have hround : ∀ b : Block, round sha b = .ok (fold sha b) := round_eq
      have hrun := timesM_lockstep (e := id) (f := fold sha) hround
        (tokens * FleetRunner.Ios.roundsPerToken).toNat block
      change Except.map _ (timesM (round sha) _ (id block)) = _
      rw [hrun]
      rfl

theorem map_bind_unit {α β γ : Type} {x : Except Stop α} {f : α → Except Stop β} {g : β → γ}
    {k : Except Stop γ} (h : ∀ a, (f a).map g = k) :
    (x >>= f).map g = x.map (fun _ => ()) >>= fun _ => k := by
  cases x with
  | error e => rfl
  | ok a => exact h a

/-- What the benchmark jobs are told of an iteration. -/
theorem runIteration_bench (pp tg : Int) (times : Times) (block : Block) :
    (runIteration sha pp tg times block).map Prod.fst =
      FleetRunner.Ios.runIteration pp tg times := by
  unfold runIteration FleetRunner.Ios.runIteration
  rw [← hashTokens_bench sha pp block]
  apply map_bind_unit
  intro prefilled
  rw [← hashTokens_bench sha 1 prefilled]
  apply map_bind_unit
  intro first
  cases FleetRunner.Ios.int (tg - 1) with
  | error e => rfl
  | ok rest =>
      change (hashTokens sha (max rest 0) first >>= _).map _ =
        FleetRunner.Ios.hashTokens (max rest 0) >>= _
      rw [← hashTokens_bench sha (max rest 0) first]
      exact map_bind_unit fun _ => rfl

end Ios

/-! ### Node's buffers -/

namespace Machine

variable {sha : Sha256}

/-- The last byte of a number. -/
theorem ofNat_and_byte (n : Nat) : UInt8.ofNat (n &&& 0xff) = .ofNat n := by
  have hand : n &&& 0xff = n % 256 := Nat.and_two_pow_sub_one_eq_mod n 8
  rw [hand]
  exact UInt8.ofNat_mod_size

theorem initBlock_eq : initBlock = start := by
  apply Vector.ext
  intro i hi
  simp only [initBlock, start, Vector.getElem_ofFn, ofNat_and_byte]

theorem copy_eq (out : List UInt8) (block : Block) :
    copy out block 0 0 out.length = overwrite 0 out block := by
  apply Vector.ext
  intro i hi
  simp [copy, getElem_overwrite]

theorem foldBlock_eq (block : Block) (rounds : Int) :
    foldBlock sha block rounds = (fold sha)^[rounds.toNat] block := by
  have hround : (fun block : Block => let out := (sha block.toList).toList
      copy out block 0 0 out.length) = fold sha := funext fun block => copy_eq _ block
  rw [foldBlock, hround]

theorem runIteration_eq (pp tg : Int) (times : Times) (block : Block) :
    runIteration sha pp tg times block = (rates pp tg times, worked sha pp tg block) := by
  simp only [runIteration, hashTokens, foldBlock_eq]
  rw [worked_eq]
  rfl

/-- The attestation is what the conformance check works out for itself. -/
theorem attestDigest_eq (rounds : Int) : attestDigest sha rounds = referenceDigest sha rounds := rfl

end Machine

/-! ### Arrays that grow, and hashes as text -/

namespace Roku

variable {sha : Sha256}

theorem put_toList {i : Nat} (hi : i < BLOCK_SIZE) (block : Block) (v : UInt8) :
    put block.toList i v = (block.set i v).toList := by
  rw [put, if_pos (by rwa [Vector.length_toList]), Vector.toList_set]

theorem foldl_put (f : Nat → UInt8) (count : Nat) (block : Block) {k : Nat}
    (h : k + count ≤ BLOCK_SIZE) :
    (List.range' k count).foldl (fun b i => put b i (f i)) block.toList =
      (overwrite k ((List.range' k count).map f) block).toList := by
  induction count generalizing block k with
  | zero => rw [List.range'_zero, List.map_nil, overwrite_nil]; rfl
  | succ count ih =>
      have hk : k < BLOCK_SIZE := by omega
      rw [List.range'_succ, List.foldl_cons, put_toList hk, ih _ (by omega), List.map_cons,
        overwrite_cons hk]

/-- The last byte is written first, so that the array has its size. -/
theorem put_last : put [] (FLEET_BLOCK_SIZE - 1) 0 =
    (Vector.replicate BLOCK_SIZE (0 : UInt8)).toList := by
  rw [put, if_neg (by simp), List.nil_append, List.length_nil, Nat.sub_zero,
    Vector.toList_replicate, ← List.replicate_succ']
  rfl

theorem fleetInitBlock_eq : fleetInitBlock = start.toList := by
  rw [fleetInitBlock, put_last, List.range_eq_range', foldl_put _ _ _ (by decide)]
  apply congrArg Vector.toList
  apply Vector.ext
  intro i hi
  have hget : (List.range FLEET_BLOCK_SIZE)[i]? = some i := List.getElem?_range hi
  rw [overwrite, start, Vector.getElem_ofFn, Vector.getElem_ofFn, if_neg (Nat.not_lt_zero _),
    ← List.range_eq_range', List.getElem?_map, Nat.sub_zero, hget, Option.map_some,
    Option.getD_some, Machine.ofNat_and_byte]

theorem hexValue_hexDigit {n : UInt8} (h : n < 16) : hexValue (Machine.hexDigit n) = n := by
  have hall : ∀ k : Fin 16, hexValue (Machine.hexDigit (.ofNat k)) = .ofNat k := by decide
  have hn := hall ⟨n.toNat, h⟩
  rwa [UInt8.ofNat_toNat] at hn

theorem fromHex_hexText (bs : List UInt8) : fromHex (Machine.hexText bs).toList = bs := by
  rw [Machine.hexText, String.toList_ofList]
  induction bs with
  | nil => rfl
  | cons b rest ih =>
      have hhigh : b / 16 < 16 := by
        rw [UInt8.lt_iff_toNat_lt, UInt8.toNat_div]
        have := b.toNat_lt
        change b.toNat / 16 < 16
        omega
      have hlow : b % 16 < 16 := UInt8.mod_lt b (by decide)
      have hbyte : b / 16 * 16 + b % 16 = b := by
        apply UInt8.toNat.inj
        have := b.toNat_lt
        simp only [UInt8.toNat_add, UInt8.toNat_mul, UInt8.toNat_div, UInt8.toNat_mod,
          UInt8.reduceToNat]
        omega
      rw [List.flatMap_cons, List.cons_append, List.cons_append, List.nil_append, fromHex, ih,
        hexValue_hexDigit hhigh, hexValue_hexDigit hlow, hbyte]

/-- The hash is read back from its text. -/
theorem fold_toList : Function.Semiconj Vector.toList (fold sha) fun block =>
    let hex := process sha block
    let out := fromHex hex.toList
    (List.range 32).foldl (fun block j => put block j (out.getD j 0)) block := by
  intro block
  have hout : (List.range' 0 32).map (fun j => (sha block.toList).toList.getD j 0) =
      (sha block.toList).toList := by
    apply List.ext_getElem
    · rw [List.length_map, List.length_range', Vector.length_toList]
    · intro i hi hlt
      rw [List.getElem_map, List.getElem_range', Nat.zero_add, Nat.one_mul,
        List.getD_eq_getElem?_getD, List.getElem?_eq_getElem hlt, Option.getD_some]
  simp only [process, fromHex_hexText]
  rw [List.range_eq_range', foldl_put (fun j => (sha block.toList).toList.getD j 0) 32 block
    (by decide), hout]
  rfl

theorem fleetFoldBlock_toList (block : Block) (rounds : Nat) :
    fleetFoldBlock sha block.toList rounds = ((fold sha)^[rounds] block).toList :=
  (fold_toList.iterate_right rounds block).symm

/-- All of the tokens are done while the claim is there. -/
theorem runTokens_held {renewed : Nat → Bool} {count i : Nat}
    (h : ∀ j < count, renewed (i + j) = true) (block : Block) :
    runTokens sha renewed count i block.toList =
      (((fold sha)^[count * 1000] block).toList, false) := by
  induction count generalizing i block with
  | zero => rw [runTokens, Nat.zero_mul]; rfl
  | succ count ih =>
      have hnext : ∀ j < count, renewed (i + 1 + j) = true := by
        intro j hj
        rw [Nat.add_assoc, Nat.add_comm 1]
        exact h (j + 1) (by omega)
      have hcount : count * 1000 + FLEET_ROUNDS_PER_TOKEN = (count + 1) * 1000 :=
        (Nat.succ_mul count 1000).symm
      have hthere : renewed i = true := h 0 (by omega)
      rw [runTokens, fleetFoldBlock_toList, hthere, if_pos rfl, ih hnext,
        ← Function.iterate_add_apply, hcount]

/-- A beacon that finds it gone cancels the job. -/
theorem runTokens_gone {renewed : Nat → Bool} {count i j : Nat} (hj : j < count)
    (h : renewed (i + j) = false) (block : List UInt8) :
    (runTokens sha renewed count i block).2 = true := by
  induction count generalizing i j block with
  | zero => omega
  | succ count ih =>
      rw [runTokens]
      cases hrenewed : renewed i with
      | false => rfl
      | true =>
          cases j with
          | zero =>
              rw [Nat.add_zero, hrenewed] at h
              cases h
          | succ j =>
              rw [if_pos rfl]
              apply ih (j := j) (by omega)
              rw [Nat.add_assoc, Nat.add_comm 1]
              exact h

/-- The claim is there behind all tokens of an iteration. -/
structure Claims.Held (claims : Claims) (promptTokens genTokens : Int) : Prop where
  prompt : ∀ j < promptTokens.toNat, claims.prompt j = true
  first : claims.first 0 = true
  generated : ∀ j < (genTokens - 1).toNat, claims.generated j = true

theorem runIteration_held {pp tg : Int} {claims : Claims} (h : claims.Held pp tg) (times : Times) :
    runIteration sha pp tg claims times =
      some (rates pp tg times, (worked sha pp tg start).toList) := by
  have hpp : pp.toNat * 1000 = (pp * 1000).toNat := by omega
  have htg : (tg - 1).toNat * 1000 = (max (tg - 1) 0 * 1000).toNat := by
    rw [← Int.toNat_eq_max]
    exact (Int.toNat_natCast _).symm
  have hprompt : ∀ j < pp.toNat, claims.prompt (0 + j) = true := by
    simpa only [Nat.zero_add] using h.prompt
  have hfirst : ∀ j < 1, claims.first (0 + j) = true := by
    intro j hj
    obtain rfl : j = 0 := by omega
    exact h.first
  have hgenerated : ∀ j < (tg - 1).toNat, claims.generated (0 + j) = true := by
    simpa only [Nat.zero_add] using h.generated
  unfold runIteration
  rw [fleetInitBlock_eq]
  dsimp only
  rw [runTokens_held hprompt, runTokens_held hfirst, runTokens_held hgenerated, hpp, htg,
    Nat.one_mul, worked_eq, if_neg (by simp)]
  rfl

theorem runIteration_gone {pp tg : Int} {claims : Claims} (h : ¬ claims.Held pp tg)
    (times : Times) : runIteration sha pp tg claims times = none := by
  unfold runIteration
  dsimp only
  apply if_pos
  by_contra hnone
  rw [not_or, not_or] at hnone
  obtain ⟨hprompt, hfirst, hgenerated⟩ := hnone
  apply h
  refine ⟨?_, ?_, ?_⟩
  · intro j hj
    by_contra hgone
    rw [Bool.not_eq_true] at hgone
    exact hprompt (runTokens_gone hj (by rwa [Nat.zero_add]) _)
  · by_contra hgone
    rw [Bool.not_eq_true] at hgone
    exact hfirst (runTokens_gone Nat.one_pos hgone _)
  · intro j hj
    by_contra hgone
    rw [Bool.not_eq_true] at hgone
    exact hgenerated (runTokens_gone hj (by rwa [Nat.zero_add]) _)

theorem fleetAttestDigest_eq :
    fleetAttestDigest sha = Machine.attestDigest sha Machine.ATTEST_ROUNDS := by
  rw [fleetAttestDigest, fleetInitBlock_eq, fleetFoldBlock_toList, Machine.attestDigest,
    Machine.foldBlock_eq, Machine.initBlock_eq]
  rfl

theorem start_getElem? {i : Nat} (hi : i < BLOCK_SIZE) :
    start.toList[i]? = some (.ofNat (i * 31)) := by
  rw [List.getElem?_eq_getElem (by rwa [Vector.length_toList]), Vector.getElem_toList, start,
    Vector.getElem_ofFn]

/-- Two digits for each byte. -/
theorem take_hexText (xs ys : List UInt8) :
    String.ofList ((Machine.hexText (xs ++ ys)).toList.take (2 * xs.length)) =
      Machine.hexText xs := by
  have hlength : (xs.flatMap fun b =>
      [Machine.hexDigit (b / 16), Machine.hexDigit (b % 16)]).length = 2 * xs.length := by
    induction xs with
    | nil => rfl
    | cons b rest ih =>
        rw [List.flatMap_cons, List.length_append, ih, List.length_cons]
        change 2 + 2 * rest.length = 2 * (rest.length + 1)
        omega
  rw [Machine.hexText, String.toList_ofList, List.flatMap_append, List.take_left' hlength]
  rfl

/-- Only the hashes decide the self-test. -/
theorem fleetSelfTest_eq : fleetSelfTest sha =
    if Machine.hexText (sha start.toList).toList ≠
        "695fb69684bbdf7f0df73d0cbcf84b46104edfe6504fd3a1dcbd340f628f8d8a" then
      ⟨false, "", "one fold does not match the reference SHA-256"⟩
    else if fleetAttestDigest sha ≠ FLEET_EXPECTED_ATTEST_DIGEST then
      ⟨false, fleetAttestDigest sha, "attestation digest does not match the fleet reference"⟩
    else ⟨true, fleetAttestDigest sha, "synthetic block matches the fleet reference"⟩ := by
  have hfold : fleetFoldBlock sha start.toList 1 = (fold sha start).toList :=
    fleetFoldBlock_toList start 1
  have hsize : ¬ start.toList.length ≠ FLEET_BLOCK_SIZE := fun h => h Vector.length_toList
  have hhead : ¬ (start.toList[0]? ≠ some 0 ∨ start.toList[1]? ≠ some 31 ∨
      start.toList[10]? ≠ some 54) := by
    rw [start_getElem? (by decide), start_getElem? (by decide), start_getElem? (by decide)]
    decide
  have htail : ¬ (fold sha start).toList[4095]? ≠ start.toList[4095]? := by
    rw [not_not, List.getElem?_eq_getElem (by rw [Vector.length_toList]; decide),
      List.getElem?_eq_getElem (by rw [Vector.length_toList]; decide), Vector.getElem_toList,
      Vector.getElem_toList, fold, getElem_overwrite_of_le]
    rw [Vector.length_toList]
    decide
  have hhash : String.ofList ((Machine.hexText (fold sha start).toList).toList.take 64) =
      Machine.hexText (sha start.toList).toList := by
    have hroom : (sha start.toList).toList.length ≤ BLOCK_SIZE := by
      rw [Vector.length_toList]
      decide
    have hdigits : 64 = 2 * (sha start.toList).toList.length := by rw [Vector.length_toList]
    rw [← List.take_append_drop (sha start.toList).toList.length (fold sha start).toList, fold,
      take_overwrite hroom, hdigits, take_hexText]
  unfold fleetSelfTest
  rw [fleetInitBlock_eq]
  dsimp only
  rw [hfold]
  refine (if_neg hsize).trans ((if_neg hhead).trans ((if_neg htail).trans ?_))
  rw [hhash]

end Roku

/-! ## One benchmark -/

section Benchmarks

variable {sha : Sha256} {promptTokens genTokens : Int32}

/-- Every count that Android's integers hold iOS's hold as well. -/
theorem Fits.tokensFit (h : Fits promptTokens genTokens) :
    FleetRunner.Ios.TokensFit promptTokens.toInt genTokens.toInt := by
  obtain ⟨⟨hzero, hprompt⟩, hlow, hhigh⟩ := h
  have hlimit : FleetRunner.Ios.intMax = 2 ^ 63 - 1 ∧ FleetRunner.Ios.intMin = -2 ^ 63 :=
    ⟨rfl, rfl⟩
  refine ⟨⟨hzero, ?_⟩, ?_, ?_, ?_⟩ <;> omega

/-- A benchmark of any length does the same work on every runner, and makes the
same of the same times. On a Roku each iteration is the first one, unless the
job is cancelled in it. -/
theorem benchmarks_agree (h : Fits promptTokens genTokens) (ts : List Times) :
    eachM (Android.runIteration sha promptTokens genTokens) ts Android.load =
        some (ts.map (rates promptTokens.toInt genTokens.toInt),
          Android.signed ((worked sha promptTokens.toInt genTokens.toInt)^[ts.length] start)) ∧
      eachM (Ios.runIteration sha promptTokens.toInt genTokens.toInt) ts Ios.load =
        .ok (ts.map (rates promptTokens.toInt genTokens.toInt),
          (worked sha promptTokens.toInt genTokens.toInt)^[ts.length] start) ∧
      eachM (m := Id) (Machine.runIteration sha promptTokens.toInt genTokens.toInt) ts
          Machine.initBlock =
        (ts.map (rates promptTokens.toInt genTokens.toInt),
          (worked sha promptTokens.toInt genTokens.toInt)^[ts.length] start) ∧
      ∀ (claims : Roku.Claims) (times : Times),
        (claims.Held promptTokens.toInt genTokens.toInt →
          Roku.runIteration sha promptTokens.toInt genTokens.toInt claims times =
            some (rates promptTokens.toInt genTokens.toInt times,
              (worked sha promptTokens.toInt genTokens.toInt start).toList)) ∧
          (¬ claims.Held promptTokens.toInt genTokens.toInt →
            Roku.runIteration sha promptTokens.toInt genTokens.toInt claims times = none) := by
  refine ⟨?_, ?_, ?_, ?_⟩
  · rw [Android.load_eq]
    exact eachM_lockstep (e := Android.signed)
      (fun times block => Android.runIteration_signed h times block) ts start
  · rw [Ios.load_eq]
    exact eachM_lockstep (e := id)
      (fun times block => Ios.runIteration_eq h.tokensFit times block) ts start
  · rw [Machine.initBlock_eq]
    exact eachM_lockstep (m := Id) (e := id)
      (fun times block => Machine.runIteration_eq _ _ times block) ts start
  · intro claims times
    exact ⟨fun hheld => Roku.runIteration_held hheld times,
      fun hgone => Roku.runIteration_gone hgone times⟩

/-- A hash that is another one for each block. -/
def toyHash : Sha256 := fun block => .ofFn fun i => block.headD 0 + .ofNat (i.val + 1)

/-- A benchmark of two iterations, and one on a Roku that keeps its claim in the first and has lost
it behind the second token of the next. -/
theorem benchmarks_agree_small :
    let ts : List Times := [⟨3, 1, 0⟩, ⟨0, 2, 0⟩]
    let kept : Roku.Claims := ⟨fun _ => true, fun _ => true, fun _ => true⟩
    let lost : Roku.Claims := ⟨fun i => i = 0, fun _ => true, fun _ => true⟩
    eachM (Android.runIteration toyHash 2 0) ts Android.load =
        some (ts.map (rates 2 0), Android.signed ((worked toyHash 2 0)^[2] start)) ∧
      eachM (Ios.runIteration toyHash 2 0) ts Ios.load =
        .ok (ts.map (rates 2 0), (worked toyHash 2 0)^[2] start) ∧
      eachM (m := Id) (Machine.runIteration toyHash 2 0) ts Machine.initBlock =
        (ts.map (rates 2 0), (worked toyHash 2 0)^[2] start) ∧
      Roku.runIteration toyHash 2 0 kept ⟨3, 1, 0⟩ =
        some (rates 2 0 ⟨3, 1, 0⟩, (worked toyHash 2 0 start).toList) ∧
      Roku.runIteration toyHash 2 0 lost ⟨0, 2, 0⟩ = none := by
  intro ts kept lost
  have hfits : Fits 2 0 := ⟨by decide, by decide⟩
  have htwo : (2 : Int32).toInt = 2 := by decide
  have hzero : (0 : Int32).toInt = 0 := by decide
  have hagree := @benchmarks_agree toyHash 2 0 hfits ts
  rw [htwo, hzero] at hagree
  obtain ⟨handroid, hios, hmachine, hroku⟩ := hagree
  refine ⟨handroid, hios, hmachine, (hroku kept ⟨3, 1, 0⟩).1 ?_, (hroku lost ⟨0, 2, 0⟩).2 ?_⟩
  · exact ⟨fun _ _ => rfl, rfl, fun _ _ => rfl⟩
  · intro hheld
    have hsecond : lost.prompt 1 = true := hheld.prompt 1 (by decide)
    revert hsecond
    decide

/-- A Roku takes benchmarks exactly when its hashes are right. What it attests
then is what the machine runner attests. -/
theorem attested_by_selfTest :
    (Roku.capabilities (Roku.fleetSelfTest sha) = ["benchmark:roevp"] ↔
      Machine.hexText (sha start.toList).toList =
          "695fb69684bbdf7f0df73d0cbcf84b46104edfe6504fd3a1dcbd340f628f8d8a" ∧
        Machine.referenceDigest sha Machine.ATTEST_ROUNDS = Roku.FLEET_EXPECTED_ATTEST_DIGEST) ∧
      (Roku.capabilities (Roku.fleetSelfTest sha) = ["benchmark:roevp"] →
        (Roku.fleetSelfTest sha).digest = Machine.attestDigest sha Machine.ATTEST_ROUNDS) := by
  rw [Roku.fleetSelfTest_eq, Roku.fleetAttestDigest_eq, ← Machine.attestDigest_eq]
  by_cases hhash : Machine.hexText (sha start.toList).toList =
      "695fb69684bbdf7f0df73d0cbcf84b46104edfe6504fd3a1dcbd340f628f8d8a"
  · by_cases hattest : Machine.attestDigest sha Machine.ATTEST_ROUNDS =
        Roku.FLEET_EXPECTED_ATTEST_DIGEST
    · simp [Roku.capabilities, hhash, hattest]
    · simp [Roku.capabilities, hhash, hattest]
  · simp [Roku.capabilities, hhash]

end Benchmarks

end FleetRunner.Synthetic
