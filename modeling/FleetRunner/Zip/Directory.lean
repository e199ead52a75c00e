import FleetRunner.Library.LittleEndian
import FleetRunner.Library.Utf8
import Mathlib.Data.List.Forall2
import Mathlib.Data.Nat.Log
import Mathlib.Tactic.Linarith

/-!
# The zip directory (`zip-dir.ts`)

The reader looks for the end record from the buffer's end, takes the count and the
place of the directory from it or from the Zip64 record before it, and reads the
central records one behind the other.

What is read is a function of the places of the records, for every buffer: there is a
row for every record, or an error when one is missing. The reader does not look at
where the last record ends, nor at whether a Zip64 block has room for all that it is
to give.
-/

namespace FleetRunner.Zip

open Library.LittleEndian

/-! ## The program -/

structure ZipEntry where
  name : List Char
  uncompressed : Nat
  compressed : Nat
  deriving DecidableEq

/-- What is thrown: an error with a text, or a read out of range. -/
inductive Refusal where
  | error (text : String)
  | rangeError
  deriving DecidableEq

def EOCD_SIG : Nat := 0x06054b50
def CEN_SIG : Nat := 0x02014b50
def ZIP64_EOCD_LOCATOR_SIG : Nat := 0x07064b50
def ZIP64_EOCD_SIG : Nat := 0x06064b50
def U32_MAX : Nat := 0xffffffff

/-- `Number(n)`: the nearest number that has 53 bits, and of two the even one. -/
def toNumber (n : Nat) : Nat :=
  let unit := 2 ^ (n.log2 - 52)
  let below := n / unit
  let rest := n % unit
  if 2 * rest < unit ∨ (2 * rest = unit ∧ below % 2 = 0) then below * unit else (below + 1) * unit

/-- `buf.readUInt32LE(place)` and its kin -/
def readUIntLE (buf : List UInt8) (place width : Nat) : Except Refusal Nat :=
  if place + width ≤ buf.length then .ok (field buf place width) else .error .rangeError

/-- The loop of `findEocd`, over the places from `start` on. -/
def scanBack (buf : List UInt8) (start : Nat) : Nat → Option Nat
  | 0 => none
  | k + 1 => if field buf (start + k) 4 = EOCD_SIG then some (start + k) else scanBack buf start k

def findEocd (buf : List UInt8) : Option Nat :=
  let start := if buf.length ≤ 0xffff + 22 then 0 else buf.length - (0xffff + 22)
  scanBack buf start (buf.length + 1 - 22 - start)

/-- The loop of `zip64Sizes`: what the first block with id `0x0001` holds. -/
def zip64Block : Nat → List UInt8 → Option (List UInt8)
  | 0, _ => none
  | fuel + 1, extra =>
    if extra.length < 4 then none
    else
      let id := field extra 0 2
      let len := field extra 2 2
      if extra.length < 4 + len then none
      else if id = 0x0001 then some (slice extra 4 len)
      else zip64Block fuel (extra.drop (4 + len))

structure Sizes where
  uncompressed : Nat
  compressed : Nat

/-- A size that stands in the block from `start` on, or the one that did not overflow. -/
def sizeIn (body : List UInt8) (need : Bool) (start size32 : Nat) : Nat :=
  if need && decide (start + 8 ≤ body.length) then toNumber (field body start 8) else size32

def zip64Sizes (extra : List UInt8) (uncompressed32 compressed32 : Nat) : Except Refusal Sizes :=
  let needUncompressed := decide (uncompressed32 = U32_MAX)
  let needCompressed := decide (compressed32 = U32_MAX)
  if !needUncompressed && !needCompressed then .ok ⟨uncompressed32, compressed32⟩
  else
    match zip64Block extra.length extra with
    | some body =>
      let second := if needUncompressed && decide (8 ≤ body.length) then 8 else 0
      .ok ⟨sizeIn body needUncompressed 0 uncompressed32,
        sizeIn body needCompressed second compressed32⟩
    | none =>
      .error (.error
        "entry declares a Zip64 size but carries no Zip64 extra field; the archive is malformed")

/-- The count of entries and the place of the directory, as the end record has them. -/
def endRecord (buf : List UInt8) (eocd : Nat) : Except Refusal (Nat × Nat) :=
  let entryCount := field buf (eocd + 10) 2
  let cenOffset := field buf (eocd + 16) 4
  if entryCount = 0xffff ∨ cenOffset = 0xffffffff then
    if 20 ≤ eocd ∧ field buf (eocd - 20) 4 = ZIP64_EOCD_LOCATOR_SIG then do
      let z64 := toNumber (field buf (eocd - 20 + 8) 8)
      let signature ← readUIntLE buf z64 4
      if signature = ZIP64_EOCD_SIG then do
        let entryCount ← readUIntLE buf (z64 + 32) 8
        let cenOffset ← readUIntLE buf (z64 + 48) 8
        return (entryCount, cenOffset)
      else return (entryCount, cenOffset)
    else return (entryCount, cenOffset)
  else return (entryCount, cenOffset)

/-- The loop of `readZipEntries`, with the records that are left and the place of the next. -/
def readEntries (buf : List UInt8) (entryCount : Nat) : Nat → Nat → Except Refusal (List ZipEntry)
  | 0, _ => .ok []
  | left + 1, p =>
    if buf.length < p + 46 ∨ field buf p 4 ≠ CEN_SIG then
      let i := entryCount - (left + 1)
      .error (.error s!"zip central directory ended after {i} of {entryCount} entries")
    else do
      let nameLen := field buf (p + 28) 2
      let extraLen := field buf (p + 30) 2
      let commentLen := field buf (p + 32) 2
      let name := Library.Utf8.decode (slice buf (p + 46) nameLen)
      let sizes ← zip64Sizes (slice buf (p + 46 + nameLen) extraLen) (field buf (p + 24) 4)
        (field buf (p + 20) 4)
      let entries ← readEntries buf entryCount left (p + 46 + nameLen + extraLen + commentLen)
      return ⟨name, sizes.uncompressed, sizes.compressed⟩ :: entries

/-- What is read behind the end record. A number below `2 ^ 53` is itself. -/
def readFrom (buf : List UInt8) (eocd : Nat) : Except Refusal (List ZipEntry) := do
  let (entryCount, cenOffset) ← endRecord buf eocd
  readEntries buf (toNumber entryCount) (toNumber entryCount) (toNumber cenOffset)

def readZipEntries (buf : List UInt8) : Except Refusal (List ZipEntry) :=
  match findEocd buf with
  | none => .error (.error "not a zip: no end-of-central-directory record in the last 64 KiB")
  | some eocd => readFrom buf eocd

/-! ## Numbers -/

theorem toNumber_of_lt {n : Nat} (h : n < 2 ^ 53) : toNumber n = n := by
  have hlog : n.log2 - 52 = 0 := by
    by_cases hzero : n = 0
    · simp [hzero]
    · have hlt := (Nat.log2_lt hzero).mpr h
      omega
  simp [toNumber, hlog, Nat.mod_one]

theorem le_toNumber {n : Nat} (h : 2 ^ 53 ≤ n) : 2 ^ 53 ≤ toNumber n := by
  have hne : n ≠ 0 := by
    rintro rfl
    simp at h
  have hlog : 53 ≤ n.log2 := (Nat.le_log2 hne).mpr h
  have hunit : 2 ^ 53 ≤ n / 2 ^ (n.log2 - 52) * 2 ^ (n.log2 - 52) := by
    have hbelow : 2 ^ 52 ≤ n / 2 ^ (n.log2 - 52) := by
      rw [Nat.le_div_iff_mul_le (Nat.two_pow_pos _), ← Nat.pow_add]
      have hexp : 52 + (n.log2 - 52) = n.log2 := by omega
      rw [hexp]
      exact Nat.log2_self_le hne
    have htwo : 2 ^ 1 ≤ 2 ^ (n.log2 - 52) := Nat.pow_le_pow_right (by decide) (by omega)
    calc 2 ^ 53 = 2 ^ 52 * 2 ^ 1 := by decide
      _ ≤ n / 2 ^ (n.log2 - 52) * 2 ^ (n.log2 - 52) := Nat.mul_le_mul hbelow htwo
  rw [toNumber]
  split
  · exact hunit
  · exact hunit.trans (Nat.mul_le_mul_right _ (Nat.le_succ _))

/-! ## The end record -/

theorem scanBack_eq_some_iff {buf : List UInt8} {start k i : Nat} :
    scanBack buf start k = some i ↔ start ≤ i ∧ i < start + k ∧ field buf i 4 = EOCD_SIG ∧
      ∀ j, i < j → j < start + k → field buf j 4 ≠ EOCD_SIG := by
  induction k with
  | zero =>
    refine iff_of_false (fun h => by cases h) fun h => ?_
    omega
  | succ k ih =>
    rw [scanBack]
    split
    · next hsig =>
      rw [Option.some.injEq]
      constructor
      · rintro rfl
        exact ⟨by omega, by omega, hsig, fun j _ _ => by omega⟩
      · rintro ⟨-, hlt, -, hlast⟩
        by_contra hne
        exact hlast (start + k) (by omega) (by omega) hsig
    · next hsig =>
      rw [ih]
      constructor
      · rintro ⟨hstart, hlt, hi, hlast⟩
        refine ⟨hstart, by omega, hi, fun j hj hlt' => ?_⟩
        rcases Nat.lt_or_eq_of_le (Nat.le_of_lt_succ hlt') with hbelow | rfl
        · exact hlast j hj hbelow
        · exact hsig
      · rintro ⟨hstart, hlt, hi, hlast⟩
        have hne : i ≠ start + k := fun h => hsig (h ▸ hi)
        exact ⟨hstart, by omega, hi, fun j hj hlt' => hlast j hj (by omega)⟩

/-- The last place where an end record can begin and its signature stands. -/
structure IsLast (buf : List UInt8) (i : Nat) : Prop where
  near : buf.length ≤ i + (0xffff + 22)
  fits : i + 22 ≤ buf.length
  signature : field buf i 4 = EOCD_SIG
  last : ∀ j, i < j → j + 22 ≤ buf.length → field buf j 4 ≠ EOCD_SIG

theorem findEocd_eq_some_iff {buf : List UInt8} {i : Nat} :
    findEocd buf = some i ↔ IsLast buf i := by
  rw [findEocd, scanBack_eq_some_iff]
  have hstart : (if buf.length ≤ 0xffff + 22 then 0 else buf.length - (0xffff + 22)) =
      buf.length - (0xffff + 22) := by split <;> omega
  rw [hstart]
  constructor
  · rintro ⟨hstart, hlt, hsig, hlast⟩
    exact ⟨by omega, by omega, hsig, fun j hj hfits => hlast j hj (by omega)⟩
  · rintro ⟨hnear, hfits, hsig, hlast⟩
    exact ⟨by omega, by omega, hsig, fun j hj hlt => hlast j hj (by omega)⟩

/-! ## What is read -/

section Records

variable (buf : List UInt8)

/-- Where the record at `p` ends by its own lengths. -/
def recordEnd (p : Nat) : Nat :=
  p + 46 + field buf (p + 28) 2 + field buf (p + 30) 2 + field buf (p + 32) 2

/-- The extra field of the record, as far as the buffer goes. -/
def extraOf (p : Nat) : List UInt8 :=
  slice buf (p + 46 + field buf (p + 28) 2) (field buf (p + 30) 2)

def nameOf (p : Nat) : List Char :=
  Library.Utf8.decode (slice buf (p + 46) (field buf (p + 28) 2))

def sizesOf (p : Nat) : Except Refusal Sizes :=
  zip64Sizes (extraOf buf p) (field buf (p + 24) 4) (field buf (p + 20) 4)

/-- The places of the records, each at the end of the one before. -/
def places : Nat → Nat → List Nat
  | 0, _ => []
  | n + 1, p => p :: places n (recordEnd buf p)

/-- A size overflowed. -/
def Saturated (p : Nat) : Prop :=
  field buf (p + 24) 4 = U32_MAX ∨ field buf (p + 20) 4 = U32_MAX

instance (p : Nat) : Decidable (Saturated buf p) := inferInstanceAs (Decidable (_ ∨ _))

/-- The record's fixed part is in the buffer, and a Zip64 block is where a size overflowed. -/
structure Present (p : Nat) : Prop where
  inside : p + 46 ≤ buf.length
  signature : field buf p 4 = CEN_SIG
  block : Saturated buf p → ∃ body, zip64Block (extraOf buf p).length (extraOf buf p) = some body

/-- The block that the sizes are taken from. -/
def bodyOf (p : Nat) : List UInt8 :=
  (zip64Block (extraOf buf p).length (extraOf buf p)).getD []

/-- The place of the compressed size in the block. -/
def secondOf (p : Nat) : Nat :=
  if field buf (p + 24) 4 = U32_MAX ∧ 8 ≤ (bodyOf buf p).length then 8 else 0

/-- The row that the record at `p` makes. -/
def rowOf (p : Nat) : ZipEntry where
  name := nameOf buf p
  uncompressed := sizeIn (bodyOf buf p) (decide (field buf (p + 24) 4 = U32_MAX)) 0
    (field buf (p + 24) 4)
  compressed := sizeIn (bodyOf buf p) (decide (field buf (p + 20) 4 = U32_MAX)) (secondOf buf p)
    (field buf (p + 20) 4)

variable {buf}

theorem sizesOf_eq_ok_iff {p : Nat} {sizes : Sizes} : sizesOf buf p = .ok sizes ↔
    (Saturated buf p → ∃ body, zip64Block (extraOf buf p).length (extraOf buf p) = some body) ∧
      sizes = ⟨(rowOf buf p).uncompressed, (rowOf buf p).compressed⟩ := by
  unfold sizesOf zip64Sizes Saturated rowOf secondOf bodyOf
  by_cases hu : field buf (p + 24) 4 = U32_MAX <;> by_cases hc : field buf (p + 20) 4 = U32_MAX <;>
    cases hblock : zip64Block (extraOf buf p).length (extraOf buf p) <;>
    simp [hu, hc, sizeIn, eq_comm]

theorem readEntries_eq_ok_iff {total n p : Nat} {rows : List ZipEntry} :
    readEntries buf total n p = .ok rows ↔
      (∀ q ∈ places buf n p, Present buf q) ∧ rows = (places buf n p).map (rowOf buf) := by
  induction n generalizing p rows with
  | zero =>
    simp only [readEntries, places, List.not_mem_nil, false_implies, implies_true, true_and,
      List.map_nil, Except.ok.injEq]
    exact eq_comm
  | succ n ih =>
    rw [readEntries, places, List.forall_mem_cons, List.map_cons]
    split
    · next hno =>
      refine iff_of_false (fun h => by cases h) fun h => ?_
      exact hno.elim (fun hlt => by have := h.1.1.inside; omega) fun hsig => hsig h.1.1.signature
    · next hyes =>
      rw [not_or, not_lt, not_not] at hyes
      have hrow : ∀ sizes, sizesOf buf p = .ok sizes ↔
          Present buf p ∧ sizes = ⟨(rowOf buf p).uncompressed, (rowOf buf p).compressed⟩ :=
        fun sizes => sizesOf_eq_ok_iff.trans
          (and_congr_left' ⟨fun h => ⟨hyes.1, hyes.2, h⟩, fun h => h.block⟩)
      change (sizesOf buf p >>= fun sizes =>
        readEntries buf total n (recordEnd buf p) >>= fun entries => .ok
          (⟨nameOf buf p, sizes.uncompressed, sizes.compressed⟩ :: entries)) = .ok rows ↔ _
      cases hsizes : sizesOf buf p with
      | error e =>
        refine iff_of_false (fun h => by cases h) fun h => ?_
        have hok := (hrow _).mpr ⟨h.1.1, rfl⟩
        rw [hsizes] at hok
        cases hok
      | ok sizes =>
        obtain ⟨hpresent, rfl⟩ := (hrow sizes).mp hsizes
        cases hrest : readEntries buf total n (recordEnd buf p) with
        | error e =>
          refine iff_of_false (fun h => by cases h) fun h => ?_
          have hok := ih.mpr ⟨h.1.2, rfl⟩
          rw [hrest] at hok
          cases hok
        | ok entries =>
          obtain ⟨hall, rfl⟩ := ih.mp hrest
          refine ⟨fun h => ⟨⟨hpresent, hall⟩, (Except.ok.inj h).symm⟩, fun h => ?_⟩
          rw [h.2]
          rfl

end Records

/-! ## The directory behind an end record -/

/-- The rows of the directory that an end record names. -/
def Lists (buf : List UInt8) (eocd : Nat) (rows : List ZipEntry) : Prop :=
  ∃ entryCount cenOffset, endRecord buf eocd = .ok (entryCount, cenOffset) ∧
    (∀ p ∈ places buf entryCount cenOffset, Present buf p) ∧
    rows = (places buf entryCount cenOffset).map (rowOf buf)

theorem length_places (buf : List UInt8) (n p : Nat) : (places buf n p).length = n := by
  induction n generalizing p with
  | zero => rfl
  | succ n ih => rw [places, List.length_cons, ih]

/-- Every record takes its fixed part at least. -/
theorem places_bound {buf : List UInt8} {n p : Nat}
    (h : ∀ q ∈ places buf n p, Present buf q) : n = 0 ∨ p + 46 * n ≤ buf.length := by
  induction n generalizing p with
  | zero => exact .inl rfl
  | succ n ih =>
    obtain ⟨hfirst, hrest⟩ := List.forall_mem_cons.mp h
    have hinside := hfirst.inside
    have hnext : p + 46 ≤ recordEnd buf p := by
      unfold recordEnd
      omega
    rcases ih hrest with rfl | hbound <;> omega

theorem toNumber_eq_of_lt {n : Nat} (h : toNumber n < 2 ^ 53) : toNumber n = n := by
  refine toNumber_of_lt (Nat.lt_of_not_le fun hle => ?_)
  exact absurd (le_toNumber hle) (Nat.not_le.mpr h)

/-- Where the records are in the buffer, their count and their place are exact. -/
theorem places_toNumber {buf : List UInt8} (hbuf : buf.length < 2 ^ 53) {n p : Nat}
    (h : (∀ q ∈ places buf (toNumber n) (toNumber p), Present buf q) ∨
      ∀ q ∈ places buf n p, Present buf q) :
    places buf (toNumber n) (toNumber p) = places buf n p := by
  have hboth : toNumber n = n ∧ (n = 0 ∨ toNumber p = p) := by
    rcases h with h | h
    · have hbound := places_bound h
      have hn : toNumber n = n := toNumber_eq_of_lt (by omega)
      rw [hn] at hbound
      exact ⟨hn, hbound.imp_right fun hp => toNumber_eq_of_lt (by omega)⟩
    · have hbound := places_bound h
      exact ⟨toNumber_of_lt (by omega), hbound.imp_right fun hp => toNumber_of_lt (by omega)⟩
  obtain ⟨hn, rfl | hp⟩ := hboth
  · rw [hn]
    rfl
  · rw [hn, hp]

/-- A buffer: no longer than a number that is exact. -/
structure Buffer where
  bytes : List UInt8
  short : bytes.length < 2 ^ 53

/-- Behind an end record the reader reads what is listed there, and nothing else. -/
theorem readFrom_eq_ok_iff (buf : Buffer) {eocd : Nat} {rows : List ZipEntry} :
    readFrom buf.bytes eocd = .ok rows ↔ Lists buf.bytes eocd rows := by
  unfold readFrom Lists
  cases hend : endRecord buf.bytes eocd with
  | error e => exact iff_of_false (fun h => by cases h) fun ⟨_, _, h, _⟩ => by cases h
  | ok pair =>
    obtain ⟨entryCount, cenOffset⟩ := pair
    change readEntries _ _ _ _ = _ ↔ _
    rw [readEntries_eq_ok_iff]
    constructor
    · rintro ⟨hall, hrows⟩
      have hplaces := places_toNumber buf.short (.inl hall)
      rw [hplaces] at hall hrows
      exact ⟨_, _, rfl, hall, hrows⟩
    · rintro ⟨n, p, hpair, hall, hrows⟩
      obtain ⟨rfl, rfl⟩ := Prod.mk.inj (Except.ok.inj hpair)
      rw [places_toNumber buf.short (.inr hall)]
      exact ⟨hall, hrows⟩

theorem readZipEntries_of_last {buf : List UInt8} {eocd : Nat} (h : IsLast buf eocd) :
    readZipEntries buf = readFrom buf eocd := by
  rw [readZipEntries, findEocd_eq_some_iff.mpr h]

theorem readZipEntries_eq_ok_iff (buf : Buffer) {rows : List ZipEntry} :
    readZipEntries buf.bytes = .ok rows ↔
      ∃ eocd, IsLast buf.bytes eocd ∧ Lists buf.bytes eocd rows := by
  constructor
  · intro h
    cases hfind : findEocd buf.bytes with
    | none =>
      rw [readZipEntries, hfind] at h
      cases h
    | some eocd =>
      have hlast := findEocd_eq_some_iff.mp hfind
      rw [readZipEntries_of_last hlast] at h
      exact ⟨eocd, hlast, (readFrom_eq_ok_iff buf).mp h⟩
  · rintro ⟨eocd, hlast, h⟩
    rw [readZipEntries_of_last hlast]
    exact (readFrom_eq_ok_iff buf).mpr h

/-! ## A directory that is read whole -/

section Whole

variable (buf : List UInt8) (p : Nat)

/-- The archive has the uncompressed size, in 32 bits or in the block. -/
def GivesUncompressed : Prop :=
  field buf (p + 24) 4 ≠ U32_MAX ∨ 8 ≤ (bodyOf buf p).length

/-- The compressed size comes second in the block where both overflowed. -/
def GivesCompressed : Prop :=
  field buf (p + 20) 4 ≠ U32_MAX ∨
    (if field buf (p + 24) 4 = U32_MAX then 16 else 8) ≤ (bodyOf buf p).length

/-- The record is in the buffer, and no size of the row is a stand-in. -/
structure WholeRecord (row : ZipEntry) : Prop where
  inside : recordEnd buf p ≤ buf.length
  uncompressed : row.uncompressed = U32_MAX → GivesUncompressed buf p
  compressed : row.compressed = U32_MAX → GivesCompressed buf p

end Whole

/-- As many rows as the end record declares, each of a record that is whole. -/
def ReadWhole (buf : List UInt8) (rows : List ZipEntry) : Prop :=
  ∃ eocd entryCount cenOffset, IsLast buf eocd ∧
    endRecord buf eocd = .ok (entryCount, cenOffset) ∧ rows.length = entryCount ∧
    List.Forall₂ (WholeRecord buf) (places buf entryCount cenOffset) rows

/-- A record is missing, or the last ends in the buffer and every block has room. -/
def Kept (buf : List UInt8) : Prop :=
  ∀ eocd entryCount cenOffset, IsLast buf eocd →
    endRecord buf eocd = .ok (entryCount, cenOffset) →
    (∃ p ∈ places buf entryCount cenOffset, ¬ Present buf p) ∨
    ∀ p ∈ places buf entryCount cenOffset,
      recordEnd buf p ≤ buf.length ∧ GivesUncompressed buf p ∧ GivesCompressed buf p

variable {buf : List UInt8} {p : Nat}

theorem rowOf_uncompressed (h : ¬ GivesUncompressed buf p) :
    (rowOf buf p).uncompressed = U32_MAX := by
  rw [GivesUncompressed, not_or, not_not, not_le] at h
  have hshort : ¬ (0 + 8 ≤ (bodyOf buf p).length) := by omega
  have hsize : (rowOf buf p).uncompressed = field buf (p + 24) 4 := by
    simp [rowOf, sizeIn, hshort]
  exact hsize.trans h.1

theorem rowOf_compressed (h : ¬ GivesCompressed buf p) :
    (rowOf buf p).compressed = U32_MAX := by
  rw [GivesCompressed, not_or, not_not, not_le] at h
  have hshort : ¬ (secondOf buf p + 8 ≤ (bodyOf buf p).length) := by
    have hlength := h.2
    unfold secondOf
    split at hlength
    · next hboth =>
      split
      · omega
      · next hno =>
        rw [not_and, not_le] at hno
        have hless := hno hboth
        omega
    · split <;> omega
  have hsize : (rowOf buf p).compressed = field buf (p + 20) 4 := by
    simp [rowOf, sizeIn, hshort]
  exact hsize.trans h.1

theorem wholeRecord_rowOf_iff : WholeRecord buf p (rowOf buf p) ↔
    recordEnd buf p ≤ buf.length ∧ GivesUncompressed buf p ∧ GivesCompressed buf p := by
  constructor
  · intro h
    refine ⟨h.inside, ?_, ?_⟩
    · by_contra hno
      exact hno (h.uncompressed (rowOf_uncompressed hno))
    · by_contra hno
      exact hno (h.compressed (rowOf_compressed hno))
  · rintro ⟨hinside, huncompressed, hcompressed⟩
    exact ⟨hinside, fun _ => huncompressed, fun _ => hcompressed⟩

theorem forall₂_rowOf {ps : List Nat} :
    List.Forall₂ (WholeRecord buf) ps (ps.map (rowOf buf)) ↔
      ∀ p ∈ ps, WholeRecord buf p (rowOf buf p) := by
  rw [List.forall₂_map_right_iff, List.forall₂_same]

/-- What the reader returns is whole exactly where the records and their blocks are. -/
theorem readWhole_iff (buf : Buffer) :
    (∀ rows, readZipEntries buf.bytes = .ok rows → ReadWhole buf.bytes rows) ↔
      Kept buf.bytes := by
  constructor
  · intro h eocd n p hlast hend
    by_cases hall : ∀ q ∈ places buf.bytes n p, Present buf.bytes q
    · have hread := (readZipEntries_eq_ok_iff buf).mpr ⟨eocd, hlast, n, p, hend, hall, rfl⟩
      obtain ⟨eocd', n', p', hlast', hend', -, hwhole⟩ := h _ hread
      have hsame : eocd' = eocd := by
        have hfind := findEocd_eq_some_iff.mpr hlast
        rw [findEocd_eq_some_iff.mpr hlast'] at hfind
        exact Option.some.inj hfind
      rw [hsame, hend] at hend'
      obtain ⟨rfl, rfl⟩ := Prod.mk.inj (Except.ok.inj hend')
      rw [forall₂_rowOf] at hwhole
      exact .inr fun q hq => wholeRecord_rowOf_iff.mp (hwhole q hq)
    · obtain ⟨q, hq⟩ := not_forall.mp hall
      obtain ⟨hmem, hno⟩ := Classical.not_imp.mp hq
      exact .inl ⟨q, hmem, hno⟩
  · intro h rows hread
    obtain ⟨eocd, hlast, n, p, hend, hall, rfl⟩ := (readZipEntries_eq_ok_iff buf).mp hread
    rcases h eocd n p hlast hend with ⟨q, hq, hno⟩ | hwhole
    · exact absurd (hall q hq) hno
    · refine ⟨eocd, n, p, hlast, hend, by rw [List.length_map, length_places], ?_⟩
      rw [forall₂_rowOf]
      exact fun q hq => wholeRecord_rowOf_iff.mpr (hwhole q hq)

end FleetRunner.Zip
