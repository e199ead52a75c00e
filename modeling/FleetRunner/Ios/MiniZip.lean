import FleetRunner.Library.PosixPath
import FleetRunner.Zip.Directory
import Mathlib.Data.List.Infix

/-!
# Unpacking an artifact (`MiniZip.swift`)

The extractor takes the count of the entries and the place of the directory from the
last end record, and for each central record reads its local record, cuts out the data
and creates or writes where the entry's name leads from the destination.

A buffer is read through subscripts that trap out of range. A name is let through where
the text of its place begins with the text of the destination's: a sibling whose name
goes on from the destination's is let through as well.

## Implementation notes

The file system is a map from places to bytes, with the directories that exist and the
places that were created or written beside it. It has no symbolic links, and nothing in
it is refused. Directories are made where a name leads once its dots are resolved; the
call makes those along the path as it is written, so `../b/../a/x` makes `b` as well.
Texts are compared scalar by scalar, where `hasPrefix` and `hasSuffix` compare what is
read as one character: a name that goes on with a combining mark does not begin with
the destination's.
-/

namespace FleetRunner.Ios.MiniZip

open Library.LittleEndian Library.PosixPath

/-! ## The program -/

/-- What ends an extraction: an error that is thrown, or a trap. -/
inductive Stop where
  | zipError (message : String)
  | trap
  deriving DecidableEq

def CENTRAL_SIG : Nat := 0x02014b50
def LOCAL_SIG : Nat := 0x04034b50

def u16 (data : List UInt8) (i : Nat) : Except Stop Nat :=
  if i + 2 ≤ data.length then .ok (field data i 2) else .error .trap

def u32 (data : List UInt8) (i : Nat) : Except Stop Nat :=
  if i + 4 ≤ data.length then .ok (field data i 4) else .error .trap

/-- `data.subdata(in: start..<(start + count))` -/
def subdata (data : List UInt8) (start count : Nat) : Except Stop (List UInt8) :=
  if start + count ≤ data.length then .ok (slice data start count) else .error .trap

/-- The search for the end record, back over the places from `low` on. -/
def search (data : List UInt8) (low : Nat) : Nat → Except Stop (Option Nat)
  | 0 => .ok none
  | k + 1 => do
    let signature ← u32 data (low + k)
    if signature = Zip.EOCD_SIG then return some (low + k) else search data low k

/-- What the calls of `compression_stream_process` give, one after the other. -/
inductive Stream where
  | ok (out : List UInt8) (next : Stream)
  | done (out : List UInt8)
  | failed

/-- The library: the stream of an input, if it can be initialized. -/
abbrev Compression := List UInt8 → Option Stream

/-- The loop of `inflate`. -/
def drain (out : List UInt8) : Stream → Except Stop (List UInt8)
  | .ok bytes next => drain (out ++ bytes) next
  | .done bytes => .ok (out ++ bytes)
  | .failed => .error (.zipError "inflate failed")

def inflate (compression : Compression) (input : List UInt8) : Except Stop (List UInt8) :=
  match compression input with
  | none => .error (.zipError "inflate init")
  | some stream => drain [] stream

/-- What is read of an entry, and where the next one begins. -/
structure Record where
  name : List Char
  method : Nat
  payload : List UInt8
  next : Nat

def record (data : List UInt8) (offset : Nat) : Except Stop Record := do
  let signature ← u32 data offset
  if signature ≠ CENTRAL_SIG then .error (.zipError "bad central header")
  else do
    let method ← u16 data (offset + 10)
    let compSize ← u32 data (offset + 20)
    let nameLen ← u16 data (offset + 28)
    let extraLen ← u16 data (offset + 30)
    let commentLen ← u16 data (offset + 32)
    let localOffset ← u32 data (offset + 42)
    let name ← subdata data (offset + 46) nameLen
    let localSignature ← u32 data localOffset
    if localSignature ≠ LOCAL_SIG then .error (.zipError "bad local header")
    else do
      let lNameLen ← u16 data (localOffset + 26)
      let lExtraLen ← u16 data (localOffset + 28)
      let payload ← subdata data (localOffset + 30 + lNameLen + lExtraLen) compSize
      return ⟨Library.Utf8.decode name, method, payload,
        offset + 46 + nameLen + extraLen + commentLen⟩

abbrev Place := List Part

structure Disk where
  files : Place → Option (List UInt8)
  dirs : List Place
  touched : List Place

/-- Creates a directory, and those above it that do not exist. -/
def createDirectory (place : Place) (disk : Disk) : Disk :=
  let made := place.inits.filter (· ∉ disk.dirs)
  { disk with dirs := disk.dirs ++ made, touched := disk.touched ++ made }

def write (bytes : List UInt8) (place : Place) (disk : Disk) : Disk :=
  { disk with
    files := Function.update disk.files place (some bytes)
    touched := disk.touched ++ [place] }

/-- The place of `url.standardizedFileURL`. -/
def standardized (path : List Char) : Place := walk true [] (path.splitOn '/')

def appendingPathComponent (dest name : List Char) : List Char := dest ++ '/' :: name

section Unpacking

variable (compression : Compression)

/-- What is written for an entry. -/
def contents (r : Record) : Except Stop (List UInt8) :=
  if r.method = 0 then .ok r.payload
  else if r.method = 8 then inflate compression r.payload
  else .error (.zipError s!"unsupported method {r.method} for {String.ofList r.name}")

/-- An entry. The place above a URL is that of the URL without its last part: for one that ends in
a dot or dots, `deletingLastPathComponent` goes up. -/
def unpack (dest : List Char) (disk : Disk) (r : Record) : Disk × Except Stop Unit :=
  let destPath := render true (standardized dest)
  let out := standardized (appendingPathComponent dest r.name)
  if ¬ destPath <+: render true out then
    (disk, .error (.zipError s!"zip slip: {String.ofList r.name}"))
  else if r.name.getLast? = some '/' then (createDirectory out disk, .ok ())
  else
    let disk := createDirectory out.dropLast disk
    match contents compression r with
    | .error stop => (disk, .error stop)
    | .ok bytes => (write bytes out disk, .ok ())

/-- The loop over the entries, with those that are left and the place of the next. -/
def entries (data : List UInt8) (dest : List Char) :
    Nat → Nat → Disk → Disk × Except Stop Unit
  | 0, _, disk => (disk, .ok ())
  | left + 1, offset, disk =>
    match record data offset with
    | .error stop => (disk, .error stop)
    | .ok r =>
      match unpack compression dest disk r with
      | (disk, .error stop) => (disk, .error stop)
      | (disk, .ok ()) => entries data dest left r.next disk

/-- The place of the end record, the count of the entries and the place of the first. -/
def directory (data : List UInt8) : Except Stop (Nat × Nat) :=
  if ¬ 22 < data.length then .error (.zipError "zip too small")
  else do
    let low := if data.length ≤ 0xffff + 22 then 0 else data.length - (0xffff + 22)
    match ← search data low (data.length + 1 - 22 - low) with
    | none => .error (.zipError "no end-of-central-directory")
    | some eocd => do
      let entryCount ← u16 data (eocd + 10)
      let offset ← u32 data (eocd + 16)
      return (entryCount, offset)

def extract (data : List UInt8) (dest : List Char) (disk : Disk) : Disk × Except Stop Unit :=
  match directory data with
  | .error stop => (disk, .error stop)
  | .ok (entryCount, offset) => entries compression data dest entryCount offset disk

end Unpacking

/-! ## Reading a record -/

section Records

variable (data : List UInt8)

/-- The place of an entry's local record. -/
def localOf (p : Nat) : Nat := field data (p + 42) 4

/-- Where an entry's data begins. -/
def payloadStart (p : Nat) : Nat :=
  localOf data p + 30 + field data (localOf data p + 26) 2 + field data (localOf data p + 28) 2

/-- A local record and its data are in the buffer, as far as they are read. -/
structure LocalFits (p : Nat) : Prop where
  head : localOf data p + 4 ≤ data.length
  rest : field data (localOf data p) 4 = LOCAL_SIG →
    payloadStart data p + field data (p + 20) 4 ≤ data.length

/-- A central record with its name, its local record and its data are in the buffer, as far as they
are read. -/
structure Fits (p : Nat) : Prop where
  head : p + 4 ≤ data.length
  rest : field data p 4 = CENTRAL_SIG →
    p + 46 + field data (p + 28) 2 ≤ data.length ∧ LocalFits data p

/-- Both records begin with their signatures. -/
structure Signed (p : Nat) : Prop where
  central : field data p 4 = CENTRAL_SIG
  entry : field data (localOf data p) 4 = LOCAL_SIG

instance (p : Nat) : Decidable (LocalFits data p) :=
  decidable_of_iff (_ ∧ (_ → _)) ⟨fun h => ⟨h.1, h.2⟩, fun h => ⟨h.head, h.rest⟩⟩

instance (p : Nat) : Decidable (Fits data p) :=
  decidable_of_iff (_ ∧ (_ → _ ∧ _)) ⟨fun h => ⟨h.1, h.2⟩, fun h => ⟨h.head, h.rest⟩⟩

instance (p : Nat) : Decidable (Signed data p) :=
  decidable_of_iff (_ ∧ _) ⟨fun h => ⟨h.1, h.2⟩, fun h => ⟨h.central, h.entry⟩⟩

/-- What the record at a place holds. -/
def recordAt (p : Nat) : Record :=
  ⟨Library.Utf8.decode (slice data (p + 46) (field data (p + 28) 2)), field data (p + 10) 2,
    slice data (payloadStart data p) (field data (p + 20) 4), Zip.recordEnd data p⟩

end Records

section Reading

variable {data : List UInt8} {p : Nat} {r : Record}

section Bind

variable {α : Type} {i width : Nat}

theorem u16_bind (f : Nat → Except Stop α) : (u16 data i >>= f) =
    if i + 2 ≤ data.length then f (field data i 2) else .error .trap := by
  unfold u16
  split <;> rfl

theorem u32_bind (f : Nat → Except Stop α) : (u32 data i >>= f) =
    if i + 4 ≤ data.length then f (field data i 4) else .error .trap := by
  unfold u32
  split <;> rfl

theorem subdata_bind (f : List UInt8 → Except Stop α) : (subdata data i width >>= f) =
    if i + width ≤ data.length then f (slice data i width) else .error .trap := by
  unfold subdata
  split <;> rfl

theorem u16_trap {f : Nat → Except Stop α} (h : f (field data i 2) = .error .trap) :
    (u16 data i >>= f) = .error .trap := by
  rw [u16_bind, h, ite_self]

theorem u32_trap {f : Nat → Except Stop α} (h : f (field data i 4) = .error .trap) :
    (u32 data i >>= f) = .error .trap := by
  rw [u32_bind, h, ite_self]

end Bind

/-- A record whose parts are there is read, unless a signature is wrong. -/
theorem record_eq (hfits : Fits data p) :
    record data p =
      if field data p 4 ≠ CENTRAL_SIG then .error (.zipError "bad central header")
      else if field data (localOf data p) 4 ≠ LOCAL_SIG then .error (.zipError "bad local header")
      else .ok (recordAt data p) := by
  obtain ⟨hhead, hrest⟩ := hfits
  rw [record, u32_bind, if_pos hhead]
  split
  · rfl
  · next hcentral =>
    obtain ⟨hname, hlocal, hpayload⟩ := hrest (not_not.mp hcentral)
    rw [u16_bind, if_pos (by omega), u32_bind, if_pos (by omega), u16_bind, if_pos (by omega),
      u16_bind, if_pos (by omega), u16_bind, if_pos (by omega), u32_bind, if_pos (by omega),
      subdata_bind, if_pos hname, u32_bind]
    refine (if_pos hlocal).trans ?_
    unfold localOf
    split
    · rfl
    · next hsignature =>
      have hpayload := hpayload (not_not.mp hsignature)
      unfold payloadStart localOf at hpayload
      rw [u16_bind, if_pos (by omega), u16_bind, if_pos (by omega), subdata_bind,
        if_pos hpayload]
      rfl

/-- A part that is missing is a trap. -/
theorem record_trap (hfits : ¬ Fits data p) : record data p = .error .trap := by
  rw [record, u32_bind]
  split
  · next hhead =>
    split
    · next hcentral => exact absurd ⟨hhead, fun h => absurd h hcentral⟩ hfits
    · refine u16_trap (u32_trap (u16_trap (u16_trap (u16_trap (u32_trap ?_)))))
      rw [subdata_bind]
      split
      · next hname =>
        rw [u32_bind]
        split
        · next hlocal =>
          split
          · next hsignature =>
            exact absurd ⟨hhead, fun _ => ⟨hname, hlocal, fun h => absurd h hsignature⟩⟩ hfits
          · refine u16_trap (u16_trap ?_)
            rw [subdata_bind]
            refine if_neg fun hpayload => hfits ?_
            exact ⟨hhead, fun _ => ⟨hname, hlocal, fun _ => hpayload⟩⟩
        · rfl
      · rfl
  · rfl

end Reading

/-! ## The directory -/

section Directory

variable {data : List UInt8}

theorem search_eq {low k : Nat} (h : low + k + 3 ≤ data.length) :
    search data low k = .ok (Zip.scanBack data low k) := by
  induction k with
  | zero => rfl
  | succ k ih =>
    rw [search, u32_bind, if_pos (by omega), Zip.scanBack]
    split
    · rfl
    · exact ih (by omega)

/-- The search and the end record are in the buffer. -/
theorem directory_eq : directory data =
    if ¬ 22 < data.length then .error (.zipError "zip too small")
    else match Zip.findEocd data with
      | none => .error (.zipError "no end-of-central-directory")
      | some eocd => .ok (field data (eocd + 10) 2, field data (eocd + 16) 4) := by
  unfold directory
  split
  · rfl
  · next hlong =>
    have hsearch : ∀ low, low ≤ data.length - 22 →
        search data low (data.length + 1 - 22 - low) =
          .ok (Zip.scanBack data low (data.length + 1 - 22 - low)) :=
      fun low _ => search_eq (by omega)
    have hlow : (if data.length ≤ 0xffff + 22 then 0 else data.length - (0xffff + 22)) ≤
        data.length - 22 := by split <;> omega
    simp only [hsearch _ hlow]
    change (match Zip.findEocd data with | none => _ | some eocd => _) = _
    cases hfind : Zip.findEocd data with
    | none => rfl
    | some eocd =>
      have hfits := (Zip.findEocd_eq_some_iff.mp hfind).fits
      dsimp only
      rw [u16_bind, if_pos (by omega), u32_bind, if_pos (by omega)]
      rfl

end Directory

/-! ## An entry -/

section Disks

variable {disk : Disk} {place q : Place}

theorem mem_dirs_createDirectory :
    q ∈ (createDirectory place disk).dirs ↔ q ∈ disk.dirs ∨ q <+: place := by
  simp only [createDirectory, List.mem_append, List.mem_filter, List.mem_inits, decide_eq_true_eq]
  constructor
  · rintro (h | ⟨h, -⟩)
    · exact .inl h
    · exact .inr h
  · rintro (h | h)
    · exact .inl h
    · by_cases hq : q ∈ disk.dirs
      · exact .inl hq
      · exact .inr ⟨h, hq⟩

theorem mem_touched_createDirectory : q ∈ (createDirectory place disk).touched ↔
    q ∈ disk.touched ∨ (q <+: place ∧ q ∉ disk.dirs) := by
  simp [createDirectory]

theorem mem_touched_write {bytes : List UInt8} :
    q ∈ (write bytes place disk).touched ↔ q ∈ disk.touched ∨ q = place := by
  simp [write]

end Disks

section Entries

variable (compression : Compression) (dest : List Char)

/-- Where an entry goes. -/
def outOf (r : Record) : Place := standardized (appendingPathComponent dest r.name)

/-- The text of the entry's place begins with the text of the destination's. -/
def Accepted (r : Record) : Prop := render true (standardized dest) <+: render true (outOf dest r)

instance (r : Record) : Decidable (Accepted dest r) := inferInstanceAs (Decidable (_ <+: _))

def IsDirectory (r : Record) : Prop := r.name.getLast? = some '/'

instance (r : Record) : Decidable (IsDirectory r) := inferInstanceAs (Decidable (_ = _))

/-- The entry's bytes can be written. -/
def Written (r : Record) : Prop := (contents compression r).isOk = true

instance (r : Record) : Decidable (Written compression r) := inferInstanceAs (Decidable (_ = _))

/-- What becomes of an entry. -/
inductive Unpacked (disk : Disk) (r : Record) : Disk × Except Stop Unit → Prop
  | refused (h : ¬ Accepted dest r) (message : String) :
      Unpacked disk r (disk, .error (.zipError message))
  | directory (h : Accepted dest r) (hdir : IsDirectory r) :
      Unpacked disk r (createDirectory (outOf dest r) disk, .ok ())
  | failed (h : Accepted dest r) (hfile : ¬ IsDirectory r) (message : String)
      (hcontents : contents compression r = .error (.zipError message)) :
      Unpacked disk r (createDirectory (outOf dest r).dropLast disk, .error (.zipError message))
  | file (h : Accepted dest r) (hfile : ¬ IsDirectory r) (bytes : List UInt8)
      (hcontents : contents compression r = .ok bytes) :
      Unpacked disk r
        (write bytes (outOf dest r) (createDirectory (outOf dest r).dropLast disk), .ok ())

theorem drain_ne_trap (out : List UInt8) (stream : Stream) : drain out stream ≠ .error .trap := by
  induction stream generalizing out with
  | ok bytes next ih => exact ih (out ++ bytes)
  | done bytes => simp [drain]
  | failed => simp [drain]

theorem contents_ne_trap (r : Record) : contents compression r ≠ .error .trap := by
  unfold contents inflate
  split
  · simp
  · split
    · split
      · simp
      · exact drain_ne_trap _ _
    · simp

theorem unpack_unpacked (disk : Disk) (r : Record) :
    Unpacked compression dest disk r (unpack compression dest disk r) := by
  unfold unpack
  dsimp only
  split
  · next h => exact .refused h _
  · next h =>
    have haccepted : Accepted dest r := not_not.mp h
    split
    · next hdir => exact .directory haccepted hdir
    · next hfile =>
      cases hcontents : contents compression r with
      | error stop =>
        cases stop with
        | zipError message => exact .failed haccepted hfile message hcontents
        | trap => exact absurd hcontents (contents_ne_trap compression r)
      | ok bytes => exact .file haccepted hfile bytes hcontents

variable (data : List UInt8)

/-- The loop goes on behind the record. -/
structure Passes (p : Nat) : Prop where
  fits : Fits data p
  signed : Signed data p
  accepted : Accepted dest (recordAt data p)
  there : IsDirectory (recordAt data p) ∨ Written compression (recordAt data p)

instance (p : Nat) : Decidable (Passes compression dest data p) :=
  decidable_of_iff (_ ∧ _ ∧ _ ∧ (_ ∨ _))
    ⟨fun h => ⟨h.1, h.2.1, h.2.2.1, h.2.2.2⟩, fun h => ⟨h.fits, h.signed, h.accepted, h.there⟩⟩

/-- The places of the records that are looked at, of so many from a place on. -/
def reached : Nat → Nat → List Nat
  | 0, _ => []
  | left + 1, p =>
    p :: if Passes compression dest data p then reached left (Zip.recordEnd data p) else []

/-- The places of the records that are looked at. -/
def looked : List Nat :=
  if 22 < data.length then
    match Zip.findEocd data with
    | none => []
    | some eocd =>
      reached compression dest data (field data (eocd + 10) 2) (field data (eocd + 16) 4)
  else []

/-- The entry's name leads to a name that goes on from the destination's, or below one, and it is
a directory, or its data can be written, or its directory is such a place as well. -/
structure Strays (p : Nat) : Prop where
  signed : Signed data p
  sibling : Sibling (standardized dest) (outOf dest (recordAt data p))
  touches : IsDirectory (recordAt data p) ∨ Written compression (recordAt data p) ∨
    (standardized dest).length < (outOf dest (recordAt data p)).length

end Entries

/-! ## Containment -/

theorem normal_standardized (path : List Char) : Normal true (standardized path) :=
  normal_nil.walk (slash_of_splitOn path)

/-- The place is the directory, or above it or below it. -/
def Near (dir place : Place) : Prop := dir <+: place ∨ place <+: dir

theorem Near.above {dir place q : Place} (h : Near dir place) (hq : q <+: place) : Near dir q := by
  rcases h with h | h
  · exact List.prefix_or_prefix_of_prefix h hq
  · exact .inr (hq.trans h)

theorem not_near_of_sibling {dir place : Place} (h : Sibling dir place) : ¬ Near dir place :=
  not_or.mpr ⟨h.not_prefix, h.not_above⟩

/-- The destination exists, and only it and what is below it was created or written. -/
structure Kept (dest : List Char) (disk : Disk) : Prop where
  inside : ∀ q ∈ disk.touched, standardized dest <+: q
  there : ∀ q, q <+: standardized dest → q ∈ disk.dirs

/-- There are no directories but those that the destination needs and those below it. -/
def Bare (dest : List Char) (disk : Disk) : Prop := ∀ q ∈ disk.dirs, Near (standardized dest) q

section Containment

variable {compression : Compression} {dest : List Char} {disk : Disk} {place : Place}

theorem Kept.createDirectory (h : Kept dest disk) (hplace : Near (standardized dest) place) :
    Kept dest (createDirectory place disk) := by
  constructor
  · intro q hq
    rcases mem_touched_createDirectory.mp hq with hq | ⟨hq, hnew⟩
    · exact h.inside q hq
    · exact (hplace.above hq).resolve_right fun habove => hnew (h.there q habove)
  · exact fun q hq => mem_dirs_createDirectory.mpr (.inl (h.there q hq))

theorem Bare.createDirectory (h : Bare dest disk) (hplace : Near (standardized dest) place) :
    Bare dest (createDirectory place disk) := by
  intro q hq
  rcases mem_dirs_createDirectory.mp hq with hq | hq
  · exact h q hq
  · exact hplace.above hq

theorem Kept.write (h : Kept dest disk) {bytes : List UInt8}
    (hplace : standardized dest <+: place) : Kept dest (write bytes place disk) := by
  refine ⟨fun q hq => ?_, h.there⟩
  rcases mem_touched_write.mp hq with hq | rfl
  · exact h.inside q hq
  · exact hplace

theorem accepted_iff {r : Record} : Accepted dest r ↔
    standardized dest <+: outOf dest r ∨ Sibling (standardized dest) (outOf dest r) :=
  render_prefix_iff (normal_standardized dest) (normal_standardized _)

variable {data : List UInt8} {p : Nat} {run : Disk × Except Stop Unit}

/-- An entry that does not stray keeps what was created or written below the destination. -/
theorem Unpacked.kept (hrun : Unpacked compression dest disk (recordAt data p) run)
    (hsigned : Signed data p) (hstrays : ¬ Strays compression dest data p)
    (hkept : Kept dest disk) : Kept dest run.1 ∧ (Bare dest disk → Bare dest run.1) := by
  have hinside : IsDirectory (recordAt data p) ∨ Written compression (recordAt data p) →
      Accepted dest (recordAt data p) → standardized dest <+: outOf dest (recordAt data p) :=
    fun hthere haccepted => (accepted_iff.mp haccepted).resolve_right fun hsibling =>
      hstrays ⟨hsigned, hsibling, hthere.imp_right .inl⟩
  have hparent : Accepted dest (recordAt data p) →
      Near (standardized dest) (outOf dest (recordAt data p)).dropLast := by
    intro haccepted
    rcases accepted_iff.mp haccepted with hbelow | hsibling
    · exact Near.above (.inl hbelow) (List.dropLast_prefix _)
    · refine .inr (hsibling.dropLast_above (Nat.le_of_not_lt fun hlength => ?_))
      exact hstrays ⟨hsigned, hsibling, .inr (.inr hlength)⟩
  cases hrun with
  | refused h message => exact ⟨hkept, id⟩
  | directory h hdir =>
    have hnear : Near (standardized dest) (outOf dest (recordAt data p)) :=
      .inl (hinside (.inl hdir) h)
    exact ⟨hkept.createDirectory hnear, fun hbare => hbare.createDirectory hnear⟩
  | failed h hfile message hcontents =>
    exact ⟨hkept.createDirectory (hparent h), fun hbare => hbare.createDirectory (hparent h)⟩
  | file h hfile bytes hcontents =>
    have hwritten : Written compression (recordAt data p) := by
      rw [Written, hcontents]
      rfl
    exact ⟨(hkept.createDirectory (hparent h)).write (hinside (.inr hwritten) h),
      fun hbare => hbare.createDirectory (hparent h)⟩

/-- An entry that strays creates or writes what is not below the destination. -/
theorem Unpacked.strays (hrun : Unpacked compression dest disk (recordAt data p) run)
    (hstrays : Strays compression dest data p) (hbare : Bare dest disk) :
    ∃ q ∈ run.1.touched, ¬ standardized dest <+: q := by
  have hsibling := hstrays.sibling
  have hnew : ∀ {q}, Sibling (standardized dest) q → q ∉ disk.dirs := fun hq hdirs =>
    not_near_of_sibling hq (hbare _ hdirs)
  cases hrun with
  | refused h message => exact absurd (accepted_iff.mpr (.inr hsibling)) h
  | directory h hdir =>
    refine ⟨_, ?_, hsibling.not_prefix⟩
    exact mem_touched_createDirectory.mpr (.inr ⟨List.prefix_rfl, hnew hsibling⟩)
  | failed h hfile message hcontents =>
    rcases hstrays.touches with hdir | hwritten | hlength
    · exact absurd hdir hfile
    · rw [Written, hcontents] at hwritten
      cases hwritten
    · have habove := hsibling.dropLast hlength
      refine ⟨_, ?_, habove.not_prefix⟩
      exact mem_touched_createDirectory.mpr (.inr ⟨List.prefix_rfl, hnew habove⟩)
  | file h hfile bytes hcontents =>
    exact ⟨_, mem_touched_write.mpr (.inr rfl), hsibling.not_prefix⟩

theorem Unpacked.touched (hrun : Unpacked compression dest disk (recordAt data p) run) :
    disk.touched ⊆ run.1.touched := by
  intro q hq
  have hmade : ∀ {place}, q ∈ (MiniZip.createDirectory place disk).touched :=
    mem_touched_createDirectory.mpr (.inl hq)
  cases hrun with
  | refused h message => exact hq
  | directory h hdir => exact hmade
  | failed h hfile message hcontents => exact hmade
  | file h hfile bytes hcontents => exact mem_touched_write.mpr (.inl hmade)

end Containment

/-! ## The loop -/

section Loop

variable {compression : Compression} {data : List UInt8} {dest : List Char} {left p : Nat}
  {disk : Disk}

/-- What a turn of the loop does. -/
inductive Turn (compression : Compression) (data : List UInt8) (dest : List Char) (left p : Nat)
    (disk : Disk) : Disk × Except Stop Unit → Prop
  | trap (h : ¬ Fits data p) : Turn compression data dest left p disk (disk, .error .trap)
  | unsigned (hfits : Fits data p) (h : ¬ Signed data p) (message : String) :
      Turn compression data dest left p disk (disk, .error (.zipError message))
  | stopped (hfits : Fits data p) (hsigned : Signed data p) (after : Disk) (message : String)
      (hrun : Unpacked compression dest disk (recordAt data p) (after, .error (.zipError message)))
      (h : ¬ Passes compression dest data p) :
      Turn compression data dest left p disk (after, .error (.zipError message))
  | passed (after : Disk)
      (hrun : Unpacked compression dest disk (recordAt data p) (after, .ok ()))
      (h : Passes compression dest data p) :
      Turn compression data dest left p disk
        (entries compression data dest left (Zip.recordEnd data p) after)

variable (compression data dest) in
theorem entries_turn (left p : Nat) (disk : Disk) :
    Turn compression data dest left p disk
      (entries compression data dest (left + 1) p disk) := by
  rw [entries]
  by_cases hfits : Fits data p
  · rw [record_eq hfits]
    by_cases hcentral : field data p 4 = CENTRAL_SIG
    · by_cases hlocal : field data (localOf data p) 4 = LOCAL_SIG
      · rw [if_neg (not_not.mpr hcentral), if_neg (not_not.mpr hlocal)]
        have hsigned : Signed data p := ⟨hcentral, hlocal⟩
        have hrun := unpack_unpacked compression dest disk (recordAt data p)
        dsimp only
        generalize unpack compression dest disk (recordAt data p) = run at hrun
        have hcopy := hrun
        cases hrun with
        | refused h message =>
          exact .stopped hfits hsigned _ message hcopy fun hpasses => h hpasses.accepted
        | directory h hdir => exact .passed _ hcopy ⟨hfits, hsigned, h, .inl hdir⟩
        | failed h hfile message hcontents =>
          refine .stopped hfits hsigned _ message hcopy fun hpasses => ?_
          rcases hpasses.there with hdir | hwritten
          · exact hfile hdir
          · rw [Written, hcontents] at hwritten
            cases hwritten
        | file h hfile bytes hcontents =>
          refine .passed _ hcopy ⟨hfits, hsigned, h, .inr ?_⟩
          rw [Written, hcontents]
          rfl
      · rw [if_neg (not_not.mpr hcentral), if_pos hlocal]
        exact .unsigned hfits (fun h => hlocal h.entry) _
    · rw [if_pos hcentral]
      exact .unsigned hfits (fun h => hcentral h.central) _
  · rw [record_trap hfits]
    exact .trap hfits

theorem entries_touched (left p : Nat) (disk : Disk) :
    disk.touched ⊆ (entries compression data dest left p disk).1.touched := by
  induction left generalizing p disk with
  | zero => exact List.Subset.refl _
  | succ left ih =>
    have hturn := entries_turn compression data dest left p disk
    generalize entries compression data dest (left + 1) p disk = run at hturn
    cases hturn with
    | trap => exact List.Subset.refl _
    | unsigned => exact List.Subset.refl _
    | stopped hfits hsigned after message hrun => exact hrun.touched
    | passed after hrun => exact List.Subset.trans hrun.touched (ih _ after)

/-- A run that does not trap and creates and writes nothing but the destination and what is below
it. -/
structure Safe (dest : List Char) (run : Disk × Except Stop Unit) : Prop where
  noTrap : run.2 ≠ .error .trap
  contained : ∀ q ∈ run.1.touched, standardized dest <+: q

/-- A run over records that fit and do not stray is safe. -/
theorem entries_safe (hkept : Kept dest disk)
    (h : ∀ q ∈ reached compression dest data left p, Fits data q ∧
      ¬ Strays compression dest data q) :
    Safe dest (entries compression data dest left p disk) := by
  induction left generalizing p disk with
  | zero => exact ⟨nofun, hkept.inside⟩
  | succ left ih =>
    obtain ⟨hfits, hstrays⟩ := h p List.mem_cons_self
    have hturn := entries_turn compression data dest left p disk
    generalize entries compression data dest (left + 1) p disk = run at hturn
    cases hturn with
    | trap h => exact absurd hfits h
    | unsigned => exact ⟨nofun, hkept.inside⟩
    | stopped hfits hsigned after message hrun =>
      exact ⟨nofun, (hrun.kept hsigned hstrays hkept).1.inside⟩
    | passed after hrun hpasses =>
      refine ih (hrun.kept hpasses.signed hstrays hkept).1 fun q hq => h q ?_
      rw [reached, if_pos hpasses]
      exact List.mem_cons_of_mem _ hq

/-- In a run that is safe all records that are looked at fit, and none strays. -/
theorem safe_entries (hkept : Kept dest disk) (hbare : Bare dest disk)
    (hsafe : Safe dest (entries compression data dest left p disk)) :
    ∀ q ∈ reached compression dest data left p, Fits data q ∧ ¬ Strays compression dest data q := by
  induction left generalizing p disk with
  | zero => exact List.forall_mem_nil _
  | succ left ih =>
    have hturn := entries_turn compression data dest left p disk
    generalize entries compression data dest (left + 1) p disk = run at hturn hsafe
    rw [reached]
    cases hturn with
    | trap => exact absurd rfl hsafe.noTrap
    | unsigned hfits h =>
      rw [if_neg fun hpasses => h hpasses.signed]
      exact List.forall_mem_singleton.mpr ⟨hfits, fun hstrays => h hstrays.signed⟩
    | stopped hfits hsigned after message hrun h =>
      rw [if_neg h]
      refine List.forall_mem_singleton.mpr ⟨hfits, fun hstrays => ?_⟩
      obtain ⟨q, hq, hout⟩ := hrun.strays hstrays hbare
      exact hout (hsafe.contained q hq)
    | passed after hrun h =>
      have hstrays : ¬ Strays compression dest data p := fun hstrays => by
        obtain ⟨q, hq, hout⟩ := hrun.strays hstrays hbare
        exact hout (hsafe.contained q (entries_touched _ _ _ hq))
      obtain ⟨hkept', hbare'⟩ := hrun.kept h.signed hstrays hkept
      rw [if_pos h]
      exact List.forall_mem_cons.mpr ⟨⟨h.fits, hstrays⟩, ih hkept' (hbare' hbare) hsafe⟩

/-- The disk as the extractor finds it: the destination exists. -/
structure Ready (dest : List Char) (disk : Disk) : Prop where
  untouched : disk.touched = []
  there : ∀ q, q <+: standardized dest → q ∈ disk.dirs

theorem Ready.kept (h : Ready dest disk) : Kept dest disk :=
  ⟨fun _ hq => absurd (h.untouched ▸ hq) List.not_mem_nil, h.there⟩

/-- A disk with nothing but the destination. -/
def bareDisk (dest : List Char) : Disk := ⟨fun _ => none, (standardized dest).inits, []⟩

theorem ready_bareDisk (dest : List Char) : Ready dest (bareDisk dest) :=
  ⟨rfl, fun _ hq => (List.mem_inits _ _).mpr hq⟩

theorem bare_bareDisk (dest : List Char) : Bare dest (bareDisk dest) :=
  fun _ hq => .inr ((List.mem_inits _ _).mp hq)

/-- The records behind the end record, if there is one. -/
theorem extract_eq (disk : Disk) : extract compression data dest disk =
    if ¬ 22 < data.length then (disk, .error (.zipError "zip too small"))
    else match Zip.findEocd data with
      | none => (disk, .error (.zipError "no end-of-central-directory"))
      | some eocd => entries compression data dest (field data (eocd + 10) 2)
          (field data (eocd + 16) 4) disk := by
  rw [extract, directory_eq]
  by_cases hlong : 22 < data.length
  · rw [if_neg (not_not.mpr hlong), if_neg (not_not.mpr hlong)]
    cases Zip.findEocd data <;> rfl
  · rw [if_pos hlong, if_pos hlong]

/-- An extraction is safe on every disk exactly where all records that are looked at fit in the
buffer and none strays. -/
theorem safe_iff : (∀ disk, Ready dest disk → Safe dest (extract compression data dest disk)) ↔
    ∀ p ∈ looked compression dest data, Fits data p ∧ ¬ Strays compression dest data p := by
  have hnothing : ∀ disk message, Ready dest disk → Safe dest (disk, .error (.zipError message)) :=
    fun disk message hready => ⟨nofun, hready.kept.inside⟩
  simp only [extract_eq, looked]
  by_cases hlong : 22 < data.length
  · rw [if_pos hlong]
    simp only [hlong, not_true, if_false]
    cases Zip.findEocd data with
    | none => exact iff_of_true (fun disk => hnothing disk _) (List.forall_mem_nil _)
    | some eocd =>
      constructor
      · intro h
        exact safe_entries (ready_bareDisk dest).kept (bare_bareDisk dest)
          (h _ (ready_bareDisk dest))
      · exact fun h disk hready => entries_safe hready.kept h
  · rw [if_neg hlong]
    simp only [hlong, not_false_eq_true, if_true]
    exact iff_of_true (fun disk => hnothing disk _) (List.forall_mem_nil _)

end Loop

end FleetRunner.Ios.MiniZip
