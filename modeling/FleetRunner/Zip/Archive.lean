import FleetRunner.Zip.Directory

/-!
# Well-formed archives

An archive as its format lays it out: what the local files take, a central record for
every entry, perhaps the Zip64 records, and the end record with its comment. What the
format leaves free is free here: dates and attributes, other extra blocks, which of the
sizes overflow, what stands between the directory and the end.

The comment may hold the signature of an end record. The reader takes the last one for
the archive's, unless there are no eighteen bytes behind it.
-/

namespace FleetRunner.Zip

open Library.LittleEndian

/-! ## The layout -/

/-- A block of an extra field. -/
structure Block where
  id : Nat
  data : List UInt8
  id_lt : id < 256 ^ 2
  short : data.length < 256 ^ 2

def Block.bytes (b : Block) : List UInt8 := encode 2 b.id ++ (encode 2 b.data.length ++ b.data)

def blockBytes (blocks : List Block) : List UInt8 := blocks.flatMap Block.bytes

/-- An entry: `name` is what the archive calls it, and `nameBytes` how it is written there. -/
structure Entry where
  name : List Char
  nameBytes : List UInt8
  uncompressed : Nat
  compressed : Nat
  /-- The size stands in the Zip64 block. -/
  wideUncompressed : Bool
  wideCompressed : Bool
  /-- Versions, flags, method, time and checksum. -/
  head : List UInt8
  /-- Disk, attributes and the place of the local file. -/
  tail : List UInt8
  before : List Block
  /-- What the Zip64 block has behind the sizes. -/
  more : List UInt8
  after : List Block
  comment : List UInt8

namespace Entry

variable (e : Entry)

def zip64Data : List UInt8 :=
  (if e.wideUncompressed then encode 8 e.uncompressed else []) ++
    ((if e.wideCompressed then encode 8 e.compressed else []) ++ e.more)

def zip64Bytes : List UInt8 :=
  if e.wideUncompressed || e.wideCompressed then
    encode 2 0x0001 ++ (encode 2 e.zip64Data.length ++ e.zip64Data)
  else []

def extra : List UInt8 := blockBytes e.before ++ (e.zip64Bytes ++ blockBytes e.after)

def size32 (wide : Bool) (size : Nat) : Nat := if wide then U32_MAX else size

/-- The central record, with what follows it. -/
def record (rest : List UInt8) : List UInt8 :=
  encode 4 CEN_SIG ++ (e.head ++ (encode 4 (size32 e.wideCompressed e.compressed) ++
    (encode 4 (size32 e.wideUncompressed e.uncompressed) ++ (encode 2 e.nameBytes.length ++
      (encode 2 e.extra.length ++ (encode 2 e.comment.length ++ (e.tail ++ (e.nameBytes ++
        (e.extra ++ (e.comment ++ rest))))))))))

structure WellFormed : Prop where
  head : e.head.length = 16
  tail : e.tail.length = 12
  name : e.nameBytes.length < 256 ^ 2
  extra : e.extra.length < 256 ^ 2
  comment : e.comment.length < 256 ^ 2
  zip64 : e.zip64Data.length < 256 ^ 2
  before : ∀ b ∈ e.before, b.id ≠ 0x0001
  uncompressed : e.uncompressed < if e.wideUncompressed then 256 ^ 8 else U32_MAX
  compressed : e.compressed < if e.wideCompressed then 256 ^ 8 else U32_MAX

/-- The entry as the archive means it. -/
def listed : ZipEntry := ⟨e.name, e.uncompressed, e.compressed⟩

/-- The entry as it can be read: a name in UTF-8, and sizes that are numbers. -/
def seen : ZipEntry :=
  ⟨Library.Utf8.decode e.nameBytes, toNumber e.uncompressed, toNumber e.compressed⟩

/-- The name is written in UTF-8, and a number has the size. -/
structure Exact : Prop where
  name : Library.Utf8.decode e.nameBytes = e.name
  uncompressed : toNumber e.uncompressed = e.uncompressed
  compressed : toNumber e.compressed = e.compressed

theorem seen_eq_listed_iff : e.seen = e.listed ↔ e.Exact := by
  rw [seen, listed, ZipEntry.mk.injEq]
  exact ⟨fun ⟨hname, hu, hc⟩ => ⟨hname, hu, hc⟩, fun h => ⟨h.name, h.uncompressed, h.compressed⟩⟩

end Entry

def directory (entries : List Entry) (rest : List UInt8) : List UInt8 :=
  entries.foldr Entry.record rest

/-- The Zip64 end record and its locator. -/
structure Zip64End where
  /-- Size of the record, versions, disks, and the entries on this disk. -/
  head : List UInt8
  size : List UInt8
  more : List UInt8
  disk : List UInt8
  disks : List UInt8
  head_length : head.length = 28
  size_length : size.length = 8
  disk_length : disk.length = 4
  disks_length : disks.length = 4

/-- The Zip64 end record, with what follows it. -/
def Zip64End.record (z : Zip64End) (count offset : Nat) (rest : List UInt8) : List UInt8 :=
  encode 4 ZIP64_EOCD_SIG ++ (z.head ++ (encode 8 count ++ (z.size ++ (encode 8 offset ++
    (z.more ++ rest)))))

def Zip64End.locator (z : Zip64End) (place : Nat) (rest : List UInt8) : List UInt8 :=
  encode 4 ZIP64_EOCD_LOCATOR_SIG ++ (z.disk ++ (encode 8 place ++ (z.disks ++ rest)))

structure Layout where
  front : List UInt8
  entries : List Entry
  /-- Between the directory and the end records. -/
  gap : List UInt8
  zip64 : Option Zip64End
  /-- Disks, and the entries on this disk. -/
  disks : List UInt8
  size : List UInt8
  /-- The field of the end record says that the Zip64 record has the number. -/
  wideCount : Bool
  wideOffset : Bool
  comment : List UInt8

namespace Layout

variable (l : Layout)

def endRecord : List UInt8 :=
  encode 4 EOCD_SIG ++ (l.disks ++ (encode 2 (if l.wideCount then 0xffff else l.entries.length) ++
    (l.size ++ (encode 4 (if l.wideOffset then U32_MAX else l.front.length) ++
      (encode 2 l.comment.length ++ l.comment)))))

/-- The place behind the directory. -/
def gapEnd : Nat := l.front.length + (directory l.entries []).length + l.gap.length

def ending : List UInt8 :=
  match l.zip64 with
  | none => l.endRecord
  | some z => z.record l.entries.length l.front.length (z.locator l.gapEnd l.endRecord)

def bytes : List UInt8 := l.front ++ directory l.entries (l.gap ++ l.ending)

/-- Where the archive's own end record stands. -/
def own : Nat := l.bytes.length - (22 + l.comment.length)

end Layout

/-- An archive as the format wants it. -/
structure Archive extends Layout where
  wellFormed : ∀ e ∈ entries, e.WellFormed
  disks_length : disks.length = 6
  size_length : size.length = 4
  comment_short : comment.length < 256 ^ 2
  count_fits : wideCount = false → entries.length < 0xffff
  offset_fits : wideOffset = false → front.length < U32_MAX
  zip64_there : wideCount = true ∨ wideOffset = true → zip64.isSome = true
  short : toLayout.bytes.length < 2 ^ 53

namespace Archive

variable (a : Archive)

def buffer : Buffer := ⟨a.bytes, a.short⟩

/-- The archive's names and sizes. -/
def listing : List ZipEntry := a.entries.map Entry.listed

/-- No end record's signature stands behind the archive's own, with eighteen bytes behind it. -/
def Quiet : Prop := ∀ i, a.own < i → i + 22 ≤ a.bytes.length → field a.bytes i 4 ≠ EOCD_SIG

/-- The comment has an end record of its own, whose directory has the same names and sizes. -/
def Echoed : Prop := ∃ i, a.own < i ∧ IsLast a.bytes i ∧ Lists a.bytes i a.listing

end Archive

/-! ## Blocks -/

/-- A block is found behind others that are not for sizes. -/
theorem zip64Block_step {b : Block} {rest : List UInt8} (fuel : Nat) :
    zip64Block (fuel + 1) (b.bytes ++ rest) =
      if b.id = 0x0001 then some b.data else zip64Block fuel rest := by
  have hstart : (b.bytes ++ rest).drop 0 =
      encode 2 b.id ++ (encode 2 b.data.length ++ (b.data ++ rest)) := by
    simp [Block.bytes]
  have hlength : (b.bytes ++ rest).drop (0 + 2) = encode 2 b.data.length ++ (b.data ++ rest) :=
    drop_next_encode hstart rfl
  have hdata : (b.bytes ++ rest).drop (0 + 2 + 2) = b.data ++ rest := drop_next_encode hlength rfl
  have hid : field (b.bytes ++ rest) 0 2 = b.id := field_eq hstart b.id_lt
  have hlen : field (b.bytes ++ rest) 2 2 = b.data.length := field_eq hlength b.short
  have hslice : slice (b.bytes ++ rest) 4 b.data.length = b.data := slice_eq hdata rfl
  have hrest : (b.bytes ++ rest).drop (4 + b.data.length) = rest := drop_next hdata rfl rfl
  have htotal : (b.bytes ++ rest).length = 4 + b.data.length + rest.length := by
    simp [Block.bytes]
    omega
  simp only [zip64Block, hid, hlen, hslice, hrest]
  rw [if_neg (by omega), if_neg (by omega)]

theorem length_block (b : Block) : b.bytes.length = 4 + b.data.length := by
  simp [Block.bytes]
  omega

theorem zip64Block_find {before : List Block} (hbefore : ∀ b ∈ before, b.id ≠ 0x0001) {b : Block}
    (hb : b.id = 0x0001) (rest : List UInt8) {fuel : Nat} (hfuel : before.length < fuel) :
    zip64Block fuel (blockBytes before ++ (b.bytes ++ rest)) = some b.data := by
  induction before generalizing fuel with
  | nil =>
    obtain ⟨fuel, rfl⟩ := Nat.exists_eq_add_one_of_ne_zero (Nat.ne_of_gt hfuel)
    rw [blockBytes, List.flatMap_nil, List.nil_append, zip64Block_step, if_pos hb]
  | cons c before ih =>
    obtain ⟨fuel, rfl⟩ := Nat.exists_eq_add_one_of_ne_zero (Nat.ne_of_gt (Nat.zero_lt_of_lt hfuel))
    have hrest := ih (fun d hd => hbefore d (List.mem_cons_of_mem c hd))
      (Nat.lt_of_succ_lt_succ hfuel)
    rw [blockBytes, List.flatMap_cons, List.append_assoc, zip64Block_step,
      if_neg (hbefore c List.mem_cons_self)]
    exact hrest

theorem length_le_blockBytes (blocks : List Block) :
    blocks.length ≤ (blockBytes blocks).length := by
  induction blocks with
  | nil => exact Nat.le_refl 0
  | cons b blocks ih =>
    rw [blockBytes, List.flatMap_cons, List.length_append, length_block]
    rw [blockBytes] at ih
    simp only [List.length_cons]
    omega

/-! ## A record -/

section Record

variable {buf rest : List UInt8} {p : Nat} {e : Entry}

theorem zip64Block_extra (he : e.WellFormed)
    (hwide : e.wideUncompressed = true ∨ e.wideCompressed = true) :
    zip64Block e.extra.length e.extra = some e.zip64Data := by
  have hbytes : e.zip64Bytes = (⟨0x0001, e.zip64Data, by decide, he.zip64⟩ : Block).bytes := by
    rw [Entry.zip64Bytes, if_pos (by simpa using hwide)]
    rfl
  have hlength : (blockBytes e.before).length + 4 ≤ e.extra.length := by
    rw [Entry.extra, hbytes, List.length_append, List.length_append, length_block]
    omega
  have hcount := length_le_blockBytes e.before
  rw [Entry.extra, hbytes] at hlength ⊢
  exact zip64Block_find he.before rfl _ (by omega)

theorem size32_eq_max {wide : Bool} {size : Nat} (h : size < if wide then 256 ^ 8 else U32_MAX) :
    Entry.size32 wide size = U32_MAX ↔ wide = true := by
  cases wide with
  | true => exact iff_of_true rfl rfl
  | false => exact iff_of_false (Nat.ne_of_lt h) (by decide)

theorem size32_lt {wide : Bool} {size : Nat} (h : size < if wide then 256 ^ 8 else U32_MAX) :
    Entry.size32 wide size < 256 ^ 4 := by
  cases wide with
  | true =>
    rw [Entry.size32, if_pos rfl]
    decide
  | false => exact Nat.lt_trans h (by decide)

/-- The fields of a record where it stands. -/
structure Stands (buf : List UInt8) (p : Nat) (e : Entry) (rest : List UInt8) : Prop where
  inside : p + 46 ≤ buf.length
  signature : field buf p 4 = CEN_SIG
  compressed : field buf (p + 20) 4 = Entry.size32 e.wideCompressed e.compressed
  uncompressed : field buf (p + 24) 4 = Entry.size32 e.wideUncompressed e.uncompressed
  name : slice buf (p + 46) (field buf (p + 28) 2) = e.nameBytes
  extra : extraOf buf p = e.extra
  behind : buf.drop (recordEnd buf p) = rest

theorem stands_of_drop (he : e.WellFormed) (h : buf.drop p = e.record rest) :
    Stands buf p e rest := by
  have hsig : buf.drop p = encode 4 CEN_SIG ++ _ := h
  have hhead : buf.drop (p + 4) = e.head ++ _ := drop_next_encode hsig rfl
  have hcompressed : buf.drop (p + 20) = encode 4 _ ++ _ := drop_next hhead he.head rfl
  have huncompressed : buf.drop (p + 24) = encode 4 _ ++ _ := drop_next_encode hcompressed rfl
  have hnameLen : buf.drop (p + 28) = encode 2 e.nameBytes.length ++ _ :=
    drop_next_encode huncompressed rfl
  have hextraLen : buf.drop (p + 30) = encode 2 e.extra.length ++ _ := drop_next_encode hnameLen rfl
  have hcommentLen : buf.drop (p + 32) = encode 2 e.comment.length ++ _ :=
    drop_next_encode hextraLen rfl
  have htail : buf.drop (p + 34) = e.tail ++ _ := drop_next_encode hcommentLen rfl
  have hname : buf.drop (p + 46) = e.nameBytes ++ _ := drop_next htail he.tail rfl
  have hextra : buf.drop (p + 46 + e.nameBytes.length) = e.extra ++ _ := drop_next hname rfl rfl
  have hcomment : buf.drop (p + 46 + e.nameBytes.length + e.extra.length) = e.comment ++ rest :=
    drop_next hextra rfl rfl
  have hlength := congrArg List.length hsig
  simp only [List.length_drop, List.length_append, length_encode, he.head, he.tail] at hlength
  exact
    { inside := by omega
      signature := field_eq hsig (by decide)
      compressed := field_eq hcompressed (size32_lt he.compressed)
      uncompressed := field_eq huncompressed (size32_lt he.uncompressed)
      name := by rw [field_eq hnameLen he.name, slice_eq hname rfl]
      extra := by
        rw [extraOf, field_eq hnameLen he.name, field_eq hextraLen he.extra, slice_eq hextra rfl]
      behind := by
        rw [recordEnd, field_eq hnameLen he.name, field_eq hextraLen he.extra,
          field_eq hcommentLen he.comment, drop_next hcomment rfl rfl] }

/-- A size that overflowed is read from the block, where it stands at `start`. -/
theorem sizeIn_eq {body : List UInt8} {wide : Bool} {start size : Nat}
    (hsize : size < if wide then 256 ^ 8 else U32_MAX)
    (hbody : wide = true → ∃ rest, body.drop start = encode 8 size ++ rest) :
    sizeIn body (decide (Entry.size32 wide size = U32_MAX)) start (Entry.size32 wide size) =
      toNumber size := by
  cases wide with
  | false =>
    have hnot : Entry.size32 false size ≠ U32_MAX := fun h => by
      cases (size32_eq_max hsize).mp h
    have hsmall : size < 2 ^ 53 := Nat.lt_trans hsize (by decide)
    rw [sizeIn, decide_eq_false hnot, Bool.false_and, if_neg (by decide), toNumber_of_lt hsmall]
    rfl
  | true =>
    obtain ⟨rest, hrest⟩ := hbody rfl
    have hlength := congrArg List.length hrest
    simp only [List.length_drop, List.length_append, length_encode] at hlength
    have hroom : start + 8 ≤ body.length := by omega
    have hmax : Entry.size32 true size = U32_MAX := rfl
    rw [sizeIn, decide_eq_true hmax, decide_eq_true hroom, Bool.true_and, if_pos rfl,
      field_eq hrest hsize]

theorem zip64Data_uncompressed (h : e.wideUncompressed = true) :
    ∃ rest, e.zip64Data.drop 0 = encode 8 e.uncompressed ++ rest := by
  rw [Entry.zip64Data, if_pos h]
  exact ⟨_, rfl⟩

theorem zip64Data_compressed (h : e.wideCompressed = true) :
    ∃ rest, e.zip64Data.drop (if e.wideUncompressed = true then 8 else 0) =
      encode 8 e.compressed ++ rest := by
  rw [Entry.zip64Data, if_pos h]
  split
  · have hfirst : (encode 8 e.uncompressed ++ (encode 8 e.compressed ++ e.more)).drop 0 =
        encode 8 e.uncompressed ++ (encode 8 e.compressed ++ e.more) := rfl
    exact ⟨e.more, drop_next_encode hfirst rfl⟩
  · exact ⟨e.more, rfl⟩

/-- A record where it stands is read as its entry. -/
theorem record_read (he : e.WellFormed) (h : buf.drop p = e.record rest) :
    Present buf p ∧ rowOf buf p = e.seen ∧ buf.drop (recordEnd buf p) = rest := by
  have hstands := stands_of_drop he h
  have hblock : e.wideUncompressed = true ∨ e.wideCompressed = true →
      zip64Block (extraOf buf p).length (extraOf buf p) = some e.zip64Data := by
    rw [hstands.extra]
    exact zip64Block_extra he
  refine ⟨⟨hstands.inside, hstands.signature, fun hsat => ?_⟩, ?_, hstands.behind⟩
  · rw [Saturated, hstands.uncompressed, hstands.compressed, size32_eq_max he.uncompressed,
      size32_eq_max he.compressed] at hsat
    exact ⟨_, hblock hsat⟩
  · have hbody : e.wideUncompressed = true ∨ e.wideCompressed = true →
        bodyOf buf p = e.zip64Data := fun hwide => by
      rw [bodyOf, hblock hwide, Option.getD_some]
    have hsecond : e.wideCompressed = true →
        secondOf buf p = if e.wideUncompressed = true then 8 else 0 := fun hwide => by
      have hroom : e.wideUncompressed = true → 8 ≤ (bodyOf buf p).length := fun hu => by
        obtain ⟨rest, hrest⟩ := zip64Data_uncompressed hu
        have hlength := congrArg List.length hrest
        simp only [List.length_drop, List.length_append, length_encode] at hlength
        rw [hbody (.inl hu)]
        omega
      have hmax : field buf (p + 24) 4 = U32_MAX ↔ e.wideUncompressed = true := by
        rw [hstands.uncompressed, size32_eq_max he.uncompressed]
      exact if_congr ((and_congr_left' hmax).trans (and_iff_left_of_imp hroom)) rfl rfl
    have hu := sizeIn_eq he.uncompressed fun hu =>
      (hbody (.inl hu)).symm ▸ zip64Data_uncompressed hu
    have hblockc : e.wideCompressed = true → ∃ rest,
        (bodyOf buf p).drop (secondOf buf p) = encode 8 e.compressed ++ rest := fun hc => by
      rw [hbody (.inr hc), hsecond hc]
      exact zip64Data_compressed hc
    have hc := sizeIn_eq he.compressed hblockc
    rw [rowOf, nameOf, hstands.name, hstands.uncompressed, hstands.compressed, hu, hc, Entry.seen]

end Record

/-! ## The directory -/

/-- A directory where it stands is read entry by entry. -/
theorem directory_read {buf : List UInt8} {entries : List Entry}
    (hentries : ∀ e ∈ entries, e.WellFormed) {p : Nat} {rest : List UInt8}
    (h : buf.drop p = directory entries rest) :
    (∀ q ∈ places buf entries.length p, Present buf q) ∧
      (places buf entries.length p).map (rowOf buf) = entries.map Entry.seen := by
  induction entries generalizing p with
  | nil => exact ⟨List.forall_mem_nil _, rfl⟩
  | cons e entries ih =>
    obtain ⟨hpresent, hrow, hnext⟩ := record_read (hentries e List.mem_cons_self) h
    obtain ⟨hall, hrows⟩ := ih (fun d hd => hentries d (List.mem_cons_of_mem e hd)) hnext
    exact ⟨List.forall_mem_cons.mpr ⟨hpresent, hall⟩, congrArg₂ List.cons hrow hrows⟩

theorem directory_append (entries : List Entry) (xs : List UInt8) :
    directory entries xs = directory entries [] ++ xs := by
  induction entries with
  | nil => rfl
  | cons e entries ih =>
    change e.record (directory entries xs) = e.record (directory entries []) ++ xs
    rw [ih]
    simp only [Entry.record, List.append_assoc]

/-! ## The end records -/

/-- The numbers of the Zip64 records, read where they stand. -/
structure Located (buf : List UInt8) (eocd place count offset : Nat) : Prop where
  room : 20 ≤ eocd
  locator : field buf (eocd - 20) 4 = ZIP64_EOCD_LOCATOR_SIG
  named : toNumber (field buf (eocd - 20 + 8) 8) = place
  inside : place + 56 ≤ buf.length
  signature : field buf place 4 = ZIP64_EOCD_SIG
  counted : field buf (place + 32) 8 = count
  directory : field buf (place + 48) 8 = offset

/-- An end record that has saturated takes the numbers from the Zip64 record. -/
theorem endRecord_of_located {buf : List UInt8} {eocd place count offset : Nat}
    (hsaturated : field buf (eocd + 10) 2 = 0xffff ∨ field buf (eocd + 16) 4 = 0xffffffff)
    (h : Located buf eocd place count offset) :
    Zip.endRecord buf eocd = .ok (count, offset) := by
  have hread : ∀ i width, i + width ≤ place + 56 →
      readUIntLE buf i width = .ok (field buf i width) := fun i width hi =>
    if_pos (Nat.le_trans hi h.inside)
  simp only [Zip.endRecord]
  rw [if_pos hsaturated, if_pos ⟨h.room, h.locator⟩, h.named, hread place 4 (by omega)]
  change (if field buf place 4 = ZIP64_EOCD_SIG then _ else _) = _
  rw [if_pos h.signature, hread (place + 32) 8 (by omega), hread (place + 48) 8 (by omega),
    h.counted, h.directory]
  rfl

namespace Archive

variable (a : Archive)

theorem length_endRecord : a.endRecord.length = 22 + a.comment.length := by
  simp [Layout.endRecord, a.disks_length, a.size_length]
  omega

theorem drop_front : a.bytes.drop a.front.length = directory a.entries (a.gap ++ a.ending) :=
  List.drop_left

theorem drop_gapEnd : a.bytes.drop a.gapEnd = a.ending := by
  have hfront := a.drop_front
  rw [directory_append] at hfront
  exact drop_next (drop_next hfront rfl rfl) rfl rfl

theorem length_bytes : a.gapEnd + a.ending.length = a.bytes.length := by
  have hbytes : a.bytes = a.front ++ (directory a.entries [] ++ (a.gap ++ a.ending)) := by
    rw [← directory_append]
    rfl
  rw [hbytes]
  simp only [Layout.gapEnd, List.length_append]
  omega

/-- The bytes before the archive's own end record: the Zip64 records, if it has them. -/
theorem ending_eq : (a.zip64 = none ∧ a.ending = a.endRecord) ∨ ∃ z, a.zip64 = some z ∧
    a.ending =
      z.record a.entries.length a.front.length (z.locator a.gapEnd a.endRecord) := by
  unfold Layout.ending
  cases a.zip64 with
  | none => exact .inl ⟨rfl, rfl⟩
  | some z => exact .inr ⟨z, rfl, rfl⟩

theorem length_record (z : Zip64End) (count offset : Nat) (rest : List UInt8) :
    (z.record count offset rest).length = 56 + z.more.length + rest.length := by
  simp [Zip64End.record, z.head_length, z.size_length]
  omega

theorem length_locator (z : Zip64End) (place : Nat) (rest : List UInt8) :
    (z.locator place rest).length = 20 + rest.length := by
  simp [Zip64End.locator, z.disk_length, z.disks_length]
  omega

/-- The locator is right before the end record, and the Zip64 record before it. -/
theorem drop_zip64 {z : Zip64End} (hz : a.zip64 = some z) :
    a.own = a.gapEnd + 56 + z.more.length + 20 ∧
      a.bytes.drop a.gapEnd =
        z.record a.entries.length a.front.length (z.locator a.gapEnd a.endRecord) ∧
      a.bytes.drop (a.gapEnd + 56 + z.more.length) = z.locator a.gapEnd a.endRecord := by
  have hending : a.ending =
      z.record a.entries.length a.front.length (z.locator a.gapEnd a.endRecord) := by
    rw [Layout.ending, hz]
  have hrecord := a.drop_gapEnd
  rw [hending] at hrecord
  have hlength := a.length_bytes
  rw [hending, length_record, length_locator, length_endRecord] at hlength
  refine ⟨by rw [Layout.own]; omega, hrecord, ?_⟩
  have hhead : a.bytes.drop (a.gapEnd + 4) = z.head ++ _ := drop_next_encode hrecord rfl
  have hcount : a.bytes.drop (a.gapEnd + 32) = encode 8 _ ++ _ :=
    drop_next hhead z.head_length rfl
  have hsize : a.bytes.drop (a.gapEnd + 40) = z.size ++ _ := drop_next_encode hcount rfl
  have hoffset : a.bytes.drop (a.gapEnd + 48) = encode 8 _ ++ _ :=
    drop_next hsize z.size_length rfl
  have hmore : a.bytes.drop (a.gapEnd + 56) = z.more ++ _ := drop_next_encode hoffset rfl
  exact drop_next hmore rfl rfl

/-- The archive's bytes end with its own end record. -/
theorem drop_own : a.own + (22 + a.comment.length) = a.bytes.length ∧
    a.bytes.drop a.own = a.endRecord := by
  have hlength := a.length_bytes
  rcases a.ending_eq with ⟨-, hending⟩ | ⟨z, hz, hending⟩
  · rw [hending, length_endRecord] at hlength
    have hown : a.own = a.gapEnd := by
      rw [Layout.own]
      omega
    rw [hown]
    exact ⟨hlength, hending ▸ a.drop_gapEnd⟩
  · obtain ⟨hown, -, hlocator⟩ := a.drop_zip64 hz
    rw [hending, length_record, length_locator, length_endRecord] at hlength
    refine ⟨by omega, ?_⟩
    have hdisk : a.bytes.drop (a.gapEnd + 56 + z.more.length + 4) = z.disk ++ _ :=
      drop_next_encode hlocator rfl
    have hplace : a.bytes.drop (a.gapEnd + 56 + z.more.length + 8) = encode 8 _ ++ _ :=
      drop_next hdisk z.disk_length rfl
    have hdisks : a.bytes.drop (a.gapEnd + 56 + z.more.length + 16) = z.disks ++ _ :=
      drop_next_encode hplace rfl
    exact drop_next hdisks z.disks_length hown

/-- The count and the place that the end record itself has. -/
theorem own_fields :
    field a.bytes a.own 4 = EOCD_SIG ∧
    field a.bytes (a.own + 10) 2 = (if a.wideCount then 0xffff else a.entries.length) ∧
    field a.bytes (a.own + 16) 4 = (if a.wideOffset then U32_MAX else a.front.length) := by
  have hsig : a.bytes.drop a.own = encode 4 EOCD_SIG ++ _ := a.drop_own.2
  have hdisks : a.bytes.drop (a.own + 4) = a.disks ++ _ := drop_next_encode hsig rfl
  have hcount : a.bytes.drop (a.own + 10) = encode 2 _ ++ _ := drop_next hdisks a.disks_length rfl
  have hsize : a.bytes.drop (a.own + 12) = a.size ++ _ := drop_next_encode hcount rfl
  have hoffset : a.bytes.drop (a.own + 16) = encode 4 _ ++ _ := drop_next hsize a.size_length rfl
  refine ⟨field_eq hsig (by decide), field_eq hcount ?_, field_eq hoffset ?_⟩
  · split
    · decide
    · next hwide => exact Nat.lt_trans (a.count_fits (by simpa using hwide)) (by decide)
  · split
    · decide
    · next hwide => exact Nat.lt_trans (a.offset_fits (by simpa using hwide)) (by decide)

/-- The count of the entries and the place of the directory are small, like the archive. -/
theorem counts_lt : a.entries.length < 2 ^ 53 ∧ a.front.length < 2 ^ 53 ∧ a.gapEnd < 2 ^ 53 := by
  have hshort := a.short
  have hlength := a.length_bytes
  have hbound := places_bound (directory_read a.wellFormed a.drop_front).1
  have hfront : a.front.length ≤ a.gapEnd := by
    rw [Layout.gapEnd]
    omega
  exact ⟨by omega, by omega, by omega⟩

theorem located {z : Zip64End} (hz : a.zip64 = some z) :
    Located a.bytes a.own a.gapEnd a.entries.length a.front.length := by
  obtain ⟨hown, hrecord, hlocator⟩ := a.drop_zip64 hz
  obtain ⟨hcount_lt, hfront_lt, hgap_lt⟩ := a.counts_lt
  obtain ⟨hlength, -⟩ := a.drop_own
  have hback : a.own - 20 = a.gapEnd + 56 + z.more.length := by omega
  have hhead : a.bytes.drop (a.gapEnd + 4) = z.head ++ _ := drop_next_encode hrecord rfl
  have hcount : a.bytes.drop (a.gapEnd + 32) = encode 8 _ ++ _ :=
    drop_next hhead z.head_length rfl
  have hsize : a.bytes.drop (a.gapEnd + 40) = z.size ++ _ := drop_next_encode hcount rfl
  have hoffset : a.bytes.drop (a.gapEnd + 48) = encode 8 _ ++ _ :=
    drop_next hsize z.size_length rfl
  rw [← hback] at hlocator
  have hdisk : a.bytes.drop (a.own - 20 + 4) = z.disk ++ _ := drop_next_encode hlocator rfl
  have hplace : a.bytes.drop (a.own - 20 + 8) = encode 8 _ ++ _ :=
    drop_next hdisk z.disk_length rfl
  exact
    { room := by omega
      locator := field_eq hlocator (by decide)
      named := by rw [field_eq hplace (by omega), toNumber_of_lt hgap_lt]
      inside := by omega
      signature := field_eq hrecord (by decide)
      counted := field_eq hcount (by omega)
      directory := field_eq hoffset (by omega) }

/-- What the archive's own end record declares. -/
theorem endRecord_own : endRecord a.bytes a.own = .ok (a.entries.length, a.front.length) := by
  obtain ⟨-, hcount, hoffset⟩ := a.own_fields
  by_cases hwide : a.wideCount = true ∨ a.wideOffset = true
  · obtain ⟨z, hz⟩ := Option.isSome_iff_exists.mp (a.zip64_there hwide)
    have hsaturated : field a.bytes (a.own + 10) 2 = 0xffff ∨
        field a.bytes (a.own + 16) 4 = 0xffffffff := by
      rw [hcount, hoffset]
      exact hwide.imp (fun h => if_pos h) fun h => if_pos h
    exact endRecord_of_located hsaturated (a.located hz)
  · rw [not_or, Bool.not_eq_true, Bool.not_eq_true] at hwide
    have hcount_lt := a.count_fits hwide.1
    have hoffset_lt := a.offset_fits hwide.2
    rw [hwide.1, if_neg (by decide)] at hcount
    rw [hwide.2, if_neg (by decide)] at hoffset
    have hplain : ¬ (a.entries.length = 0xffff ∨ a.front.length = 0xffffffff) := by
      rw [not_or]
      exact ⟨Nat.ne_of_lt hcount_lt, Nat.ne_of_lt hoffset_lt⟩
    simp only [Zip.endRecord, hcount, hoffset]
    rw [if_neg hplain]
    rfl

theorem own_signature : field a.bytes a.own 4 = EOCD_SIG := a.own_fields.1

theorem isLast_own_iff : IsLast a.bytes a.own ↔ a.Quiet := by
  obtain ⟨hlength, -⟩ := a.drop_own
  have hshort := a.comment_short
  exact ⟨fun h => h.last, fun h => ⟨by omega, by omega, a.own_signature, h⟩⟩

/-- An end record that the reader takes is the archive's own or behind it. -/
theorem own_le {i : Nat} (h : IsLast a.bytes i) : a.own ≤ i := by
  by_contra hlt
  obtain ⟨hlength, -⟩ := a.drop_own
  exact h.last a.own (by omega) (by omega) a.own_signature

theorem lists_own : Lists a.bytes a.own (a.entries.map Entry.seen) := by
  obtain ⟨hall, hrows⟩ := directory_read a.wellFormed a.drop_front
  exact ⟨_, _, a.endRecord_own, hall, hrows.symm⟩

/-- An end record lists one directory. -/
theorem lists_unique {buf : List UInt8} {eocd : Nat} {rows rows' : List ZipEntry}
    (h : Lists buf eocd rows) (h' : Lists buf eocd rows') : rows = rows' := by
  obtain ⟨n, p, hend, -, rfl⟩ := h
  obtain ⟨n', p', hend', -, rfl⟩ := h'
  rw [hend] at hend'
  obtain ⟨rfl, rfl⟩ := Prod.mk.inj (Except.ok.inj hend')
  rfl

theorem map_seen_iff {entries : List Entry} :
    entries.map Entry.seen = entries.map Entry.listed ↔ ∀ e ∈ entries, e.Exact := by
  rw [List.map_inj_left]
  exact forall₂_congr fun e _ => e.seen_eq_listed_iff

/-- The names and sizes of a well-formed archive are read exactly where its own end record is the
last and its entries can be read, or where the last says the same. -/
theorem reads_iff : readZipEntries a.bytes = .ok a.listing ↔
    (a.Quiet ∧ ∀ e ∈ a.entries, e.Exact) ∨ a.Echoed := by
  have hread : readZipEntries a.bytes = .ok a.listing ↔
      ∃ i, IsLast a.bytes i ∧ Lists a.bytes i a.listing := readZipEntries_eq_ok_iff a.buffer
  rw [hread, ← isLast_own_iff]
  constructor
  · rintro ⟨i, hlast, hlists⟩
    rcases Nat.lt_or_eq_of_le (a.own_le hlast) with hlt | rfl
    · exact .inr ⟨i, hlt, hlast, hlists⟩
    · exact .inl ⟨hlast, map_seen_iff.mp (lists_unique a.lists_own hlists)⟩
  · rintro (⟨hlast, hexact⟩ | ⟨i, -, hlast, hlists⟩)
    · refine ⟨a.own, hlast, ?_⟩
      rw [listing, ← map_seen_iff.mpr hexact]
      exact a.lists_own
    · exact ⟨i, hlast, hlists⟩

end Archive

/-- A directory is read whole or refused, and a well-formed archive as it is: exactly under these
conditions. -/
theorem directory_iff (buf : Buffer) (a : Archive) :
    ((∀ rows, readZipEntries buf.bytes = .ok rows → ReadWhole buf.bytes rows) ↔
      Kept buf.bytes) ∧
    (readZipEntries a.bytes = .ok a.listing ↔
      (a.Quiet ∧ ∀ e ∈ a.entries, e.Exact) ∨ a.Echoed) :=
  ⟨readWhole_iff buf, a.reads_iff⟩

/-- An end record, and behind it a central record that breaks off before its name. -/
def cutBytes : List UInt8 :=
  encode 4 EOCD_SIG ++ List.replicate 6 0 ++ encode 2 1 ++ List.replicate 4 0 ++ encode 4 22 ++
    encode 2 46 ++ encode 4 CEN_SIG ++ List.replicate 24 0 ++ encode 2 1 ++ List.replicate 16 0

/-- An entry with no bytes. -/
def emptyEntry : Entry where
  name := ['a']
  nameBytes := [0x61]
  uncompressed := 0
  compressed := 0
  wideUncompressed := false
  wideCompressed := false
  head := List.replicate 16 0
  tail := List.replicate 12 0
  before := []
  more := []
  after := []
  comment := []

/-- An archive of one entry, whose comment holds the end record of an empty one. -/
def notedLayout : Layout where
  front := []
  entries := [emptyEntry]
  gap := []
  zip64 := none
  disks := List.replicate 6 0
  size := List.replicate 4 0
  wideCount := false
  wideOffset := false
  comment := encode 4 EOCD_SIG ++ List.replicate 18 0

theorem emptyEntry_wellFormed : emptyEntry.WellFormed where
  head := rfl
  tail := rfl
  name := by decide
  extra := by decide
  comment := by decide
  zip64 := by decide
  before := List.forall_mem_nil _
  uncompressed := by decide
  compressed := by decide

def noted : Archive where
  toLayout := notedLayout
  wellFormed := List.forall_mem_singleton.mpr emptyEntry_wellFormed
  disks_length := rfl
  size_length := rfl
  comment_short := by decide
  count_fits _ := by decide
  offset_fits _ := by decide
  zip64_there h := by rcases h with h | h <;> cases h
  short := by decide +kernel

/-- The record that breaks off is returned as a row, and the archive with the note as empty. -/
theorem directory_fails :
    (readZipEntries cutBytes = .ok [⟨[], 0, 0⟩] ∧ ¬ ReadWhole cutBytes [⟨[], 0, 0⟩]) ∧
    (readZipEntries noted.bytes = .ok [] ∧ noted.listing ≠ []) := by
  refine ⟨⟨by decide +kernel, ?_⟩, by decide +kernel, by decide⟩
  rintro ⟨eocd, n, p, hlast, hend, hlength, hwhole⟩
  have hfind : findEocd cutBytes = some 0 := by decide +kernel
  rw [findEocd_eq_some_iff.mpr hlast] at hfind
  obtain rfl := Option.some.inj hfind
  have hdeclared : endRecord cutBytes 0 = .ok (1, 22) := by decide +kernel
  rw [hdeclared] at hend
  obtain ⟨rfl, rfl⟩ := Prod.mk.inj (Except.ok.inj hend)
  obtain ⟨hrecord, -⟩ := List.forall₂_cons.mp hwhole
  exact absurd hrecord.inside (by decide +kernel)

end FleetRunner.Zip
