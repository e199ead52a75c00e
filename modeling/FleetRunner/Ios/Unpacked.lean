import FleetRunner.Ios.MiniZip

/-!
# Archives and what is unpacked of them

An archive has its local records anywhere, a directory of central records, and behind it
the end record with a comment. Its entries are stored or deflated; a name that ends in a
slash is a directory's.

Where the archive's own end record is the last that the extractor finds, the files below
the destination are the archive's.
-/

namespace FleetRunner.Ios.MiniZip

open Library.LittleEndian Library.PosixPath

/-! ## The layout -/

/-- The bytes that a stream gives, if it does not fail. -/
def Stream.output : Stream → Option (List UInt8)
  | .ok out next => next.output.map (out ++ ·)
  | .done out => some out
  | .failed => none

/-- An entry of an archive, with the bytes that its data stands for. -/
structure Item where
  nameBytes : List UInt8
  deflated : Bool
  payload : List UInt8
  content : List UInt8
  /-- The place of the local record. -/
  place : Nat
  /-- Versions and flags. -/
  head : List UInt8
  /-- Time, date and checksum. -/
  times : List UInt8
  size : List UInt8
  extra : List UInt8
  comment : List UInt8
  /-- Disk and attributes. -/
  tail : List UInt8
  /-- The local record between its signature and the length of its name. -/
  localHead : List UInt8
  localExtra : List UInt8

namespace Item

variable (e : Item)

def name : List Char := Library.Utf8.decode e.nameBytes

def method : Nat := if e.deflated then 8 else 0

/-- The central record, with what follows it. -/
def central (rest : List UInt8) : List UInt8 :=
  encode 4 CENTRAL_SIG ++ (e.head ++ (encode 2 e.method ++ (e.times ++
    (encode 4 e.payload.length ++ (e.size ++ (encode 2 e.nameBytes.length ++
      (encode 2 e.extra.length ++ (encode 2 e.comment.length ++ (e.tail ++
        (encode 4 e.place ++ (e.nameBytes ++ (e.extra ++ (e.comment ++ rest)))))))))))))

/-- The local record with its data, and what follows it. -/
def entry (rest : List UInt8) : List UInt8 :=
  encode 4 LOCAL_SIG ++ (e.localHead ++ (encode 2 e.nameBytes.length ++
    (encode 2 e.localExtra.length ++ (e.nameBytes ++ (e.localExtra ++ (e.payload ++ rest))))))

def file? : Bool := decide (e.name.getLast? ≠ some '/')

structure WellFormed (compression : Compression) : Prop where
  head : e.head.length = 6
  times : e.times.length = 8
  size : e.size.length = 4
  tail : e.tail.length = 8
  localHead : e.localHead.length = 22
  name : e.nameBytes.length < 256 ^ 2
  extra : e.extra.length < 256 ^ 2
  comment : e.comment.length < 256 ^ 2
  localExtra : e.localExtra.length < 256 ^ 2
  payload : e.payload.length < 256 ^ 4
  place : e.place < 256 ^ 4
  stored : e.deflated = false → e.content = e.payload
  deflated : e.deflated = true → ∃ stream,
    compression e.payload = some stream ∧ stream.output = some e.content

end Item

structure Layout where
  bytes : List UInt8
  items : List Item
  /-- The place of the first central record. -/
  start : Nat
  /-- The place of the end record. -/
  own : Nat
  /-- Disks, and the entries on this disk. -/
  disks : List UInt8
  size : List UInt8
  comment : List UInt8

/-- The place below the destination, or the destination's. -/
def Below (dest : List Char) (place : Place) : Prop := standardized dest <+: place

def Layout.endRecord (l : Layout) : List UInt8 :=
  encode 4 Zip.EOCD_SIG ++ (l.disks ++ (encode 2 l.items.length ++ (l.size ++
    (encode 4 l.start ++ (encode 2 l.comment.length ++ l.comment)))))

def directoryBytes (items : List Item) (rest : List UInt8) : List UInt8 :=
  items.foldr Item.central rest

/-- Where an item goes. -/
def Item.out (dest : List Char) (e : Item) : Place :=
  standardized (appendingPathComponent dest e.name)

/-- An archive with a destination: all entries go below it, and no two files to one place. -/
structure Archive (compression : Compression) (dest : List Char) extends Layout where
  wellFormed : ∀ e ∈ items, e.WellFormed compression
  locals : ∀ e ∈ items, ∃ rest, bytes.drop e.place = e.entry rest
  directory : ∃ rest, bytes.drop start = directoryBytes items rest
  before : start + (directoryBytes items []).length ≤ own
  ending : bytes.drop own = toLayout.endRecord
  disks_length : disks.length = 6
  size_length : size.length = 4
  comment_short : comment.length < 256 ^ 2
  count : items.length < 256 ^ 2
  start_lt : start < 256 ^ 4
  below : ∀ e ∈ items, standardized dest <+: e.out dest
  files_below : ∀ e ∈ items, e.file? = true → e.out dest ≠ standardized dest
  distinct : ((items.filter Item.file?).map (Item.out dest)).Nodup

/-! ## A record -/

section Records

variable {compression : Compression} {data rest : List UInt8} {p : Nat} {e : Item}

theorem drain_output {stream : Stream} {content : List UInt8} (h : stream.output = some content)
    (out : List UInt8) : drain out stream = .ok (out ++ content) := by
  induction stream generalizing out content with
  | ok bytes next ih =>
    obtain ⟨tail, htail, rfl⟩ := Option.map_eq_some_iff.mp h
    rw [drain, ih htail, List.append_assoc]
  | done bytes =>
    obtain rfl := Option.some.inj h
    rfl
  | failed => cases h

/-- What is read where an item's records stand. -/
structure Stands (data : List UInt8) (p : Nat) (e : Item) (rest : List UInt8) : Prop where
  fits : Fits data p
  signed : Signed data p
  record : recordAt data p = ⟨e.name, e.method, e.payload, Zip.recordEnd data p⟩
  behind : data.drop (Zip.recordEnd data p) = rest

/-- A local record where it stands. -/
theorem local_read (he : e.WellFormed compression) {more : List UInt8}
    (hplace : localOf data p = e.place) (hsize : field data (p + 20) 4 = e.payload.length)
    (h : data.drop e.place = e.entry more) :
    LocalFits data p ∧ field data (localOf data p) 4 = LOCAL_SIG ∧
      slice data (payloadStart data p) e.payload.length = e.payload := by
  have hsig : data.drop e.place = encode 4 LOCAL_SIG ++ _ := h
  have hhead : data.drop (e.place + 4) = e.localHead ++ _ := drop_next_encode hsig rfl
  have hnameLen : data.drop (e.place + 26) = encode 2 e.nameBytes.length ++ _ :=
    drop_next hhead he.localHead rfl
  have hextraLen : data.drop (e.place + 28) = encode 2 e.localExtra.length ++ _ :=
    drop_next_encode hnameLen rfl
  have hname : data.drop (e.place + 30) = e.nameBytes ++ _ := drop_next_encode hextraLen rfl
  have hextra : data.drop (e.place + 30 + e.nameBytes.length) = e.localExtra ++ _ :=
    drop_next hname rfl rfl
  have hpayload : data.drop (e.place + 30 + e.nameBytes.length + e.localExtra.length) =
      e.payload ++ more := drop_next hextra rfl rfl
  have hstart : payloadStart data p = e.place + 30 + e.nameBytes.length + e.localExtra.length := by
    rw [payloadStart, hplace, field_eq hnameLen he.name, field_eq hextraLen he.localExtra]
  have hlength := congrArg List.length h
  simp only [List.length_drop, Item.entry, List.length_append, length_encode, he.localHead]
    at hlength
  refine ⟨⟨by omega, fun _ => by omega⟩, ?_, ?_⟩
  · rw [hplace, field_eq hsig (by decide)]
  · rw [hstart, slice_eq hpayload rfl]

/-- A central record where it stands. -/
theorem item_read (he : e.WellFormed compression)
    (hlocal : ∃ more, data.drop e.place = e.entry more) (h : data.drop p = e.central rest) :
    Stands data p e rest := by
  have hsig : data.drop p = encode 4 CENTRAL_SIG ++ _ := h
  have hhead : data.drop (p + 4) = e.head ++ _ := drop_next_encode hsig rfl
  have hmethod : data.drop (p + 10) = encode 2 e.method ++ _ := drop_next hhead he.head rfl
  have htimes : data.drop (p + 12) = e.times ++ _ := drop_next_encode hmethod rfl
  have hcomp : data.drop (p + 20) = encode 4 e.payload.length ++ _ := drop_next htimes he.times rfl
  have hsize : data.drop (p + 24) = e.size ++ _ := drop_next_encode hcomp rfl
  have hnameLen : data.drop (p + 28) = encode 2 e.nameBytes.length ++ _ :=
    drop_next hsize he.size rfl
  have hextraLen : data.drop (p + 30) = encode 2 e.extra.length ++ _ :=
    drop_next_encode hnameLen rfl
  have hcommentLen : data.drop (p + 32) = encode 2 e.comment.length ++ _ :=
    drop_next_encode hextraLen rfl
  have htail : data.drop (p + 34) = e.tail ++ _ := drop_next_encode hcommentLen rfl
  have hplace : data.drop (p + 42) = encode 4 e.place ++ _ := drop_next htail he.tail rfl
  have hname : data.drop (p + 46) = e.nameBytes ++ _ := drop_next_encode hplace rfl
  have hextra : data.drop (p + 46 + e.nameBytes.length) = e.extra ++ _ := drop_next hname rfl rfl
  have hcomment : data.drop (p + 46 + e.nameBytes.length + e.extra.length) = e.comment ++ rest :=
    drop_next hextra rfl rfl
  have hmethod_lt : e.method < 256 ^ 2 := by
    unfold Item.method
    split <;> decide
  have hnameLen_eq := field_eq hnameLen he.name
  have hcomp_eq := field_eq hcomp he.payload
  have hplace_eq : localOf data p = e.place := field_eq hplace he.place
  obtain ⟨more, hmore⟩ := hlocal
  obtain ⟨hfits, hsigned, hslice⟩ := local_read he hplace_eq hcomp_eq hmore
  have hlength := congrArg List.length h
  simp only [List.length_drop, Item.central, List.length_append, length_encode, he.head, he.times,
    he.size, he.tail] at hlength
  have hend : Zip.recordEnd data p =
      p + 46 + e.nameBytes.length + e.extra.length + e.comment.length := by
    rw [Zip.recordEnd, hnameLen_eq, field_eq hextraLen he.extra, field_eq hcommentLen he.comment]
  refine ⟨⟨by omega, fun _ => ⟨by omega, hfits⟩⟩, ⟨field_eq hsig (by decide), hsigned⟩, ?_, ?_⟩
  · rw [recordAt, hnameLen_eq, hcomp_eq, hslice, field_eq hmethod hmethod_lt, slice_eq hname rfl]
    rfl
  · rw [hend]
    exact drop_next hcomment rfl rfl

end Records

/-! ## The files of a run -/

/-- The files that are written one after the other. -/
def put (files : Place → Option (List UInt8)) (writes : List (Place × List UInt8)) :
    Place → Option (List UInt8) :=
  writes.foldl (fun files w => Function.update files w.1 (some w.2)) files

section Files

variable (compression : Compression) (dest : List Char) (data : List UInt8)

/-- What is written for the record at a place. -/
def writeOf (p : Nat) : Option (Place × List UInt8) :=
  if Passes compression dest data p ∧ ¬ IsDirectory (recordAt data p) then
    (contents compression (recordAt data p)).toOption.map (outOf dest (recordAt data p), ·)
  else none

/-- What is written for so many records from a place on. -/
def writes (left p : Nat) : List (Place × List UInt8) :=
  (reached compression dest data left p).filterMap (writeOf compression dest data)

variable {compression dest data} {left p : Nat} {disk : Disk}

theorem writeOf_of_not_passes (h : ¬ Passes compression dest data p) :
    writeOf compression dest data p = none := if_neg fun hpasses => h hpasses.1

theorem writes_stop (h : ¬ Passes compression dest data p) :
    writes compression dest data (left + 1) p = [] := by
  rw [writes, reached, if_neg h, List.filterMap_cons, writeOf_of_not_passes h]
  rfl

theorem writes_pass (h : Passes compression dest data p) :
    writes compression dest data (left + 1) p = (writeOf compression dest data p).toList ++
      writes compression dest data left (Zip.recordEnd data p) := by
  rw [writes, reached, if_pos h, List.filterMap_cons]
  cases writeOf compression dest data p <;> rfl

/-- The files of an entry that is passed. -/
theorem Unpacked.files {run : Disk × Except Stop Unit}
    (hrun : Unpacked compression dest disk (recordAt data p) run)
    (h : run.2 = .ok () → Passes compression dest data p) :
    run.1.files = if run.2 = .ok () then
      put disk.files (writeOf compression dest data p).toList else disk.files := by
  cases hrun with
  | refused haccepted message => rfl
  | directory haccepted hdir =>
    rw [if_pos rfl, writeOf, if_neg fun hfile => hfile.2 hdir]
    rfl
  | failed haccepted hfile message hcontents => rfl
  | file haccepted hfile bytes hcontents =>
    rw [if_pos rfl, writeOf, if_pos ⟨h rfl, hfile⟩, hcontents]
    rfl

theorem entries_files (left p : Nat) (disk : Disk) :
    (entries compression data dest left p disk).1.files =
      put disk.files (writes compression dest data left p) := by
  induction left generalizing p disk with
  | zero => rfl
  | succ left ih =>
    have hturn := entries_turn compression data dest left p disk
    generalize entries compression data dest (left + 1) p disk = run at hturn
    cases hturn with
    | trap h =>
      rw [writes_stop fun hpasses => h hpasses.fits]
      rfl
    | unsigned hfits h message =>
      rw [writes_stop fun hpasses => h hpasses.signed]
      rfl
    | stopped hfits hsigned after message hrun h =>
      rw [writes_stop h]
      exact hrun.files nofun
    | passed after hrun h =>
      have hfiles := hrun.files fun _ => h
      rw [if_pos rfl] at hfiles
      rw [ih, writes_pass h, hfiles, put, put, put, List.foldl_append]

theorem put_of_eq {files files' : Place → Option (List UInt8)} {q : Place}
    (h : files q = files' q) (ws : List (Place × List UInt8)) :
    put files ws q = put files' ws q := by
  induction ws generalizing files files' with
  | nil => exact h
  | cons w ws ih =>
    refine ih ?_
    simp only [Function.update_apply, h]

/-- Files that go to distinct places are all there. -/
theorem put_eq_find {files : Place → Option (List UInt8)} {q : Place}
    {ws : List (Place × List UInt8)} (hdistinct : (ws.map Prod.fst).Nodup) :
    put files ws q = ((ws.find? fun w => w.1 = q).map Prod.snd).or (files q) := by
  induction ws generalizing files with
  | nil => rfl
  | cons w ws ih =>
    obtain ⟨hnew, hrest⟩ := List.nodup_cons.mp hdistinct
    change put (Function.update files w.1 (some w.2)) ws q = _
    rw [ih hrest]
    by_cases hq : w.1 = q
    · have hnone : (ws.find? fun w => w.1 = q) = none := by
        refine List.find?_eq_none.mpr fun v hv heq => hnew ?_
        rw [hq, ← of_decide_eq_true heq]
        exact List.mem_map_of_mem hv
      have hfind : ((w :: ws).find? fun w => w.1 = q) = some w :=
        List.find?_cons_of_pos (by simpa using hq)
      rw [hnone, hfind, Function.update_apply, if_pos hq.symm]
      rfl
    · have hfind : ((w :: ws).find? fun w => w.1 = q) = ws.find? fun w => w.1 = q :=
        List.find?_cons_of_neg (by simpa using hq)
      rw [hfind, Function.update_of_ne (Ne.symm hq)]

end Files

/-! ## Archives -/

namespace Archive

variable {compression : Compression} {dest : List Char} (a : Archive compression dest)

/-- The archive's file at a place. -/
def file (q : Place) : Option (List UInt8) :=
  ((a.items.filter Item.file?).find? fun e => e.out dest = q).map Item.content

/-- No end record's signature stands behind the archive's own, with eighteen bytes behind it. -/
def Quiet : Prop := ∀ i, a.own < i → i + 22 ≤ a.bytes.length → field a.bytes i 4 ≠ Zip.EOCD_SIG

/-- The files below the destination are the archive's. -/
def Exact (files : Place → Option (List UInt8)) : Prop :=
  ∀ q, standardized dest <+: q → q ≠ standardized dest → files q = a.file q

/-- The comment has an end record of its own, whose records have the same files. -/
def Echoed : Prop := ∃ i, a.own < i ∧ Zip.IsLast a.bytes i ∧
  a.Exact (put (fun _ => none)
    (writes compression dest a.bytes (field a.bytes (i + 10) 2) (field a.bytes (i + 16) 4)))

/-- Files that end up below the destination are among those that were written, where there were
none. -/
theorem exact_iff {disk : Disk}
    (hempty : ∀ q, standardized dest <+: q → q ≠ standardized dest → disk.files q = none)
    (ws : List (Place × List UInt8)) :
    a.Exact (put disk.files ws) ↔ a.Exact (put (fun _ => none) ws) := by
  refine forall₃_congr fun q hbelow hne => ?_
  have hsame : put disk.files ws q = put (fun _ => none) ws q := put_of_eq (hempty q hbelow hne) ws
  rw [hsame]

theorem length_bytes : a.own + (22 + a.comment.length) = a.bytes.length := by
  have hlength := congrArg List.length a.ending
  simp only [List.length_drop, Layout.endRecord, List.length_append, length_encode, a.disks_length,
    a.size_length] at hlength
  omega

/-- The count and the place in the archive's own end record. -/
theorem own_fields : field a.bytes a.own 4 = Zip.EOCD_SIG ∧
    field a.bytes (a.own + 10) 2 = a.items.length ∧ field a.bytes (a.own + 16) 4 = a.start := by
  have hsig : a.bytes.drop a.own = encode 4 Zip.EOCD_SIG ++ _ := a.ending
  have hdisks : a.bytes.drop (a.own + 4) = a.disks ++ _ := drop_next_encode hsig rfl
  have hcount : a.bytes.drop (a.own + 10) = encode 2 _ ++ _ := drop_next hdisks a.disks_length rfl
  have hsize : a.bytes.drop (a.own + 12) = a.size ++ _ := drop_next_encode hcount rfl
  have hstart : a.bytes.drop (a.own + 16) = encode 4 _ ++ _ := drop_next hsize a.size_length rfl
  exact ⟨field_eq hsig (by decide), field_eq hcount a.count, field_eq hstart a.start_lt⟩

theorem isLast_own_iff : Zip.IsLast a.bytes a.own ↔ a.Quiet := by
  have hlength := a.length_bytes
  have hshort := a.comment_short
  exact ⟨fun h => h.last, fun h => ⟨by omega, by omega, a.own_fields.1, h⟩⟩

/-- An end record that the extractor takes is the archive's own or behind it. -/
theorem own_le {i : Nat} (h : Zip.IsLast a.bytes i) : a.own ≤ i := by
  by_contra hlt
  have hlength := a.length_bytes
  exact h.last a.own (by omega) (by omega) a.own_fields.1

theorem last_unique {data : List UInt8} {i j : Nat} (hi : Zip.IsLast data i)
    (hj : Zip.IsLast data j) : i = j :=
  Option.some.inj ((Zip.findEocd_eq_some_iff.mpr hi).symm.trans (Zip.findEocd_eq_some_iff.mpr hj))

/-- The extractor finds an end record. -/
theorem exists_last : ∃ i, Zip.IsLast a.bytes i := by
  have hlength := a.length_bytes
  have hshort := a.comment_short
  let found := Nat.findGreatest
    (fun i => i + 22 ≤ a.bytes.length ∧ field a.bytes i 4 = Zip.EOCD_SIG) a.bytes.length
  have hown : a.own + 22 ≤ a.bytes.length ∧ field a.bytes a.own 4 = Zip.EOCD_SIG :=
    ⟨by omega, a.own_fields.1⟩
  have hle : a.own ≤ found := Nat.le_findGreatest (by omega) hown
  obtain ⟨hfits, hsignature⟩ := Nat.findGreatest_spec
    (P := fun i => i + 22 ≤ a.bytes.length ∧ field a.bytes i 4 = Zip.EOCD_SIG)
    (by omega : a.own ≤ a.bytes.length) hown
  refine ⟨found, by omega, hfits, hsignature, fun j hj hroom hsig => ?_⟩
  exact Nat.findGreatest_is_greatest hj (by omega) ⟨hroom, hsig⟩

theorem directory_append (items : List Item) (xs : List UInt8) :
    directoryBytes items xs = directoryBytes items [] ++ xs := by
  induction items with
  | nil => rfl
  | cons e items ih =>
    change e.central (directoryBytes items xs) = e.central (directoryBytes items []) ++ xs
    rw [ih]
    simp only [Item.central, List.append_assoc]

theorem length_directory (items : List Item) : items.length ≤ (directoryBytes items []).length := by
  induction items with
  | nil => exact Nat.le_refl 0
  | cons e items ih =>
    change _ ≤ (e.central (directoryBytes items [])).length
    simp only [Item.central, List.length_append, length_encode, List.length_cons]
    omega

/-- What an item's record holds can be written. -/
theorem contents_item {e : Item} (he : e.WellFormed compression) (next : Nat) :
    contents compression ⟨e.name, e.method, e.payload, next⟩ = .ok e.content := by
  cases hdeflated : e.deflated with
  | false =>
    have hmethod : e.method = 0 := by rw [Item.method, hdeflated]; rfl
    rw [contents, hmethod, if_pos rfl, he.stored hdeflated]
  | true =>
    have hmethod : e.method = 8 := by rw [Item.method, hdeflated]; rfl
    obtain ⟨stream, hstream, houtput⟩ := he.deflated hdeflated
    rw [contents, hmethod]
    change inflate compression e.payload = _
    rw [inflate, hstream]
    exact drain_output houtput []

/-- The records of items that stand somewhere are all passed, and their files are written. -/
theorem writes_items {data : List UInt8} {items : List Item}
    (hitems : ∀ e ∈ items, e.WellFormed compression ∧
      (∃ rest, data.drop e.place = e.entry rest) ∧ standardized dest <+: e.out dest)
    {p : Nat} {rest : List UInt8} (h : data.drop p = directoryBytes items rest) :
    writes compression dest data items.length p =
      (items.filter Item.file?).map fun e => (e.out dest, e.content) := by
  induction items generalizing p with
  | nil => rfl
  | cons e items ih =>
    obtain ⟨he, hlocal, hbelow⟩ := hitems e List.mem_cons_self
    obtain ⟨hfits, hsigned, hrecord, hbehind⟩ := item_read he hlocal h
    have hcontents := contents_item he (Zip.recordEnd data p)
    rw [← hrecord] at hcontents
    have hout : outOf dest (recordAt data p) = e.out dest := by rw [hrecord]; rfl
    have hpasses : Passes compression dest data p := by
      refine ⟨hfits, hsigned, accepted_iff.mpr (.inl (hout ▸ hbelow)), .inr ?_⟩
      rw [Written, hcontents]
      rfl
    have hdir : IsDirectory (recordAt data p) ↔ e.file? = false := by
      rw [hrecord]
      simp [IsDirectory, Item.file?]
    rw [List.length_cons, writes_pass hpasses, ih (fun d hd => hitems d (List.mem_cons_of_mem e hd))
      hbehind]
    cases hfile : e.file? with
    | true =>
      have hwrite : writeOf compression dest data p = some (e.out dest, e.content) := by
        rw [writeOf, if_pos ⟨hpasses, by simp [hdir, hfile]⟩, hcontents, hout]
        rfl
      rw [hwrite, List.filter_cons_of_pos hfile]
      rfl
    | false =>
      have hwrite : writeOf compression dest data p = none :=
        if_neg fun h => h.2 (hdir.mpr hfile)
      rw [hwrite, List.filter_cons_of_neg (by simp [hfile])]
      rfl

/-- The archive's own directory has the archive's files. -/
theorem exact_own : a.Exact (put (fun _ => none)
    (writes compression dest a.bytes a.items.length a.start)) := by
  obtain ⟨rest, hrest⟩ := a.directory
  have hwrites := writes_items (fun e he => ⟨a.wellFormed e he, a.locals e he, a.below e he⟩) hrest
  intro q _ _
  have hdistinct : (((a.items.filter Item.file?).map fun e => (e.out dest, e.content)).map
      Prod.fst).Nodup := by
    rw [List.map_map]
    exact a.distinct
  rw [hwrites, put_eq_find hdistinct, List.find?_map, Option.map_map, Option.or_none]
  rfl

/-- The files of a run are those of the records behind the last end record. -/
theorem extract_files (disk : Disk) {i : Nat} (h : Zip.IsLast a.bytes i)
    (hlong : 22 < a.bytes.length) :
    (extract compression a.bytes dest disk).1.files = put disk.files
      (writes compression dest a.bytes (field a.bytes (i + 10) 2) (field a.bytes (i + 16) 4)) := by
  rw [extract_eq, if_neg (not_not.mpr hlong), Zip.findEocd_eq_some_iff.mpr h]
  exact entries_files _ _ _

/-- An archive without anything in it. -/
theorem items_of_short (hshort : ¬ 22 < a.bytes.length) : a.items = [] ∧ a.own = 0 := by
  have hlength := a.length_bytes
  have hbefore := a.before
  have hitems := length_directory a.items
  refine ⟨List.length_eq_zero_iff.mp (by omega), by omega⟩

/-- The files below an empty destination are the archive's exactly where its own end record is the
last, or where the last has the same files. -/
theorem unpacks_iff : (∀ disk, Ready dest disk →
      (∀ q, standardized dest <+: q → q ≠ standardized dest → disk.files q = none) →
      a.Exact (extract compression a.bytes dest disk).1.files) ↔ a.Quiet ∨ a.Echoed := by
  by_cases hlong : 22 < a.bytes.length
  · obtain ⟨i, hlast⟩ := a.exists_last
    have hruns : (∀ disk, Ready dest disk →
        (∀ q, standardized dest <+: q → q ≠ standardized dest → disk.files q = none) →
        a.Exact (extract compression a.bytes dest disk).1.files) ↔
        a.Exact (put (fun _ => none) (writes compression dest a.bytes
          (field a.bytes (i + 10) 2) (field a.bytes (i + 16) 4))) := by
      constructor
      · intro h
        have hfiles := h (bareDisk dest) (ready_bareDisk dest) fun _ _ _ => rfl
        rwa [a.extract_files _ hlast hlong] at hfiles
      · intro h disk _ hempty
        rw [a.extract_files disk hlast hlong]
        exact (a.exact_iff hempty _).mpr h
    rw [hruns]
    constructor
    · intro h
      rcases Nat.lt_or_eq_of_le (a.own_le hlast) with hlt | rfl
      · exact .inr ⟨i, hlt, hlast, h⟩
      · exact .inl (a.isLast_own_iff.mp hlast)
    · rintro (hquiet | ⟨j, -, hj, hsame⟩)
      · obtain rfl := last_unique hlast (a.isLast_own_iff.mpr hquiet)
        obtain ⟨-, hcount, hstart⟩ := a.own_fields
        rw [hcount, hstart]
        exact a.exact_own
      · rwa [last_unique hlast hj]
  · obtain ⟨hitems, hown⟩ := a.items_of_short hlong
    refine iff_of_true (fun disk _ hempty q hbelow hne => ?_) (.inl fun i hi hroom => ?_)
    · rw [extract_eq, if_pos hlong, hempty q hbelow hne, file, hitems]
      rfl
    · omega

end Archive

/-- Unpacking is contained and does not trap, and unpacks an archive's files: exactly under these
conditions. -/
theorem extract_iff (compression : Compression) (dest : List Char) :
    (∀ data, (∀ disk, Ready dest disk → Safe dest (extract compression data dest disk)) ↔
      ∀ p ∈ looked compression dest data, Fits data p ∧ ¬ Strays compression dest data p) ∧
    ∀ a : Archive compression dest, (∀ disk, Ready dest disk →
      (∀ q, standardized dest <+: q → q ≠ standardized dest → disk.files q = none) →
      a.Exact (extract compression a.bytes dest disk).1.files) ↔ a.Quiet ∨ a.Echoed :=
  ⟨fun _ => safe_iff, Archive.unpacks_iff⟩

/-- An end record with one entry, whose central record is not in the buffer. -/
def cutBytes : List UInt8 :=
  encode 4 Zip.EOCD_SIG ++ List.replicate 6 0 ++ encode 2 1 ++ List.replicate 4 0 ++
    encode 4 4096 ++ encode 2 1 ++ [0]

/-- A stored entry without bytes. -/
def emptyItem (nameBytes : List UInt8) : Item where
  nameBytes := nameBytes
  deflated := false
  payload := []
  content := []
  place := 0
  head := List.replicate 6 0
  times := List.replicate 8 0
  size := List.replicate 4 0
  extra := []
  comment := []
  tail := List.replicate 8 0
  localHead := List.replicate 22 0
  localExtra := []

/-- An archive of the one entry, with a comment. -/
def layoutOf (nameBytes comment : List UInt8) : Layout :=
  let e := emptyItem nameBytes
  let l : Layout :=
    { bytes := [], items := [e], start := (e.entry []).length,
      own := (e.entry (e.central [])).length, disks := List.replicate 6 0,
      size := List.replicate 4 0, comment := comment }
  { l with bytes := e.entry (e.central l.endRecord) }

theorem emptyItem_wellFormed {nameBytes : List UInt8} (h : nameBytes.length < 256 ^ 2)
    (compression : Compression) : (emptyItem nameBytes).WellFormed compression where
  head := rfl
  times := rfl
  size := rfl
  tail := rfl
  localHead := rfl
  name := h
  extra := (by decide : 0 < 256 ^ 2)
  comment := (by decide : 0 < 256 ^ 2)
  localExtra := (by decide : 0 < 256 ^ 2)
  payload := (by decide : 0 < 256 ^ 4)
  place := (by decide : 0 < 256 ^ 4)
  stored _ := rfl
  deflated h := by cases h

/-- No input is a stream. -/
def noStreams : Compression := fun _ => none

/-- An archive with the file `x`, whose comment holds the end record of an empty one. -/
def noted : Archive noStreams ['/', 'a'] where
  toLayout := layoutOf [0x78] (encode 4 Zip.EOCD_SIG ++ List.replicate 18 0)
  wellFormed := List.forall_mem_singleton.mpr (emptyItem_wellFormed (by decide) noStreams)
  locals := List.forall_mem_singleton.mpr ⟨_, rfl⟩
  directory := ⟨_, rfl⟩
  before := by decide
  ending := by decide +kernel
  disks_length := rfl
  size_length := rfl
  comment_short := by decide
  count := by decide
  start_lt := by decide
  below := List.forall_mem_singleton.mpr (by decide +kernel)
  files_below := List.forall_mem_singleton.mpr (by decide +kernel)
  distinct := by decide +kernel

/-- A record that is not there is a trap; a sibling's file is written; and the archive with the note
has no files. -/
theorem extract_fails :
    (extract noStreams cutBytes ['/', 'a'] (bareDisk ['/', 'a'])).2 = .error .trap ∧
    ([['a', 'b']] ∈ (extract noStreams (layoutOf [0x2e, 0x2e, 0x2f, 0x61, 0x62] []).bytes
        ['/', 'a'] (bareDisk ['/', 'a'])).1.touched ∧ ¬ standardized ['/', 'a'] <+: [['a', 'b']]) ∧
    ((extract noStreams noted.bytes ['/', 'a'] (bareDisk ['/', 'a'])).1.files [['a'], ['x']] =
        none ∧ noted.file [['a'], ['x']] = some []) :=
  ⟨by decide +kernel, by decide +kernel, by decide +kernel, by decide +kernel⟩

end FleetRunner.Ios.MiniZip
