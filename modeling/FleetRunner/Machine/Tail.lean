import FleetRunner.Library.Utf8
import FleetRunner.Machine.Shell

/-!
# Following a log (`logtail.ts`)

A build's output goes to a file, and its lines are read while the file grows. A
read takes what is new in pieces of at most 64 KB, decodes each piece, and carries
what follows the last line break to the next.

## Implementation notes

A read goes on until nothing is new, and the file may grow between two of its
pieces. The pieces that a read took are kept beside its lines to speak about them.
-/

namespace FleetRunner.Machine.Tail

open Library.Utf8

/-! ## The program -/

/-- The lines of a text that ended, and what follows the last break. -/
def splitLines (rest chunk : List Char) : List (List Char) × List Char :=
  let parts := Machine.splitLines (rest ++ chunk)
  (parts.dropLast, parts.getLastD [])

structure LogTail where
  offset : Nat
  rest : List Char

def chunkSize : Nat := 64 * 1024

/-- The file and its reader. -/
structure World where
  file : List UInt8
  tail : LogTail

namespace World

/-- What one `fh.read` gets. -/
def chunk (w : World) : List UInt8 := (w.file.drop w.tail.offset).take chunkSize

/-- The lines of one turn of the loop, and the reader after it. -/
def turn (w : World) : List (List Char) × World :=
  let split := splitLines w.tail.rest (decode w.chunk)
  (split.1, { w with tail := ⟨w.tail.offset + w.chunk.length, split.2⟩ })

/-- Another program writes to the file. -/
def append (w : World) (bytes : List UInt8) : World := { w with file := w.file ++ bytes }

end World

/-- `read()`: the pieces it takes, the lines it returns, and the state after it. -/
inductive Read : World → List (List UInt8) → List (List Char) → World → Prop
  | done {w} (h : w.chunk = []) : Read w [] [] w
  | turn {w chunks lines w'} (h : w.chunk ≠ []) (bytes : List UInt8)
      (rest : Read (w.turn.2.append bytes) chunks lines w') :
      Read w (w.chunk :: chunks) (w.turn.1 ++ lines) w'

/-- `close()`: a last read, and what is left when it is more than white space. -/
inductive Close : World → List (List UInt8) → List (List Char) → World → Prop
  | flush {w chunks lines w'} (h : Read w chunks lines w') :
      Close w chunks (lines ++ if w'.tail.rest.all isJsSpace then [] else [w'.tail.rest]) w'

/-- The file grows and is read, in any order, until the reader is closed. -/
inductive Session : World → List (List UInt8) → List (List Char) → World → Prop
  | close {w chunks lines w'} (h : Close w chunks lines w') : Session w chunks lines w'
  | append {w chunks lines w'} (bytes : List UInt8)
      (rest : Session (w.append bytes) chunks lines w') : Session w chunks lines w'
  | read {w chunks lines v chunks' lines' w'} (h : Read w chunks lines v)
      (rest : Session v chunks' lines' w') : Session w (chunks ++ chunks') (lines ++ lines') w'

/-- Nothing is read of a new file. -/
def start : World := ⟨[], ⟨0, []⟩⟩

/-- The lines of a text, the last one unless it is white space. -/
def wholeLines (text : List Char) : List (List Char) :=
  let parts := splitLines [] text
  parts.1 ++ if parts.2.all isJsSpace then [] else [parts.2]

/-! ## Lines -/

theorem splitLines_ne_nil (cs : List Char) : Machine.splitLines cs ≠ [] := by
  fun_induction Machine.splitLines cs with
  | case1 => simp
  | case2 rest ih => simp
  | case3 rest ih => simp
  | case4 c rest hcrlf hlf hnil ih => simp
  | case5 c rest hcrlf hlf line more hsplit ih => simp

theorem splitLines_singleton {cs line : List Char} (h : Machine.splitLines cs = [line]) :
    line = cs := by
  fun_induction Machine.splitLines cs generalizing line with
  | case1 => exact (List.singleton_inj.mp h).symm
  | case2 rest ih => exact absurd (List.cons.inj h).2 (splitLines_ne_nil rest)
  | case3 rest ih => exact absurd (List.cons.inj h).2 (splitLines_ne_nil rest)
  | case4 c rest hcrlf hlf hnil ih => exact absurd hnil (splitLines_ne_nil rest)
  | case5 c rest hcrlf hlf head more hsplit ih =>
    obtain ⟨hline, hmore⟩ := List.cons.inj h
    rw [hmore] at hsplit
    rw [← hline, ih hsplit]

theorem splitLines_cons {c : Char} {rest line : List Char} {more : List (List Char)}
    (hlf : c ≠ '\n') (hcrlf : c = '\r' → rest.head? ≠ some '\n')
    (h : Machine.splitLines rest = line :: more) :
    Machine.splitLines (c :: rest) = (c :: line) :: more := by
  rw [Machine.splitLines, h]
  · intro tail hc hrest
    exact hcrlf hc (by rw [hrest]; rfl)
  · exact hlf

/-- What ends in the first part of a text is a line of the whole, and the rest is carried over. -/
theorem splitLines_append (u v : List Char) :
    Machine.splitLines (u ++ v) = (Machine.splitLines u).dropLast ++
      Machine.splitLines ((Machine.splitLines u).getLastD [] ++ v) := by
  fun_induction Machine.splitLines u with
  | case1 => rfl
  | case2 rest ih =>
    rw [List.dropLast_cons_of_ne_nil (splitLines_ne_nil rest), List.getLastD_cons]
    exact congrArg (List.cons []) ih
  | case3 rest ih =>
    rw [List.dropLast_cons_of_ne_nil (splitLines_ne_nil rest), List.getLastD_cons]
    exact congrArg (List.cons []) ih
  | case4 c rest hcrlf hlf hnil ih => exact absurd hnil (splitLines_ne_nil rest)
  | case5 c rest hcrlf hlf head more hsplit ih =>
    cases more with
    | nil =>
      obtain rfl := splitLines_singleton hsplit
      rfl
    | cons next more =>
      have hcrlf' : c = '\r' → (rest ++ v).head? ≠ some '\n' := by
        intro hc hhead
        cases rest with
        | nil => simp [Machine.splitLines] at hsplit
        | cons d rest => exact hcrlf rest hc (by rw [Option.some.inj hhead])
      rw [hsplit, List.dropLast_cons_of_ne_nil (List.cons_ne_nil next more), List.cons_append,
        List.getLastD_cons] at ih
      rw [List.dropLast_cons_of_ne_nil (List.cons_ne_nil next more), List.getLastD_cons,
        List.cons_append, List.cons_append, splitLines_cons hlf hcrlf' ih]
      rfl

/-- Breaks take no other character away. -/
theorem count_splitLines {d : Char} (hlf : d ≠ '\n') (hcr : d ≠ '\r') (cs : List Char) :
    (Machine.splitLines cs).flatten.count d = cs.count d := by
  fun_induction Machine.splitLines cs with
  | case1 => rfl
  | case2 rest ih => simp [ih, hlf.symm, hcr.symm]
  | case3 rest ih => simp [ih, hlf.symm]
  | case4 c rest hcrlf hbreak hnil ih => exact absurd hnil (splitLines_ne_nil rest)
  | case5 c rest hcrlf hbreak head more hsplit ih =>
    rw [hsplit] at ih
    rw [List.flatten_cons, List.cons_append, List.count_cons, List.count_cons, ← ih,
      List.flatten_cons]

theorem splitLines_parts (rest chunk : List Char) :
    (splitLines rest chunk).1 ++ [(splitLines rest chunk).2] =
      Machine.splitLines (rest ++ chunk) := by
  have hne := splitLines_ne_nil (rest ++ chunk)
  have hlast : (Machine.splitLines (rest ++ chunk)).getLastD [] =
      (Machine.splitLines (rest ++ chunk)).getLast hne := by
    rw [List.getLastD_eq_getLast?, List.getLast?_eq_some_getLast hne, Option.getD_some]
  rw [splitLines, hlast, List.dropLast_concat_getLast]

/-- Every replacement of a text is in its lines. -/
theorem count_wholeLines (text : List Char) :
    (wholeLines text).flatten.count replacement = text.count replacement := by
  have hcount := count_splitLines (d := replacement) (by decide) (by decide) text
  have hparts := splitLines_parts [] text
  rw [List.nil_append] at hparts
  rw [← hparts, List.flatten_append, List.count_append] at hcount
  rw [wholeLines, List.flatten_append, List.count_append]
  split
  · next hblank =>
    have hnone : (splitLines [] text).2.count replacement = 0 := by
      rw [List.count_eq_zero]
      intro hmem
      have hspace := List.all_eq_true.mp hblank replacement hmem
      revert hspace
      decide
    rw [List.flatten_singleton, hnone] at hcount
    exact hcount
  · exact hcount

/-! ## A session -/

namespace World

/-- The reader has taken these pieces and returned these lines. -/
structure Taken (w : World) (chunks : List (List UInt8)) (lines : List (List Char)) : Prop where
  bytes : chunks.flatten = w.file.take w.tail.offset
  offset : w.tail.offset ≤ w.file.length
  ne : ∀ c ∈ chunks, c ≠ []
  text : lines ++ [w.tail.rest] = Machine.splitLines (chunks.map decode).flatten

end World

variable {w w' : World} {chunks chunks' : List (List UInt8)} {lines lines' : List (List Char)}

theorem taken_start : start.Taken [] [] := ⟨rfl, Nat.le_refl 0, by simp, rfl⟩

theorem World.Taken.append (h : w.Taken chunks lines) (bytes : List UInt8) :
    (w.append bytes).Taken chunks lines := by
  refine ⟨?_, ?_, h.ne, h.text⟩
  · exact h.bytes.trans (List.take_append_of_le_length h.offset).symm
  · exact Nat.le_trans h.offset (by simp [World.append])

/-- What splits into lines and a rest, split again where more text follows. -/
theorem splitLines_of_parts {lines : List (List Char)} {rest text : List Char}
    (h : lines ++ [rest] = Machine.splitLines text) (more : List Char) :
    lines ++ ((splitLines rest more).1 ++ [(splitLines rest more).2]) =
      Machine.splitLines (text ++ more) := by
  rw [splitLines_parts, splitLines_append text, ← h, List.dropLast_concat, List.getLastD_concat]

/-- One turn takes the next piece. -/
theorem World.Taken.turn (h : w.Taken chunks lines) (hchunk : w.chunk ≠ []) :
    w.turn.2.Taken (chunks ++ [w.chunk]) (lines ++ w.turn.1) := by
  have hpiece : w.chunk <+: w.file.drop w.tail.offset := List.take_prefix _ _
  refine ⟨?_, ?_, fun c hc => ?_, ?_⟩
  · rw [List.flatten_append, List.flatten_singleton, h.bytes]
    change _ = w.file.take (w.tail.offset + w.chunk.length)
    rw [List.take_add, ← List.prefix_iff_eq_take.mp hpiece]
  · have hlength := hpiece.length_le
    have hoffset := h.offset
    rw [List.length_drop] at hlength
    change w.tail.offset + w.chunk.length ≤ w.file.length
    omega
  · rcases List.mem_append.mp hc with hc | hc
    · exact h.ne c hc
    · rwa [List.mem_singleton.mp hc]
  · rw [List.map_append, List.flatten_append, List.map_singleton, List.flatten_singleton,
      ← splitLines_of_parts h.text, ← List.append_assoc]
    rfl

theorem Read.taken (hread : Read w chunks' lines' w') (h : w.Taken chunks lines) :
    w'.Taken (chunks ++ chunks') (lines ++ lines') ∧ w'.chunk = [] := by
  induction hread generalizing chunks lines with
  | done hdone => exact ⟨by simpa using h, hdone⟩
  | turn hchunk bytes rest ih =>
    simpa using ih ((h.turn hchunk).append bytes)

theorem wholeLines_of_parts {lines : List (List Char)} {rest text : List Char}
    (h : lines ++ [rest] = Machine.splitLines text) :
    wholeLines text = lines ++ if rest.all isJsSpace then [] else [rest] := by
  simp only [wholeLines, splitLines, List.nil_append, ← h, List.dropLast_concat,
    List.getLastD_concat]

/-- A session has read the whole file, and returns the lines of its pieces' texts. -/
theorem Session.lines_eq (hsession : Session w chunks' lines' w') (h : w.Taken chunks lines) :
    (chunks ++ chunks').flatten = w'.file ∧ (∀ c ∈ chunks ++ chunks', c ≠ []) ∧
      lines ++ lines' = wholeLines ((chunks ++ chunks').map decode).flatten := by
  induction hsession generalizing chunks lines with
  | close hclose =>
    obtain ⟨hread⟩ := hclose
    obtain ⟨htaken, hnone⟩ := hread.taken h
    refine ⟨?_, htaken.ne, ?_⟩
    · rw [htaken.bytes, List.take_of_length_le]
      have hrest := List.take_eq_nil_iff.mp hnone
      exact List.drop_eq_nil_iff.mp (hrest.resolve_left (by decide))
    · rw [wholeLines_of_parts htaken.text, List.append_assoc]
  | append bytes rest ih => exact ih (h.append bytes)
  | read hread rest ih => simpa using ih (hread.taken h).1

/-- The lines do not depend on the pieces exactly when no piece ends inside a character. -/
theorem lines_iff (hsession : Session start chunks lines w) :
    lines = wholeLines (decode w.file) ↔ Whole chunks := by
  obtain ⟨hfile, hne, hlines⟩ := hsession.lines_eq taken_start
  rw [List.nil_append] at hfile hne hlines
  rw [List.nil_append] at hlines
  obtain ⟨hsame, -, hless⟩ := decode_pieces chunks hne
  rw [hlines, ← hfile]
  constructor
  · intro heq
    by_contra htorn
    have hcount := congrArg (fun ls : List (List Char) => ls.flatten.count replacement) heq
    have hmore := hless htorn
    simp only [count_wholeLines] at hcount
    omega
  · intro hwhole
    rw [hsame hwhole]

/-- A read returns once the file does not grow any more. -/
theorem read_returns (w : World) :
    ∃ chunks lines w', Read w chunks lines w' ∧ w'.file = w.file := by
  induction hleft : w.file.length - w.tail.offset using Nat.strongRecOn generalizing w with
  | ind left ih =>
    by_cases hchunk : w.chunk = []
    · exact ⟨[], [], w, .done hchunk, rfl⟩
    · have hpos : 0 < w.chunk.length := List.length_pos_iff.mpr hchunk
      have hlength : w.chunk.length ≤ w.file.length - w.tail.offset := by
        rw [← List.length_drop]
        exact (List.take_prefix _ _).length_le
      have hnext : w.turn.2.append [] = w.turn.2 := by simp [World.append]
      obtain ⟨chunks, lines, w', hread, hfile⟩ := ih
        (w.file.length - (w.tail.offset + w.chunk.length)) (by omega) w.turn.2 rfl
      exact ⟨_, _, w', .turn hchunk [] (hnext.symm ▸ hread), hfile⟩

/-- A file of the two bytes of a letter, read after the first: two replacements. -/
theorem lines_torn : ¬ ∀ chunks lines w, Session start chunks lines w →
    lines = wholeLines (decode w.file) := by
  intro hall
  have hfirst : Read (start.append [0xc3]) _ _ _ :=
    .turn (by decide) [] (.done (by decide))
  have hsecond : Read (((start.append [0xc3]).turn.2.append []).append [0xa9]) _ _ _ :=
    .turn (by decide) [] (.done (by decide))
  have hsession := hall _ _ _
    (.append [0xc3] (.read hfirst (.append [0xa9] (.close (.flush hsecond)))))
  revert hsession
  decide

/-- A line that goes on in the second piece, which the cut leaves whole. -/
theorem lines_untorn :
    [['é', 'a'], ['b']] = wholeLines (decode [0xc3, 0xa9, 0x61, 0x0a, 0x62]) := by
  have hfirst : Read (start.append [0xc3, 0xa9]) _ _ _ := .turn (by decide) [] (.done (by decide))
  have hsecond : Read (((start.append [0xc3, 0xa9]).turn.2.append []).append [0x61, 0x0a, 0x62])
      _ _ _ := .turn (by decide) [] (.done (by decide))
  have hwhole : Whole [(start.append [0xc3, 0xa9]).chunk,
      (((start.append [0xc3, 0xa9]).turn.2.append []).append [0x61, 0x0a, 0x62]).chunk] :=
    (whole_cons (by decide)).mpr ⟨by decide, (whole_cons (by decide)).mpr ⟨by decide, whole_nil⟩⟩
  exact (lines_iff (.append _ (.read hfirst (.append _ (.close (.flush hsecond)))))).mpr hwhole

end FleetRunner.Machine.Tail
