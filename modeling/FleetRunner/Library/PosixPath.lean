import FleetRunner.Library.Pieces
import Mathlib.Data.List.Induction

/-!
# Paths by their text

A path is read part by part from a place: an empty part and `.` stay, `..` goes up,
and a name goes down. `normalize` and `join` print where that leads; they do not
look at a file system.

## Implementation notes

A place is the list of its parts. `..` stays in it only at the front, and only of a
path that is not absolute.
-/

namespace FleetRunner.Library.PosixPath

abbrev Part := List Char

def dot : Part := ['.']

def dots : Part := ['.', '.']

/-- Where a part leads from a place. -/
def enter (absolute : Bool) (place : List Part) (part : Part) : List Part :=
  if part = [] ∨ part = dot then place
  else if part = dots then
    if place.getLast?.any fun last => decide (last ≠ dots) then place.dropLast
    else if absolute then place else place ++ [part]
  else place ++ [part]

def walk (absolute : Bool) (place : List Part) (parts : List Part) : List Part :=
  parts.foldl (enter absolute) place

def isAbsolute (p : List Char) : Bool := p.head? = some '/'

/-- The text of a place that is not the root. -/
def render (absolute : Bool) (place : List Part) : List Char :=
  (if absolute then ['/'] else []) ++ ['/'].intercalate place

/-- `path.normalize(p)` -/
def normalize (p : List Char) : List Char :=
  let place := walk (isAbsolute p) [] (p.splitOn '/')
  let slash : List Char := if p.getLast? = some '/' then ['/'] else []
  if place = [] then if isAbsolute p then ['/'] else '.' :: slash
  else render (isAbsolute p) place ++ slash

/-- `path.join(...ps)` -/
def join (ps : List (List Char)) : List Char :=
  let named := ps.filter (· ≠ [])
  if named = [] then dot else normalize (['/'].intercalate named)

/-- `path.basename(p)` -/
def basename (p : List Char) : List Char := ((p.splitOn '/').filter (· ≠ [])).getLastD []

/-- The file lies in the directory or below it. -/
def Inside (dir file : List Char) : Prop := dir ++ ['/'] <+: file

/-! ## Places -/

/-- A part that goes down. -/
structure IsName (part : Part) : Prop where
  ne : part ≠ []
  ne_dot : part ≠ dot
  ne_dots : part ≠ dots
  slash : '/' ∉ part

/-- A part with another character than a dot is a name. -/
theorem isName_of_mem {part : Part} {c : Char} (hc : c ∈ part) (hdot : c ≠ '.')
    (hslash : '/' ∉ part) : IsName part := by
  refine ⟨List.ne_nil_of_mem hc, ?_, ?_, hslash⟩
  · rintro rfl
    exact hdot (List.mem_singleton.mp hc)
  · rintro rfl
    simp only [dots, List.mem_cons, List.not_mem_nil, or_false, or_self] at hc
    exact hdot hc

/-- A place that walking leads to. -/
structure Normal (absolute : Bool) (place : List Part) : Prop where
  split : ∃ k names, place = List.replicate k dots ++ names ∧ (∀ n ∈ names, IsName n) ∧
    (absolute = true → k = 0)

variable {absolute : Bool} {place : List Part} {part : Part}

theorem enter_name (h : IsName part) : enter absolute place part = place ++ [part] := by
  rw [enter, if_neg (by simp [h.ne, h.ne_dot]), if_neg h.ne_dots]

theorem walk_names {names : List Part} (h : ∀ n ∈ names, IsName n) :
    walk absolute place names = place ++ names := by
  induction names generalizing place with
  | nil => simp [walk]
  | cons n names ih =>
    change walk absolute (enter absolute place n) names = _
    rw [enter_name (h n List.mem_cons_self), ih fun m hm => h m (List.mem_cons_of_mem _ hm)]
    simp

theorem normal_nil : Normal absolute [] := ⟨0, [], rfl, by simp, fun _ => rfl⟩

theorem Normal.append_name (h : Normal absolute place) (hpart : IsName part) :
    Normal absolute (place ++ [part]) := by
  obtain ⟨k, names, rfl, hnames, habs⟩ := h
  refine ⟨k, names ++ [part], by simp, fun n hn => ?_, habs⟩
  rcases List.mem_append.mp hn with hn | hn
  · exact hnames n hn
  · rwa [List.mem_singleton.mp hn]

theorem Normal.enter (h : Normal absolute place) (hslash : '/' ∉ part) :
    Normal absolute (enter absolute place part) := by
  unfold PosixPath.enter
  split
  · exact h
  · next hempty =>
    rw [not_or] at hempty
    split
    · next hdots =>
      obtain ⟨k, names, rfl, hnames, habs⟩ := h
      split
      · next hlast =>
        -- going up takes a name away, since the last part is one
        cases names using List.reverseRecOn with
        | nil =>
          cases k with
          | zero => simp at hlast
          | succ k => simp [List.replicate_succ'] at hlast
        | append_singleton names last =>
          refine ⟨k, names, ?_, fun n hn => hnames n (List.mem_append_left _ hn), habs⟩
          rw [← List.append_assoc, List.dropLast_concat]
      · next hlast =>
        split
        · exact ⟨k, names, rfl, hnames, habs⟩
        · next hrelative =>
          have hnone : names = [] := by
            cases names using List.reverseRecOn with
            | nil => rfl
            | append_singleton names last =>
              have hname := hnames last (List.mem_append_right _ List.mem_cons_self)
              rw [← List.append_assoc] at hlast
              simp [hname.ne_dots] at hlast
          subst hnone
          refine ⟨k + 1, [], ?_, by simp, fun h => absurd h hrelative⟩
          rw [hdots, List.append_nil, List.append_nil, List.replicate_succ']
    · next hname => exact h.append_name ⟨hempty.1, hempty.2, hname, hslash⟩

theorem Normal.walk (h : Normal absolute place) {parts : List Part}
    (hparts : ∀ p ∈ parts, '/' ∉ p) :
    Normal absolute (walk absolute place parts) := by
  induction parts generalizing place with
  | nil => exact h
  | cons p parts ih =>
    exact ih (h.enter (hparts p List.mem_cons_self)) fun q hq =>
      hparts q (List.mem_cons_of_mem _ hq)

theorem walk_dots (k j : Nat) :
    walk false (List.replicate j dots) (List.replicate k dots) = List.replicate (j + k) dots := by
  induction k generalizing j with
  | zero => rfl
  | succ k ih =>
    have hstep : enter false (List.replicate j dots) dots = List.replicate (j + 1) dots := by
      rw [enter, if_neg (by decide), if_pos rfl, List.replicate_succ']
      cases j with
      | zero => rfl
      | succ j => simp [List.replicate_succ']
    rw [List.replicate_succ]
    change walk false (enter false (List.replicate j dots) dots) (List.replicate k dots) = _
    rw [hstep, ih, Nat.add_right_comm, Nat.add_assoc]

theorem walk_append (place : List Part) (ps qs : List Part) :
    walk absolute place (ps ++ qs) = walk absolute (walk absolute place ps) qs := List.foldl_append

/-- A place is where its own parts lead. -/
theorem Normal.walk_self (h : Normal absolute place) :
    PosixPath.walk absolute [] place = place := by
  obtain ⟨k, names, rfl, hnames, habs⟩ := h
  rw [walk_append, walk_names hnames]
  cases absolute with
  | true => rw [habs rfl]; rfl
  | false =>
    have hdots : PosixPath.walk false [] (List.replicate k dots) = List.replicate k dots := by
      simpa using walk_dots k 0
    rw [hdots]

theorem Normal.slash (h : Normal absolute place) : ∀ p ∈ place, '/' ∉ p := by
  obtain ⟨k, names, rfl, hnames, -⟩ := h
  intro p hp
  rcases List.mem_append.mp hp with hp | hp
  · rw [List.eq_of_mem_replicate hp]
    decide
  · exact (hnames p hp).slash

theorem Normal.ne_nil (h : Normal absolute place) : ∀ p ∈ place, p ≠ [] := by
  obtain ⟨k, names, rfl, hnames, -⟩ := h
  intro p hp
  rcases List.mem_append.mp hp with hp | hp
  · rw [List.eq_of_mem_replicate hp]
    decide
  · exact (hnames p hp).ne

/-! ## Texts of places -/

theorem splitOn_intercalate_slash {place : List Part} (hne : place ≠ [])
    (h : ∀ p ∈ place, '/' ∉ p) : (['/'].intercalate place).splitOn '/' = place :=
  List.splitOn_intercalate '/' h hne

theorem splitOn_render (h : Normal absolute place) (hne : place ≠ []) :
    (render absolute place).splitOn '/' = (if absolute then [[]] else []) ++ place := by
  cases absolute with
  | false => exact splitOn_intercalate_slash hne h.slash
  | true =>
    change ([] ++ '/' :: ['/'].intercalate place).splitOn '/' = _
    rw [List.splitOn_append_cons_self, List.splitOn_nil, splitOn_intercalate_slash hne h.slash]
    rfl

theorem head?_intercalate {sep : Char} {p : Part} {ps : List Part} (hp : p ≠ []) :
    ([sep].intercalate (p :: ps)).head? = p.head? := by
  obtain ⟨c, tail, rfl⟩ := List.exists_cons_of_ne_nil hp
  cases ps with
  | nil => simp
  | cons q ps => simp [List.intercalate_cons_cons]

theorem isAbsolute_render (h : Normal absolute place) (hne : place ≠ []) :
    isAbsolute (render absolute place) = absolute := by
  cases absolute with
  | true => rfl
  | false =>
    obtain ⟨p, ps, rfl⟩ := List.exists_cons_of_ne_nil hne
    have hp := h.slash p List.mem_cons_self
    unfold isAbsolute
    change decide ((['/'].intercalate (p :: ps)).head? = some '/') = false
    rw [head?_intercalate (h.ne_nil p List.mem_cons_self), decide_eq_false_iff_not]
    exact fun hhead => hp (List.mem_of_head? hhead)

theorem render_ne_nil (h : Normal absolute place) (hne : place ≠ []) :
    render absolute place ≠ [] := by
  intro hnil
  have hsplit := splitOn_render h hne
  rw [hnil, List.splitOn_nil] at hsplit
  obtain ⟨p, ps, rfl⟩ := List.exists_cons_of_ne_nil hne
  cases absolute with
  | true => simp at hsplit
  | false =>
    have hp : [] = p := (List.cons.inj hsplit).1
    exact h.ne_nil p List.mem_cons_self hp.symm

/-- The parts before the last one, and the last one. -/
def upTo (p : List Char) : List Part := (p.splitOn '/').dropLast

def last (p : List Char) : Part := (p.splitOn '/').getLastD []

theorem upTo_append_last (p : List Char) : upTo p ++ [last p] = p.splitOn '/' := by
  have hne := List.splitOn_ne_nil '/' p
  rw [upTo, last, List.getLastD_eq_getLast?, List.getLast?_eq_some_getLast hne, Option.getD_some,
    List.dropLast_concat_getLast]

theorem slash_of_splitOn (p : List Char) : ∀ q ∈ p.splitOn '/', '/' ∉ q :=
  fun _ hq => not_mem_of_mem_splitOn hq

theorem upTo_slash (p : List Char) : ∀ q ∈ upTo p, '/' ∉ q := by
  intro q hq
  refine slash_of_splitOn p q ?_
  rw [← upTo_append_last]
  exact List.mem_append_left _ hq

theorem last_slash (p : List Char) : '/' ∉ last p := by
  refine slash_of_splitOn p _ ?_
  rw [← upTo_append_last]
  exact List.mem_append_right _ List.mem_cons_self

theorem intercalate_concat (sep : Char) (ps : List Part) (a b : Part) :
    [sep].intercalate (ps ++ [a ++ b]) = [sep].intercalate (ps ++ [a]) ++ b := by
  induction ps with
  | nil => simp
  | cons p ps ih =>
    rw [List.cons_append, List.cons_append, List.intercalate_cons_of_ne_nil (by simp),
      List.intercalate_cons_of_ne_nil (by simp), ih]
    simp

theorem intercalate_append (sep : Char) {ps qs : List Part} (hp : ps ≠ []) (hq : qs ≠ []) :
    [sep].intercalate (ps ++ qs) = [sep].intercalate ps ++ sep :: [sep].intercalate qs := by
  induction ps with
  | nil => exact absurd rfl hp
  | cons p ps ih =>
    by_cases hps : ps = []
    · rw [hps, List.singleton_append, List.intercalate_cons_of_ne_nil hq]
      simp
    · rw [List.cons_append, List.intercalate_cons_of_ne_nil (by simp [hps]),
        List.intercalate_cons_of_ne_nil hps, ih hps]
      simp

theorem getLast?_append_right {a b : List Char} (hb : b ≠ []) :
    (a ++ b).getLast? = b.getLast? := by
  rw [List.getLast?_append, List.getLast?_eq_some_getLast hb, Option.some_or]

theorem getLast?_intercalate_concat (sep : Char) (ps : List Part) {a : Part} (ha : a ≠ []) :
    ([sep].intercalate (ps ++ [a])).getLast? = a.getLast? := by
  have hconcat := intercalate_concat sep ps [] a
  rw [List.nil_append] at hconcat
  rw [hconcat, getLast?_append_right ha]

theorem append_eq_intercalate (p suffix : List Char) :
    p ++ suffix = ['/'].intercalate (upTo p ++ [last p ++ suffix]) := by
  have hback : ['/'].intercalate (p.splitOn '/') = p := List.intercalate_splitOn '/'
  rw [intercalate_concat, upTo_append_last, hback]

/-- A text without a slash goes to the last part. -/
theorem splitOn_append {suffix : List Char} (h : '/' ∉ suffix) (p : List Char) :
    (p ++ suffix).splitOn '/' = upTo p ++ [last p ++ suffix] := by
  rw [append_eq_intercalate]
  refine List.splitOn_intercalate '/' (fun q hq => ?_) (by simp)
  rcases List.mem_append.mp hq with hq | hq
  · exact upTo_slash p q hq
  · rw [List.mem_singleton.mp hq, List.mem_append, not_or]
    exact ⟨last_slash p, h⟩

/-! ## Files in directories -/

/-- Two texts are joined by a slash, and read on from where the first leads. -/
theorem join_pair {a b : List Char} (ha : a ≠ []) (hb : b ≠ []) (hlast : b.getLast? ≠ some '/') :
    join [a, b] =
      let place := walk (isAbsolute a) (walk (isAbsolute a) [] (a.splitOn '/')) (b.splitOn '/')
      if place = [] then if isAbsolute a then ['/'] else dot else render (isAbsolute a) place := by
  have hnamed : [a, b].filter (· ≠ []) = [a, b] := by simp [ha, hb]
  have htext : ['/'].intercalate [a, b] = a ++ '/' :: b := by simp [List.intercalate_cons_cons]
  have habs : isAbsolute (a ++ '/' :: b) = isAbsolute a := by
    obtain ⟨c, a, rfl⟩ := List.exists_cons_of_ne_nil ha
    rfl
  have hend : (a ++ '/' :: b).getLast? ≠ some '/' := by
    have hsplit : a ++ '/' :: b = (a ++ ['/']) ++ b := by simp
    rwa [hsplit, getLast?_append_right hb]
  unfold join normalize
  simp only [hnamed, htext, habs, if_neg hend, List.splitOn_append_cons_self, walk_append,
    List.append_nil, reduceCtorEq, if_false]
  rfl

theorem walk_splitOn_render (h : Normal absolute place) (hne : place ≠ []) :
    walk absolute [] ((render absolute place).splitOn '/') = place := by
  rw [splitOn_render h hne, walk_append]
  have hroot : walk absolute [] (if absolute then [[]] else []) = [] := by cases absolute <;> rfl
  rw [hroot, h.walk_self]

/-- A name that ends in the suffix goes where the parts before it lead. -/
theorem join_file {dir : List Part} (hdir : Normal absolute dir) (hne : dir ≠ [])
    {suffix : List Char} (hslash : '/' ∉ suffix) (p : List Char)
    (hname : IsName (last p ++ suffix)) :
    join [render absolute dir, p ++ suffix] =
      render absolute (walk absolute dir (upTo p) ++ [last p ++ suffix]) := by
  have hfile : p ++ suffix ≠ [] := by
    intro hnil
    obtain ⟨rfl, rfl⟩ := List.append_eq_nil_iff.mp hnil
    exact hname.ne rfl
  have hend : (p ++ suffix).getLast? ≠ some '/' := by
    rw [append_eq_intercalate, getLast?_intercalate_concat _ _ hname.ne]
    exact fun hlast => hname.slash (List.mem_of_getLast? hlast)
  rw [join_pair (render_ne_nil hdir hne) hfile hend, isAbsolute_render hdir hne,
    walk_splitOn_render hdir hne, splitOn_append hslash, walk_append,
    walk_names (by simpa using hname : ∀ n ∈ [last p ++ suffix], IsName n)]
  exact if_neg (by simp)

/-- A name goes down from wherever the directory's text leads. -/
theorem join_name (dir : List Char) {n : Part} (hn : IsName n) :
    join [dir, n] =
      render (isAbsolute dir) (walk (isAbsolute dir) [] (dir.splitOn '/') ++ [n]) := by
  have hsplit : n.splitOn '/' = [n] := List.splitOn_eq_singleton hn.slash
  have hend : n.getLast? ≠ some '/' := fun hlast => hn.slash (List.mem_of_getLast? hlast)
  by_cases hdir : dir = []
  · subst hdir
    have hwalk : walk false [] [n] = [n] := walk_names (by simpa using hn)
    have hrelative : isAbsolute n = false := by
      unfold isAbsolute
      rw [decide_eq_false_iff_not]
      exact fun hhead => hn.slash (List.mem_of_head? hhead)
    have hnamed : [[], n].filter (· ≠ []) = [n] := by simp [hn.ne]
    have hwalk : walk false [] [n] = [n] := walk_names (by simpa using hn)
    simp only [join, hnamed, normalize, List.intercalate_singleton, hrelative, hsplit, hwalk,
      if_neg hend, List.cons_ne_nil, if_false, List.append_nil]
    rfl
  · rw [join_pair hdir hn.ne hend, hsplit, walk_names (by simpa using hn)]
    exact if_neg (by simp)

theorem inside_iff {dir parts : List Part} {file : Part} (hdir : Normal absolute dir)
    (hne : dir ≠ []) (hparts : Normal absolute (parts ++ [file])) :
    Inside (render absolute dir) (render absolute (parts ++ [file])) ↔ dir <+: parts := by
  constructor
  · rintro ⟨rest, hrest⟩
    have hsplit := congrArg (List.splitOn '/') hrest
    rw [List.append_assoc, List.singleton_append, List.splitOn_append_cons_self,
      splitOn_render hdir hne, splitOn_render hparts (by simp), List.append_assoc,
      List.append_cancel_left_eq, ← upTo_append_last, ← List.append_assoc] at hsplit
    exact ⟨_, (List.append_inj' hsplit rfl).1⟩
  · rintro ⟨rest, rfl⟩
    refine ⟨['/'].intercalate (rest ++ [file]), ?_⟩
    rw [render, render, List.append_assoc dir, intercalate_append '/' hne (by simp)]
    simp

theorem basename_render {parts : List Part} {file : Part} (h : Normal absolute (parts ++ [file])) :
    basename (render absolute (parts ++ [file])) = file := by
  have hkept : ((if absolute then [[]] else []) ++ (parts ++ [file])).filter (· ≠ ([] : Part)) =
      parts ++ [file] := by
    have hall : (parts ++ [file]).filter (· ≠ ([] : Part)) = parts ++ [file] :=
      List.filter_eq_self.mpr fun p hp => decide_eq_true (h.ne_nil p hp)
    rw [List.filter_append, hall]
    cases absolute <;> rfl
  rw [basename, splitOn_render h (by simp), hkept, List.getLastD_concat]

theorem render_inj {place' : List Part} (h : Normal absolute place) (h' : Normal absolute place')
    (hne : place ≠ []) (hne' : place' ≠ []) (heq : render absolute place = render absolute place') :
    place = place' := by
  have hsplit := congrArg (List.splitOn '/') heq
  rwa [splitOn_render h hne, splitOn_render h' hne', List.append_cancel_left_eq] at hsplit

/-! ## Texts that go on -/

/-- The place lies at a name that goes on from the directory's name, or below one. -/
def Sibling (dir place : List Part) : Prop :=
  ∃ parents name more, dir = parents ++ [name] ∧ more ≠ [] ∧ parents ++ [name ++ more] <+: place

theorem intercalate_cut (sep : Char) (ps rest : List Part) (a b : Part) :
    [sep].intercalate (ps ++ (a ++ b) :: rest) =
      [sep].intercalate (ps ++ [a]) ++ [sep].intercalate (b :: rest) := by
  cases rest with
  | nil => rw [intercalate_concat, List.intercalate_singleton]
  | cons r rest =>
    rw [List.append_cons ps, intercalate_append sep (by simp) (by simp), intercalate_concat,
      List.intercalate_cons_of_ne_nil (List.cons_ne_nil r rest)]
    simp

theorem Sibling.not_prefix {dir : List Part} (h : Sibling dir place) : ¬ dir <+: place := by
  obtain ⟨parents, name, more, rfl, hmore, hplace⟩ := h
  intro hdir
  have hlength : (parents ++ [name]).length = (parents ++ [name ++ more]).length := by simp
  have hprefix := List.prefix_of_prefix_length_le hdir hplace (Nat.le_of_eq hlength)
  have heq := hprefix.eq_of_length hlength
  have hname : name ++ [] = name ++ more := by simpa using heq
  exact hmore (List.append_cancel_left hname).symm

theorem Sibling.not_above {dir : List Part} (h : Sibling dir place) : ¬ place <+: dir := by
  intro hdir
  have hsibling := h
  obtain ⟨parents, name, more, rfl, -, hplace⟩ := hsibling
  refine h.not_prefix ?_
  have hlength : (parents ++ [name ++ more]).length = (parents ++ [name]).length := by simp
  rw [(hplace.trans hdir).eq_of_length hlength] at hplace
  exact hplace

/-- Above a sibling there is the directory's parent. -/
theorem Sibling.dropLast_above {dir : List Part} (h : Sibling dir place)
    (hlength : place.length ≤ dir.length) : place.dropLast <+: dir := by
  obtain ⟨parents, name, more, rfl, -, rest, rfl⟩ := h
  have hrest : rest = [] := by
    rw [← List.length_eq_zero_iff]
    simp only [List.length_append, List.length_singleton] at hlength
    omega
  rw [hrest, List.append_nil, List.dropLast_concat]
  exact List.prefix_append _ _

/-- What lies below a sibling lies in it or below it. -/
theorem Sibling.dropLast {dir : List Part} (h : Sibling dir place)
    (hlength : dir.length < place.length) : Sibling dir place.dropLast := by
  obtain ⟨parents, name, more, rfl, hmore, rest, rfl⟩ := h
  have hrest : rest ≠ [] := by
    rintro rfl
    simp at hlength
  refine ⟨parents, name, more, rfl, hmore, rest.dropLast, ?_⟩
  rw [List.dropLast_append_of_ne_nil hrest]

/-- A text begins with the text of a directory exactly where its place is below it or at a name
that goes on from the directory's. -/
theorem render_prefix_iff {dir : List Part} (hdir : Normal true dir) (hplace : Normal true place) :
    render true dir <+: render true place ↔ dir <+: place ∨ Sibling dir place := by
  cases dir using List.reverseRecOn with
  | nil => exact iff_of_true ⟨_, rfl⟩ (.inl (List.nil_prefix))
  | append_singleton parents name =>
    have hcut : ∀ more rest, render true (parents ++ (name ++ more) :: rest) =
        render true (parents ++ [name]) ++ ['/'].intercalate (more :: rest) := fun more rest => by
      rw [render, render, intercalate_cut, List.append_assoc]
    constructor
    · rintro ⟨text, htext⟩
      obtain ⟨more, rest, hsplit⟩ :=
        List.exists_cons_of_ne_nil (List.splitOn_ne_nil '/' text)
      have hback : ['/'].intercalate (more :: rest) = text := hsplit ▸ List.intercalate_splitOn '/'
      rw [← hback, ← hcut] at htext
      have hslash : ∀ p ∈ parents ++ (name ++ more) :: rest, '/' ∉ p := by
        have htail : ∀ p ∈ more :: rest, '/' ∉ p := hsplit ▸ slash_of_splitOn text
        intro p hp
        rcases List.mem_append.mp hp with hp | hp
        · exact hdir.slash p (List.mem_append_left _ hp)
        · rcases List.mem_cons.mp hp with rfl | hp
          · rw [List.mem_append, not_or]
            exact ⟨hdir.slash name (by simp), htail more List.mem_cons_self⟩
          · exact htail p (List.mem_cons_of_mem _ hp)
      have hne : place ≠ [] := by
        rintro rfl
        have hname := hdir.ne_nil name (by simp)
        rw [hcut, render, render, List.append_assoc, List.append_cancel_left_eq,
          List.intercalate_nil, List.append_eq_nil_iff, ← List.nil_append name,
          intercalate_concat] at htext
        exact hname (List.append_eq_nil_iff.mp htext.1).2
      have heq : parents ++ (name ++ more) :: rest = place := by
        rw [render, render, List.append_cancel_left_eq] at htext
        have hparts := congrArg (List.splitOn '/') htext
        rwa [splitOn_intercalate_slash (by simp) hslash,
          splitOn_intercalate_slash hne hplace.slash] at hparts
      rw [List.append_cons] at heq
      by_cases hmore : more = []
      · rw [hmore, List.append_nil] at heq
        exact .inl ⟨rest, heq⟩
      · exact .inr ⟨parents, name, more, rfl, hmore, rest, heq⟩
    · rintro (⟨rest, rfl⟩ | ⟨parents', name', more, hsame, -, rest, rfl⟩)
      · refine ⟨['/'].intercalate ([] :: rest), ?_⟩
        rw [← hcut, List.append_nil, List.append_cons]
      · obtain ⟨rfl, hlast⟩ := List.append_inj' hsame rfl
        obtain rfl := List.singleton_inj.mp hlast
        refine ⟨['/'].intercalate (more :: rest), ?_⟩
        rw [← hcut, List.append_cons]

end FleetRunner.Library.PosixPath
