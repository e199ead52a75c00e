import FleetRunner.Network.Addresses
import Mathlib.Data.List.Basic
import Mathlib.Tactic.Tauto

/-!
# The tailnet's addresses (`tailnet.ts`)

With an allowlist, a registration from a tailnet address must come from a node on
it. Whether an address is the tailnet's is read off its text, and an address has
many texts.

## Implementation notes

`toLowerCase` is the ASCII one on addresses, and the engine's on names.
-/

namespace FleetRunner.Network.Tailnet

/-! ## The program -/

/-- One to three digits, and what they say. -/
def octet? (cs : List Char) : Option Nat :=
  if cs ≠ [] ∧ cs.length ≤ 3 ∧ cs.all Char.isDigit then some (digitsValue 10 cs) else none

/-- The first two numbers of a dotted address. -/
def dotted? (cs : List Char) : Option (Nat × Nat) :=
  match (cs.splitOn '.').map octet? with
  | [some a, some b, some _, some _] => some (a, b)
  | _ => none

/-- `s.split("::")` -/
def splitPairs : List Char → List (List Char)
  | [] => [[]]
  | ':' :: ':' :: rest => [] :: splitPairs rest
  | c :: rest => (splitPairs rest).modifyHead (c :: ·)

def stripZeros (cs : List Char) : List Char := cs.dropWhile (· = '0')

def want : List (List Char) := ["fd7a".toList, "115c".toList, "a1e0".toList]

/-- The tailnet's own `fd7a:115c:a1e0::/48`. -/
def isTailscaleV6 (ip : List Char) : Bool :=
  let bare := lowered (ip.takeWhile (· ≠ '%'))
  let halves := splitPairs bare
  let first := halves.head?.getD []
  let head := if first ≠ [] then first.splitOn ':' else []
  decide (':' ∈ bare) && decide (halves.length ≤ 2) && decide (3 ≤ head.length) &&
    (want.zip head).all fun p => decide (stripZeros p.2 = stripZeros p.1)

def isTailnetAddress (ip : List Char) : Bool :=
  match dotted? ip with
  | some (a, b) => decide (a = 100) && decide (64 ≤ b) && decide (b ≤ 127)
  | none => isTailscaleV6 ip

def isLoopback (ip : List Char) : Bool :=
  decide (ip = "127.0.0.1".toList) || decide (ip = "::1".toList) || "127.".toList.isPrefixOf ip

def mapped : List Char := "::ffff:".toList

/-- The address without the first letters of the IPv4-mapped form. -/
def normaliseIp (raw : Option (List Char)) : List Char :=
  let ip := raw.getD []
  if mapped.isPrefixOf ip then ip.drop mapped.length else ip

structure TailnetPeer where
  node : String
  user : Option String

section Admit

variable (js : Js)

def clean (s : String) : String :=
  let flat := js.lower (jsTrim s)
  if flat.toList.getLast? = some '.' then String.ofList flat.toList.dropLast else flat

def short (s : String) : List Char := s.toList.takeWhile (· ≠ '.')

def peerAllowed (peer : TailnetPeer) (allowlist : List String) : Bool :=
  let entries := (allowlist.map (clean js)).filter (· ≠ "")
  let node := clean js peer.node
  decide (entries ≠ []) &&
    (decide (node ∈ entries) || entries.any fun e => decide (short e = short node))

structure AdmitDecision where
  admits : Bool
  why : String

def admits (ip : List Char) (allowlist : List String) (peer : Option TailnetPeer) : AdmitDecision :=
  if allowlist = [] then ⟨true, "no allowlist configured"⟩
  else if isLoopback ip then ⟨true, "loopback"⟩
  else if !isTailnetAddress ip then ⟨true, "not a tailnet address; LAN posture applies"⟩
  else
    match peer with
    | none => ⟨false, "tailnet address " ++ String.ofList ip ++
        " could not be identified (is the tailscale CLI available to the collector?)"⟩
    | some peer =>
      if peerAllowed js peer allowlist then ⟨true, "tailnet node " ++ peer.node⟩
      else ⟨false, "tailnet node " ++ peer.node ++ " is not in FLEET_TAILNET_ALLOWLIST"⟩

end Admit

/-! ## Texts made of parts -/

/-- A group is compared by what it says. -/
theorem stripZeros_eq_iff {w : List Char} (hw : w ∈ want) (g : Group) :
    stripZeros (lowered g.digits) = stripZeros w ↔ g.value = digitsValue 16 w := by
  have hfacts : ∀ w ∈ want, stripZeros w = w ∧ lowered w = w ∧ w.length = 4 ∧
      16 ^ 3 ≤ digitsValue 16 w ∧ w.all isHexText = true := by decide
  obtain ⟨hstrip, hlow, hfour, hlarge, hhex⟩ := hfacts w hw
  have hle := g.le
  rw [hstrip, Group.value]
  constructor
  · intro heq
    have hsuffix : w <:+ lowered g.digits := heq ▸ List.dropWhile_suffix _
    have hlength : (lowered g.digits).length ≤ w.length := by
      rw [lowered, List.length_map]
      omega
    rw [hsuffix.eq_of_length (Nat.le_antisymm hsuffix.length_le hlength), digitsValue_lowered]
  · intro hvalue
    have hlength : g.digits.length = w.length := by
      have hlt := digitsValue_lt g.hex
      by_contra hne
      have hshort : 16 ^ g.digits.length ≤ 16 ^ 3 := Nat.pow_le_pow_right (by decide) (by omega)
      omega
    rw [lowered_eq_of_value g.hex (List.all_eq_true.mp hhex) hlength hvalue, hlow, hstrip]

/-- What stands between the colons of an address. -/
def IsPart (p : List Char) : Prop := p ≠ [] ∧ ∀ c ∈ p, c ≠ ':' ∧ c ≠ '%'

theorem splitPairs_ne_nil (cs : List Char) : splitPairs cs ≠ [] := by
  fun_induction splitPairs cs with
  | case1 => simp
  | case2 rest ih => simp
  | case3 c rest hpair ih => simpa [List.modifyHead_eq_nil_iff] using ih

theorem splitPairs_cons {c : Char} {rest : List Char}
    (h : c ≠ ':' ∨ rest.head? ≠ some ':') :
    splitPairs (c :: rest) = (splitPairs rest).modifyHead (c :: ·) := by
  rw [splitPairs]
  intro tail hc hrest
  rcases h with h | h
  · exact h hc
  · exact h (by rw [hrest]; rfl)

theorem splitPairs_part {p : List Char} (hp : ∀ c ∈ p, c ≠ ':') (rest : List Char) :
    splitPairs (p ++ rest) = (splitPairs rest).modifyHead (p ++ ·) := by
  induction p with
  | nil => cases h : splitPairs rest <;> simp [h]
  | cons c p ih =>
    rw [List.cons_append, splitPairs_cons (Or.inl (hp c List.mem_cons_self)),
      ih fun d hd => hp d (List.mem_cons_of_mem _ hd), List.modifyHead_modifyHead]
    rfl

theorem head?_joined {p : List Char} {ps : List (List Char)} (hp : p ≠ []) (rest : List Char) :
    ([':'].intercalate (p :: ps) ++ rest).head? = p.head? := by
  obtain ⟨c, tail, rfl⟩ := List.exists_cons_of_ne_nil hp
  cases ps with
  | nil => simp
  | cons q ps => simp [List.intercalate_cons_cons]

theorem splitPairs_joined {ps : List (List Char)} (hps : ∀ p ∈ ps, IsPart p) (rest : List Char) :
    splitPairs ([':'].intercalate ps ++ rest) =
      (splitPairs rest).modifyHead ([':'].intercalate ps ++ ·) := by
  induction ps with
  | nil => exact splitPairs_part (p := []) (by simp) rest
  | cons p ps ih =>
    have hcolon : ∀ c ∈ p, c ≠ ':' := fun c hc => ((hps p List.mem_cons_self).2 c hc).1
    cases ps with
    | nil => simpa using splitPairs_part hcolon rest
    | cons q ps =>
      obtain ⟨hne, hq⟩ := hps q (List.mem_cons_of_mem _ List.mem_cons_self)
      have hnext : ([':'].intercalate (q :: ps) ++ rest).head? ≠ some ':' := by
        rw [head?_joined hne]
        intro hhead
        exact (hq ':' (List.mem_of_head? hhead)).1 rfl
      rw [List.intercalate_cons_cons, List.append_assoc, List.append_assoc,
        splitPairs_part hcolon, List.singleton_append, splitPairs_cons (Or.inr hnext),
        ih fun r hr => hps r (List.mem_cons_of_mem _ hr), List.modifyHead_modifyHead,
        List.modifyHead_modifyHead]
      simp [Function.comp_def]

theorem lowered_joined (ps : List (List Char)) :
    lowered ([':'].intercalate ps) = [':'].intercalate (ps.map lowered) := by
  induction ps with
  | nil => rfl
  | cons p ps ih =>
    cases ps with
    | nil => simp
    | cons q ps =>
      rw [List.map_cons, List.map_cons, List.intercalate_cons_cons, List.intercalate_cons_cons,
        ← List.map_cons (f := lowered), ← ih]
      simp [lowered]

theorem IsPart.lowered {p : List Char} (hp : IsPart p) : IsPart (lowered p) := by
  refine ⟨by simpa [Tailnet.lowered] using hp.1, fun c hc => ?_⟩
  obtain ⟨d, hd, rfl⟩ := List.mem_map.mp hc
  rw [Ne, Ne, toLower_eq_iff (by decide) (by decide), toLower_eq_iff (by decide) (by decide)]
  exact hp.2 d hd

theorem not_mem_joined {sep d : Char} (hd : d ≠ sep) {ps : List (List Char)}
    (hps : ∀ p ∈ ps, d ∉ p) : d ∉ [sep].intercalate ps := by
  induction ps with
  | nil => simp
  | cons p ps ih =>
    have htail := ih fun q hq => hps q (List.mem_cons_of_mem _ hq)
    cases ps with
    | nil => simpa using hps p List.mem_cons_self
    | cons q ps =>
      rw [List.intercalate_cons_cons]
      simp [hps p List.mem_cons_self, hd, htail]

/-- The address starts with the three groups of the tailnet's. -/
def startsInUla (ps : List (List Char)) : Bool :=
  decide (3 ≤ ps.length) && (want.zip ps).all fun p =>
    decide (stripZeros (lowered p.2) = stripZeros p.1)

theorem mem_joined {ps : List (List Char)} (h : 2 ≤ ps.length) : ':' ∈ [':'].intercalate ps := by
  match ps, h with
  | p :: q :: ps, _ =>
    rw [List.intercalate_cons_cons]
    simp

theorem joined_ne_nil {p : List Char} (hp : p ≠ []) (ps : List (List Char)) :
    [':'].intercalate (p :: ps) ≠ [] := by
  intro hnil
  have hhead := @head?_joined p ps hp []
  rw [hnil] at hhead
  exact hp (List.head?_eq_none_iff.mp hhead.symm)

theorem splitOn_joined {ps : List (List Char)} (hps : ∀ p ∈ ps, IsPart p) :
    (if [':'].intercalate ps ≠ [] then ([':'].intercalate ps).splitOn ':' else []) = ps := by
  cases ps with
  | nil => rfl
  | cons p ps =>
    rw [if_pos (joined_ne_nil (hps p List.mem_cons_self).1 ps),
      List.splitOn_intercalate ':' (fun q hq hmem => ((hps q hq).2 ':' hmem).1 rfl)
        (List.cons_ne_nil p ps)]

/-- On the text of an address, the tailnet's own is what starts with its three groups. -/
theorem isTailscaleV6_spelled {ps : List (List Char)} {qs : Option (List (List Char))}
    (hps : ∀ p ∈ ps, IsPart p) (hqs : ∀ l ∈ qs, ∀ p ∈ l, IsPart p) (zone : Option (List Char)) :
    isTailscaleV6 (spelled ps qs zone) = startsInUla ps := by
  have hlps : ∀ p ∈ ps.map lowered, IsPart p := by
    intro p hp
    obtain ⟨p', hp', rfl⟩ := List.mem_map.mp hp
    exact (hps p' hp').lowered
  have hclean : ∀ {l : List (List Char)}, (∀ p ∈ l, IsPart p) → '%' ∉ [':'].intercalate l :=
    fun hl => not_mem_joined (by decide) fun p hp hmem => ((hl p hp).2 '%' hmem).2 rfl
  have hcore : '%' ∉ [':'].intercalate ps ++
      (qs.elim [] fun qs => ':' :: ':' :: [':'].intercalate qs) := by
    rw [List.mem_append, not_or]
    refine ⟨hclean hps, ?_⟩
    cases qs with
    | none => exact List.not_mem_nil
    | some l => simpa using hclean (hqs l rfl)
  have hzone : (zone.elim [] ('%' :: ·)).takeWhile (· ≠ '%') = [] := by
    cases zone with
    | none => rfl
    | some z => simp
  have hbare : lowered ((spelled ps qs zone).takeWhile (· ≠ '%')) =
      [':'].intercalate (ps.map lowered) ++
        (qs.elim [] fun qs => ':' :: ':' :: [':'].intercalate (qs.map lowered)) := by
    rw [spelled, List.takeWhile_append_of_pos fun c hc => by
      simpa using ne_of_mem_of_not_mem hc hcore, hzone, List.append_nil, lowered, List.map_append,
      ← lowered, lowered_joined]
    cases qs with
    | none => rfl
    | some l => simp [← lowered_joined, lowered]
  have hhalves : splitPairs ([':'].intercalate (ps.map lowered) ++
        (qs.elim [] fun qs => ':' :: ':' :: [':'].intercalate (qs.map lowered))) =
      [':'].intercalate (ps.map lowered) ::
        (qs.map fun qs => [':'].intercalate (qs.map lowered)).toList := by
    rw [splitPairs_joined hlps]
    cases qs with
    | none => simp [splitPairs]
    | some l =>
      have hparts : ∀ p ∈ l.map lowered, IsPart p := fun p hp => by
        obtain ⟨p', hp', rfl⟩ := List.mem_map.mp hp
        exact (hqs l rfl p' hp').lowered
      have hback := splitPairs_joined hparts []
      rw [List.append_nil] at hback
      simp [splitPairs, hback]
  have hcolon : 3 ≤ ps.length → ':' ∈ [':'].intercalate (ps.map lowered) ++
      (qs.elim [] fun qs => ':' :: ':' :: [':'].intercalate (qs.map lowered)) := fun h =>
    List.mem_append_left _ (mem_joined (by rw [List.length_map]; omega))
  have htwo : (qs.map fun qs => [':'].intercalate (qs.map lowered)).toList.length + 1 ≤ 2 := by
    cases qs <;> simp
  simp only [isTailscaleV6, startsInUla, hbare, hhalves, List.head?_cons, Option.getD_some,
    splitOn_joined hlps, List.length_map, List.length_cons, decide_eq_true htwo, Bool.and_true,
    List.zip_map_right, List.all_map]
  by_cases hlength : 3 ≤ ps.length
  · rw [decide_eq_true (hcolon hlength), Bool.true_and]
    rfl
  · simp [hlength]

/-! ## Dotted addresses -/

theorem octet?_digits (o : Octet) : octet? o.digits = some o.value :=
  if_pos ⟨o.ne, o.le, List.all_eq_true.mpr o.decimal⟩

theorem Octet.not_mem (o : Octet) {c : Char} (hc : c.isDigit = false) : c ∉ o.digits := by
  intro hmem
  rw [o.decimal c hmem] at hc
  cases hc

theorem Quad.splitOn_text (q : Quad) : q.text.splitOn '.' = q.octets.map Octet.digits := by
  refine List.splitOn_intercalate '.' (fun l hl => ?_) (by simp [Quad.octets])
  obtain ⟨o, -, rfl⟩ := List.mem_map.mp hl
  exact o.not_mem (by decide)

theorem dotted?_text (q : Quad) : dotted? q.text = some (q.a.value, q.b.value) := by
  rw [dotted?, q.splitOn_text]
  simp [Quad.octets, octet?_digits]

/-- A dotted address has digits and dots only. -/
theorem dotted?_eq_none {cs : List Char} {c : Char} (hc : c ∈ cs) (hdot : c ≠ '.')
    (hdigit : c.isDigit = false) : dotted? cs = none := by
  have hpieces : ∀ {l : List Char} {n : Nat}, octet? l = some n → c ∉ l := by
    intro l n hl hmem
    obtain ⟨-, -, hall⟩ := (Option.ite_none_right_eq_some.mp hl).1
    rw [List.all_eq_true.mp hall c hmem] at hdigit
    cases hdigit
  unfold dotted?
  split
  · next a b x y heq =>
    refine absurd hc ?_
    have hback : ['.'].intercalate (cs.splitOn '.') = cs := List.intercalate_splitOn '.'
    rw [← hback]
    refine not_mem_joined hdot fun l hl => ?_
    have hin := List.mem_map_of_mem (f := octet?) hl
    rw [heq] at hin
    simp only [List.mem_cons, List.not_mem_nil, or_false] at hin
    rcases hin with hl | hl | hl | hl
    · exact hpieces hl
    · exact hpieces hl
    · exact hpieces hl
    · exact hpieces hl
  · rfl

theorem dotted?_of_no_dot {cs : List Char} (h : '.' ∉ cs) : dotted? cs = none := by
  rw [dotted?, List.splitOn_eq_singleton h, List.map_singleton]
  cases octet? cs <;> rfl

theorem Quad.isPart_text (q : Quad) : IsPart q.text := by
  have hne : q.text ≠ [] := by
    intro hnil
    have hsplit := q.splitOn_text
    rw [hnil] at hsplit
    have hlength := congrArg List.length hsplit
    simp [Quad.octets] at hlength
  have hnot : ∀ {d : Char}, d ≠ '.' → d.isDigit = false → d ∉ q.text := by
    intro d hdot hdigit
    refine not_mem_joined hdot fun l hl => ?_
    obtain ⟨o, -, rfl⟩ := List.mem_map.mp hl
    exact o.not_mem hdigit
  refine ⟨hne, fun c hc => ⟨?_, ?_⟩⟩
  · rintro rfl
    exact hnot (by decide) (by decide) hc
  · rintro rfl
    exact hnot (by decide) (by decide) hc

theorem Quad.dot_mem_text (q : Quad) : '.' ∈ q.text := by
  by_contra hdot
  have hsplit := List.splitOn_eq_singleton hdot
  rw [q.splitOn_text] at hsplit
  have hlength := congrArg List.length hsplit
  simp [Quad.octets] at hlength

theorem Group.not_mem (g : Group) {c : Char} (hc : isHexText c = false) : c ∉ g.digits := by
  intro hmem
  rw [g.hex c hmem] at hc
  cases hc

theorem Group.isPart (g : Group) : IsPart g.digits := by
  refine ⟨g.ne, fun c hc => ⟨?_, ?_⟩⟩
  · rintro rfl
    exact g.not_mem (by decide) hc
  · rintro rfl
    exact g.not_mem (by decide) hc

namespace V6

theorem isPart_ending (s : V6) : ∀ p ∈ s.ending, IsPart p := by
  intro p hp
  obtain ⟨q, -, rfl⟩ := List.mem_map.mp hp
  exact q.isPart_text

theorem isPart_groups {gs : List Group} : ∀ p ∈ gs.map Group.digits, IsPart p := by
  intro p hp
  obtain ⟨g, -, rfl⟩ := List.mem_map.mp hp
  exact g.isPart

theorem isPart_front (s : V6) : ∀ p ∈ s.front, IsPart p := by
  intro p hp
  rcases List.mem_append.mp hp with hp | hp
  · exact isPart_groups p hp
  · split at hp
    · cases hp
    · exact s.isPart_ending p hp

theorem isPart_back (s : V6) : ∀ l ∈ s.back, ∀ p ∈ l, IsPart p := by
  intro l hl p hp
  obtain ⟨tail, -, rfl⟩ := Option.map_eq_some_iff.mp hl
  rcases List.mem_append.mp hp with hp | hp
  · exact isPart_groups p hp
  · exact s.isPart_ending p hp

end V6

/-! ## What is left of the text -/

/-- A part ends where a colon or the zone begins. -/
theorem append_prefix_part {w t r x : List Char} (hw : ∀ c ∈ w, c ≠ ':' ∧ c ≠ '%') (ht : IsPart t)
    (hr : ∀ c ∈ r.head?, c = ':' ∨ c = '%') (h : w ++ ':' :: x = t ++ r) :
    t = w ∧ r = ':' :: x := by
  have hstop : ∀ {u v : List Char}, (∀ c ∈ u, c ≠ ':' ∧ c ≠ '%') →
      (∀ c ∈ v.head?, c = ':' ∨ c = '%') →
      (u ++ v).takeWhile (fun c => decide (c ≠ ':' ∧ c ≠ '%')) = u := by
    intro u v hu hv
    rw [List.takeWhile_append_of_pos fun c hc => decide_eq_true (hu c hc)]
    cases v with
    | nil => simp
    | cons c v =>
      have hc := hv c rfl
      rw [List.takeWhile_cons_of_neg (by simpa [or_iff_not_imp_left] using hc), List.append_nil]
  have hword := hstop hw (v := ':' :: x) (fun c hc => Or.inl (Option.some.inj hc).symm)
  rw [h, hstop ht.2 hr] at hword
  subst hword
  exact ⟨rfl, (List.append_cancel_left h).symm⟩

theorem letters_part : ∀ c ∈ "ffff".toList, c ≠ ':' ∧ c ≠ '%' := fun c hc =>
  of_decide_eq_true (List.all_eq_true.mp
    (by decide : "ffff".toList.all (fun c => decide (c ≠ ':' ∧ c ≠ '%')) = true) c hc)

theorem head?_zone (zone : Option (List Char)) :
    ∀ c ∈ (zone.elim [] ('%' :: ·)).head?, c = '%' := by
  intro c hc
  cases zone with
  | none => cases hc
  | some z => exact (Option.some.inj hc).symm

/-- The letters of the mapped form are taken off where the text starts with them. -/
theorem normaliseIp_mapped (t : List Char) (ts : List (List Char)) (zone : Option (List Char)) :
    normaliseIp (some (spelled [] (some ("ffff".toList :: t :: ts)) zone)) =
      spelled (t :: ts) none zone := by
  have htext : spelled [] (some ("ffff".toList :: t :: ts)) zone =
      mapped ++ spelled (t :: ts) none zone := by
    simp [spelled, mapped, List.intercalate_cons_cons]
  rw [htext, normaliseIp]
  simp

/-- Nothing else is changed. -/
theorem normaliseIp_spelled {ps : List (List Char)} {qs : Option (List (List Char))}
    {zone : Option (List Char)} (hps : ∀ p ∈ ps, IsPart p) (hqs : ∀ l ∈ qs, ∀ p ∈ l, IsPart p)
    (h : ¬ (ps = [] ∧ ∃ t ts, qs = some ("ffff".toList :: t :: ts))) :
    normaliseIp (some (spelled ps qs zone)) = spelled ps qs zone := by
  refine if_neg fun hprefix => h ?_
  obtain ⟨x, hx⟩ := List.isPrefixOf_iff_prefix.mp hprefix
  change ':' :: ':' :: ("ffff".toList ++ ':' :: x) = spelled ps qs zone at hx
  have hzone := head?_zone zone
  cases ps with
  | cons p ps =>
    obtain ⟨hne, hp⟩ := hps p List.mem_cons_self
    have hhead := congrArg List.head? hx
    rw [spelled, List.append_assoc, head?_joined hne] at hhead
    exact absurd rfl (hp ':' (List.mem_of_head? hhead.symm)).1
  | nil =>
    refine ⟨rfl, ?_⟩
    cases qs with
    | none =>
      have hcolon := hzone ':' (by simpa [spelled] using congrArg List.head? hx.symm)
      cases hcolon
    | some l =>
      have hrest : "ffff".toList ++ ':' :: x = [':'].intercalate l ++ zone.elim [] ('%' :: ·) := by
        simpa [spelled] using hx
      cases l with
      | nil =>
        have hletter := hzone 'f' (by simpa using congrArg List.head? hrest.symm)
        cases hletter
      | cons t ts =>
        have ht := hqs _ rfl t List.mem_cons_self
        cases ts with
        | nil =>
          rw [List.intercalate_singleton] at hrest
          obtain ⟨-, hcolon⟩ := append_prefix_part letters_part ht
            (fun c hc => Or.inr (hzone c hc)) hrest
          have hcolon' := hzone ':' (by rw [hcolon]; rfl)
          cases hcolon'
        | cons t' ts =>
          rw [List.intercalate_cons_cons, List.append_assoc, List.append_assoc] at hrest
          obtain ⟨rfl, -⟩ := append_prefix_part letters_part ht
            (fun c hc => Or.inl (by simpa using hc.symm)) hrest
          exact ⟨t', ts, rfl⟩

theorem Quad.stripZeros_ne (q : Quad) {w : List Char} (hw : w ∈ want) :
    stripZeros (lowered q.text) ≠ stripZeros w := by
  have hplain : ∀ w ∈ want, '.' ∉ stripZeros w := by decide
  have hdot : '.' ∈ lowered q.text := List.mem_map.mpr ⟨'.', q.dot_mem_text, by decide⟩
  have hkept : '.' ∈ stripZeros (lowered q.text) := by
    rw [← List.takeWhile_append_dropWhile (p := (· = '0')) (l := lowered q.text)] at hdot
    rcases List.mem_append.mp hdot with hzero | hdot
    · exact absurd (List.mem_takeWhile_imp hzero) (by decide : ¬ decide ('.' = '0') = true)
    · exact hdot
  intro heq
  rw [heq] at hkept
  exact hplain w hw hkept

/-- The text starts with the tailnet's groups when its first groups say so. -/
theorem startsInUla_iff (gs : List Group) (q : Option Quad) :
    startsInUla (gs.map Group.digits ++ q.toList.map Quad.text) = true ↔
      (gs.map Group.value).take 3 = ulaGroups := by
  have hends : q.toList.length ≤ 1 := by cases q <;> simp
  have hshort : ∀ {l : List Nat}, l.length < 3 → l.take 3 ≠ ulaGroups := by
    intro l hl heq
    have hlength := congrArg List.length heq
    rw [List.length_take] at hlength
    change _ = 3 at hlength
    omega
  unfold startsInUla
  rw [Bool.and_eq_true, decide_eq_true_eq]
  by_cases hthree : 3 ≤ gs.length
  · match gs, hthree with
    | g :: h :: k :: more, _ =>
      have hg := stripZeros_eq_iff (w := "fd7a".toList) (by decide) g
      have hh := stripZeros_eq_iff (w := "115c".toList) (by decide) h
      have hk := stripZeros_eq_iff (w := "a1e0".toList) (by decide) k
      simp only [want, List.map_cons, List.cons_append, List.zip_cons_cons, List.zip_nil_left,
        List.all_cons, List.all_nil, Bool.and_true, Bool.and_eq_true, decide_eq_true_eq, hg, hh, hk,
        List.length_cons, ulaGroups, List.take_succ_cons, List.take_zero, List.cons.injEq, and_true]
      exact ⟨fun hall => hall.2, fun hall => ⟨by omega, hall⟩⟩
  · refine iff_of_false ?_ (hshort (by rw [List.length_map]; omega))
    rintro ⟨hparts, hall⟩
    rw [List.length_append, List.length_map, List.length_map] at hparts
    cases q with
    | none =>
      rw [Option.toList_none, List.length_nil] at hparts
      omega
    | some q =>
      rw [Option.toList_some, List.length_singleton] at hparts
      obtain ⟨g, h, rfl⟩ := List.length_eq_two.mp (show gs.length = 2 by omega)
      have hthird := List.all_eq_true.mp hall ("a1e0".toList, q.text) (by simp [want])
      exact absurd (of_decide_eq_true hthird) (q.stripZeros_ne (by simp [want]))

/-! ## What the test says of a spelling -/

namespace V6

/-- `::ffff:` in small letters, a dotted address, and no zone. -/
def PlainMapped (s : V6) : Prop :=
  s.head = [] ∧ s.elided.map (·.map Group.digits) = some ["ffff".toList] ∧ s.quad.isSome ∧
    s.zone = none

/-- `::ffff:` in small letters, and the tailnet's three groups next. -/
def Shifted (s : V6) : Prop :=
  s.head = [] ∧ ∃ f rest, s.elided = some (f :: rest) ∧ f.digits = "ffff".toList ∧
    (rest.map Group.value).take 3 = ulaGroups

def bits (s : V6) : Nat := ofGroups 65536 s.groups

/-- The letters of the mapped form stand first and something follows them. -/
def StartsMapped (s : V6) : Prop :=
  s.head = [] ∧ ∃ f rest, s.elided = some (f :: rest) ∧ f.digits = "ffff".toList ∧
    rest.map Group.digits ++ s.ending ≠ []

theorem dotted?_text (s : V6) : dotted? s.text = none := by
  have hcolon : ':' ∈ s.text := by
    have hfull := s.full
    unfold text spelled
    cases helided : s.elided with
    | some tail => simp [back, helided]
    | none =>
      rw [helided] at hfull
      have hquad : (s.quad.toList.flatMap Quad.groups).length ≤ 2 := by
        cases s.quad <;> simp [Quad.groups]
      refine List.mem_append_left _ (List.mem_append_left _ (mem_joined ?_))
      rw [front, List.length_append, List.length_map]
      omega
  exact dotted?_eq_none hcolon (by decide) (by decide)

theorem zero_mem_take {before after : List Nat} {k : Nat} (hk : 0 < k) (hb : before.length < 3) :
    0 ∈ (before ++ List.replicate k 0 ++ after).take 3 := by
  obtain ⟨j, rfl⟩ := Nat.exists_eq_succ_of_ne_zero (Nat.ne_of_gt hk)
  match before, hb with
  | [], _ => simp [List.replicate_succ]
  | [a], _ => simp [List.replicate_succ]
  | [a, b], _ => simp [List.replicate_succ]

theorem front_of_elided {s : V6} {tail : List Group} (h : s.elided = some tail) :
    s.front = s.head.map Group.digits ++ (none : Option Quad).toList.map Quad.text := by
  simp [front, h]

theorem startsInUla_front (s : V6) : startsInUla s.front = true ↔ InUla s.bits := by
  have hfull := s.full
  rw [bits, inUla_iff s.length_groups s.groups_lt]
  cases helided : s.elided with
  | none =>
    rw [helided] at hfull
    have hquad : (s.quad.toList.flatMap Quad.groups).length ≤ 2 := by
      cases s.quad <;> simp [Quad.groups]
    have hfront : s.front = s.head.map Group.digits ++ s.quad.toList.map Quad.text := by
      simp [front, helided, ending]
    rw [hfront, startsInUla_iff, groups, List.append_assoc, List.take_append_of_le_length]
    rw [List.length_map]
    omega
  | some tail =>
    rw [helided] at hfull
    rw [front_of_elided helided, startsInUla_iff, groups, helided, Option.getD_some]
    by_cases hthree : 3 ≤ s.head.length
    · rw [List.append_assoc, List.take_append_of_le_length (by rwa [List.length_map])]
    · -- the elision covers one of the first three groups, and none of the tailnet's is zero
      refine iff_of_false (fun heq => ?_) fun heq => ?_
      · have hlength := congrArg List.length heq
        rw [List.length_take, List.length_map] at hlength
        change _ = 3 at hlength
        omega
      · have hzero : 0 ∈ ulaGroups := by
          rw [← heq]
          exact zero_mem_take (by simp only [List.length_append, List.length_map]; omega)
            (by rw [List.length_map]; omega)
        exact absurd hzero (by decide)

theorem back_eq {s : V6} {tail : List Group} (h : s.elided = some tail) :
    s.back = some (tail.map Group.digits ++ s.ending) := by
  rw [back, h]
  rfl

theorem startsMapped_iff (s : V6) : s.StartsMapped ↔
    s.front = [] ∧ ∃ t ts, s.back = some ("ffff".toList :: t :: ts) := by
  constructor
  · rintro ⟨hhead, f, rest, helided, hf, hne⟩
    obtain ⟨t, ts, hts⟩ := List.exists_cons_of_ne_nil hne
    refine ⟨by simp [front_of_elided helided, hhead], t, ts, ?_⟩
    rw [back_eq helided, List.map_cons, List.cons_append, hts, hf]
  · rintro ⟨hfront, t, ts, hback⟩
    obtain ⟨tail, helided, hparts⟩ := Option.map_eq_some_iff.mp hback
    rw [front_of_elided helided] at hfront
    have hends : s.ending.length ≤ 1 := by
      unfold ending
      cases s.quad <;> simp
    cases tail with
    | nil =>
      rw [List.map_nil, List.nil_append] at hparts
      rw [hparts, List.length_cons, List.length_cons] at hends
      omega
    | cons f rest =>
      rw [List.map_cons, List.cons_append] at hparts
      obtain ⟨hf, hrest⟩ := List.cons.inj hparts
      refine ⟨by simpa using hfront, f, rest, helided, hf, ?_⟩
      rw [hrest]
      exact List.cons_ne_nil t ts

theorem groups_mapped {s : V6} {f : Group} {rest : List Group} (hhead : s.head = [])
    (helided : s.elided = some (f :: rest)) (hf : f.digits = "ffff".toList) :
    s.groups = List.replicate (7 - rest.length - (s.quad.toList.flatMap Quad.groups).length) 0 ++
      0xffff :: (rest.map Group.value ++ s.quad.toList.flatMap Quad.groups) := by
  have hvalue : f.value = 0xffff := by
    rw [Group.value, hf]
    decide
  rw [groups, hhead, helided]
  simp only [List.map_nil, List.length_nil, Option.getD_some, List.map_cons, List.length_append,
    List.length_cons, List.length_map, hvalue, List.nil_append, List.cons_append]
  congr 2
  omega

theorem not_plainMapped {s : V6} {f r : Group} {rest : List Group}
    (helided : s.elided = some (f :: r :: rest)) : ¬ s.PlainMapped := by
  rintro ⟨-, hone, -⟩
  rw [helided] at hone
  simp at hone

/-- A text that goes on with a group is no dotted address. -/
theorem dotted?_group (g : Group) {parts : List (List Char)} {zone : Option (List Char)} :
    dotted? (spelled (g.digits :: parts) none zone) = none := by
  cases parts with
  | cons p parts =>
    refine dotted?_eq_none (c := ':') ?_ (by decide) (by decide)
    exact List.mem_append_left _ (List.mem_append_left _ (mem_joined (by simp)))
  | nil =>
    cases zone with
    | some z =>
      exact dotted?_eq_none (c := '%') (List.mem_append_right _ List.mem_cons_self) (by decide)
        (by decide)
    | none =>
      have htext : spelled [g.digits] none none = g.digits := by simp [spelled]
      rw [htext]
      exact dotted?_of_no_dot (g.not_mem (by decide))

/-- What is tested once the letters of the mapped form are gone. -/
theorem isTailnetAddress_mapped {s : V6} (h : s.StartsMapped) :
    isTailnetAddress (normaliseIp (some s.text)) = true ↔
      (s.PlainMapped ∧ InMappedCgnat s.bits) ∨ s.Shifted := by
  obtain ⟨hhead, f, rest, helided, hf, hne⟩ := h
  have hshifted : s.Shifted ↔ (rest.map Group.value).take 3 = ulaGroups := by
    constructor
    · rintro ⟨-, f', rest', helided', -, hthree⟩
      rw [helided] at helided'
      obtain ⟨-, rfl⟩ := List.cons.inj (Option.some.inj helided')
      exact hthree
    · exact fun hthree => ⟨hhead, f, rest, helided, hf, hthree⟩
  have hleft : normaliseIp (some s.text) =
      spelled (rest.map Group.digits ++ s.ending) none s.zone := by
    obtain ⟨t, ts, hts⟩ := List.exists_cons_of_ne_nil hne
    have hfront : s.front = [] := by simp [front_of_elided helided, hhead]
    rw [text, hfront, back_eq helided, List.map_cons, List.cons_append, hf, hts]
    exact normaliseIp_mapped t ts s.zone
  have hparts : ∀ p ∈ rest.map Group.digits ++ s.ending, IsPart p := by
    intro p hp
    rcases List.mem_append.mp hp with hp | hp
    · exact isPart_groups p hp
    · exact s.isPart_ending p hp
  have hv6 : isTailscaleV6 (spelled (rest.map Group.digits ++ s.ending) none s.zone) = true ↔
      (rest.map Group.value).take 3 = ulaGroups := by
    rw [isTailscaleV6_spelled hparts (by simp), ending, startsInUla_iff]
  rw [hleft, isTailnetAddress, hshifted]
  cases rest with
  | cons r rest =>
    rw [List.map_cons, List.cons_append, dotted?_group, ← List.cons_append, ← List.map_cons,
      or_iff_right fun hplain => not_plainMapped helided hplain.1]
    exact hv6
  | nil =>
    have hthree : ¬ (([] : List Group).map Group.value).take 3 = ulaGroups := by decide
    rw [or_iff_left hthree]
    cases hquad : s.quad with
    | none => simp [ending, hquad] at hne
    | some q =>
      cases hzone : s.zone with
      | some z =>
        have hnone : dotted? (spelled (([] : List Group).map Group.digits ++ s.ending) none
            (some z)) = none :=
          dotted?_eq_none (c := '%') (List.mem_append_right _ List.mem_cons_self) (by decide)
            (by decide)
        rw [hzone] at hv6
        rw [hnone]
        refine iff_of_false (mt hv6.mp hthree) fun hplain => ?_
        have hno := hplain.1.2.2.2
        rw [hzone] at hno
        cases hno
      | none =>
        have htext : spelled (([] : List Group).map Group.digits ++ s.ending) none none =
            q.text := by
          simp [spelled, ending, hquad]
        have hplain : s.PlainMapped := by
          refine ⟨hhead, ?_, by rw [hquad]; rfl, hzone⟩
          rw [helided, Option.map_some, List.map_singleton, hf]
        have hbits : InMappedCgnat s.bits ↔
            q.a.value = 100 ∧ 64 ≤ q.b.value ∧ q.b.value ≤ 127 := by
          have hgroups := groups_mapped hhead helided hf
          have htake : s.groups.take 6 = [0, 0, 0, 0, 0, 0xffff] := by
            rw [hgroups, hquad]
            rfl
          rw [InMappedCgnat, bits, and_iff_right
            ((inMapped_iff s.length_groups s.groups_lt).mpr htake), hgroups, hquad]
          exact @inCgnat_mapped [0, 0, 0, 0, 0, 0xffff] _ _ _ _ q.a.small q.b.small q.c.small
            q.d.small
        rw [htext, Network.Tailnet.dotted?_text, hbits, and_iff_right hplain]
        simp [and_assoc]

theorem isTailnetAddress_unmapped {s : V6} (h : ¬ s.StartsMapped) :
    isTailnetAddress (normaliseIp (some s.text)) = true ↔ InUla s.bits := by
  rw [startsMapped_iff] at h
  rw [text, normaliseIp_spelled s.isPart_front s.isPart_back h, ← text, isTailnetAddress,
    s.dotted?_text]
  simp only [text]
  rw [isTailscaleV6_spelled s.isPart_front s.isPart_back, startsInUla_front]

theorem PlainMapped.startsMapped {s : V6} (h : s.PlainMapped) : s.StartsMapped := by
  obtain ⟨hhead, helided, hquad, -⟩ := h
  obtain ⟨tail, htail, hdigits⟩ := Option.map_eq_some_iff.mp helided
  obtain ⟨q, hq⟩ := Option.isSome_iff_exists.mp hquad
  match tail, hdigits with
  | [f], hdigits =>
    exact ⟨hhead, f, [], htail, (List.cons.inj hdigits).1, by simp [ending, hq]⟩
  | _ :: _ :: _, hdigits => simp at hdigits

theorem Shifted.startsMapped {s : V6} (h : s.Shifted) : s.StartsMapped := by
  obtain ⟨hhead, f, rest, helided, hf, hthree⟩ := h
  refine ⟨hhead, f, rest, helided, hf, fun hnil => ?_⟩
  rw [List.map_eq_nil_iff.mp (List.append_eq_nil_iff.mp hnil).1] at hthree
  cases hthree

theorem not_inUla_of_startsMapped {s : V6} (h : s.StartsMapped) : ¬ InUla s.bits := by
  obtain ⟨hhead, f, rest, helided, -⟩ := h
  rw [← startsInUla_front, front_of_elided helided, hhead]
  decide

theorem not_inUla_of_mapped {s : V6} (h : InMappedCgnat s.bits) : ¬ InUla s.bits := by
  have hmapped := (inMapped_iff s.length_groups s.groups_lt).mp h.1
  rw [bits, inUla_iff s.length_groups s.groups_lt]
  intro hula
  have htwice := congrArg (List.take 3) hmapped
  rw [List.take_take, Nat.min_eq_left (by decide : 3 ≤ 6), hula] at htwice
  cases htwice

theorem mapped_place {k : Nat} {more : List Nat}
    (h : (List.replicate k 0 ++ 0xffff :: more).take 6 = [0, 0, 0, 0, 0, 0xffff]) : k = 5 := by
  match k with
  | 0 | 1 | 2 | 3 | 4 => simp [List.replicate_succ] at h
  | 5 => rfl
  | k + 6 => simp [List.replicate_succ] at h

/-- In a shifted text more than two groups follow the mapped letters. -/
theorem Shifted.not_mapped {s : V6} (h : s.Shifted) : ¬ InMappedCgnat s.bits := by
  obtain ⟨hhead, f, rest, helided, hf, hthree⟩ := h
  intro hmapped
  have htake := (inMapped_iff s.length_groups s.groups_lt).mp hmapped.1
  rw [groups_mapped hhead helided hf] at htake
  have hplace := mapped_place htake
  have hlength := congrArg List.length hthree
  rw [List.length_take, List.length_map] at hlength
  change _ = 3 at hlength
  omega

/-- The test is right of an address exactly where it is not an IPv4-mapped one of the tailnet in
another form than the plain one, and the tailnet's groups do not follow the mapped letters. -/
theorem isTailnetAddress_iff (s : V6) :
    (isTailnetAddress (normaliseIp (some s.text)) = true ↔ InUla s.bits ∨ InMappedCgnat s.bits) ↔
      ¬ ((InMappedCgnat s.bits ∧ ¬ s.PlainMapped) ∨ s.Shifted) := by
  by_cases hstarts : s.StartsMapped
  · rw [isTailnetAddress_mapped hstarts]
    have hula := not_inUla_of_startsMapped hstarts
    have hmapped := Shifted.not_mapped (s := s)
    tauto
  · rw [isTailnetAddress_unmapped hstarts]
    have hplain := mt PlainMapped.startsMapped hstarts
    have hshifted := mt Shifted.startsMapped hstarts
    have hula := not_inUla_of_mapped (s := s)
    tauto

end V6

/-- A mapped address of the tailnet in another form than the plain one, or the tailnet's groups
after the mapped letters. -/
def Misread : Spelling → Prop
  | .v4 _ => False
  | .v6 s => (InMappedCgnat s.bits ∧ ¬ s.PlainMapped) ∨ s.Shifted

theorem Quad.head_text (q : Quad) : ∃ c tail, q.text = c :: tail ∧ c.isDigit = true := by
  obtain ⟨c, tail, hc⟩ := List.exists_cons_of_ne_nil q.a.ne
  refine ⟨c, tail ++ '.' :: ['.'].intercalate [q.b.digits, q.c.digits, q.d.digits], ?_,
    q.a.decimal c (hc ▸ List.mem_cons_self)⟩
  simp [Quad.text, Quad.octets, hc, List.intercalate_cons_cons]

theorem normaliseIp_quad (q : Quad) : normaliseIp (some q.text) = q.text := by
  obtain ⟨c, tail, htext, hc⟩ := q.head_text
  refine if_neg fun hprefix => ?_
  obtain ⟨x, hx⟩ := List.isPrefixOf_iff_prefix.mp hprefix
  rw [Option.getD_some, htext] at hx
  have hcolon : ':' = c := (List.cons.inj hx).1
  rw [← hcolon] at hc
  cases hc

/-- The test is right exactly of the spellings that are not misread. -/
theorem isTailnetAddress_spelling (s : Spelling) :
    (isTailnetAddress (normaliseIp (some s.text)) = true ↔ InTailnet s.address) ↔ ¬ Misread s := by
  cases s with
  | v6 s => exact s.isTailnetAddress_iff
  | v4 q =>
    refine iff_of_true ?_ not_false
    rw [Spelling.text, normaliseIp_quad, isTailnetAddress, dotted?_text]
    have hcgnat := inCgnat_octets q.a.small q.b.small q.c.small q.d.small
    change _ ↔ InCgnat (ofGroups 256 [q.a.value, q.b.value, q.c.value, q.d.value])
    refine Iff.trans ?_ hcgnat.symm
    simp only [Bool.and_eq_true, decide_eq_true_eq, and_assoc]
    exact Iff.rfl

/-! ## Who is admitted -/

theorem not_isTailscaleV6_of_one {tail : List Char} : isTailscaleV6 ('1' :: tail) = false := by
  obtain ⟨x, hx⟩ : ∃ x, lowered (('1' :: tail).takeWhile (· ≠ '%')) = '1' :: x := ⟨_, rfl⟩
  obtain ⟨y, rest, hy⟩ : ∃ y rest, splitPairs ('1' :: x) = ('1' :: y) :: rest := by
    obtain ⟨y, rest, hsplit⟩ := List.exists_cons_of_ne_nil (splitPairs_ne_nil x)
    rw [splitPairs_cons (Or.inl (by decide)), hsplit]
    exact ⟨y, rest, rfl⟩
  obtain ⟨z, more, hz⟩ : ∃ z more, ('1' :: y).splitOn ':' = ('1' :: z) :: more := by
    obtain ⟨z, more, hsplit⟩ := List.exists_cons_of_ne_nil (List.splitOn_ne_nil ':' y)
    rw [List.splitOn_cons_eq_if_modifyHead, if_neg (by decide), hsplit]
    exact ⟨z, more, rfl⟩
  have hone : stripZeros ('1' :: z) ≠ stripZeros "fd7a".toList := by
    intro heq
    cases congrArg List.head? heq
  have hif : (if '1' :: y ≠ [] then ('1' :: y).splitOn ':' else []) = ('1' :: z) :: more := by
    rw [if_pos (List.cons_ne_nil _ y), hz]
  simp only [isTailscaleV6, hx, hy, List.head?_cons, Option.getD_some, hif, want,
    List.zip_cons_cons, List.all_cons, decide_eq_false hone, Bool.false_and, Bool.and_false]

/-- A tailnet address is not a loopback one. -/
theorem isLoopback_of_tailnet {ip : List Char} (h : isTailnetAddress ip = true) :
    isLoopback ip = false := by
  rw [isLoopback, Bool.or_eq_false_iff, Bool.or_eq_false_iff, decide_eq_false_iff_not,
    decide_eq_false_iff_not]
  refine ⟨⟨?_, ?_⟩, ?_⟩
  · rintro rfl
    revert h
    decide
  · rintro rfl
    revert h
    decide
  · rw [← Bool.not_eq_true]
    intro hprefix
    obtain ⟨x, rfl⟩ := List.isPrefixOf_iff_prefix.mp hprefix
    have hsplit : ("127.".toList ++ x).splitOn '.' = "127".toList :: x.splitOn '.' :=
      List.splitOn_append_cons_self_of_not_mem (a := '.') (by decide : '.' ∉ "127".toList) x
    rw [isTailnetAddress, dotted?, hsplit, List.map_cons] at h
    have hfirst : octet? "127".toList = some 127 := by decide
    rw [hfirst] at h
    split at h
    · next a b hdotted =>
      split at hdotted
      · next a' b' c' d' hparts =>
        have ha : 127 = a' := Option.some.inj (List.cons.inj hparts).1
        obtain ⟨rfl, rfl⟩ := Prod.mk.inj (Option.some.inj hdotted)
        rw [← ha] at h
        cases h
      · cases hdotted
    · exact absurd h (by rw [Bool.not_eq_true]; exact not_isTailscaleV6_of_one)

/-- What the test is for: it knows the tailnet's addresses, and with an allowlist a node of the
tailnet that is not on it is not admitted. -/
structure KeepsOut (js : Js) (s : Spelling) : Prop where
  test : isTailnetAddress (normaliseIp (some s.text)) = true ↔ InTailnet s.address
  admits : ∀ allowlist peer, allowlist ≠ [] → InTailnet s.address →
    (∀ p ∈ peer, peerAllowed js p allowlist = false) →
    (admits js (normaliseIp (some s.text)) allowlist peer).admits = false

theorem admit_unlisted {js : Js} {ip : List Char} {allowlist : List String}
    {peer : Option TailnetPeer} (hlist : allowlist ≠ []) (hip : isTailnetAddress ip = true)
    (hpeer : ∀ p ∈ peer, peerAllowed js p allowlist = false) :
    (admits js ip allowlist peer).admits = false := by
  unfold Tailnet.admits
  rw [if_neg hlist, isLoopback_of_tailnet hip, hip]
  cases peer with
  | none => rfl
  | some p => simp [hpeer p rfl]

theorem keepsOut_iff (js : Js) (s : Spelling) : KeepsOut js s ↔ ¬ Misread s := by
  rw [← isTailnetAddress_spelling]
  constructor
  · exact fun h => h.test
  · exact fun h => ⟨h, fun allowlist peer hlist htailnet => admit_unlisted hlist (h.mpr htailnet)⟩

/-! ## Misread addresses -/

def group (digits : List Char) (h : digits.all isHexText = true ∧ digits ≠ [] ∧ digits.length ≤ 4) :
    Group :=
  ⟨digits, List.all_eq_true.mp h.1, h.2.1, h.2.2⟩

def octet (digits : List Char)
    (h : digits.all Char.isDigit = true ∧ digits ≠ [] ∧ digits.length ≤ 3 ∧
      digitsValue 10 digits ≤ 255) : Octet :=
  ⟨digits, List.all_eq_true.mp h.1, h.2.1, h.2.2.1, h.2.2.2⟩

def firstNode : Quad :=
  ⟨octet "100".toList (by decide), octet "64".toList (by decide), octet "0".toList (by decide),
    octet "1".toList (by decide)⟩

/-- `::FFFF:100.64.0.1` -/
def capitalMapped : V6 :=
  ⟨[], some [group "FFFF".toList (by decide)], some firstNode, none, by decide⟩

/-- `::ffff:6440:1` -/
def hexMapped : V6 :=
  ⟨[], some [group "ffff".toList (by decide), group "6440".toList (by decide),
    group "1".toList (by decide)], none, none, by decide⟩

/-- `::ffff:fd7a:115c:a1e0` -/
def afterMapped : V6 :=
  ⟨[], some [group "ffff".toList (by decide), group "fd7a".toList (by decide),
    group "115c".toList (by decide), group "a1e0".toList (by decide)], none, none, by decide⟩

theorem keepsOut_fails :
    ¬ KeepsOut Js.plain (.v6 capitalMapped) ∧ ¬ KeepsOut Js.plain (.v6 hexMapped) ∧
      ¬ KeepsOut Js.plain (.v6 afterMapped) := by
  have hmisread : ∀ {s : Spelling}, Misread s → ¬ KeepsOut Js.plain s := fun hs hkeeps =>
    (isTailnetAddress_spelling _).mp hkeeps.test hs
  refine ⟨hmisread (Or.inl ⟨?_, ?_⟩), hmisread (Or.inl ⟨?_, ?_⟩), hmisread (Or.inr ?_)⟩
  · exact ⟨by unfold InNet; decide +kernel, by unfold InCgnat InNet; decide +kernel⟩
  · rintro ⟨-, hletters, -⟩
    revert hletters
    decide
  · exact ⟨by unfold InNet; decide +kernel, by unfold InCgnat InNet; decide +kernel⟩
  · exact V6.not_plainMapped rfl
  · exact ⟨rfl, _, _, rfl, rfl, by decide⟩

end FleetRunner.Network.Tailnet
