import FleetRunner.Js.Ascii
import FleetRunner.Js.Number
import Mathlib.Data.List.Induction

/-!
# Addresses and their texts

An address is its bits, and a network the addresses that share its first ones.
A spelling is one of the texts of an address: groups in either case, zeros in
front, `::` anywhere, a dotted ending, a zone.

## Implementation notes

No letter outside ASCII lowers to a character of an address, so `toLowerCase` is
the ASCII one here.
-/

namespace FleetRunner.Network.Tailnet

/-- What the numbers of an address say together, each of `base` values. -/
def ofGroups (base : Nat) (groups : List Nat) : Nat := groups.foldl (fun n g => base * n + g) 0

/-- The first `len` bits of an address of `width` bits are the network's. -/
def InNet (width len net bits : Nat) : Prop := bits / 2 ^ (width - len) = net / 2 ^ (width - len)

inductive Address where
  | v4 (bits : Nat)
  | v6 (bits : Nat)

/-- `100.64.0.0/10` -/
def InCgnat (bits : Nat) : Prop := InNet 32 10 (ofGroups 256 [100, 64, 0, 0]) bits

/-- `fd7a:115c:a1e0::/48` -/
def InUla (bits : Nat) : Prop :=
  InNet 128 48 (ofGroups 65536 [0xfd7a, 0x115c, 0xa1e0, 0, 0, 0, 0, 0]) bits

/-- An IPv4-mapped `100.64.0.0/10`. -/
def InMappedCgnat (bits : Nat) : Prop :=
  InNet 128 96 (ofGroups 65536 [0, 0, 0, 0, 0, 0xffff, 0, 0]) bits ∧ InCgnat (bits % 2 ^ 32)

def InTailnet : Address → Prop
  | .v4 bits => InCgnat bits
  | .v6 bits => InUla bits ∨ InMappedCgnat bits

/-- Four hexadecimal digits at most, in either case. -/
structure Group where
  digits : List Char
  hex : ∀ c ∈ digits, isHexText c = true
  ne : digits ≠ []
  le : digits.length ≤ 4

def Group.value (g : Group) : Nat := digitsValue 16 g.digits

structure Octet where
  digits : List Char
  decimal : ∀ c ∈ digits, c.isDigit = true
  ne : digits ≠ []
  le : digits.length ≤ 3
  small : digitsValue 10 digits ≤ 255

def Octet.value (o : Octet) : Nat := digitsValue 10 o.digits

structure Quad where
  a : Octet
  b : Octet
  c : Octet
  d : Octet

namespace Quad

def octets (q : Quad) : List Octet := [q.a, q.b, q.c, q.d]

def text (q : Quad) : List Char := ['.'].intercalate (q.octets.map Octet.digits)

/-- The two groups that a dotted ending stands for. -/
def groups (q : Quad) : List Nat :=
  [256 * q.a.value + q.b.value, 256 * q.c.value + q.d.value]

end Quad

/-- An IPv6 address as it may be written: the groups before `::` and after it, or all of them when
nothing is elided, the last two perhaps dotted, and a zone. -/
structure V6 where
  head : List Group
  elided : Option (List Group)
  quad : Option Quad
  zone : Option (List Char)
  full : match elided with
    | none => head.length + (quad.toList.flatMap Quad.groups).length = 8
    | some tail => head.length + tail.length + (quad.toList.flatMap Quad.groups).length ≤ 7

/-- The parts before `::`, `::` and the parts after it, and the zone. -/
def spelled (ps : List (List Char)) (qs : Option (List (List Char))) (zone : Option (List Char)) :
    List Char :=
  [':'].intercalate ps ++ (qs.elim [] fun qs => ':' :: ':' :: [':'].intercalate qs) ++
    zone.elim [] ('%' :: ·)

namespace V6

def ending (s : V6) : List (List Char) := s.quad.toList.map Quad.text

/-- What is written before `::`, or everything. -/
def front (s : V6) : List (List Char) :=
  s.head.map Group.digits ++ if s.elided.isSome then [] else s.ending

/-- What is written after `::`. -/
def back (s : V6) : Option (List (List Char)) :=
  s.elided.map fun tail => tail.map Group.digits ++ s.ending

def text (s : V6) : List Char := spelled s.front s.back s.zone

/-- The eight groups of the address. -/
def groups (s : V6) : List Nat :=
  let before := s.head.map Group.value
  let after := (s.elided.getD []).map Group.value ++ s.quad.toList.flatMap Quad.groups
  before ++ List.replicate (8 - before.length - after.length) 0 ++ after

end V6

inductive Spelling where
  | v4 (quad : Quad)
  | v6 (s : V6)

namespace Spelling

def text : Spelling → List Char
  | .v4 q => q.text
  | .v6 s => s.text

def address : Spelling → Address
  | .v4 q => .v4 (ofGroups 256 (q.octets.map Octet.value))
  | .v6 s => .v6 (ofGroups 65536 s.groups)

end Spelling

/-! ## Hexadecimal digits -/

/-- `toLowerCase` -/
def lowered (cs : List Char) : List Char := cs.map Char.toLower

/-- What a hexadecimal digit says. -/
def nibble (c : Char) : Nat := if c.isDigit then c.toNat - 48 else c.toLower.toNat - 87

theorem nibble_eq (c : Char) :
    nibble c = if 48 ≤ c.toNat ∧ c.toNat ≤ 57 then c.toNat - 48 else c.toLower.toNat - 87 :=
  if_congr isDigit_iff rfl rfl

theorem isHexText_iff {c : Char} : isHexText c = true ↔
    (48 ≤ c.toNat ∧ c.toNat ≤ 57) ∨ (97 ≤ c.toLower.toNat ∧ c.toLower.toNat ≤ 102) := by
  have hletters : c.toLower ∈ ['a', 'b', 'c', 'd', 'e', 'f'] ↔
      97 ≤ c.toLower.toNat ∧ c.toLower.toNat ≤ 102 := by
    simp only [List.mem_cons, List.not_mem_nil, or_false, char_eq_iff]
    change _ = 97 ∨ _ = 98 ∨ _ = 99 ∨ _ = 100 ∨ _ = 101 ∨ _ = 102 ↔ _
    omega
  rw [isHexText, Bool.or_eq_true, isDigit_iff, decide_eq_true_eq, hletters]

theorem nibble_lt {c : Char} (h : isHexText c = true) : nibble c < 16 := by
  have hhex := isHexText_iff.mp h
  rw [nibble_eq]
  split <;> omega

theorem nibble_lower (c : Char) : nibble c.toLower = nibble c := by
  have hlower := toNat_toLower c
  have htwice := toNat_toLower c.toLower
  rw [nibble_eq, nibble_eq]
  split at hlower <;> split at htwice <;> split <;> split <;> omega

theorem lower_eq_of_nibble {c d : Char} (hc : isHexText c = true) (hd : isHexText d = true)
    (h : nibble c = nibble d) : c.toLower = d.toLower := by
  have hcl := toNat_toLower c
  have hdl := toNat_toLower d
  have hchex := isHexText_iff.mp hc
  have hdhex := isHexText_iff.mp hd
  rw [nibble_eq, nibble_eq] at h
  rw [char_eq_iff]
  split at h <;> split at h <;> split at hcl <;> split at hdl <;> omega

theorem digitsValue_append (cs : List Char) (c : Char) :
    digitsValue 16 (cs ++ [c]) = 16 * digitsValue 16 cs + nibble c := by
  simp [digitsValue, nibble]

theorem lowered_concat (cs : List Char) (c : Char) :
    lowered (cs ++ [c]) = lowered cs ++ [c.toLower] := List.map_append

theorem digitsValue_lowered (cs : List Char) :
    digitsValue 16 (lowered cs) = digitsValue 16 cs := by
  induction cs using List.reverseRecOn with
  | nil => rfl
  | append_singleton cs c ih =>
    rw [lowered_concat, digitsValue_append, digitsValue_append, ih, nibble_lower]

theorem digitsValue_lt {cs : List Char} (h : ∀ c ∈ cs, isHexText c = true) :
    digitsValue 16 cs < 16 ^ cs.length := by
  induction cs using List.reverseRecOn with
  | nil => decide
  | append_singleton cs c ih =>
    have hrest := ih fun d hd => h d (List.mem_append_left _ hd)
    have hlast := nibble_lt (h c (List.mem_append_right _ List.mem_cons_self))
    rw [digitsValue_append, List.length_append, List.length_singleton, Nat.pow_succ]
    omega

/-- As many digits say the same only when they are the same, case apart. -/
theorem lowered_eq_of_value {as bs : List Char} (ha : ∀ c ∈ as, isHexText c = true)
    (hb : ∀ c ∈ bs, isHexText c = true) (hlength : as.length = bs.length)
    (h : digitsValue 16 as = digitsValue 16 bs) : lowered as = lowered bs := by
  induction as using List.reverseRecOn generalizing bs with
  | nil => rw [List.eq_nil_of_length_eq_zero hlength.symm]
  | append_singleton as c ih =>
    cases bs using List.reverseRecOn with
    | nil => simp at hlength
    | append_singleton bs d =>
      have hca := ha c (List.mem_append_right _ List.mem_cons_self)
      have hdb := hb d (List.mem_append_right _ List.mem_cons_self)
      have hc := nibble_lt hca
      have hd := nibble_lt hdb
      rw [digitsValue_append, digitsValue_append] at h
      have hlast := lower_eq_of_nibble hca hdb (by omega)
      have hinit := ih (fun x hx => ha x (List.mem_append_left _ hx))
        (fun x hx => hb x (List.mem_append_left _ hx)) (by simpa using hlength) (by omega)
      calc lowered (as ++ [c]) = lowered as ++ [c.toLower] := lowered_concat as c
        _ = lowered bs ++ [d.toLower] := by rw [hinit, hlast]
        _ = lowered (bs ++ [d]) := (lowered_concat bs d).symm

/-! ## The networks by their groups -/

def ulaGroups : List Nat := [0xfd7a, 0x115c, 0xa1e0]

theorem inUla_iff {gs : List Nat} (hlength : gs.length = 8) (hsmall : ∀ g ∈ gs, g < 65536) :
    InUla (ofGroups 65536 gs) ↔ gs.take 3 = ulaGroups := by
  match gs, hlength with
  | [a, b, c, d, e, f, g, h], _ =>
    simp only [List.forall_mem_cons] at hsmall
    simp only [InUla, InNet, ofGroups, List.foldl, ulaGroups, List.take, List.cons.injEq, and_true]
    omega

theorem inMapped_iff {gs : List Nat} (hlength : gs.length = 8) (hsmall : ∀ g ∈ gs, g < 65536) :
    InNet 128 96 (ofGroups 65536 [0, 0, 0, 0, 0, 0xffff, 0, 0]) (ofGroups 65536 gs) ↔
      gs.take 6 = [0, 0, 0, 0, 0, 0xffff] := by
  match gs, hlength with
  | [a, b, c, d, e, f, g, h], _ =>
    simp only [List.forall_mem_cons] at hsmall
    simp only [InNet, ofGroups, List.foldl, List.take, List.cons.injEq, and_true]
    omega

theorem inCgnat_octets {a b c d : Nat} (ha : a ≤ 255) (hb : b ≤ 255) (hc : c ≤ 255)
    (hd : d ≤ 255) : InCgnat (ofGroups 256 [a, b, c, d]) ↔ a = 100 ∧ 64 ≤ b ∧ b ≤ 127 := by
  simp only [InCgnat, InNet, ofGroups, List.foldl]
  omega

theorem inCgnat_mapped {front : List Nat} {a b c d : Nat} (ha : a ≤ 255) (hb : b ≤ 255)
    (hc : c ≤ 255) (hd : d ≤ 255) :
    InCgnat (ofGroups 65536 (front ++ [256 * a + b, 256 * c + d]) % 2 ^ 32) ↔
      a = 100 ∧ 64 ≤ b ∧ b ≤ 127 := by
  rw [← inCgnat_octets ha hb hc hd]
  have hlow : ofGroups 65536 (front ++ [256 * a + b, 256 * c + d]) % 2 ^ 32 =
      ofGroups 256 [a, b, c, d] := by
    simp only [ofGroups, List.foldl_append, List.foldl]
    omega
  rw [hlow]

theorem Group.value_lt (g : Group) : g.value < 65536 :=
  Nat.lt_of_lt_of_le (digitsValue_lt g.hex) (Nat.pow_le_pow_right (by decide) g.le)

namespace V6

theorem length_groups (s : V6) : s.groups.length = 8 := by
  have hfull := s.full
  unfold groups
  cases helided : s.elided with
  | none =>
    rw [helided] at hfull
    simp only [Option.getD_none, List.map_nil, List.nil_append, List.length_append,
      List.length_replicate, List.length_map]
    omega
  | some tail =>
    rw [helided] at hfull
    simp only [Option.getD_some, List.length_append, List.length_replicate, List.length_map]
    omega

theorem groups_lt (s : V6) : ∀ g ∈ s.groups, g < 65536 := by
  have hgroups : ∀ {l : List Group}, ∀ n ∈ l.map Group.value, n < 65536 := by
    intro l n hn
    obtain ⟨g, -, rfl⟩ := List.mem_map.mp hn
    exact g.value_lt
  intro n hn
  rcases List.mem_append.mp hn with hn | hn
  · rcases List.mem_append.mp hn with hn | hn
    · exact hgroups n hn
    · rw [List.eq_of_mem_replicate hn]
      decide
  · rcases List.mem_append.mp hn with hn | hn
    · exact hgroups n hn
    · obtain ⟨q, -, hn⟩ := List.mem_flatMap.mp hn
      have ha := q.a.small
      have hb := q.b.small
      have hc := q.c.small
      have hd := q.d.small
      simp only [Quad.groups, Octet.value, List.mem_cons, List.not_mem_nil, or_false] at hn
      omega

end V6

end FleetRunner.Network.Tailnet
