import Mathlib.Algebra.Ring.Nat
import Mathlib.Data.List.Basic

/-!
# Little-endian numbers in bytes

A field is a number of bytes somewhere in a buffer. It is read from its place; where
what follows a place is known, so are the fields there.
-/

namespace FleetRunner.Library.LittleEndian

/-- The number that the bytes stand for, the lowest first. -/
def value : List UInt8 → Nat
  | [] => 0
  | b :: bs => b.toNat + 256 * value bs

def encode : Nat → Nat → List UInt8
  | 0, _ => []
  | width + 1, n => UInt8.ofNat n :: encode width (n / 256)

/-- The bytes of a buffer from a place on. -/
def slice (buf : List UInt8) (place width : Nat) : List UInt8 := (buf.drop place).take width

def field (buf : List UInt8) (place width : Nat) : Nat := value (slice buf place width)

@[simp] theorem length_encode (width n : Nat) : (encode width n).length = width := by
  induction width generalizing n with
  | zero => rfl
  | succ width ih => rw [encode, List.length_cons, ih]

theorem value_encode {width n : Nat} (h : n < 256 ^ width) : value (encode width n) = n := by
  induction width generalizing n with
  | zero =>
    rw [Nat.pow_zero, Nat.lt_one_iff] at h
    rw [h, encode, value]
  | succ width ih =>
    have hrest : n / 256 < 256 ^ width := by
      rw [Nat.pow_succ'] at h
      exact Nat.div_lt_of_lt_mul h
    rw [encode, value, ih hrest, UInt8.toNat_ofNat']
    exact Nat.mod_add_div n 256

section Places

variable {buf xs ys : List UInt8} {place next width n : Nat}

/-- What is at a place, behind a part that is known. -/
theorem drop_next (h : buf.drop place = xs ++ ys) (hlength : xs.length = width)
    (hnext : next = place + width) : buf.drop next = ys := by
  rw [hnext, ← List.drop_drop, h, ← hlength, List.drop_left]

theorem drop_next_encode (h : buf.drop place = encode width n ++ ys)
    (hnext : next = place + width) : buf.drop next = ys :=
  drop_next h (length_encode width n) hnext

theorem slice_eq (h : buf.drop place = xs ++ ys) (hlength : xs.length = width) :
    slice buf place width = xs := by
  rw [slice, h, ← hlength, List.take_left]

theorem field_eq (h : buf.drop place = encode width n ++ ys) (hn : n < 256 ^ width) :
    field buf place width = n := by
  rw [field, slice_eq h (length_encode width n), value_encode hn]

end Places

end FleetRunner.Library.LittleEndian
