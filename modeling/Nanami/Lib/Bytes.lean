import Nanami.Lib.Checked
import Nanami.Lib.Machine

/-!
# Byte vectors

A `Vec<u8>` or `&[u8]` never holds more than `isize::MAX` bytes: growing a vector past that ends the
program, so the bound is a field of the type and `extend` is where it is checked. Alignment and
hexadecimal fields are stated over plain lists.
-/

namespace Nanami.Lib

/-- `isize::MAX`, the longest vector. -/
def maxVecLength : Nat := 2 ^ 63 - 1

structure Bytes where
  toList : List UInt8
  length_le : toList.length ≤ maxVecLength

namespace Bytes

def length (bytes : Bytes) : Nat := bytes.toList.length

def empty : Bytes := ⟨[], Nat.zero_le _⟩

lemma length_lt_wordSize (bytes : Bytes) : bytes.length + 4 ≤ wordSize := by
  have h := bytes.length_le
  have e : wordSize = 2 ^ 64 := rfl
  unfold maxVecLength at h
  unfold length
  omega

/-- `extend_from_slice`, where the answer `none` is the panic on a capacity overflow. -/
def extend (bytes : Bytes) (more : List UInt8) : Option Bytes :=
  if h : (bytes.toList ++ more).length ≤ maxVecLength then some ⟨bytes.toList ++ more, h⟩ else none

lemma extend_eq_some {bytes bytes' : Bytes} {more} (h : bytes.extend more = some bytes') :
    bytes'.toList = bytes.toList ++ more := by
  unfold extend at h
  split at h
  · cases h
    rfl
  · cases h

end Bytes

/-! ### Alignment -/

/-- `length.div_ceil(unit) * unit`. -/
def roundUp (unit length : Nat) : Nat := (length + unit - 1) / unit * unit

/-- The zeros `resize` appends to reach a multiple of `unit`. -/
def padding (unit length : Nat) : List UInt8 := List.replicate (roundUp unit length - length) 0

@[simp] lemma length_padding {unit length} :
    (padding unit length).length = roundUp unit length - length := List.length_replicate

lemma padding_four_add {start length} (h : start % 4 = 0) :
    padding 4 (start + length) = padding 4 length := by
  have e : roundUp 4 (start + length) - (start + length) = roundUp 4 length - length := by
    unfold roundUp
    omega
  rw [padding, padding, e]

lemma length_append_padding {length} : length + (padding 4 length).length = roundUp 4 length := by
  rw [length_padding]
  unfold roundUp
  omega

lemma roundUp_four_mod {length} : roundUp 4 length % 4 = 0 := by
  unfold roundUp
  omega

lemma roundUp_four_add {start length} (h : start % 4 = 0) :
    roundUp 4 (start + length) = start + roundUp 4 length := by
  unfold roundUp
  omega

lemma le_roundUp_four {length} : length ≤ roundUp 4 length := by
  unfold roundUp
  omega

/-! ### Hexadecimal fields -/

/-- A lower-case digit. -/
def hexDigit (n : Nat) : UInt8 := if n < 10 then UInt8.ofNat (48 + n) else UInt8.ofNat (87 + n)

/-- The last `width` hexadecimal digits of a number, as `format!` with a zero-padded width writes a
number that fits. -/
def hexField : Nat → Nat → List UInt8
  | 0, _ => []
  | width + 1, n => hexField width (n / 16) ++ [hexDigit (n % 16)]

@[simp] lemma length_hexField {width n} : (hexField width n).length = width := by
  induction width generalizing n with
  | zero => rfl
  | succ width ih => simp only [hexField, List.length_append, ih, List.length_singleton]

/-! ### Slices of a list with known parts -/

lemma slice_append {α} {xs a b c : List α} {lo hi} (hxs : xs = a ++ (b ++ c)) (hlo : lo = a.length)
    (hhi : hi = a.length + b.length) : slice xs lo hi = .ok b := by
  subst hxs hlo hhi
  have hlen : a.length + b.length ≤ (a ++ (b ++ c)).length := by
    simp only [List.length_append]
    omega
  rw [slice, if_pos ⟨Nat.le_add_right _ _, hlen⟩, ← List.append_assoc, ← List.length_append,
    List.take_left, List.drop_left]
  rfl

end Nanami.Lib
