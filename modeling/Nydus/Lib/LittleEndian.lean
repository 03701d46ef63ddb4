import Mathlib

/-!
# Little-endian integers in bytes

An integer written at a width of `w` bytes is its `w` low bytes, least significant first;
read back, the bytes give the integer modulo `256 ^ w`, so an integer below that bound
reads back as itself. A field of a packed record is read out of the middle of the bytes
it was written into by dropping what stands before it.
-/

namespace LittleEndian

/-- The `width` low bytes of `n`, least significant first (`to_le_bytes`). -/
def encode : Nat → Nat → List UInt8
  | 0, _ => []
  | width + 1, n => UInt8.ofNat n :: encode width (n / 256)

/-- The integer whose little-endian bytes are `bytes` (`from_le_bytes`). -/
def decode : List UInt8 → Nat
  | [] => 0
  | b :: bytes => b.toNat + 256 * decode bytes

@[simp] theorem length_encode (width n : Nat) : (encode width n).length = width := by
  induction width generalizing n with
  | zero => rfl
  | succ width ih => simp [encode, ih]

/-- Bytes read back give the integer modulo the range of their width. The induction is on
the width, with the integer generalised: each byte takes off the low eight bits. -/
theorem decode_encode (width n : Nat) : decode (encode width n) = n % 256 ^ width := by
  induction width generalizing n with
  | zero => simp [encode, decode, Nat.mod_one]
  | succ width ih =>
    have low : (UInt8.ofNat n).toNat = n % 256 := UInt8.toNat_ofNat'
    rw [encode, decode, ih, low, pow_succ', Nat.mod_mul]

/-- An integer within the range of a width reads back as itself. -/
theorem decode_encode_of_lt {width n : Nat} (fits : n < 256 ^ width) :
    decode (encode width n) = n := by
  rw [decode_encode, Nat.mod_eq_of_lt fits]

/-- A field followed by more bytes is read from exactly its own width. -/
@[simp] theorem take_encode_append (width n : Nat) (rest : List UInt8) :
    (encode width n ++ rest).take width = encode width n :=
  List.take_left' (length_encode width n)

@[simp] theorem drop_encode_append (width n : Nat) (rest : List UInt8) :
    (encode width n ++ rest).drop width = rest :=
  List.drop_left' (length_encode width n)

example : encode 4 0x12345678 = [0x78, 0x56, 0x34, 0x12] := by decide

end LittleEndian
