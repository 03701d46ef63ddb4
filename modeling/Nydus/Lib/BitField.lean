import Mathlib

/-!
# Bit fields of a word

A field of a word is the `width` bits from bit `shift` on. Reading a field (`bits`) and
replacing it (`setBits`) are stated bit by bit (`testBit_bits`, `testBit_setBits`); from
those, a field reads back what was written into it, and a write leaves every field apart
from it as it was.

Code writes a field of a fixed-width word by clearing it with the complement of its mask
and or-ing the value in at its place, or sets and clears a flag with its mask alone. For
`UInt64` words each of these is `setBits` on the word's value
(`toNat_and_not_or`, `toNat_or_mask`, `toNat_and_not`).
-/

namespace BitField

/-- The `width` bits of `x` from bit `shift` on. -/
def bits (x shift width : Nat) : Nat := x >>> shift % 2 ^ width

/-- `x` with its `width` bits from bit `shift` on replaced by the low bits of `v`. -/
def setBits (x shift width v : Nat) : Nat :=
  x ^^^ (bits x shift width ^^^ v % 2 ^ width) <<< shift

/-- The mask of a field: `width` ones from bit `shift` on. -/
def mask (shift width : Nat) : Nat := (2 ^ width - 1) <<< shift

variable {x v shift width : Nat}

@[simp] theorem testBit_bits (x shift width i : Nat) :
    (bits x shift width).testBit i = (decide (i < width) && x.testBit (shift + i)) := by
  simp [bits]

theorem testBit_setBits (x shift width v i : Nat) :
    (setBits x shift width v).testBit i =
      if shift ≤ i ∧ i < shift + width then v.testBit (i - shift) else x.testBit i := by
  simp only [setBits, Nat.testBit_xor, Nat.testBit_shiftLeft, testBit_bits, Nat.testBit_mod_two_pow]
  by_cases above : shift ≤ i
  · by_cases inField : i < shift + width
    · have back : shift + (i - shift) = i := by omega
      simp [above, inField, back, show i - shift < width by omega]
    · simp [above, inField, show ¬i - shift < width by omega]
  · simp [above]

@[simp] theorem testBit_mask (shift width i : Nat) :
    (mask shift width).testBit i = decide (shift ≤ i ∧ i < shift + width) := by
  simp only [mask, Nat.testBit_shiftLeft, Nat.testBit_two_pow_sub_one]
  by_cases above : shift ≤ i
  · simp [above]
    omega
  · simp [above]

/-- A value below `2 ^ width` is the field whose bits it has. -/
theorem bits_eq_of_testBit (fits : v < 2 ^ width)
    (same : ∀ i < width, x.testBit (shift + i) = v.testBit i) : bits x shift width = v := by
  apply Nat.eq_of_testBit_eq
  intro i
  rw [testBit_bits]
  by_cases inField : i < width
  · simp [inField, same i inField]
  · have high : v < 2 ^ i := lt_of_lt_of_le fits (Nat.pow_le_pow_right (by decide) (by omega))
    simp [inField, Nat.testBit_lt_two_pow high]

/-- Two words with the same bits in a field have the same field. -/
theorem bits_congr {y : Nat} (same : ∀ i < width, x.testBit (shift + i) = y.testBit (shift + i)) :
    bits x shift width = bits y shift width := by
  apply Nat.eq_of_testBit_eq
  intro i
  simp only [testBit_bits]
  by_cases inField : i < width
  · simp [inField, same i inField]
  · simp [inField]

/-- A field reads back what was written into it. -/
@[simp] theorem bits_setBits_self (x shift width v : Nat) :
    bits (setBits x shift width v) shift width = v % 2 ^ width :=
  bits_eq_of_testBit (Nat.mod_lt _ (Nat.two_pow_pos width)) fun i inField => by
    simp [testBit_setBits, inField, Nat.testBit_mod_two_pow]

/-- A write leaves a field apart from it as it was. -/
theorem bits_setBits_of_apart {shift' width' : Nat}
    (apart : shift + width ≤ shift' ∨ shift' + width' ≤ shift) :
    bits (setBits x shift width v) shift' width' = bits x shift' width' :=
  bits_congr fun i _ => by rw [testBit_setBits, if_neg (by omega)]

/-- A write leaves a bit outside it as it was. -/
theorem testBit_setBits_of_outside {i : Nat} (outside : i < shift ∨ shift + width ≤ i) :
    (setBits x shift width v).testBit i = x.testBit i := by
  rw [testBit_setBits, if_neg (by omega)]

/-- Clearing a field of an `n`-bit word with the complement of its mask and or-ing in a value
at its place replaces the field. -/
theorem and_compl_or_eq_setBits {n : Nat} (inWord : shift + width ≤ n) (word : x < 2 ^ n)
    (fits : v < 2 ^ width) :
    x &&& 2 ^ n - (mask shift width + 1) ||| v <<< shift = setBits x shift width v := by
  have masked : mask shift width < 2 ^ n :=
    Nat.lt_pow_two_of_testBit _ fun i high => by simp; omega
  apply Nat.eq_of_testBit_eq
  intro i
  simp only [Nat.testBit_or, Nat.testBit_and, Nat.testBit_two_pow_sub_succ masked, testBit_mask,
    Nat.testBit_shiftLeft, testBit_setBits]
  by_cases inField : shift ≤ i ∧ i < shift + width
  · simp [inField]
  · rw [if_neg inField]
    by_cases below : i < shift
    · simp [inField, below, show i < n by omega]
    -- past the field: the value has no bit there, and the word none past `n`
    · have high : v < 2 ^ (i - shift) :=
        lt_of_lt_of_le fits (Nat.pow_le_pow_right (by decide) (by omega))
      by_cases inWord' : i < n
      · simp [inField, inWord', Nat.testBit_lt_two_pow high]
      · have past : x < 2 ^ i := lt_of_lt_of_le word (Nat.pow_le_pow_right (by decide) (by omega))
        simp [inField, inWord', Nat.testBit_lt_two_pow high, Nat.testBit_lt_two_pow past]

/-- Masking a word keeps a field in place. -/
theorem and_mask_eq (x shift width : Nat) : x &&& mask shift width = bits x shift width <<< shift := by
  apply Nat.eq_of_testBit_eq
  intro i
  simp only [Nat.testBit_and, testBit_mask, Nat.testBit_shiftLeft, testBit_bits]
  by_cases above : shift ≤ i
  · have back : shift + (i - shift) = i := by omega
    by_cases inField : i < shift + width
    · simp [above, inField, back, show i - shift < width by omega]
    · simp [above, inField, show ¬i - shift < width by omega]
  · simp [above]

/-- A field of one bit is that bit. -/
theorem bits_one (x shift : Nat) : bits x shift 1 = (x.testBit shift).toNat := by
  apply Nat.eq_of_testBit_eq
  intro i
  rw [testBit_bits, Nat.testBit_bool_toNat]
  by_cases first : i = 0
  · simp [first]
  · simp [first, show ¬i < 1 by omega]

theorem bits_lt (x shift width : Nat) : bits x shift width < 2 ^ width :=
  Nat.mod_lt _ (Nat.two_pow_pos width)

/-- A word below `2 ^ shift` has no bit from `shift` on. -/
theorem bits_eq_zero_of_lt (small : x < 2 ^ shift) : bits x shift width = 0 := by
  rw [bits, Nat.shiftRight_eq_div_pow, Nat.div_eq_of_lt small, Nat.zero_mod]

/-- A value below `2 ^ width` is its own low field. -/
theorem bits_zero_of_lt (fits : v < 2 ^ width) : bits v 0 width = v := by
  rw [bits, Nat.shiftRight_zero, Nat.mod_eq_of_lt fits]

/-- Or-ing a value in at the place of a clear field writes the field. -/
theorem or_shiftLeft_eq_setBits (clear : bits x shift width = 0) (fits : v < 2 ^ width) :
    v <<< shift ||| x = setBits x shift width v := by
  apply Nat.eq_of_testBit_eq
  intro i
  rw [Nat.testBit_or, Nat.testBit_shiftLeft, testBit_setBits]
  by_cases inField : shift ≤ i ∧ i < shift + width
  · have empty := congrArg (Nat.testBit · (i - shift)) clear
    simp only [testBit_bits, Nat.zero_testBit, show i - shift < width by omega, decide_true,
      Bool.true_and, show shift + (i - shift) = i by omega] at empty
    simp [inField, empty]
  · rw [if_neg inField]
    by_cases above : shift ≤ i
    · have high : v < 2 ^ (i - shift) :=
        lt_of_lt_of_le fits (Nat.pow_le_pow_right (by decide) (by omega))
      simp [above, Nat.testBit_lt_two_pow high]
    · simp [above]

/-! ## Fields of `UInt64` words -/

section UInt64

variable {x m y : UInt64}

/-- A value shifted into a word below its top keeps all its bits. -/
theorem toNat_shiftLeft_of_lt {a b : UInt64} (amount : b.toNat = shift) (small : shift < 64)
    (fits : a.toNat < 2 ^ (64 - shift)) : (a <<< b).toNat = a.toNat <<< shift := by
  rw [UInt64.toNat_shiftLeft, amount, Nat.mod_eq_of_lt small]
  apply Nat.mod_eq_of_lt
  rw [Nat.shiftLeft_eq]
  calc a.toNat * 2 ^ shift < 2 ^ (64 - shift) * 2 ^ shift :=
        Nat.mul_lt_mul_of_pos_right fits (Nat.two_pow_pos shift)
    _ = 2 ^ 64 := by rw [← Nat.pow_add, Nat.sub_add_cancel small.le]

/-- `(x & !m) | y`, with `m` the mask of a field and `y` a value at its place, replaces
the field. -/
theorem toNat_and_not_or (inWord : shift + width ≤ 64) (isMask : m.toNat = mask shift width)
    (fits : v < 2 ^ width) (shifted : y.toNat = v <<< shift) :
    ((x &&& ~~~m) ||| y).toNat = setBits x.toNat shift width v := by
  have complement : UInt64.size - 1 - mask shift width = 2 ^ 64 - (mask shift width + 1) := by
    rw [UInt64.size]
    omega
  rw [UInt64.toNat_or, UInt64.toNat_and, UInt64.toNat_not, isMask, shifted, complement]
  exact and_compl_or_eq_setBits inWord x.toNat_lt fits

/-- `x & !m` clears the field of the mask `m`. -/
theorem toNat_and_not (inWord : shift + width ≤ 64) (isMask : m.toNat = mask shift width) :
    (x &&& ~~~m).toNat = setBits x.toNat shift width 0 := by
  have cleared := toNat_and_not_or (x := x) (y := 0) inWord isMask (Nat.two_pow_pos width) (by simp)
  rwa [UInt64.or_zero] at cleared

/-- `x & !m` is zero, as `assert_eq!(x & !m, 0)` asks, exactly when `x` has no bit outside
the field of `m`. -/
theorem and_not_eq_zero_iff (inWord : shift + width ≤ 64) (isMask : m.toNat = mask shift width) :
    x &&& ~~~m = 0 ↔ x.toNat = bits x.toNat shift width <<< shift := by
  rw [← UInt64.toNat_inj, toNat_and_not inWord isMask, UInt64.toNat_zero]
  constructor
  · intro cleared
    apply Nat.eq_of_testBit_eq
    intro i
    have bit := congrArg (Nat.testBit · i) cleared
    simp only [testBit_setBits, Nat.zero_testBit] at bit
    simp only [Nat.testBit_shiftLeft, testBit_bits]
    by_cases inField : shift ≤ i ∧ i < shift + width
    · have back : shift + (i - shift) = i := by omega
      simp [inField.1, back, show i - shift < width by omega]
    · rw [if_neg inField] at bit
      rw [bit]
      by_cases above : shift ≤ i
      · simp [above, show ¬i - shift < width by omega]
      · simp [above]
  · intro inField
    apply Nat.eq_of_testBit_eq
    intro i
    rw [testBit_setBits]
    split
    · simp
    · next outside =>
      rw [inField]
      simp only [Nat.testBit_shiftLeft, testBit_bits, Nat.zero_testBit]
      by_cases above : shift ≤ i
      · simp [above, show ¬i - shift < width by omega]
      · simp [above]

/-- `x | m` sets every bit of the field of the mask `m`. -/
theorem toNat_or_mask (isMask : m.toNat = mask shift width) :
    (x ||| m).toNat = setBits x.toNat shift width (2 ^ width - 1) := by
  rw [UInt64.toNat_or, isMask]
  apply Nat.eq_of_testBit_eq
  intro i
  rw [Nat.testBit_or, testBit_mask, testBit_setBits]
  by_cases inField : shift ≤ i ∧ i < shift + width
  · simp [inField, show i - shift < width by omega]
  · simp [inField]

/-- `x & m != 0` for the mask of one bit reads that bit. -/
theorem and_mask_ne_zero {bit : Nat} (isMask : m.toNat = mask bit 1) :
    (x &&& m != 0) = x.toNat.testBit bit := by
  have value : (x &&& m).toNat = (x.toNat.testBit bit).toNat <<< bit := by
    rw [UInt64.toNat_and, isMask, and_mask_eq, bits_one]
  cases set : x.toNat.testBit bit
  · have zero : x &&& m = 0 := UInt64.toNat_inj.mp (by rw [value, set]; simp)
    simp [zero]
  · have nonzero : x &&& m ≠ 0 := fun zero => by
      rw [zero, set] at value
      simp only [UInt64.toNat_zero, Bool.toNat_true, Nat.shiftLeft_eq, Nat.one_mul] at value
      exact (Nat.two_pow_pos bit).ne' value.symm
    simp [nonzero]

end UInt64

end BitField
