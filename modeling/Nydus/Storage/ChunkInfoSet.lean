import Mathlib
import Nydus.Lib.BitField
import Nydus.Storage.ChunkInfo

/-!
# Writing chunk information entries

The builder fills a chunk information entry through the setters of its layout
(`chunk_info_v1.rs`, `chunk_info_v2.rs`). Each setter asserts that its value fits the field,
then writes the value into the bits of one word; a V1 size setter rebuilds its word from the
size and the offset it keeps. Read through `BitField`, every setter replaces the fields of
its value and leaves every other field as it was, so a getter returns what its setter wrote.

V2's `get_zran_index` and `get_zran_offset` assert `is_zran()` before they read: they return
only on an entry whose ZRan flag is set (`getZranIndex?`, `getZranOffset?`).
-/

namespace Nydus

open BitField

/-- `BLOB_METADATA_CHUNK_SIZE_MASK`. -/
def BLOB_METADATA_CHUNK_SIZE_MASK : UInt64 := 0xff_ffff

/-! ## V1

The masks and shifts of `chunk_info_v1.rs`. -/

def BLOB_METADATA_V1_CHUNK_COMP_OFFSET_MASK : UInt64 := 0xff_ffff_ffff
def BLOB_METADATA_V1_CHUNK_UNCOMP_OFFSET_MASK : UInt64 := 0xfff_ffff_f000
def BLOB_METADATA_V1_CHUNK_SIZE_LOW_MASK : UInt64 := 0x0f_ffff
def BLOB_METADATA_V1_CHUNK_SIZE_HIGH_MASK : UInt64 := 0xf0_0000
def BLOB_METADATA_V1_CHUNK_SIZE_LOW_SHIFT : UInt64 := 44
def BLOB_METADATA_V1_CHUNK_SIZE_HIGH_COMP_SHIFT : UInt64 := 20
def BLOB_METADATA_V1_CHUNK_SIZE_HIGH_UNCOMP_SHIFT : UInt64 := 12

namespace BlobChunkInfoV1Ondisk

/-- `set_compressed_offset`; none where `assert_eq!` fails. -/
def setCompressedOffset (c : BlobChunkInfoV1Ondisk) (offset : UInt64) :
    Option BlobChunkInfoV1Ondisk :=
  if offset &&& ~~~BLOB_METADATA_V1_CHUNK_COMP_OFFSET_MASK = 0 then
    some { c with compInfo := (c.compInfo &&& ~~~BLOB_METADATA_V1_CHUNK_COMP_OFFSET_MASK) |||
      (offset &&& BLOB_METADATA_V1_CHUNK_COMP_OFFSET_MASK) }
  else none

/-- `set_compressed_size`: the size minus one, its 20 low bits at 44 and its 4 high bits at 40,
with the offset kept; none where `assert!` fails. -/
def setCompressedSize (c : BlobChunkInfoV1Ondisk) (size : UInt32) : Option BlobChunkInfoV1Ondisk :=
  let size := size.toUInt64
  if size > 0 ∧ size ≤ BLOB_METADATA_CHUNK_SIZE_MASK + 1 then
    let sizeLow := ((size - 1) &&& BLOB_METADATA_V1_CHUNK_SIZE_LOW_MASK) <<<
      BLOB_METADATA_V1_CHUNK_SIZE_LOW_SHIFT
    let sizeHigh := ((size - 1) &&& BLOB_METADATA_V1_CHUNK_SIZE_HIGH_MASK) <<<
      BLOB_METADATA_V1_CHUNK_SIZE_HIGH_COMP_SHIFT
    let offset := c.compInfo &&& BLOB_METADATA_V1_CHUNK_COMP_OFFSET_MASK
    some { c with compInfo := sizeLow ||| sizeHigh ||| offset }
  else none

/-- `set_uncompressed_offset`; none where `assert_eq!` fails. -/
def setUncompressedOffset (c : BlobChunkInfoV1Ondisk) (offset : UInt64) :
    Option BlobChunkInfoV1Ondisk :=
  if offset &&& ~~~BLOB_METADATA_V1_CHUNK_UNCOMP_OFFSET_MASK = 0 then
    some { c with uncompInfo := (c.uncompInfo &&& ~~~BLOB_METADATA_V1_CHUNK_UNCOMP_OFFSET_MASK) |||
      (offset &&& BLOB_METADATA_V1_CHUNK_UNCOMP_OFFSET_MASK) }
  else none

/-- `set_uncompressed_size`: the size minus one, its 20 low bits at 44 and its 4 high bits at
8, with the offset kept and the reserved low byte cleared; none where `assert!` fails. -/
def setUncompressedSize (c : BlobChunkInfoV1Ondisk) (size : UInt32) :
    Option BlobChunkInfoV1Ondisk :=
  let size := size.toUInt64
  if size ≠ 0 ∧ size ≤ BLOB_METADATA_CHUNK_SIZE_MASK + 1 then
    let sizeLow := ((size - 1) &&& BLOB_METADATA_V1_CHUNK_SIZE_LOW_MASK) <<<
      BLOB_METADATA_V1_CHUNK_SIZE_LOW_SHIFT
    let sizeHigh := ((size - 1) &&& BLOB_METADATA_V1_CHUNK_SIZE_HIGH_MASK) >>>
      BLOB_METADATA_V1_CHUNK_SIZE_HIGH_UNCOMP_SHIFT
    let offset := c.uncompInfo &&& BLOB_METADATA_V1_CHUNK_UNCOMP_OFFSET_MASK
    some { c with uncompInfo := sizeLow ||| offset ||| sizeHigh }
  else none

/-! The getters as fields of the words. -/

theorem compressedOffset_eq (c : BlobChunkInfoV1Ondisk) :
    c.compressedOffset = bits c.compInfo.toNat 0 40 := by
  have low : (0xff_ffff_ffff : UInt64).toNat = 2 ^ 40 - 1 := by decide
  simp only [compressedOffset, UInt64.toNat_and, low, Nat.and_two_pow_sub_one_eq_mod, bits,
    Nat.shiftRight_zero]

theorem compressedSize_eq (c : BlobChunkInfoV1Ondisk) :
    c.compressedSize = bits c.compInfo.toNat 44 20 + bits c.compInfo.toNat 40 4 * 2 ^ 20 + 1 := by
  have high : (0xf0000000000 : UInt64).toNat = mask 40 4 := by decide
  have low : c.compInfo.toNat >>> 44 = bits c.compInfo.toNat 44 20 := by
    have word := c.compInfo.toNat_lt
    rw [bits, Nat.mod_eq_of_lt (by rw [Nat.shiftRight_eq_div_pow]; omega)]
  have moved : bits c.compInfo.toNat 40 4 <<< 40 >>> 20 = bits c.compInfo.toNat 40 4 <<< 20 := by
    simp only [Nat.shiftLeft_eq, Nat.shiftRight_eq_div_pow]
    omega
  have fits : bits c.compInfo.toNat 44 20 < 2 ^ 20 := Nat.mod_lt _ (Nat.two_pow_pos 20)
  simp only [compressedSize, UInt64.toNat_or, UInt64.toNat_shiftRight, UInt64.toNat_and, high,
    and_mask_eq, show (44 : UInt64).toNat % 64 = 44 by decide, show (20 : UInt64).toNat % 64 = 20 by decide,
    low, moved]
  rw [Nat.or_comm, ← Nat.shiftLeft_add_eq_or_of_lt fits, Nat.shiftLeft_eq]
  omega

theorem uncompressedOffset_eq (c : BlobChunkInfoV1Ondisk) :
    c.uncompressedOffset = bits c.uncompInfo.toNat 12 32 * 2 ^ 12 := by
  have offsetMask : (0xfff_ffff_f000 : UInt64).toNat = mask 12 32 := by decide
  simp only [uncompressedOffset, UInt64.toNat_and, offsetMask, and_mask_eq, Nat.shiftLeft_eq]

theorem uncompressedSize_eq (c : BlobChunkInfoV1Ondisk) :
    c.uncompressedSize = bits c.uncompInfo.toNat 44 20 + bits c.uncompInfo.toNat 8 4 * 2 ^ 20 + 1 := by
  have highMask : (0xf00 : UInt64).toNat = mask 8 4 := by decide
  have word := c.uncompInfo.toNat_lt
  have low : c.uncompInfo.toNat >>> 44 = bits c.uncompInfo.toNat 44 20 := by
    rw [bits, Nat.mod_eq_of_lt (by rw [Nat.shiftRight_eq_div_pow]; omega)]
  have high : (c.uncompInfo &&& 0xf00).toNat = bits c.uncompInfo.toNat 8 4 <<< 8 := by
    rw [UInt64.toNat_and, highMask, and_mask_eq]
  have fieldFits : bits c.uncompInfo.toNat 8 4 < 2 ^ 4 := Nat.mod_lt _ (Nat.two_pow_pos 4)
  have moved : ((c.uncompInfo &&& 0xf00) <<< 12).toNat = bits c.uncompInfo.toNat 8 4 <<< 20 := by
    rw [toNat_shiftLeft_of_lt (show (12 : UInt64).toNat = 12 by decide) (by decide)
      (by rw [high, Nat.shiftLeft_eq]; omega), high, ← Nat.shiftLeft_add]
  have fits : bits c.uncompInfo.toNat 44 20 < 2 ^ 20 := Nat.mod_lt _ (Nat.two_pow_pos 20)
  simp only [uncompressedSize, UInt64.toNat_or, UInt64.toNat_shiftRight, moved,
    show (44 : UInt64).toNat % 64 = 44 by decide, low]
  rw [← Nat.shiftLeft_add_eq_or_of_lt fits, Nat.shiftLeft_eq]
  omega

end BlobChunkInfoV1Ondisk

/-- What the getters of a V1 entry read. -/
structure ChunkInfoV1View where
  compressedOffset : Nat
  compressedSize : Nat
  uncompressedOffset : Nat
  uncompressedSize : Nat
deriving DecidableEq, Repr

namespace BlobChunkInfoV1Ondisk

/-- The four getters of a V1 entry. -/
def view (c : BlobChunkInfoV1Ondisk) : ChunkInfoV1View :=
  ⟨c.compressedOffset, c.compressedSize, c.uncompressedOffset, c.uncompressedSize⟩

theorem view_eq (c : BlobChunkInfoV1Ondisk) :
    c.view = ⟨bits c.compInfo.toNat 0 40,
      bits c.compInfo.toNat 44 20 + bits c.compInfo.toNat 40 4 * 2 ^ 20 + 1,
      bits c.uncompInfo.toNat 12 32 * 2 ^ 12,
      bits c.uncompInfo.toNat 44 20 + bits c.uncompInfo.toNat 8 4 * 2 ^ 20 + 1⟩ := by
  rw [view, compressedOffset_eq, compressedSize_eq, uncompressedOffset_eq, uncompressedSize_eq]

theorem compOffsetMask_toNat : BLOB_METADATA_V1_CHUNK_COMP_OFFSET_MASK.toNat = mask 0 40 := by
  decide

theorem uncompOffsetMask_toNat : BLOB_METADATA_V1_CHUNK_UNCOMP_OFFSET_MASK.toNat = mask 12 32 := by
  decide

theorem setCompressedOffset_view (c : BlobChunkInfoV1Ondisk) {offset : UInt64}
    (fits : offset.toNat < 2 ^ 40) :
    (c.setCompressedOffset offset).map view = some { c.view with compressedOffset := offset.toNat } := by
  have field : bits offset.toNat 0 40 = offset.toNat := by
    simp only [bits, Nat.shiftRight_zero]
    omega
  have passes : offset &&& ~~~BLOB_METADATA_V1_CHUNK_COMP_OFFSET_MASK = 0 :=
    (and_not_eq_zero_iff (by decide) compOffsetMask_toNat).mpr (by rw [field, Nat.shiftLeft_zero])
  have word : ((c.compInfo &&& ~~~BLOB_METADATA_V1_CHUNK_COMP_OFFSET_MASK) |||
      (offset &&& BLOB_METADATA_V1_CHUNK_COMP_OFFSET_MASK)).toNat =
        setBits c.compInfo.toNat 0 40 offset.toNat :=
    toNat_and_not_or (by decide) compOffsetMask_toNat fits
      (by rw [UInt64.toNat_and, compOffsetMask_toNat, and_mask_eq, field])
  simp only [setCompressedOffset, if_pos passes, Option.map_some, view_eq, word, bits_setBits_self,
    Nat.mod_eq_of_lt fits, Option.some.injEq, ChunkInfoV1View.mk.injEq, true_and, and_true]
  rw [bits_setBits_of_apart (by decide), bits_setBits_of_apart (by decide)]

theorem setUncompressedOffset_view (c : BlobChunkInfoV1Ondisk) {offset : UInt64}
    (aligned : offset.toNat % 0x1000 = 0) (fits : offset.toNat < 2 ^ 44) :
    (c.setUncompressedOffset offset).map view =
      some { c.view with uncompressedOffset := offset.toNat } := by
  have field : bits offset.toNat 12 32 <<< 12 = offset.toNat := by
    simp only [bits, Nat.shiftRight_eq_div_pow, Nat.shiftLeft_eq]
    omega
  have passes : offset &&& ~~~BLOB_METADATA_V1_CHUNK_UNCOMP_OFFSET_MASK = 0 :=
    (and_not_eq_zero_iff (by decide) uncompOffsetMask_toNat).mpr field.symm
  have word : ((c.uncompInfo &&& ~~~BLOB_METADATA_V1_CHUNK_UNCOMP_OFFSET_MASK) |||
      (offset &&& BLOB_METADATA_V1_CHUNK_UNCOMP_OFFSET_MASK)).toNat =
        setBits c.uncompInfo.toNat 12 32 (bits offset.toNat 12 32) :=
    toNat_and_not_or (by decide) uncompOffsetMask_toNat (Nat.mod_lt _ (Nat.two_pow_pos 32))
      (by rw [UInt64.toNat_and, uncompOffsetMask_toNat, and_mask_eq])
  have offsetIs : bits offset.toNat 12 32 % 2 ^ 32 * 2 ^ 12 = offset.toNat := by
    unfold bits at field ⊢
    rw [Nat.mod_mod, ← Nat.shiftLeft_eq, field]
  simp only [setUncompressedOffset, if_pos passes, Option.map_some, view_eq, word, bits_setBits_self,
    offsetIs, Option.some.injEq, ChunkInfoV1View.mk.injEq, true_and]
  rw [bits_setBits_of_apart (by decide), bits_setBits_of_apart (by decide)]

/-- The size a size setter stores, minus one, and its parts. -/
theorem sizeMinusOne_toNat {size : UInt32} (pos : 0 < size.toNat) :
    (size.toUInt64 - 1).toNat = size.toNat - 1 := by
  rw [UInt64.toNat_sub_of_le _ _ (UInt64.le_iff_toNat_le.mpr (by simp; omega)),
    UInt32.toNat_toUInt64, UInt64.toNat_one]

/-- The low 20 bits of a stored size, at bit 44. -/
theorem sizeLow_toNat {size : UInt32} (pos : 0 < size.toNat) :
    (((size.toUInt64 - 1) &&& BLOB_METADATA_V1_CHUNK_SIZE_LOW_MASK) <<<
      BLOB_METADATA_V1_CHUNK_SIZE_LOW_SHIFT).toNat = bits (size.toNat - 1) 0 20 <<< 44 := by
  have lowMask : BLOB_METADATA_V1_CHUNK_SIZE_LOW_MASK.toNat = mask 0 20 := by decide
  have masked : ((size.toUInt64 - 1) &&& BLOB_METADATA_V1_CHUNK_SIZE_LOW_MASK).toNat =
      bits (size.toNat - 1) 0 20 := by
    rw [UInt64.toNat_and, lowMask, and_mask_eq, sizeMinusOne_toNat pos, Nat.shiftLeft_zero]
  rw [toNat_shiftLeft_of_lt (show BLOB_METADATA_V1_CHUNK_SIZE_LOW_SHIFT.toNat = 44 by decide)
    (by decide) (by rw [masked]; exact Nat.mod_lt _ (Nat.two_pow_pos 20)), masked]

/-- The 4 high bits of a stored size, in place at bit 20. -/
theorem sizeHigh_masked {size : UInt32} (pos : 0 < size.toNat) :
    ((size.toUInt64 - 1) &&& BLOB_METADATA_V1_CHUNK_SIZE_HIGH_MASK).toNat =
      bits (size.toNat - 1) 20 4 <<< 20 := by
  have highMask : BLOB_METADATA_V1_CHUNK_SIZE_HIGH_MASK.toNat = mask 20 4 := by decide
  rw [UInt64.toNat_and, highMask, and_mask_eq, sizeMinusOne_toNat pos]

/-- A stored size read back from its two parts. -/
theorem size_of_parts {size : UInt32} (pos : 0 < size.toNat) (le : size.toNat ≤ 2 ^ 24) :
    bits (size.toNat - 1) 0 20 % 2 ^ 20 + bits (size.toNat - 1) 20 4 % 2 ^ 4 * 2 ^ 20 + 1 =
      size.toNat := by
  simp only [bits, Nat.shiftRight_eq_div_pow, Nat.mod_mod]
  omega

theorem setCompressedSize_view (c : BlobChunkInfoV1Ondisk) {size : UInt32} (pos : 0 < size.toNat)
    (le : size.toNat ≤ 2 ^ 24) :
    (c.setCompressedSize size).map view = some { c.view with compressedSize := size.toNat } := by
  have passes : size.toUInt64 > 0 ∧ size.toUInt64 ≤ BLOB_METADATA_CHUNK_SIZE_MASK + 1 := by
    have limit : (BLOB_METADATA_CHUNK_SIZE_MASK + 1).toNat = 2 ^ 24 := by decide
    rw [gt_iff_lt, UInt64.lt_iff_toNat_lt, UInt64.le_iff_toNat_le, limit, UInt32.toNat_toUInt64]
    exact ⟨pos, le⟩
  have high : (((size.toUInt64 - 1) &&& BLOB_METADATA_V1_CHUNK_SIZE_HIGH_MASK) <<<
      BLOB_METADATA_V1_CHUNK_SIZE_HIGH_COMP_SHIFT).toNat = bits (size.toNat - 1) 20 4 <<< 40 := by
    have fits := bits_lt (size.toNat - 1) 20 4
    rw [toNat_shiftLeft_of_lt (show BLOB_METADATA_V1_CHUNK_SIZE_HIGH_COMP_SHIFT.toNat = 20 by decide)
      (by decide) (by rw [sizeHigh_masked pos, Nat.shiftLeft_eq]; omega), sizeHigh_masked pos,
      ← Nat.shiftLeft_add]
  have offset : (c.compInfo &&& BLOB_METADATA_V1_CHUNK_COMP_OFFSET_MASK).toNat =
      bits c.compInfo.toNat 0 40 := by
    rw [UInt64.toNat_and, compOffsetMask_toNat, and_mask_eq, Nat.shiftLeft_zero]
  -- the high part goes into the clear bits above the offset, the low part above both
  have offsetFits := bits_lt c.compInfo.toNat 0 40
  have clearHigh : bits (bits c.compInfo.toNat 0 40) 40 4 = 0 := bits_eq_zero_of_lt offsetFits
  have clearLow : bits (setBits (bits c.compInfo.toNat 0 40) 40 4 (bits (size.toNat - 1) 20 4)) 44 20 = 0 := by
    rw [bits_setBits_of_apart (by decide)]
    exact bits_eq_zero_of_lt (lt_of_lt_of_le offsetFits (by decide))
  have word : ((((size.toUInt64 - 1) &&& BLOB_METADATA_V1_CHUNK_SIZE_LOW_MASK) <<<
        BLOB_METADATA_V1_CHUNK_SIZE_LOW_SHIFT) |||
      (((size.toUInt64 - 1) &&& BLOB_METADATA_V1_CHUNK_SIZE_HIGH_MASK) <<<
        BLOB_METADATA_V1_CHUNK_SIZE_HIGH_COMP_SHIFT) |||
      (c.compInfo &&& BLOB_METADATA_V1_CHUNK_COMP_OFFSET_MASK)).toNat =
        setBits (setBits (bits c.compInfo.toNat 0 40) 40 4 (bits (size.toNat - 1) 20 4)) 44 20
          (bits (size.toNat - 1) 0 20) := by
    rw [UInt64.toNat_or, UInt64.toNat_or, sizeLow_toNat pos, high, offset, Nat.or_assoc,
      or_shiftLeft_eq_setBits clearHigh (bits_lt _ 20 4),
      or_shiftLeft_eq_setBits clearLow (bits_lt _ 0 20)]
  have offsetField : bits (setBits (setBits (bits c.compInfo.toNat 0 40) 40 4
      (bits (size.toNat - 1) 20 4)) 44 20 (bits (size.toNat - 1) 0 20)) 0 40 =
        bits c.compInfo.toNat 0 40 := by
    rw [bits_setBits_of_apart (by decide), bits_setBits_of_apart (by decide), bits_zero_of_lt offsetFits]
  have highField : bits (setBits (setBits (bits c.compInfo.toNat 0 40) 40 4
      (bits (size.toNat - 1) 20 4)) 44 20 (bits (size.toNat - 1) 0 20)) 40 4 =
        bits (size.toNat - 1) 20 4 % 2 ^ 4 := by
    rw [bits_setBits_of_apart (by decide), bits_setBits_self]
  simp only [setCompressedSize, if_pos passes, Option.map_some, view_eq, word, offsetField,
    highField, bits_setBits_self, size_of_parts pos le]

theorem setUncompressedSize_view (c : BlobChunkInfoV1Ondisk) {size : UInt32} (pos : 0 < size.toNat)
    (le : size.toNat ≤ 2 ^ 24) :
    (c.setUncompressedSize size).map view = some { c.view with uncompressedSize := size.toNat } := by
  have passes : size.toUInt64 ≠ 0 ∧ size.toUInt64 ≤ BLOB_METADATA_CHUNK_SIZE_MASK + 1 := by
    have limit : (BLOB_METADATA_CHUNK_SIZE_MASK + 1).toNat = 2 ^ 24 := by decide
    rw [ne_eq, ← UInt64.toNat_inj, UInt64.le_iff_toNat_le, limit, UInt32.toNat_toUInt64,
      UInt64.toNat_zero]
    exact ⟨by omega, le⟩
  have high : (((size.toUInt64 - 1) &&& BLOB_METADATA_V1_CHUNK_SIZE_HIGH_MASK) >>>
      BLOB_METADATA_V1_CHUNK_SIZE_HIGH_UNCOMP_SHIFT).toNat = bits (size.toNat - 1) 20 4 <<< 8 := by
    rw [UInt64.toNat_shiftRight, sizeHigh_masked pos,
      show BLOB_METADATA_V1_CHUNK_SIZE_HIGH_UNCOMP_SHIFT.toNat % 64 = 12 by decide]
    simp only [Nat.shiftLeft_eq, Nat.shiftRight_eq_div_pow]
    omega
  -- the offset stays in place; the low part goes above it, the high part below it
  have offset : (c.uncompInfo &&& BLOB_METADATA_V1_CHUNK_UNCOMP_OFFSET_MASK).toNat =
      setBits 0 12 32 (bits c.uncompInfo.toNat 12 32) := by
    rw [UInt64.toNat_and, uncompOffsetMask_toNat, and_mask_eq, ← Nat.or_zero (_ <<< 12),
      or_shiftLeft_eq_setBits (by simp [bits]) (bits_lt _ 12 32)]
  have clearLow : bits (setBits 0 12 32 (bits c.uncompInfo.toNat 12 32)) 44 20 = 0 := by
    rw [bits_setBits_of_apart (by decide)]
    simp [bits]
  have clearHigh : bits (setBits (setBits 0 12 32 (bits c.uncompInfo.toNat 12 32)) 44 20
      (bits (size.toNat - 1) 0 20)) 8 4 = 0 := by
    rw [bits_setBits_of_apart (by decide), bits_setBits_of_apart (by decide)]
    simp [bits]
  have word : ((((size.toUInt64 - 1) &&& BLOB_METADATA_V1_CHUNK_SIZE_LOW_MASK) <<<
        BLOB_METADATA_V1_CHUNK_SIZE_LOW_SHIFT) |||
      (c.uncompInfo &&& BLOB_METADATA_V1_CHUNK_UNCOMP_OFFSET_MASK) |||
      (((size.toUInt64 - 1) &&& BLOB_METADATA_V1_CHUNK_SIZE_HIGH_MASK) >>>
        BLOB_METADATA_V1_CHUNK_SIZE_HIGH_UNCOMP_SHIFT)).toNat =
        setBits (setBits (setBits 0 12 32 (bits c.uncompInfo.toNat 12 32)) 44 20
          (bits (size.toNat - 1) 0 20)) 8 4 (bits (size.toNat - 1) 20 4) := by
    rw [UInt64.toNat_or, UInt64.toNat_or, sizeLow_toNat pos, high, offset,
      or_shiftLeft_eq_setBits clearLow (bits_lt _ 0 20), Nat.or_comm,
      or_shiftLeft_eq_setBits clearHigh (bits_lt _ 20 4)]
  have offsetField : bits (setBits (setBits (setBits 0 12 32 (bits c.uncompInfo.toNat 12 32)) 44 20
      (bits (size.toNat - 1) 0 20)) 8 4 (bits (size.toNat - 1) 20 4)) 12 32 =
        bits c.uncompInfo.toNat 12 32 := by
    rw [bits_setBits_of_apart (by decide), bits_setBits_of_apart (by decide), bits_setBits_self,
      Nat.mod_eq_of_lt (bits_lt _ 12 32)]
  have lowField : bits (setBits (setBits (setBits 0 12 32 (bits c.uncompInfo.toNat 12 32)) 44 20
      (bits (size.toNat - 1) 0 20)) 8 4 (bits (size.toNat - 1) 20 4)) 44 20 =
        bits (size.toNat - 1) 0 20 % 2 ^ 20 := by
    rw [bits_setBits_of_apart (by decide), bits_setBits_self]
  simp only [setUncompressedSize, if_pos passes, Option.map_some, view_eq, word, offsetField,
    lowField, bits_setBits_self, size_of_parts pos le]

end BlobChunkInfoV1Ondisk

/-! ## V2

The masks and shifts of `chunk_info_v2.rs`. -/

def CHUNK_V2_COMP_OFFSET_MASK : UInt64 := 0xff_ffff_ffff
def CHUNK_V2_COMP_SIZE_SHIFT : UInt64 := 40
def CHUNK_V2_UNCOMP_OFFSET_MASK : UInt64 := 0xffff_ffff
def CHUNK_V2_UNCOMP_OFFSET_SHIFT : UInt64 := 12
def CHUNK_V2_UNCOMP_SIZE_SHIFT : UInt64 := 32
def CHUNK_V2_FLAG_COMPRESSED : UInt64 := (0x1 : UInt64) <<< 56
def CHUNK_V2_FLAG_ZRAN : UInt64 := (0x2 : UInt64) <<< 56

namespace BlobChunkInfoV2Ondisk

/-- `set_compressed`. -/
def setCompressed (c : BlobChunkInfoV2Ondisk) (compressed : Bool) : BlobChunkInfoV2Ondisk :=
  if compressed then { c with uncompInfo := c.uncompInfo ||| CHUNK_V2_FLAG_COMPRESSED }
  else { c with uncompInfo := c.uncompInfo &&& ~~~CHUNK_V2_FLAG_COMPRESSED }

/-- `set_zran`. -/
def setZran (c : BlobChunkInfoV2Ondisk) (zran : Bool) : BlobChunkInfoV2Ondisk :=
  if zran then { c with uncompInfo := c.uncompInfo ||| CHUNK_V2_FLAG_ZRAN }
  else { c with uncompInfo := c.uncompInfo &&& ~~~CHUNK_V2_FLAG_ZRAN }

/-- `set_zran_index`: the high word of `data`. -/
def setZranIndex (c : BlobChunkInfoV2Ondisk) (index : UInt32) : BlobChunkInfoV2Ondisk :=
  let data := c.data &&& ~~~0xffff_ffff_0000_0000
  { c with data := data ||| (index.toUInt64 <<< 32) }

/-- `set_zran_offset`: the low word of `data`. -/
def setZranOffset (c : BlobChunkInfoV2Ondisk) (offset : UInt32) : BlobChunkInfoV2Ondisk :=
  let data := c.data &&& ~~~0x0000_0000_ffff_ffff
  { c with data := data ||| offset.toUInt64 }

/-- `set_compressed_offset`; none where `assert_eq!` fails. -/
def setCompressedOffset (c : BlobChunkInfoV2Ondisk) (offset : UInt64) :
    Option BlobChunkInfoV2Ondisk :=
  if offset &&& ~~~CHUNK_V2_COMP_OFFSET_MASK = 0 then
    some { c with compInfo := (c.compInfo &&& ~~~CHUNK_V2_COMP_OFFSET_MASK) |||
      (offset &&& CHUNK_V2_COMP_OFFSET_MASK) }
  else none

/-- `set_compressed_size`; none where `assert!` fails. -/
def setCompressedSize (c : BlobChunkInfoV2Ondisk) (size : UInt32) : Option BlobChunkInfoV2Ondisk :=
  let size := size.toUInt64
  if size ≤ BLOB_METADATA_CHUNK_SIZE_MASK then
    some { c with compInfo :=
      (c.compInfo &&& ~~~(BLOB_METADATA_CHUNK_SIZE_MASK <<< CHUNK_V2_COMP_SIZE_SHIFT)) |||
        (size <<< CHUNK_V2_COMP_SIZE_SHIFT) }
  else none

/-- `set_uncompressed_offset`: the offset in 4 KiB units in the low word; none where
`assert_eq!` fails. -/
def setUncompressedOffset (c : BlobChunkInfoV2Ondisk) (offset : UInt64) :
    Option BlobChunkInfoV2Ondisk :=
  let off := (offset >>> CHUNK_V2_UNCOMP_OFFSET_SHIFT) &&& CHUNK_V2_UNCOMP_OFFSET_MASK
  if offset = off <<< CHUNK_V2_UNCOMP_OFFSET_SHIFT then
    some { c with uncompInfo := (c.uncompInfo &&& ~~~CHUNK_V2_UNCOMP_OFFSET_MASK) ||| off }
  else none

/-- `set_uncompressed_size`: the size minus one at bit 32; none where `assert!` fails. -/
def setUncompressedSize (c : BlobChunkInfoV2Ondisk) (size : UInt32) :
    Option BlobChunkInfoV2Ondisk :=
  let size := size.toUInt64
  if size ≠ 0 ∧ size - 1 ≤ BLOB_METADATA_CHUNK_SIZE_MASK then
    some { c with uncompInfo :=
      (c.uncompInfo &&& ~~~(BLOB_METADATA_CHUNK_SIZE_MASK <<< CHUNK_V2_UNCOMP_SIZE_SHIFT)) |||
        ((size - 1) <<< CHUNK_V2_UNCOMP_SIZE_SHIFT) }
  else none

/-- `get_zran_index`, which asserts `is_zran()` first; none where it panics. -/
def getZranIndex? (c : BlobChunkInfoV2Ondisk) : Option Nat :=
  if c.isZran then some c.getZranIndex else none

/-- `get_zran_offset`, which asserts `is_zran()` first; none where it panics. -/
def getZranOffset? (c : BlobChunkInfoV2Ondisk) : Option Nat :=
  if c.isZran then some c.getZranOffset else none

/-! The getters as fields of the words. -/

theorem compressedOffset_eq (c : BlobChunkInfoV2Ondisk) :
    c.compressedOffset = bits c.compInfo.toNat 0 40 := by
  have low : (0xff_ffff_ffff : UInt64).toNat = 2 ^ 40 - 1 := by decide
  simp only [compressedOffset, UInt64.toNat_and, low, Nat.and_two_pow_sub_one_eq_mod, bits,
    Nat.shiftRight_zero]

theorem compressedSize_eq (c : BlobChunkInfoV2Ondisk) :
    c.compressedSize = bits c.compInfo.toNat 40 24 := by
  have sizeMask : (0xff_ffff : UInt64).toNat = 2 ^ 24 - 1 := by decide
  simp only [compressedSize, UInt64.toNat_and, UInt64.toNat_shiftRight, sizeMask,
    Nat.and_two_pow_sub_one_eq_mod, show (40 : UInt64).toNat % 64 = 40 by decide, bits]

theorem uncompressedOffset_eq (c : BlobChunkInfoV2Ondisk) :
    c.uncompressedOffset = bits c.uncompInfo.toNat 0 32 * 2 ^ 12 := by
  have low : (0xffff_ffff : UInt64).toNat = 2 ^ 32 - 1 := by decide
  have masked : (c.uncompInfo &&& 0xffff_ffff).toNat = bits c.uncompInfo.toNat 0 32 := by
    rw [UInt64.toNat_and, low, Nat.and_two_pow_sub_one_eq_mod, bits, Nat.shiftRight_zero]
  have fits := bits_lt c.uncompInfo.toNat 0 32
  rw [uncompressedOffset, toNat_shiftLeft_of_lt (show (12 : UInt64).toNat = 12 by decide) (by decide)
    (by rw [masked]; omega), masked, Nat.shiftLeft_eq]

theorem uncompressedSize_eq (c : BlobChunkInfoV2Ondisk) :
    c.uncompressedSize = bits c.uncompInfo.toNat 32 24 + 1 := by
  have sizeMask : (0xff_ffff : UInt64).toNat = 2 ^ 24 - 1 := by decide
  simp only [uncompressedSize, UInt64.toNat_and, UInt64.toNat_shiftRight, sizeMask,
    Nat.and_two_pow_sub_one_eq_mod, show (32 : UInt64).toNat % 64 = 32 by decide, bits]

theorem isCompressed_eq (c : BlobChunkInfoV2Ondisk) : c.isCompressed = c.uncompInfo.toNat.testBit 56 :=
  and_mask_ne_zero (by decide)

theorem isZran_eq (c : BlobChunkInfoV2Ondisk) : c.isZran = c.uncompInfo.toNat.testBit 57 :=
  and_mask_ne_zero (by decide)

theorem getZranIndex_eq (c : BlobChunkInfoV2Ondisk) : c.getZranIndex = bits c.data.toNat 32 32 := by
  have word := c.data.toNat_lt
  rw [getZranIndex, UInt64.toNat_shiftRight, show (32 : UInt64).toNat % 64 = 32 by decide, bits,
    Nat.mod_eq_of_lt (by rw [Nat.shiftRight_eq_div_pow]; omega)]

theorem getZranOffset_eq (c : BlobChunkInfoV2Ondisk) : c.getZranOffset = bits c.data.toNat 0 32 := by
  have low : (0xffff_ffff : UInt64).toNat = 2 ^ 32 - 1 := by decide
  rw [getZranOffset, UInt64.toNat_and, low, Nat.and_two_pow_sub_one_eq_mod, bits, Nat.shiftRight_zero]

end BlobChunkInfoV2Ondisk

/-- What the getters of a V2 entry return; the ZRan ones none where they panic. -/
structure ChunkInfoV2View where
  compressedOffset : Nat
  compressedSize : Nat
  uncompressedOffset : Nat
  uncompressedSize : Nat
  isCompressed : Bool
  isZran : Bool
  zranIndex : Option Nat
  zranOffset : Option Nat
deriving DecidableEq, Repr

namespace BlobChunkInfoV2Ondisk

/-- The eight getters of a V2 entry. -/
def view (c : BlobChunkInfoV2Ondisk) : ChunkInfoV2View :=
  ⟨c.compressedOffset, c.compressedSize, c.uncompressedOffset, c.uncompressedSize, c.isCompressed,
    c.isZran, c.getZranIndex?, c.getZranOffset?⟩

theorem view_eq (c : BlobChunkInfoV2Ondisk) :
    c.view = ⟨bits c.compInfo.toNat 0 40, bits c.compInfo.toNat 40 24,
      bits c.uncompInfo.toNat 0 32 * 2 ^ 12, bits c.uncompInfo.toNat 32 24 + 1,
      c.uncompInfo.toNat.testBit 56, c.uncompInfo.toNat.testBit 57,
      if c.uncompInfo.toNat.testBit 57 then some (bits c.data.toNat 32 32) else none,
      if c.uncompInfo.toNat.testBit 57 then some (bits c.data.toNat 0 32) else none⟩ := by
  rw [view, getZranIndex?, getZranOffset?, compressedOffset_eq, compressedSize_eq,
    uncompressedOffset_eq, uncompressedSize_eq, isCompressed_eq, isZran_eq, getZranIndex_eq,
    getZranOffset_eq]

/-- A write to the flag at bit `flag` of `uncomp_info`, 56 or 57: the offset and size fields
below it and the other flag keep their values. -/
theorem view_of_flag {c c' : BlobChunkInfoV2Ondisk} {flag v : Nat} (high : 56 ≤ flag)
    (written : c'.uncompInfo.toNat = setBits c.uncompInfo.toNat flag 1 v)
    (comp : c'.compInfo = c.compInfo) (data : c'.data = c.data) :
    c'.view = ⟨bits c.compInfo.toNat 0 40, bits c.compInfo.toNat 40 24,
      bits c.uncompInfo.toNat 0 32 * 2 ^ 12, bits c.uncompInfo.toNat 32 24 + 1,
      c'.uncompInfo.toNat.testBit 56, c'.uncompInfo.toNat.testBit 57,
      if c'.uncompInfo.toNat.testBit 57 then some (bits c.data.toNat 32 32) else none,
      if c'.uncompInfo.toNat.testBit 57 then some (bits c.data.toNat 0 32) else none⟩ := by
  rw [view_eq, comp, data, written, bits_setBits_of_apart (by omega),
    bits_setBits_of_apart (by omega)]

theorem setCompressed_view (c : BlobChunkInfoV2Ondisk) (compressed : Bool) :
    (c.setCompressed compressed).view = { c.view with isCompressed := compressed } := by
  have flagMask : CHUNK_V2_FLAG_COMPRESSED.toNat = mask 56 1 := by decide
  have written : (c.setCompressed compressed).uncompInfo.toNat =
      setBits c.uncompInfo.toNat 56 1 compressed.toNat := by
    cases compressed
    · exact toNat_and_not (by decide) flagMask
    · exact toNat_or_mask flagMask
  have comp : (c.setCompressed compressed).compInfo = c.compInfo := by cases compressed <;> rfl
  have data : (c.setCompressed compressed).data = c.data := by cases compressed <;> rfl
  rw [view_of_flag (le_refl 56) written comp data, view_eq, written]
  cases compressed <;> simp [testBit_setBits]

theorem setZran_view (c : BlobChunkInfoV2Ondisk) (zran : Bool) :
    (c.setZran zran).view =
      { c.view with
        isZran := zran
        zranIndex := if zran then some c.getZranIndex else none
        zranOffset := if zran then some c.getZranOffset else none } := by
  have flagMask : CHUNK_V2_FLAG_ZRAN.toNat = mask 57 1 := by decide
  have written : (c.setZran zran).uncompInfo.toNat = setBits c.uncompInfo.toNat 57 1 zran.toNat := by
    cases zran
    · exact toNat_and_not (by decide) flagMask
    · exact toNat_or_mask flagMask
  have comp : (c.setZran zran).compInfo = c.compInfo := by cases zran <;> rfl
  have data : (c.setZran zran).data = c.data := by cases zran <;> rfl
  rw [view_of_flag (by decide) written comp data, view_eq, written, getZranIndex_eq, getZranOffset_eq]
  cases zran <;> simp [testBit_setBits]

/-- The ZRan index and offset share `data`, each in a word of its own. -/
theorem zranMasks_toNat : (0xffff_ffff_0000_0000 : UInt64).toNat = mask 32 32 ∧
    (0x0000_0000_ffff_ffff : UInt64).toNat = mask 0 32 := by
  decide

theorem setZranIndex_view (c : BlobChunkInfoV2Ondisk) (index : UInt32) :
    (c.setZranIndex index).view =
      { c.view with zranIndex := if c.isZran then some index.toNat else none } := by
  have written : (c.setZranIndex index).data.toNat = setBits c.data.toNat 32 32 index.toNat :=
    toNat_and_not_or (by decide) zranMasks_toNat.1 index.toNat_lt
      (by rw [toNat_shiftLeft_of_lt (show (32 : UInt64).toNat = 32 by decide) (by decide)
        (by rw [UInt32.toNat_toUInt64]; exact index.toNat_lt), UInt32.toNat_toUInt64])
  rw [view_eq, view_eq, written, bits_setBits_self, bits_setBits_of_apart (by decide),
    Nat.mod_eq_of_lt index.toNat_lt, isZran_eq]
  rfl

theorem setZranOffset_view (c : BlobChunkInfoV2Ondisk) (offset : UInt32) :
    (c.setZranOffset offset).view =
      { c.view with zranOffset := if c.isZran then some offset.toNat else none } := by
  have written : (c.setZranOffset offset).data.toNat = setBits c.data.toNat 0 32 offset.toNat :=
    toNat_and_not_or (by decide) zranMasks_toNat.2 offset.toNat_lt
      (by rw [UInt32.toNat_toUInt64, Nat.shiftLeft_zero])
  rw [view_eq, view_eq, written, bits_setBits_self, bits_setBits_of_apart (by decide),
    Nat.mod_eq_of_lt offset.toNat_lt, isZran_eq]
  rfl

theorem setCompressedOffset_view (c : BlobChunkInfoV2Ondisk) {offset : UInt64}
    (fits : offset.toNat < 2 ^ 40) :
    (c.setCompressedOffset offset).map view = some { c.view with compressedOffset := offset.toNat } := by
  have offsetMask : CHUNK_V2_COMP_OFFSET_MASK.toNat = mask 0 40 := by decide
  have field : bits offset.toNat 0 40 = offset.toNat := bits_zero_of_lt fits
  have passes : offset &&& ~~~CHUNK_V2_COMP_OFFSET_MASK = 0 :=
    (and_not_eq_zero_iff (by decide) offsetMask).mpr (by rw [field, Nat.shiftLeft_zero])
  have word : ((c.compInfo &&& ~~~CHUNK_V2_COMP_OFFSET_MASK) |||
      (offset &&& CHUNK_V2_COMP_OFFSET_MASK)).toNat = setBits c.compInfo.toNat 0 40 offset.toNat :=
    toNat_and_not_or (by decide) offsetMask fits
      (by rw [UInt64.toNat_and, offsetMask, and_mask_eq, field])
  rw [setCompressedOffset, if_pos passes, Option.map_some, view_eq, view_eq]
  simp only [word, bits_setBits_self, Nat.mod_eq_of_lt fits]
  rw [bits_setBits_of_apart (by decide)]

theorem setCompressedSize_view (c : BlobChunkInfoV2Ondisk) {size : UInt32}
    (fits : size.toNat < 2 ^ 24) :
    (c.setCompressedSize size).map view = some { c.view with compressedSize := size.toNat } := by
  have sizeMask : (BLOB_METADATA_CHUNK_SIZE_MASK <<< CHUNK_V2_COMP_SIZE_SHIFT).toNat = mask 40 24 := by
    decide
  have passes : size.toUInt64 ≤ BLOB_METADATA_CHUNK_SIZE_MASK := by
    rw [UInt64.le_iff_toNat_le, UInt32.toNat_toUInt64, show BLOB_METADATA_CHUNK_SIZE_MASK.toNat = 2 ^ 24 - 1 by decide]
    omega
  have word : ((c.compInfo &&& ~~~(BLOB_METADATA_CHUNK_SIZE_MASK <<< CHUNK_V2_COMP_SIZE_SHIFT)) |||
      (size.toUInt64 <<< CHUNK_V2_COMP_SIZE_SHIFT)).toNat = setBits c.compInfo.toNat 40 24 size.toNat :=
    toNat_and_not_or (by decide) sizeMask fits
      (by rw [toNat_shiftLeft_of_lt (show CHUNK_V2_COMP_SIZE_SHIFT.toNat = 40 by decide) (by decide)
        (by rw [UInt32.toNat_toUInt64]; exact fits), UInt32.toNat_toUInt64])
  rw [setCompressedSize, if_pos passes, Option.map_some, view_eq, view_eq]
  simp only [word, bits_setBits_self, Nat.mod_eq_of_lt fits]
  rw [bits_setBits_of_apart (by decide)]

theorem setUncompressedOffset_view (c : BlobChunkInfoV2Ondisk) {offset : UInt64}
    (aligned : offset.toNat % 0x1000 = 0) (fits : offset.toNat < 2 ^ 44) :
    (c.setUncompressedOffset offset).map view =
      some { c.view with uncompressedOffset := offset.toNat } := by
  have offsetMask : CHUNK_V2_UNCOMP_OFFSET_MASK.toNat = mask 0 32 := by decide
  -- the offset in 4 KiB units, the value `set_uncompressed_offset` stores
  have units : ((offset >>> CHUNK_V2_UNCOMP_OFFSET_SHIFT) &&& CHUNK_V2_UNCOMP_OFFSET_MASK).toNat =
      offset.toNat / 2 ^ 12 := by
    rw [UInt64.toNat_and, UInt64.toNat_shiftRight, offsetMask, and_mask_eq,
      show CHUNK_V2_UNCOMP_OFFSET_SHIFT.toNat % 64 = 12 by decide]
    simp only [bits, Nat.shiftRight_eq_div_pow, Nat.shiftLeft_zero, Nat.pow_zero, Nat.div_one]
    omega
  have passes : offset = ((offset >>> CHUNK_V2_UNCOMP_OFFSET_SHIFT) &&& CHUNK_V2_UNCOMP_OFFSET_MASK) <<<
      CHUNK_V2_UNCOMP_OFFSET_SHIFT := by
    apply UInt64.toNat_inj.mp
    rw [toNat_shiftLeft_of_lt (show CHUNK_V2_UNCOMP_OFFSET_SHIFT.toNat = 12 by decide) (by decide)
      (by rw [units]; omega), units, Nat.shiftLeft_eq]
    omega
  have word : ((c.uncompInfo &&& ~~~CHUNK_V2_UNCOMP_OFFSET_MASK) |||
      ((offset >>> CHUNK_V2_UNCOMP_OFFSET_SHIFT) &&& CHUNK_V2_UNCOMP_OFFSET_MASK)).toNat =
        setBits c.uncompInfo.toNat 0 32 (offset.toNat / 2 ^ 12) :=
    toNat_and_not_or (by decide) offsetMask (by omega) (by rw [units, Nat.shiftLeft_zero])
  have offsetIs : offset.toNat / 2 ^ 12 % 2 ^ 32 * 2 ^ 12 = offset.toNat := by omega
  rw [setUncompressedOffset, if_pos passes, Option.map_some, view_eq, view_eq]
  simp only [word, bits_setBits_self, offsetIs]
  rw [bits_setBits_of_apart (by decide), testBit_setBits_of_outside (by decide),
    testBit_setBits_of_outside (by decide)]

theorem setUncompressedSize_view (c : BlobChunkInfoV2Ondisk) {size : UInt32} (pos : 0 < size.toNat)
    (le : size.toNat ≤ 2 ^ 24) :
    (c.setUncompressedSize size).map view = some { c.view with uncompressedSize := size.toNat } := by
  have sizeMask : (BLOB_METADATA_CHUNK_SIZE_MASK <<< CHUNK_V2_UNCOMP_SIZE_SHIFT).toNat = mask 32 24 := by
    decide
  have passes : size.toUInt64 ≠ 0 ∧ size.toUInt64 - 1 ≤ BLOB_METADATA_CHUNK_SIZE_MASK := by
    rw [ne_eq, ← UInt64.toNat_inj, UInt64.le_iff_toNat_le, UInt32.toNat_toUInt64,
      UInt64.toNat_zero, BlobChunkInfoV1Ondisk.sizeMinusOne_toNat pos,
      show BLOB_METADATA_CHUNK_SIZE_MASK.toNat = 2 ^ 24 - 1 by decide]
    omega
  have word : ((c.uncompInfo &&& ~~~(BLOB_METADATA_CHUNK_SIZE_MASK <<< CHUNK_V2_UNCOMP_SIZE_SHIFT)) |||
      ((size.toUInt64 - 1) <<< CHUNK_V2_UNCOMP_SIZE_SHIFT)).toNat =
        setBits c.uncompInfo.toNat 32 24 (size.toNat - 1) :=
    toNat_and_not_or (by decide) sizeMask (by omega)
      (by rw [toNat_shiftLeft_of_lt (show CHUNK_V2_UNCOMP_SIZE_SHIFT.toNat = 32 by decide) (by decide)
        (by rw [BlobChunkInfoV1Ondisk.sizeMinusOne_toNat pos]; omega),
        BlobChunkInfoV1Ondisk.sizeMinusOne_toNat pos])
  have sizeIs : (size.toNat - 1) % 2 ^ 24 + 1 = size.toNat := by omega
  rw [setUncompressedSize, if_pos passes, Option.map_some, view_eq, view_eq]
  simp only [word, bits_setBits_self, sizeIs]
  rw [bits_setBits_of_apart (by decide), testBit_setBits_of_outside (by decide),
    testBit_setBits_of_outside (by decide)]

end BlobChunkInfoV2Ondisk

/-! ## Every setter against every getter -/

open BlobChunkInfoV1Ondisk BlobChunkInfoV2Ondisk in
theorem chunkInfo_set_get :
    (∀ (c : BlobChunkInfoV1Ondisk) (offset : UInt64), offset.toNat < 2 ^ 40 →
      (c.setCompressedOffset offset).map BlobChunkInfoV1Ondisk.view =
        some { c.view with compressedOffset := offset.toNat }) ∧
    (∀ (c : BlobChunkInfoV1Ondisk) (size : UInt32), 0 < size.toNat → size.toNat ≤ 2 ^ 24 →
      (c.setCompressedSize size).map BlobChunkInfoV1Ondisk.view =
        some { c.view with compressedSize := size.toNat }) ∧
    (∀ (c : BlobChunkInfoV1Ondisk) (offset : UInt64), offset.toNat % 0x1000 = 0 →
      offset.toNat < 2 ^ 44 →
      (c.setUncompressedOffset offset).map BlobChunkInfoV1Ondisk.view =
        some { c.view with uncompressedOffset := offset.toNat }) ∧
    (∀ (c : BlobChunkInfoV1Ondisk) (size : UInt32), 0 < size.toNat → size.toNat ≤ 2 ^ 24 →
      (c.setUncompressedSize size).map BlobChunkInfoV1Ondisk.view =
        some { c.view with uncompressedSize := size.toNat }) ∧
    (∀ (c : BlobChunkInfoV2Ondisk) (offset : UInt64), offset.toNat < 2 ^ 40 →
      (c.setCompressedOffset offset).map BlobChunkInfoV2Ondisk.view =
        some { c.view with compressedOffset := offset.toNat }) ∧
    (∀ (c : BlobChunkInfoV2Ondisk) (size : UInt32), size.toNat < 2 ^ 24 →
      (c.setCompressedSize size).map BlobChunkInfoV2Ondisk.view =
        some { c.view with compressedSize := size.toNat }) ∧
    (∀ (c : BlobChunkInfoV2Ondisk) (offset : UInt64), offset.toNat % 0x1000 = 0 →
      offset.toNat < 2 ^ 44 →
      (c.setUncompressedOffset offset).map BlobChunkInfoV2Ondisk.view =
        some { c.view with uncompressedOffset := offset.toNat }) ∧
    (∀ (c : BlobChunkInfoV2Ondisk) (size : UInt32), 0 < size.toNat → size.toNat ≤ 2 ^ 24 →
      (c.setUncompressedSize size).map BlobChunkInfoV2Ondisk.view =
        some { c.view with uncompressedSize := size.toNat }) ∧
    (∀ (c : BlobChunkInfoV2Ondisk) (compressed : Bool),
      (c.setCompressed compressed).view = { c.view with isCompressed := compressed }) ∧
    (∀ (c : BlobChunkInfoV2Ondisk) (zran : Bool),
      (c.setZran zran).view =
        { c.view with
          isZran := zran
          zranIndex := if zran then some c.getZranIndex else none
          zranOffset := if zran then some c.getZranOffset else none }) ∧
    (∀ (c : BlobChunkInfoV2Ondisk) (index : UInt32),
      (c.setZranIndex index).view =
        { c.view with zranIndex := if c.isZran then some index.toNat else none }) ∧
    (∀ (c : BlobChunkInfoV2Ondisk) (offset : UInt32),
      (c.setZranOffset offset).view =
        { c.view with zranOffset := if c.isZran then some offset.toNat else none }) :=
  ⟨fun c _ fits => BlobChunkInfoV1Ondisk.setCompressedOffset_view c fits,
    fun c _ pos le => BlobChunkInfoV1Ondisk.setCompressedSize_view c pos le,
    fun c _ aligned fits => BlobChunkInfoV1Ondisk.setUncompressedOffset_view c aligned fits,
    fun c _ pos le => BlobChunkInfoV1Ondisk.setUncompressedSize_view c pos le,
    fun c _ fits => BlobChunkInfoV2Ondisk.setCompressedOffset_view c fits,
    fun c _ fits => BlobChunkInfoV2Ondisk.setCompressedSize_view c fits,
    fun c _ aligned fits => BlobChunkInfoV2Ondisk.setUncompressedOffset_view c aligned fits,
    fun c _ pos le => BlobChunkInfoV2Ondisk.setUncompressedSize_view c pos le,
    setCompressed_view, setZran_view, setZranIndex_view, setZranOffset_view⟩

/-- Entries whose words hold a pattern of ones and zeros in every field. -/
def patternV1 : BlobChunkInfoV1Ondisk := ⟨0xdead_beef_cafe_f00d, 0x0123_4567_89ab_cdef⟩

def patternV2 : BlobChunkInfoV2Ondisk :=
  ⟨0xdead_beef_cafe_f00d, 0x0123_4567_89ab_cdef, 0x0000_00ff_7654_3210⟩

/-- The values of the source's `test_new_chunk_on_disk`, written into entries whose other
fields are not zero, so that keeping them is seen. -/
theorem chunkInfo_set_get_defaults :
    (BlobChunkInfoV1Ondisk.setCompressedOffset patternV1 0x1000).map BlobChunkInfoV1Ondisk.view =
        some { BlobChunkInfoV1Ondisk.view patternV1 with compressedOffset := 0x1000 } ∧
      (BlobChunkInfoV1Ondisk.setCompressedSize patternV1 0x100).map BlobChunkInfoV1Ondisk.view =
        some { BlobChunkInfoV1Ondisk.view patternV1 with compressedSize := 0x100 } ∧
      (BlobChunkInfoV1Ondisk.setUncompressedOffset patternV1 0x1000).map
          BlobChunkInfoV1Ondisk.view =
        some { BlobChunkInfoV1Ondisk.view patternV1 with uncompressedOffset := 0x1000 } ∧
      (BlobChunkInfoV1Ondisk.setUncompressedSize patternV1 0x100).map BlobChunkInfoV1Ondisk.view =
        some { BlobChunkInfoV1Ondisk.view patternV1 with uncompressedSize := 0x100 } ∧
      (BlobChunkInfoV2Ondisk.setCompressedOffset patternV2 0xff_ffff_ffff).map
          BlobChunkInfoV2Ondisk.view =
        some { BlobChunkInfoV2Ondisk.view patternV2 with compressedOffset := 0xff_ffff_ffff } ∧
      (BlobChunkInfoV2Ondisk.setCompressedSize patternV2 0xff_ffff).map BlobChunkInfoV2Ondisk.view =
        some { BlobChunkInfoV2Ondisk.view patternV2 with compressedSize := 0xff_ffff } ∧
      (BlobChunkInfoV2Ondisk.setUncompressedOffset patternV2 0xfff_ffff_f000).map
          BlobChunkInfoV2Ondisk.view =
        some { BlobChunkInfoV2Ondisk.view patternV2 with uncompressedOffset := 0xfff_ffff_f000 } ∧
      (BlobChunkInfoV2Ondisk.setUncompressedSize patternV2 0x100_0000).map
          BlobChunkInfoV2Ondisk.view =
        some { BlobChunkInfoV2Ondisk.view patternV2 with uncompressedSize := 0x100_0000 } :=
  ⟨chunkInfo_set_get.1 patternV1 0x1000 (by decide),
    chunkInfo_set_get.2.1 patternV1 0x100 (by decide) (by decide),
    chunkInfo_set_get.2.2.1 patternV1 0x1000 (by decide) (by decide),
    chunkInfo_set_get.2.2.2.1 patternV1 0x100 (by decide) (by decide),
    chunkInfo_set_get.2.2.2.2.1 patternV2 0xff_ffff_ffff (by decide),
    chunkInfo_set_get.2.2.2.2.2.1 patternV2 0xff_ffff (by decide),
    chunkInfo_set_get.2.2.2.2.2.2.1 patternV2 0xfff_ffff_f000 (by decide) (by decide),
    chunkInfo_set_get.2.2.2.2.2.2.2.1 patternV2 0x100_0000 (by decide) (by decide)⟩

/-- The old-format entry of the source's test: a ZRan entry of context 3 at offset 5. -/
def oldFormatZranChunk : BlobChunkInfoV2Ondisk :=
  ⟨0x0300_0100_0000_0100, 0x0fff_ffff_ffff_ffff, 0x0000_0003_0000_0005⟩

theorem chunkInfo_set_get_zran_asserts :
    (BlobChunkInfoV2Ondisk.setZranIndex ⟨0, 0, 0⟩ 3).getZranIndex? = none ∧
    oldFormatZranChunk.getZranIndex? = some 3 ∧
    (oldFormatZranChunk.setZran false).getZranIndex? = none := by
  decide

end Nydus
