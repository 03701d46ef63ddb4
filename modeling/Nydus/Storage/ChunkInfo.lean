import Mathlib.Data.List.Basic
import Nydus.Lib.Except

/-!
# Blob chunk information

The blob meta file of a RAFS v6 blob holds one chunk information entry per chunk
(`storage/src/meta`). This module models the entries through their accessors
(the trait `BlobMetaChunkInfo`), the two on-disk layouts that implement it, the
inflate contexts of ZRan blobs and the part of `BlobMetaState` the lookups read.

Accessors return `Nat`: every field is a bounded bit field of a `u64` word, and
the sums the lookups form from them (`compressed_end`, `uncompressed_end`) stay
far below `2^64`.
-/

namespace Nydus

/-- `RAFS_MAX_CHUNK_SIZE`: 16 MiB. -/
def RAFS_MAX_CHUNK_SIZE : Nat := 1024 * 1024 * 16

/-- `BLOB_META_FEATURE_ZRAN`. -/
def BLOB_META_FEATURE_ZRAN : Nat := 0x8

/-- `u64::MAX + 1`: a `checked_add` on `u64` fails from here on. -/
def U64_LIMIT : Nat := 0x1_0000_0000_0000_0000

/-- `u64::checked_add`. -/
def checkedAdd (a b : Nat) : Option Nat :=
  if a + b < U64_LIMIT then some (a + b) else none

/-- `round_up_4k`. The source computes `(val + 0xfff) & !0xfff`; for the values it is
applied to the addition does not wrap, and clearing the low twelve bits is rounding
down to a multiple of `0x1000`. -/
def roundUp4k (val : Nat) : Nat := (val + 0xfff) / 0x1000 * 0x1000

theorem le_roundUp4k (val : Nat) : val ≤ roundUp4k val := by
  unfold roundUp4k
  omega

theorem roundUp4k_mono {a b : Nat} (h : a ≤ b) : roundUp4k a ≤ roundUp4k b := by
  unfold roundUp4k
  exact Nat.mul_le_mul_right _ (Nat.div_le_div_right (by omega))

theorem roundUp4k_of_dvd {val : Nat} (h : 0x1000 ∣ val) : roundUp4k val = val := by
  obtain ⟨k, rfl⟩ := h
  unfold roundUp4k
  omega

/-- Context information to support zlib random access (`ZranInflateContext`): the packed
entry of the ZRan context table, its fields read as integers. -/
structure ZranInflateContext where
  inOffset : Nat
  outOffset : Nat
  dictOffset : Nat
  inLen : Nat
  outLen : Nat
  dictSize : Nat
  ctxByte : Nat
  ctxBits : Nat
deriving DecidableEq, Repr

/-- `ZranInflateContext::in_size`. -/
def ZranInflateContext.inSize (ctx : ZranInflateContext) : Nat := ctx.inLen

/-- `ZranInflateContext::out_size`. -/
def ZranInflateContext.outSize (ctx : ZranInflateContext) : Nat := ctx.outLen

/-- The fields of `BlobMetaState` that chunk validation and lookup read. The
dictionary table enters only through its length, which `get_zran_context` checks. -/
structure BlobMetaState where
  blobIndex : Nat
  metaFlags : Nat
  compressedSize : Nat
  uncompressedSize : Nat
  zranInfoArray : List ZranInflateContext
  zranDictTableLen : Nat
deriving DecidableEq, Repr

/-- `BlobMetaState::get_zran_context`, up to the dictionary bytes it slices out. -/
def BlobMetaState.getZranContext (state : BlobMetaState) (zranIndex : Nat) :
    Option ZranInflateContext :=
  match state.zranInfoArray[zranIndex]? with
  | none => none
  | some entry =>
    if checkedAdd entry.dictOffset entry.dictSize = none ∨
        entry.dictOffset + entry.dictSize > state.zranDictTableLen then none
    else some entry

/-- The errors of chunk validation and lookup. Each constructor carries the values
the source formats into its message; the docstring quotes the message. -/
inductive MetaError where
  /-- `"get_chunks_uncompressed: invalid start {}/size {}"` (or `get_chunks_compressed`). -/
  | invalidStart (compressed : Bool) (start size : Nat)
  /-- `"get_chunks_uncompressed: invalid end {}/uncompressed_size {}"` (or compressed). -/
  | invalidEnd (compressed : Bool) (end_ limit : Nat)
  /-- `"start: {}, end: {}, addr: {}"`: no entry contains the address. -/
  | addrNotFound (start end_ addr : Nat)
  /-- `"invalid chunk, blob: index {}/c_end 0x{:}/d_end 0x{:x}, chunk: c_end ..."`. -/
  | invalidChunk (blobIndex compressedSize uncompressedSize cEnd dEnd : Nat) (compressed : Bool)
  /-- `"unknown chunk flags {:x}"`. -/
  | unknownFlags (flags : Nat)
  /-- `"invalid chunk flag ZRan for non-ZRan blob"`. -/
  | zranFlagForNonZran
  /-- `"ZRan index {:x} is too big, max {:x}"`. -/
  | zranIndexTooBig (index max : Nat)
  /-- `"ZRan range {:x}/{:x} is invalid, should be with in 0/{:x}"`. -/
  | zranRangeInvalid (offset size outSize : Nat)
  /-- `"inconsistent ZRan and non-ZRan chunk information entries"`. -/
  | inconsistentZran
  /-- `"mismatch uncompressed {} size {} last_end {}"`. -/
  | mismatchUncompressed (offset size lastEnd : Nat)
  /-- `"entry not found index {} chunk_info_array.len {}"`. -/
  | entryNotFound (index len : Nat)
  /-- `"invalid ZRan compression information data"`. -/
  | invalidZranData
  /-- An index past the end of a slice, or a failed `assert!(index < len)`: the source
  panics here. -/
  | outOfBounds (index len : Nat)
  /-- A `u64` addition that overflows: a debug build panics here. -/
  | overflow
deriving DecidableEq, Repr

/-- The accessors of a chunk information entry (the trait `BlobMetaChunkInfo`). -/
class BlobMetaChunkInfo (α : Type) where
  compressedOffset : α → Nat
  compressedSize : α → Nat
  uncompressedOffset : α → Nat
  uncompressedSize : α → Nat
  isCompressed : α → Bool
  isZran : α → Bool
  getZranIndex : α → Nat
  getZranOffset : α → Nat
  validate : α → BlobMetaState → Except MetaError Unit

namespace BlobMetaChunkInfo

variable {α : Type} [BlobMetaChunkInfo α]

/-- `compressed_end`. -/
def compressedEnd (entry : α) : Nat := compressedOffset entry + compressedSize entry

/-- `uncompressed_end`. -/
def uncompressedEnd (entry : α) : Nat := uncompressedOffset entry + uncompressedSize entry

/-- `aligned_uncompressed_end`. -/
def alignedUncompressedEnd (entry : α) : Nat := roundUp4k (uncompressedEnd entry)

theorem uncompressedEnd_le_aligned (entry : α) :
    uncompressedEnd entry ≤ alignedUncompressedEnd entry :=
  le_roundUp4k _

end BlobMetaChunkInfo

open BlobMetaChunkInfo

/-- The V1 on-disk entry (`BlobChunkInfoV1Ondisk`), two little-endian words read on a
little-endian host, so `from_le` is the identity. -/
structure BlobChunkInfoV1Ondisk where
  uncompInfo : UInt64
  compInfo : UInt64
deriving DecidableEq, Repr

namespace BlobChunkInfoV1Ondisk

/-- `compressed_offset`: the low 40 bits of `comp_info`. -/
def compressedOffset (c : BlobChunkInfoV1Ondisk) : Nat := (c.compInfo &&& 0xff_ffff_ffff).toNat

/-- `compressed_size`: 20 low bits at 44, 4 high bits at 40, stored minus one. -/
def compressedSize (c : BlobChunkInfoV1Ondisk) : Nat :=
  ((c.compInfo >>> 44) ||| ((c.compInfo &&& 0xf0000000000) >>> 20)).toNat + 1

/-- `uncompressed_offset`: bits 12..43 of `uncomp_info`. -/
def uncompressedOffset (c : BlobChunkInfoV1Ondisk) : Nat :=
  (c.uncompInfo &&& 0xfff_ffff_f000).toNat

/-- `uncompressed_size`: 20 low bits at 44, 4 high bits at 8, stored minus one. -/
def uncompressedSize (c : BlobChunkInfoV1Ondisk) : Nat :=
  (((c.uncompInfo &&& 0xf00) <<< 12) ||| (c.uncompInfo >>> 44)).toNat + 1

/-- `is_compressed`: a V1 entry is compressed iff its two sizes differ. -/
def isCompressed (c : BlobChunkInfoV1Ondisk) : Bool := c.compressedSize != c.uncompressedSize

/-- `validate`. The last disjunct can never hold for this layout, since
`is_compressed` is the inequality of the two sizes; it is kept as the source has it. -/
def validate (c : BlobChunkInfoV1Ondisk) (state : BlobMetaState) : Except MetaError Unit :=
  if c.compressedOffset + c.compressedSize > state.compressedSize
      ∨ c.uncompressedOffset + c.uncompressedSize > state.uncompressedSize
      ∨ c.uncompressedSize = 0
      ∨ (!c.isCompressed ∧ c.uncompressedSize ≠ c.compressedSize) then
    .error (.invalidChunk state.blobIndex state.compressedSize state.uncompressedSize
      (c.compressedOffset + c.compressedSize) (c.uncompressedOffset + c.uncompressedSize)
      c.isCompressed)
  else .ok ()

end BlobChunkInfoV1Ondisk

/-- V1 entries are never ZRan. The source's `get_zran_index` and `get_zran_offset` are
`unimplemented!()`; the lookups call them on ZRan entries only, so the value given
here is never read. -/
instance : BlobMetaChunkInfo BlobChunkInfoV1Ondisk where
  compressedOffset := BlobChunkInfoV1Ondisk.compressedOffset
  compressedSize := BlobChunkInfoV1Ondisk.compressedSize
  uncompressedOffset := BlobChunkInfoV1Ondisk.uncompressedOffset
  uncompressedSize := BlobChunkInfoV1Ondisk.uncompressedSize
  isCompressed := BlobChunkInfoV1Ondisk.isCompressed
  isZran _ := false
  getZranIndex _ := 0
  getZranOffset _ := 0
  validate := BlobChunkInfoV1Ondisk.validate

/-- The V2 on-disk entry (`BlobChunkInfoV2Ondisk`). -/
structure BlobChunkInfoV2Ondisk where
  uncompInfo : UInt64
  compInfo : UInt64
  data : UInt64
deriving DecidableEq, Repr

namespace BlobChunkInfoV2Ondisk

/-- `compressed_offset`: the low 40 bits of `comp_info`. -/
def compressedOffset (c : BlobChunkInfoV2Ondisk) : Nat := (c.compInfo &&& 0xff_ffff_ffff).toNat

/-- `compressed_size`: 24 bits at 40. -/
def compressedSize (c : BlobChunkInfoV2Ondisk) : Nat := ((c.compInfo >>> 40) &&& 0xff_ffff).toNat

/-- `uncompressed_offset`: the low 32 bits of `uncomp_info`, in 4 KiB units. -/
def uncompressedOffset (c : BlobChunkInfoV2Ondisk) : Nat :=
  ((c.uncompInfo &&& 0xffff_ffff) <<< 12).toNat

/-- `uncompressed_size`: 24 bits at 32, stored minus one. -/
def uncompressedSize (c : BlobChunkInfoV2Ondisk) : Nat :=
  ((c.uncompInfo >>> 32) &&& 0xff_ffff).toNat + 1

/-- `is_compressed`: flag bit 56. -/
def isCompressed (c : BlobChunkInfoV2Ondisk) : Bool := c.uncompInfo &&& ((0x1 : UInt64) <<< 56) != 0

/-- `is_zran`: flag bit 57. -/
def isZran (c : BlobChunkInfoV2Ondisk) : Bool := c.uncompInfo &&& ((0x2 : UInt64) <<< 56) != 0

/-- `get_zran_index`: the high word of `data`. -/
def getZranIndex (c : BlobChunkInfoV2Ondisk) : Nat := (c.data >>> 32).toNat

/-- `get_zran_offset`: the low word of `data`. -/
def getZranOffset (c : BlobChunkInfoV2Ondisk) : Nat := (c.data &&& 0xffff_ffff).toNat

/-- `check_flags`: the flag byte without the two known flags. -/
def checkFlags (c : BlobChunkInfoV2Ondisk) : Nat := ((c.uncompInfo &&& ~~~((0x3 : UInt64) <<< 56)) >>> 56).toNat

/-- `validate`: the range check, then the flags, then the ZRan context bounds. The
source adds `get_zran_offset() + uncompressed_size()` in `u32`; the model compares
the exact sum. -/
def validate (c : BlobChunkInfoV2Ondisk) (state : BlobMetaState) : Except MetaError Unit :=
  if c.compressedOffset + c.compressedSize > state.compressedSize
      ∨ c.uncompressedOffset + c.uncompressedSize > state.uncompressedSize
      ∨ c.uncompressedSize = 0
      ∨ (!c.isZran ∧ c.compressedSize = 0)
      ∨ (!c.isCompressed ∧ c.uncompressedSize ≠ c.compressedSize) then
    .error (.invalidChunk state.blobIndex state.compressedSize state.uncompressedSize
      (c.compressedOffset + c.compressedSize) (c.uncompressedOffset + c.uncompressedSize)
      c.isCompressed)
  else if c.checkFlags ≠ 0 then .error (.unknownFlags c.checkFlags)
  else if state.metaFlags &&& BLOB_META_FEATURE_ZRAN = 0 ∧ c.isZran then
    .error .zranFlagForNonZran
  else if c.isZran then
    match state.zranInfoArray[c.getZranIndex]? with
    | none => .error (.zranIndexTooBig c.getZranIndex state.zranInfoArray.length)
    | some ctx =>
      if c.getZranOffset ≥ ctx.outSize ∨ c.getZranOffset + c.uncompressedSize > ctx.outSize then
        .error (.zranRangeInvalid c.getZranOffset c.uncompressedSize ctx.outSize)
      else .ok ()
  else .ok ()

end BlobChunkInfoV2Ondisk

instance : BlobMetaChunkInfo BlobChunkInfoV2Ondisk where
  compressedOffset := BlobChunkInfoV2Ondisk.compressedOffset
  compressedSize := BlobChunkInfoV2Ondisk.compressedSize
  uncompressedOffset := BlobChunkInfoV2Ondisk.uncompressedOffset
  uncompressedSize := BlobChunkInfoV2Ondisk.uncompressedSize
  isCompressed := BlobChunkInfoV2Ondisk.isCompressed
  isZran := BlobChunkInfoV2Ondisk.isZran
  getZranIndex := BlobChunkInfoV2Ondisk.getZranIndex
  getZranOffset := BlobChunkInfoV2Ondisk.getZranOffset
  validate := BlobChunkInfoV2Ondisk.validate

end Nydus
