import Mathlib
import Nydus.Storage.ChunkInfo
import Nydus.Storage.Device

/-!
# The blob meta header check

A blob's meta information (`storage/src/meta/mod.rs`) is described twice: by the
blob-meta fields of its `BlobInfo`, read from the bootstrap, and by the header of the blob
meta file. `BlobMetaInfo::validate_header` reports whether the two agree and checks the
sizes: the chunk count, the size of the uncompressed info area for the chunk-info layout
the feature flags select, and for ZRan blobs where the context table and the dictionary
table lie. `BlobMetaInfo::new` then maps the chunk array and the two ZRan tables out of
the info area.

The fields come from an untrusted bootstrap. Two additions of the check can overflow:
`round_up_4k(info_size)` and `offset + zran_size`. A debug build panics there; a release
build wraps, and the wrapped `offset + zran_size` passes the bound on the info area, so a
dictionary table far past the area is accepted (`validateHeader_zran_size_wraps`). Where
the additions do not wrap, an accepted header maps every range inside the info area
(`validateHeader_ranges`).
-/

namespace Nydus.Storage

/-- `BLOB_METADATA_MAGIC`. -/
def BLOB_METADATA_MAGIC : UInt32 := 0xb10bb10b

/-- `BLOB_META_FEATURE_CHUNK_INFO_V2`. -/
def BLOB_META_FEATURE_CHUNK_INFO_V2 : Nat := 0x4

/-- `RAFS_MAX_CHUNKS_PER_BLOB`. -/
def RAFS_MAX_CHUNKS_PER_BLOB : Nat := 1 <<< 24

/-- `BLOB_METADATA_V1_MAX_SIZE` and `BLOB_METADATA_V2_MAX_SIZE`. -/
def BLOB_METADATA_V1_MAX_SIZE : Nat := RAFS_MAX_CHUNK_SIZE * 16
def BLOB_METADATA_V2_MAX_SIZE : Nat := RAFS_MAX_CHUNK_SIZE * 24

/-- `size_of::<BlobChunkInfoV1Ondisk>()`, `size_of::<BlobChunkInfoV2Ondisk>()` and
`size_of::<ZranInflateContext>()`. -/
def CHUNK_INFO_V1_SIZE : Nat := 16
def CHUNK_INFO_V2_SIZE : Nat := 24
def ZRAN_CONTEXT_SIZE : Nat := 40

/-- The fields of `BlobMetaHeaderOndisk` the check compares, read little-endian. -/
structure BlobMetaHeaderOndisk where
  sMagic : UInt32
  sFeatures : UInt32
  sCiCompressor : UInt32
  sCiEntries : UInt32
  sCiOffset : UInt64
  sCiCompressedSize : UInt64
  sCiUncompressedSize : UInt64
  sCiZranOffset : UInt64
  sCiZranSize : UInt64
  sCiZranCount : UInt32
  sMagic2 : UInt32
deriving DecidableEq, Repr

/-- `BLOB_META_FEATURE_4K_ALIGNED`, `BLOB_META_FEATURE_SEPARATE` and
`BLOB_META_FEATURE_MASK`. -/
def BLOB_META_FEATURE_4K_ALIGNED : Nat := 0x1
def BLOB_META_FEATURE_SEPARATE : Nat := 0x2
def BLOB_META_FEATURE_MASK : Nat := 0xf

namespace BlobMetaHeaderOndisk

/-- `BlobMetaHeaderOndisk::default`: both magics, no feature, LZ4 for the array. -/
def default : BlobMetaHeaderOndisk :=
  ⟨BLOB_METADATA_MAGIC, 0, Compress.Algorithm.lz4Block.toU32, 0, 0, 0, 0, 0, 0, 0, BLOB_METADATA_MAGIC⟩

/-- The feature setters: the bit `feature` of `s_features` set when `enable`, cleared
otherwise. -/
def setFeature (h : BlobMetaHeaderOndisk) (feature : Nat) (enable : Bool) : BlobMetaHeaderOndisk :=
  if enable then { h with sFeatures := h.sFeatures ||| UInt32.ofNat feature }
  else { h with sFeatures := h.sFeatures &&& ~~~(UInt32.ofNat feature) }

/-- A feature setter changes the flags only. -/
theorem setFeature_eq (h : BlobMetaHeaderOndisk) (feature : Nat) (enable : Bool) :
    h.setFeature feature enable = { h with sFeatures := if enable then h.sFeatures ||| UInt32.ofNat feature
      else h.sFeatures &&& ~~~(UInt32.ofNat feature) } := by
  cases enable <;> rfl

/-- `set_4k_aligned`, `set_chunk_info_v2`, `set_ci_separate` and `set_ci_zran`. -/
def set4kAligned (h : BlobMetaHeaderOndisk) (aligned : Bool) : BlobMetaHeaderOndisk :=
  h.setFeature BLOB_META_FEATURE_4K_ALIGNED aligned
def setChunkInfoV2 (h : BlobMetaHeaderOndisk) (enable : Bool) : BlobMetaHeaderOndisk :=
  h.setFeature BLOB_META_FEATURE_CHUNK_INFO_V2 enable
def setCiSeparate (h : BlobMetaHeaderOndisk) (enable : Bool) : BlobMetaHeaderOndisk :=
  h.setFeature BLOB_META_FEATURE_SEPARATE enable
def setCiZran (h : BlobMetaHeaderOndisk) (enable : Bool) : BlobMetaHeaderOndisk :=
  h.setFeature BLOB_META_FEATURE_ZRAN enable

/-- `BlobMetaHeaderOndisk::ci_compressor`: the stored value read as an algorithm, every value
that names none read as `None`. -/
def ciCompressor (h : BlobMetaHeaderOndisk) : Compress.Algorithm :=
  if h.sCiCompressor = Compress.Algorithm.lz4Block.toU32 then .lz4Block
  else if h.sCiCompressor = Compress.Algorithm.gZip.toU32 then .gZip
  else if h.sCiCompressor = Compress.Algorithm.zstd.toU32 then .zstd
  else .none

end BlobMetaHeaderOndisk

/-- How a build treats an arithmetic overflow: a debug build panics, a release build
wraps. -/
inductive Build where
  | debug
  | release
deriving DecidableEq, Repr

/-- The ways the check fails: its `einval!` errors, whose messages the docstrings quote,
and the panic of a debug build on an overflowing addition. -/
inductive HeaderError where
  /-- `"chunk count {:x} in blob meta header is invalid!"`. -/
  | invalidChunkCount (chunkCount : Nat)
  /-- `"uncompressed size in blob meta header is invalid!"`. -/
  | invalidUncompressedSize
  /-- `"invalid feature flags in blob meta header!"`. -/
  | invalidFeatureFlags
  /-- `"ZRan information in blob meta header is invalid!"`. -/
  | invalidZran
  /-- `"count of ZRan context entries is too big!"`. -/
  | zranCountTooBig
  /-- `attempt to add with overflow`. -/
  | overflow
deriving DecidableEq, Repr

/-- `a + b` on `u64` (and `usize`, 64 bits wide). -/
def add64 (build : Build) (a b : Nat) : Except HeaderError Nat :=
  if a + b < U64_LIMIT then .ok (a + b)
  else match build with
    | .debug => .error .overflow
    | .release => .ok ((a + b) % U64_LIMIT)

/-- `round_up_4k` on `usize`: `(val + 0xfff) & !0xfff`. -/
def roundUp4kUsize (build : Build) (val : Nat) : Except HeaderError Nat :=
  add64 build val 0xfff >>= fun sum => .ok (sum / 0x1000 * 0x1000)

namespace BlobInfo

/-- Whether the flags select a feature. -/
def hasFeature (b : BlobInfo) (feature : Nat) : Bool := b.metaFlags.toNat &&& feature != 0

/-- The header and the blob info disagree on a field the check compares. -/
def headerDiffers (b : BlobInfo) (header : BlobMetaHeaderOndisk) : Bool :=
  header.sMagic != BLOB_METADATA_MAGIC || header.sMagic2 != BLOB_METADATA_MAGIC ||
    header.sCiEntries != b.chunkCount || header.sFeatures != b.metaFlags ||
    header.sCiCompressor != b.metaCiCompressorAlgorithm.toU32 || header.sCiOffset != b.metaCiOffset ||
    header.sCiCompressedSize != b.metaCiCompressedSize ||
    header.sCiUncompressedSize != b.metaCiUncompressedSize

/-- For a ZRan blob, the header and the blob info disagree on a ZRan field. -/
def zranDiffers (b : BlobInfo) (header : BlobMetaHeaderOndisk) : Bool :=
  header.sCiZranCount != b.metaCiZranCount || header.sCiZranOffset != b.metaCiZranOffset ||
    header.sCiZranSize != b.metaCiZranSize

end BlobInfo

/-- The size rule of the chunk-info layout the flags select: at least a V2 entry per chunk
for ZRan, exactly one entry per chunk within the layout's limit otherwise; ZRan without
the V2 layout is refused. -/
def checkInfoSize (flags chunkCount infoSize alignedInfoSize : Nat) : Except HeaderError Unit :=
  match flags &&& (BLOB_META_FEATURE_CHUNK_INFO_V2 ||| BLOB_META_FEATURE_ZRAN) with
  | 0xc =>
    if infoSize < chunkCount * CHUNK_INFO_V2_SIZE then .error .invalidUncompressedSize else .ok ()
  | 0x4 =>
    if infoSize ≠ chunkCount * CHUNK_INFO_V2_SIZE ∨ alignedInfoSize > BLOB_METADATA_V2_MAX_SIZE then
      .error .invalidUncompressedSize
    else .ok ()
  | 0 =>
    if infoSize ≠ chunkCount * CHUNK_INFO_V1_SIZE ∨ alignedInfoSize > BLOB_METADATA_V1_MAX_SIZE then
      .error .invalidUncompressedSize
    else .ok ()
  | _ => .error .invalidFeatureFlags

/-- The ZRan rule: the context table starts right after the chunk array, the two tables end
within the info area, there are no more contexts than chunks, and the contexts fit in the
tables' size. -/
def checkZran (build : Build) (b : BlobInfo) (chunkCount infoSize : Nat) :
    Except HeaderError Bool :=
  let offset := b.metaCiZranOffset.toNat
  if offset ≠ chunkCount * CHUNK_INFO_V2_SIZE then .error .invalidZran
  else add64 build offset b.metaCiZranSize.toNat >>= fun tablesEnd =>
    if tablesEnd > infoSize then .error .invalidZran
    else
      let zranCount := b.metaCiZranCount.toNat
      let size := zranCount * ZRAN_CONTEXT_SIZE
      if zranCount > chunkCount then .error .zranCountTooBig
      else if size > b.metaCiZranSize.toNat then .error .invalidZran
      else .ok true

/-- `BlobMetaInfo::validate_header`: `Ok(false)` when the header disagrees with the blob
info, an error when a size is wrong, `Ok(true)` otherwise. -/
def validateHeader (build : Build) (b : BlobInfo) (header : BlobMetaHeaderOndisk) :
    Except HeaderError Bool :=
  if b.headerDiffers header then .ok false
  else if b.hasFeature BLOB_META_FEATURE_ZRAN ∧ b.zranDiffers header then .ok false
  else
    let chunkCount := b.chunkCount.toNat
    if chunkCount = 0 ∨ chunkCount > RAFS_MAX_CHUNKS_PER_BLOB then
      .error (.invalidChunkCount chunkCount)
    else
      let infoSize := header.sCiUncompressedSize.toNat
      roundUp4kUsize build infoSize >>= fun alignedInfoSize =>
      checkInfoSize b.metaFlags.toNat chunkCount infoSize alignedInfoSize >>= fun () =>
      if b.hasFeature BLOB_META_FEATURE_ZRAN then checkZran build b chunkCount infoSize
      else .ok true

/-- A range `BlobMetaInfo::new` maps out of the info area: its offset and its size, which
the source computes by a subtraction that may go below zero. -/
structure MappedRange where
  offset : Nat
  size : Int
deriving DecidableEq, Repr

/-- The ranges `BlobMetaInfo::new` maps: the chunk array (`BlobMetaChunkArray::from_file_map`),
and for a ZRan blob the context table and the dictionary table after it. -/
def BlobInfo.mappedRanges (b : BlobInfo) : List MappedRange :=
  let entrySize := if b.hasFeature BLOB_META_FEATURE_CHUNK_INFO_V2 then CHUNK_INFO_V2_SIZE
    else CHUNK_INFO_V1_SIZE
  let chunkArray : MappedRange := ⟨0, b.chunkCount.toNat * entrySize⟩
  if b.hasFeature BLOB_META_FEATURE_ZRAN then
    let zranOffset := b.metaCiZranOffset.toNat
    let zranSize := b.metaCiZranCount.toNat * ZRAN_CONTEXT_SIZE
    [chunkArray, ⟨zranOffset, zranSize⟩,
      ⟨zranOffset + zranSize, (b.metaCiZranSize.toNat : Int) - zranSize⟩]
  else [chunkArray]

/-- A range with a size of zero or more that ends within the first `limit` bytes. -/
def MappedRange.Within (r : MappedRange) (limit : Nat) : Prop :=
  0 ≤ r.size ∧ r.offset + r.size ≤ limit

/-- The header `BlobMetaInfo::new` writes for a blob info when it creates the meta file:
the blob info's fields, the ZRan ones only for a ZRan blob. -/
def BlobInfo.header (b : BlobInfo) : BlobMetaHeaderOndisk :=
  let zran := b.hasFeature BLOB_META_FEATURE_ZRAN
  ⟨BLOB_METADATA_MAGIC, b.metaFlags, b.metaCiCompressorAlgorithm.toU32, b.chunkCount, b.metaCiOffset,
    b.metaCiCompressedSize, b.metaCiUncompressedSize, if zran then b.metaCiZranOffset else 0,
    if zran then b.metaCiZranSize else 0, if zran then b.metaCiZranCount else 0,
    BLOB_METADATA_MAGIC⟩

/-! ## Accepted headers -/

theorem add64_debug_eq_ok {a b s : Nat} (h : add64 .debug a b = .ok s) : s = a + b := by
  unfold add64 at h
  split at h
  · cases h
    rfl
  · cases h

/-- The flags' bits for the chunk-info layout and for ZRan, read off the masked flags. -/
theorem and_feature_of_masked {flags m feature : Nat} (masked : flags &&& 0xc = m)
    (inMask : feature &&& 0xc = feature) : flags &&& feature = m &&& feature := by
  rw [← masked, Nat.land_assoc, Nat.land_comm 0xc feature, inMask]

/-- What an accepted size rule says: the chunk array of the selected layout fits in the
info area, and ZRan comes only with the V2 layout. -/
theorem checkInfoSize_eq_ok {flags chunkCount infoSize aligned : Nat}
    (h : checkInfoSize flags chunkCount infoSize aligned = .ok ()) :
    chunkCount * (if flags &&& BLOB_META_FEATURE_CHUNK_INFO_V2 != 0 then CHUNK_INFO_V2_SIZE
      else CHUNK_INFO_V1_SIZE) ≤ infoSize ∧
    (flags &&& BLOB_META_FEATURE_ZRAN != 0 → flags &&& BLOB_META_FEATURE_CHUNK_INFO_V2 != 0) := by
  have v2 : BLOB_META_FEATURE_CHUNK_INFO_V2 &&& 0xc = BLOB_META_FEATURE_CHUNK_INFO_V2 := by decide
  have zran : BLOB_META_FEATURE_ZRAN &&& 0xc = BLOB_META_FEATURE_ZRAN := by decide
  unfold checkInfoSize at h
  split at h
  · next masked =>
    rw [and_feature_of_masked masked v2, and_feature_of_masked masked zran]
    split at h
    · cases h
    · exact ⟨by simp [BLOB_META_FEATURE_CHUNK_INFO_V2]; omega, fun _ => by decide⟩
  · next masked =>
    rw [and_feature_of_masked masked v2, and_feature_of_masked masked zran]
    split at h
    · cases h
    · exact ⟨by simp [BLOB_META_FEATURE_CHUNK_INFO_V2]; omega, fun _ => by decide⟩
  · next masked =>
    rw [and_feature_of_masked masked v2, and_feature_of_masked masked zran]
    split at h
    · cases h
    · exact ⟨by simp [BLOB_META_FEATURE_CHUNK_INFO_V2]; omega, fun off => absurd off (by decide)⟩
  · cases h

/-- What an accepted ZRan rule says in a debug build: the two tables lie after the chunk
array and end within the info area, and the contexts fit in them. -/
theorem checkZran_eq_ok {b : BlobInfo} {chunkCount infoSize : Nat}
    (h : checkZran .debug b chunkCount infoSize = .ok true) :
    b.metaCiZranOffset.toNat = chunkCount * CHUNK_INFO_V2_SIZE ∧
      b.metaCiZranOffset.toNat + b.metaCiZranSize.toNat ≤ infoSize ∧
      b.metaCiZranCount.toNat * ZRAN_CONTEXT_SIZE ≤ b.metaCiZranSize.toNat := by
  unfold checkZran at h
  dsimp only at h
  split at h
  · cases h
  · next placed =>
    obtain ⟨tablesEnd, added, h⟩ := Except.bind_eq_ok.mp h
    rw [add64_debug_eq_ok added] at h
    split at h
    · cases h
    · next within =>
      split at h
      · cases h
      · split at h
        · cases h
        · next fits => exact ⟨by omega, by omega, by omega⟩

/-- A header equal to the blob info on the compared fields. -/
theorem headerDiffers_eq_false {b : BlobInfo} {header : BlobMetaHeaderOndisk}
    (h : b.headerDiffers header = false) :
    header.sCiUncompressedSize = b.metaCiUncompressedSize := by
  simp only [BlobInfo.headerDiffers, Bool.or_eq_false_iff, bne_eq_false_iff_eq] at h
  exact h.2

/-- A debug build accepts a header only if every range `BlobMetaInfo::new` then maps has a
size of zero or more and lies inside the uncompressed info area. -/
theorem validateHeader_ranges {b : BlobInfo} {header : BlobMetaHeaderOndisk}
    (h : validateHeader .debug b header = .ok true) :
    ∀ r ∈ b.mappedRanges, r.Within b.metaCiUncompressedSize.toNat := by
  unfold validateHeader at h
  split at h
  · cases h
  · next same =>
    rw [headerDiffers_eq_false (by simpa using same)] at h
    split at h
    · cases h
    · dsimp only at h
      split at h
      · cases h
      · obtain ⟨aligned, -, h⟩ := Except.bind_eq_ok.mp h
        obtain ⟨⟨⟩, sized, h⟩ := Except.bind_eq_ok.mp h
        obtain ⟨chunks, -⟩ := checkInfoSize_eq_ok sized
        have chunks : b.chunkCount.toNat * (if b.hasFeature BLOB_META_FEATURE_CHUNK_INFO_V2
            then CHUNK_INFO_V2_SIZE else CHUNK_INFO_V1_SIZE) ≤ b.metaCiUncompressedSize.toNat := chunks
        -- the chunk array lies in the area; for ZRan, the two tables follow it
        have chunkArray : ∀ entry : Nat, b.chunkCount.toNat * entry ≤ b.metaCiUncompressedSize.toNat →
            (⟨0, (b.chunkCount.toNat : Int) * entry⟩ : MappedRange).Within
              b.metaCiUncompressedSize.toNat := by
          intro entry fits
          simp only [MappedRange.Within, Nat.cast_zero, zero_add]
          exact ⟨by positivity, by exact_mod_cast fits⟩
        intro r mem
        by_cases isZran : b.hasFeature BLOB_META_FEATURE_ZRAN = true
        · rw [if_pos isZran] at h
          obtain ⟨placed, ending, fits⟩ := checkZran_eq_ok h
          simp only [BlobInfo.mappedRanges, isZran, if_true, List.mem_cons, List.not_mem_nil,
            or_false] at mem
          rcases mem with rfl | rfl | rfl
          · exact chunkArray _ chunks
          · simp only [MappedRange.Within, ZRAN_CONTEXT_SIZE] at fits ⊢
            push_cast
            omega
          · simp only [MappedRange.Within, ZRAN_CONTEXT_SIZE] at fits ⊢
            push_cast
            omega
        · simp only [BlobInfo.mappedRanges, isZran, Bool.false_eq_true, if_false,
            List.mem_singleton] at mem
          subst mem
          exact chunkArray _ chunks

/-- A ZRan blob of one chunk with one context and an 8-byte dictionary after it. -/
def zranOneInfo : BlobInfo :=
  ((BlobInfo.new 0 "" 0 0 0x1000 1).setBlobMetaInfo 0xc 0 72 72 0).setBlobMetaZranInfo 1 24 48

theorem validateHeader_ranges_zranOne :
    validateHeader .debug zranOneInfo zranOneInfo.header = .ok true ∧
      ∀ r ∈ zranOneInfo.mappedRanges, r.Within zranOneInfo.metaCiUncompressedSize.toNat :=
  have valid : validateHeader .debug zranOneInfo zranOneInfo.header = .ok true := by decide
  ⟨valid, validateHeader_ranges valid⟩

/-! ## Headers that agree -/

/-- A blob info agrees with the header it describes. -/
theorem BlobInfo.headerDiffers_header (b : BlobInfo) : b.headerDiffers b.header = false := by
  simp [BlobInfo.headerDiffers, BlobInfo.header]

/-- A ZRan blob info agrees with the header it describes on the ZRan fields. -/
theorem BlobInfo.zranDiffers_header {b : BlobInfo} (zran : b.hasFeature BLOB_META_FEATURE_ZRAN = true) :
    b.zranDiffers b.header = false := by
  simp [BlobInfo.zranDiffers, BlobInfo.header, zran]

/-- Rounding up in a debug build, where the sum fits. -/
theorem roundUp4kUsize_debug {val : Nat} (fits : val + 0xfff < U64_LIMIT) :
    roundUp4kUsize .debug val = .ok (roundUp4k val) := by
  simp only [roundUp4kUsize, add64, if_pos fits, Except.ok_bind]
  rfl

/-- An array of at most `RAFS_MAX_CHUNKS_PER_BLOB` entries rounds up within the limit of its
layout. -/
theorem roundUp4k_le_max {count entry : Nat} (small : count ≤ RAFS_MAX_CHUNKS_PER_BLOB) :
    roundUp4k (count * entry) ≤ RAFS_MAX_CHUNK_SIZE * entry := by
  have limit : RAFS_MAX_CHUNK_SIZE * entry = RAFS_MAX_CHUNKS_PER_BLOB * entry := rfl
  calc roundUp4k (count * entry) ≤ roundUp4k (RAFS_MAX_CHUNKS_PER_BLOB * entry) :=
        roundUp4k_mono (Nat.mul_le_mul_right entry small)
    _ = RAFS_MAX_CHUNK_SIZE * entry := by
        rw [roundUp4k_of_dvd (Dvd.dvd.mul_right (by decide) entry), limit]

/-! ## Overflowing additions -/

/-- A ZRan blob of one chunk whose ZRan size reaches `u64::MAX + 1` past its offset. -/
def zranWrapInfo : BlobInfo :=
  ((BlobInfo.new 0 "" 0 0 0x1000 1).setBlobMetaInfo 0xc 0 24 24 0).setBlobMetaZranInfo 0 24
    0xFFFF_FFFF_FFFF_FFE8

/-- A ZRan blob of one chunk whose info area is `u64::MAX` bytes. -/
def roundUpWrapInfo : BlobInfo :=
  ((BlobInfo.new 0 "" 0 0 0x1000 1).setBlobMetaInfo 0xc 0 0xFFFF_FFFF_FFFF_FFFF
    0xFFFF_FFFF_FFFF_FFFF 0).setBlobMetaZranInfo 0 24 0

/-- On headers that agree with their blob infos, `offset + zran_size` and `round_up_4k`
overflow: a debug build panics, and a release build accepts a dictionary table that ends
`2^64` bytes in, far past the 24-byte info area. -/
theorem validateHeader_zran_size_wraps :
    validateHeader .debug zranWrapInfo zranWrapInfo.header = .error .overflow ∧
      validateHeader .release zranWrapInfo zranWrapInfo.header = .ok true ∧
      zranWrapInfo.mappedRanges[2]? = some ⟨24, 0xFFFF_FFFF_FFFF_FFE8⟩ ∧
      ¬ (⟨24, 0xFFFF_FFFF_FFFF_FFE8⟩ : MappedRange).Within zranWrapInfo.metaCiUncompressedSize.toNat ∧
      validateHeader .debug roundUpWrapInfo roundUpWrapInfo.header = .error .overflow := by
  refine ⟨by decide, by decide, by decide, ?_, by decide⟩
  have area : zranWrapInfo.metaCiUncompressedSize.toNat = 24 := by decide
  rw [area, MappedRange.Within]
  decide

end Nydus.Storage
