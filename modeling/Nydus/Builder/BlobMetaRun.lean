import Mathlib
import Nydus.Rafs.V6BlobTableSpec

/-!
# The blob table a v6 build writes reads back

Each blob of a v6 build reaches `RafsV6BlobTable::add` with the header `dump_meta_data_raw`
left in its `BlobContext`. For the four feature sets `main.rs` chooses, the record
`from_blob_info` writes of that entry passes every check of `RafsV6Blob::validate` once the
blob keeps to the sizes `validate` allows (`BlobBuild.Carries.checks`); then `to_blob_info`
gives the entry back, and `load` reads the whole table `store` wrote
(`blobTable_store_load`).

The builder itself bounds none of those sizes: a blob of more than 1 TiB compressed is written,
and its table does not load.
-/

namespace Nydus

open Storage RafsV6Blob BlobMetaHeaderOndisk


/-! ## The header a build dumps

The fields `dump_meta_data_raw` writes, read off once for any feature set; a setter only
changes `s_features` (`setFeature_eq`). -/

section Dump

variable (features : UInt32) (header : BlobMetaHeaderOndisk) (v2 : Bool) (entries : Nat)
  (compressor : Compress.Algorithm) (compressed : Bool × Nat) (pos : UInt64) (zranStored : Nat × UInt32)

theorem dumpMetaDataRaw_sCiOffset :
    (dumpMetaDataRaw features header v2 entries compressor compressed pos zranStored).sCiOffset = pos := by
  simp only [dumpMetaDataRaw, set4kAligned, setChunkInfoV2, setCiZran, setCiSeparate, setFeature_eq]
  split <;> rfl

theorem dumpMetaDataRaw_of_zran (zran : (features.toNat &&& BLOB_META_FEATURE_ZRAN != 0) = true) :
    let dumped := dumpMetaDataRaw features header v2 entries compressor compressed pos zranStored
    let dataLen := entries * (if v2 then CHUNK_INFO_V2_SIZE else CHUNK_INFO_V1_SIZE)
    dumped.sCiCompressedSize = UInt64.ofNat compressed.2 + UInt64.ofNat zranStored.1 ∧
      dumped.sCiUncompressedSize = UInt64.ofNat dataLen + UInt64.ofNat zranStored.1 ∧
      dumped.sCiZranOffset = UInt64.ofNat compressed.2 ∧
      dumped.sCiZranSize = UInt64.ofNat zranStored.1 ∧ dumped.sCiZranCount = zranStored.2 := by
  intro dumped dataLen
  simp only [dumped, dataLen, dumpMetaDataRaw, zran, if_true, set4kAligned, setChunkInfoV2, setCiZran,
    setCiSeparate, setFeature_eq, and_self]

theorem dumpMetaDataRaw_of_plain (plain : (features.toNat &&& BLOB_META_FEATURE_ZRAN != 0) = false) :
    let dumped := dumpMetaDataRaw features header v2 entries compressor compressed pos zranStored
    let dataLen := entries * (if v2 then CHUNK_INFO_V2_SIZE else CHUNK_INFO_V1_SIZE)
    dumped.sCiCompressedSize = UInt64.ofNat compressed.2 ∧
      dumped.sCiUncompressedSize = UInt64.ofNat dataLen ∧
      dumped.sCiZranOffset = header.sCiZranOffset ∧
      dumped.sCiZranSize = header.sCiZranSize ∧ dumped.sCiZranCount = header.sCiZranCount := by
  intro dumped dataLen
  simp only [dumped, dataLen, dumpMetaDataRaw, plain, Bool.false_eq_true, if_false, set4kAligned,
    setChunkInfoV2, setCiZran, setCiSeparate, setFeature_eq, and_self]

theorem dumpMetaDataRaw_sFeatures :
    (dumpMetaDataRaw features header v2 entries compressor compressed pos zranStored).sFeatures =
      ((((header.set4kAligned true).setChunkInfoV2 v2).setCiZran
        (features.toNat &&& BLOB_META_FEATURE_ZRAN != 0)).setCiSeparate
        (features.toNat &&& BLOB_META_FEATURE_SEPARATE != 0)).sFeatures := by
  cases zran : features.toNat &&& BLOB_META_FEATURE_ZRAN != 0 <;>
  · simp only [dumpMetaDataRaw, zran, Bool.false_eq_true, if_false, if_true, set4kAligned,
      setChunkInfoV2, setCiZran, setCiSeparate, setFeature_eq]

end Dump

/-! ## What the builder guarantees of the array and the tables -/

theorem Compress.Compressed.le {a : Compress.Algorithm} {n : Nat} {c : Bool × Nat}
    (h : Compress.Compressed a n c) : c.2 ≤ n := by
  obtain ⟨flag, len⟩ := c
  cases flag
  · exact Nat.le_of_eq h
  · exact Nat.le_of_lt h.2

theorem Compress.Compressed.of_none {n : Nat} {c : Bool × Nat}
    (h : Compress.Compressed .none n c) : c.2 = n := by
  obtain ⟨flag, len⟩ := c
  cases flag
  · exact h
  · exact absurd rfl h.1

/-- The ZRan tables of the generator take fewer than 2^40 bytes: at most `2^24 + 1` contexts, each
with its dictionary of at most a window. -/
theorem store_total_lt {records : List ZranContext} (generated : ZranContext.Generated records) :
    (ZranContextGenerator.store records).2.1 < 2 ^ 40 := by
  have dicts := ZranContextGenerator.dictsLength_le generated
  have count := generated.count
  rw [ZranContextGenerator.store_eq]
  unfold ZRAN_MAX_CI_ENTRIES at count
  unfold ZRAN_DICT_WIN_SIZE at dicts
  simp only [ZRAN_CONTEXT_SIZE] at *
  omega

namespace BlobBuild
variable (b : BlobBuild)

/-! ## The header of a build, by feature set -/

theorem features_cases : b.features = 0 ∨ b.features = UInt32.ofNat BLOB_META_FEATURE_SEPARATE ∨
    b.features = UInt32.ofNat BLOB_META_FEATURE_CHUNK_INFO_V2 ∨
    b.features = UInt32.ofNat (BLOB_META_FEATURE_CHUNK_INFO_V2 ||| BLOB_META_FEATURE_SEPARATE |||
      BLOB_META_FEATURE_ZRAN) := by
  simpa only [List.mem_cons, List.not_mem_nil, or_false] using b.selected

theorem newHeader_eq :
    BlobContext.newHeader b.features = { BlobMetaHeaderOndisk.default with sFeatures := b.features } := by
  rcases b.features_cases with same | same | same | same <;> rw [same] <;> decide

theorem header_sFeatures :
    b.header.sFeatures = b.features ||| UInt32.ofNat BLOB_META_FEATURE_4K_ALIGNED := by
  unfold header dumpMetaData
  split <;>
  · rw [dumpMetaDataRaw_sFeatures, b.newHeader_eq]
    rcases b.features_cases with same | same | same | same <;> rw [same] <;> decide

theorem header_sCiOffset : b.header.sCiOffset = b.blobWriter.getD 0 := by
  unfold header dumpMetaData
  split
  · next pos writer => rw [dumpMetaDataRaw_sCiOffset, writer]; rfl
  · next writer => rw [dumpMetaDataRaw_sCiOffset, writer]; rfl

theorem writer_of_separate (separate : (b.features.toNat &&& BLOB_META_FEATURE_SEPARATE != 0) = true) :
    b.blobWriter = none :=
  b.separate separate

/-- The array goes after the chunks of the data blob, or at the start of a file of its own. -/
theorem writer_cases : b.blobWriter = some b.compressedSize ∨ b.blobWriter = none := by
  cases writer : b.blobWriter with
  | none => exact .inr rfl
  | some pos => exact .inl (by rw [b.afterChunks pos writer])

theorem arrayLen_lt : b.arrayLen < 2 ^ 29 := by
  have count := b.chunkCountLe
  unfold arrayLen
  split <;> simp only [CHUNK_INFO_V2_SIZE, CHUNK_INFO_V1_SIZE] <;> omega

theorem header_of_zran (zran : (b.features.toNat &&& BLOB_META_FEATURE_ZRAN != 0) = true) :
    let stored := ZranContextGenerator.store b.zranRecords
    b.header.sCiCompressedSize = UInt64.ofNat b.compressed.2 + UInt64.ofNat stored.2.1 ∧
      b.header.sCiUncompressedSize = UInt64.ofNat b.arrayLen + UInt64.ofNat stored.2.1 ∧
      b.header.sCiZranOffset = UInt64.ofNat b.compressed.2 ∧
      b.header.sCiZranSize = UInt64.ofNat stored.2.1 ∧ b.header.sCiZranCount = stored.2.2 := by
  unfold header dumpMetaData
  split <;> exact dumpMetaDataRaw_of_zran _ _ _ _ _ _ _ _ zran

theorem header_of_plain (plain : (b.features.toNat &&& BLOB_META_FEATURE_ZRAN != 0) = false) :
    b.header.sCiCompressedSize = UInt64.ofNat b.compressed.2 ∧
      b.header.sCiUncompressedSize = UInt64.ofNat b.arrayLen := by
  unfold header dumpMetaData
  split <;>
  · obtain ⟨compr, uncompr, -⟩ := dumpMetaDataRaw_of_plain _ _ _ _ _ _ _ (_ : Nat × UInt32) plain
    exact ⟨compr, uncompr⟩

end BlobBuild

/-! ## The checks of `validate` on a build's record -/

namespace BlobBuild

/-- A record that carries a build's blob meta, as `from_blob_info` writes it for the entry
`add` makes of the build. -/
structure Carries (b : BlobBuild) (r : RafsV6Blob) : Prop where
  flags : r.metaFeatures = b.header.sFeatures
  offset : r.ciOffset = b.header.sCiOffset
  compressedSize : r.ciCompressedSize = b.header.sCiCompressedSize
  uncompressedSize : r.ciUncompressedSize = b.header.sCiUncompressedSize
  zranOffset : r.ciZranOffset =
    if b.header.sFeatures.toNat &&& BLOB_META_FEATURE_ZRAN != 0 then b.header.sCiZranOffset else 0
  zranSize : r.ciZranSize =
    if b.header.sFeatures.toNat &&& BLOB_META_FEATURE_ZRAN != 0 then b.header.sCiZranSize else 0
  zranCount : r.ciZranCount =
    if b.header.sFeatures.toNat &&& BLOB_META_FEATURE_ZRAN != 0 then b.header.sCiZranCount else 0
  blobSize : r.compressedSize = b.compressedSize
  chunkCount : r.chunkCount = b.chunkCount

variable {b : BlobBuild} {r : RafsV6Blob}

theorem Carries.featuresValid (carries : b.Carries r) : r.featuresValid = true := by
  unfold RafsV6Blob.featuresValid
  rw [carries.flags, b.header_sFeatures]
  rcases b.features_cases with same | same | same | same <;> rw [same] <;> decide

/-- A small length keeps its value as a `u64`. -/
theorem toNat_ofNat_small {n : Nat} (small : n < 2 ^ 40) : (UInt64.ofNat n).toNat = n :=
  UInt64.toNat_ofNat_of_lt' (lt_of_lt_of_le small (by decide))

/-- An array the header calls embedded, V1 or V2: in the data blob after the chunks, or for
an estargz reference at the start of the meta file, which then fits in the blob's size. -/
theorem Carries.embedded (carries : b.Carries r) (within : b.WithinLimits)
    (same : b.features = 0 ∨ b.features = UInt32.ofNat BLOB_META_FEATURE_CHUNK_INFO_V2) :
    r.ciPlacementValid = true ∧ r.layoutValid = true := by
  have embedded : (b.features.toNat &&& BLOB_META_FEATURE_SEPARATE != 0) = false := by
    rcases same with same | same <;> rw [same] <;> decide
  have plain : (b.features.toNat &&& BLOB_META_FEATURE_ZRAN != 0) = false := by
    rcases same with same | same <;> rw [same] <;> decide
  obtain ⟨compr, uncompr⟩ := b.header_of_plain plain
  have buffered : b.compressed.2 ≤ b.arrayLen := b.compression.le
  have small := b.arrayLen_lt
  have bufNat := toNat_ofNat_small (n := b.compressed.2) (by omega)
  have arrayNat := toNat_ofNat_small (n := b.arrayLen) (by omega)
  have flags := carries.flags
  rw [b.header_sFeatures] at flags
  have embeddedBit : r.metaFeatures.toNat &&& BLOB_META_FEATURE_SEPARATE = 0 := by
    rw [flags]
    rcases same with same | same <;> rw [same] <;> decide
  have shrunk : r.ciCompressedSize.toNat ≤ r.ciUncompressedSize.toNat := by
    rw [carries.compressedSize, carries.uncompressedSize, compr, uncompr, bufNat, arrayNat]
    exact buffered
  constructor
  · rcases b.writer_cases with writer | writer
    · -- in the data blob, right after the chunks
      have atEnd : r.ciOffset = r.compressedSize := by
        rw [carries.offset, b.header_sCiOffset, writer, carries.blobSize]
        rfl
      apply RafsV6Blob.ciPlacementValid_of_embedded embeddedBit atEnd shrunk
      have blob := within.compressed
      rw [atEnd, carries.blobSize, carries.compressedSize, compr, bufNat]
      unfold BLOB_MAX_SIZE_COMPRESSED at blob
      unfold U64_LIMIT
      omega
    · -- an estargz reference: uncompressed, at the start of the meta file
      have atStart : r.ciOffset = 0 := by
        rw [carries.offset, b.header_sCiOffset, writer]
        rfl
      have unpacked : b.compressed.2 = b.arrayLen := by
        have compression := b.compression
        rw [writer] at compression
        exact compression.of_none
      apply RafsV6Blob.ciPlacementValid_of_front embeddedBit atStart shrunk
      rw [carries.compressedSize, compr, bufNat, unpacked, carries.blobSize]
      exact within.frontFits writer embedded
  · apply RafsV6Blob.layoutValid_of_exact (b.features.toNat &&& BLOB_META_FEATURE_CHUNK_INFO_V2 != 0)
    · rw [flags]
      rcases same with same | same <;> rw [same] <;> decide
    · rw [carries.uncompressedSize, uncompr, arrayNat, carries.chunkCount]
      rfl

/-- A separate array is written with no compressor, so it is the array itself. -/
theorem compressed_of_separate (separate : (b.features.toNat &&& BLOB_META_FEATURE_SEPARATE != 0) = true) :
    b.compressed.2 = b.arrayLen := by
  have compression := b.compression
  rw [b.writer_of_separate separate] at compression
  exact compression.of_none

/-- A V1 array in a file of its own: the stargz index builds. -/
theorem Carries.separate (carries : b.Carries r)
    (same : b.features = UInt32.ofNat BLOB_META_FEATURE_SEPARATE) :
    r.ciPlacementValid = true ∧ r.layoutValid = true := by
  have separate : (b.features.toNat &&& BLOB_META_FEATURE_SEPARATE != 0) = true := by
    rw [same]; decide
  have plain : (b.features.toNat &&& BLOB_META_FEATURE_ZRAN != 0) = false := by
    rw [same]; decide
  obtain ⟨compr, uncompr⟩ := b.header_of_plain plain
  have unpacked := b.compressed_of_separate separate
  have flags := carries.flags
  rw [b.header_sFeatures, same] at flags
  constructor
  · apply RafsV6Blob.ciPlacementValid_of_separate
    · rw [flags]; decide
    · rw [carries.offset, b.header_sCiOffset, b.writer_of_separate separate]
      rfl
    · rw [carries.compressedSize, carries.uncompressedSize, compr, uncompr, unpacked]
  · apply RafsV6Blob.layoutValid_of_exact false
    · rw [flags]; decide
    · have arrayNat := toNat_ofNat_small (n := b.arrayLen) (by have := b.arrayLen_lt; omega)
      rw [carries.uncompressedSize, uncompr, arrayNat, carries.chunkCount, arrayLen, same]
      rfl

/-- A V2 array with ZRan tables after it, in a file of its own: the targz reference builds. -/
theorem Carries.zran (carries : b.Carries r) (within : b.WithinLimits)
    (same : b.features = UInt32.ofNat (BLOB_META_FEATURE_CHUNK_INFO_V2 ||| BLOB_META_FEATURE_SEPARATE |||
      BLOB_META_FEATURE_ZRAN)) :
    r.ciPlacementValid = true ∧ r.layoutValid = true := by
  have separate : (b.features.toNat &&& BLOB_META_FEATURE_SEPARATE != 0) = true := by
    rw [same]; decide
  have zran : (b.features.toNat &&& BLOB_META_FEATURE_ZRAN != 0) = true := by
    rw [same]; decide
  obtain ⟨compr, uncompr, zranOffset, zranSize, zranCount⟩ := b.header_of_zran zran
  have unpacked := b.compressed_of_separate separate
  have flags := carries.flags
  rw [b.header_sFeatures, same] at flags
  have headerZran : (b.header.sFeatures.toNat &&& BLOB_META_FEATURE_ZRAN != 0) = true := by
    rw [b.header_sFeatures, same]; decide
  -- the sizes of the array and of the ZRan tables, as the header's `u64`s
  have arrayIs : b.arrayLen = b.chunkCount.toNat * CHUNK_INFO_V2_SIZE := by
    rw [arrayLen, same]; rfl
  have total := store_total_lt b.generated
  have array := b.arrayLen_lt
  have arrayNat := toNat_ofNat_small (n := b.arrayLen) (by omega)
  have totalNat := toNat_ofNat_small total
  have tables : (ZranContextGenerator.store b.zranRecords).2.1 =
      b.zranRecords.length * ZRAN_CONTEXT_SIZE + ZranContextGenerator.dictsLength b.zranRecords := by
    rw [ZranContextGenerator.store_eq]
  have counted : (ZranContextGenerator.store b.zranRecords).2.2 = UInt32.ofNat b.zranRecords.length := by
    rw [ZranContextGenerator.store_eq]
  have contexts : (UInt32.ofNat b.zranRecords.length).toNat = b.zranRecords.length :=
    UInt32.toNat_ofNat_of_lt' (lt_of_le_of_lt within.zranCount (by decide))
  constructor
  · apply RafsV6Blob.ciPlacementValid_of_separate
    · rw [flags]; decide
    · rw [carries.offset, b.header_sCiOffset, b.writer_of_separate separate]
      rfl
    · rw [carries.compressedSize, carries.uncompressedSize, compr, uncompr, unpacked]
  · apply RafsV6Blob.layoutValid_of_zran
    · rw [flags]; decide
    · rw [carries.uncompressedSize, uncompr, UInt64.toNat_add, arrayNat, totalNat, carries.chunkCount,
        ← arrayIs]
      omega
    · rw [carries.zranOffset, if_pos headerZran, zranOffset, unpacked, arrayNat, arrayIs,
        carries.chunkCount]
    · rw [carries.zranCount, carries.zranSize, if_pos headerZran, if_pos headerZran, zranCount,
        zranSize, totalNat, tables, counted, contexts]
      omega
    · rw [carries.zranCount, if_pos headerZran, zranCount, counted, contexts]
      exact within.zranCount

/-- A record that carries a build's blob meta passes the checks of `validate` on it. -/
theorem Carries.checks (carries : b.Carries r) (within : b.WithinLimits) :
    r.featuresValid = true ∧ r.ciPlacementValid = true ∧ r.layoutValid = true := by
  refine ⟨carries.featuresValid, ?_⟩
  rcases b.features_cases with same | same | same | same
  · exact carries.embedded within (.inl same)
  · exact carries.separate same
  · exact carries.embedded within (.inr same)
  · exact carries.zran within same

end BlobBuild

/-! ## The blob table of a build -/

open RafsV6BlobTable in
/-- The entry `add` makes of a build within the limits reloads at its index. -/
theorem BlobBuild.add_reloads {chunkSize : UInt32} (pow : ∃ k, 12 ≤ k ∧ k ≤ 24 ∧ chunkSize.toNat = 2 ^ k)
    (b : BlobBuild) (within : b.WithinLimits) (entries : List Storage.BlobInfo) :
    ∃ info, add entries b.blobId chunkSize b.chunkCount b.uncompressedSize b.compressedSize
      b.compressor b.digester b.header = entries ++ [info] ∧ Reloads chunkSize entries.length info := by
  refine ⟨_, add_eq .., _, dif_pos b.idLength, ?_, ?_⟩
  · have counted := b.chunkCountLe
    rw [RafsV6Blob.validate_eq_true]
    refine ⟨?_, rfl, RafsV6Blob.chunkSizeValid_of_pow rfl pow, ?_, ?_, within.uncompressed,
      within.compressed, rfl, ?_⟩
    · simp only [RafsV6Blob.blobIdValid, RafsV6Blob.fromUTF8?_data, beq_iff_eq]
      exact b.idLength
    · exact le_trans counted (by decide)
    · simp [RafsV6Blob.algorithmsValid]
    · exact BlobBuild.Carries.checks ⟨rfl, rfl, rfl, rfl, rfl, rfl, rfl, rfl, rfl⟩ within
  · refine RafsV6Blob.toBlobInfo_of_fromBlobInfo (dif_pos b.idLength)
      (BlobInfo.metaCiCompressorAlgorithm_toU32 (Compress.Algorithm.tryFrom_toU32 _)) ?_
    intro plain
    simp only [BlobInfo.hasFeature] at plain
    simp [plain]

open RafsV6BlobTable in
/-- The entries of a build's table reload at their indexes. The induction runs over the builds
with the table made so far generalised: each `add` appends one entry that reloads at the next
index. -/
theorem buildTable_reloads {chunkSize : UInt32} (pow : ∃ k, 12 ≤ k ∧ k ≤ 24 ∧ chunkSize.toNat = 2 ^ k) :
    ∀ (builds : List BlobBuild) (entries : List Storage.BlobInfo), (∀ b ∈ builds, b.WithinLimits) →
      (∀ i (h : i < entries.length), Reloads chunkSize i entries[i]) →
      let table := builds.foldl (fun entries b => add entries b.blobId chunkSize b.chunkCount
        b.uncompressedSize b.compressedSize b.compressor b.digester b.header) entries
      table.length = entries.length + builds.length ∧
        ∀ i (h : i < table.length), Reloads chunkSize i table[i]
  | [], entries, _, each => ⟨rfl, each⟩
  | b :: rest, entries, within, each => by
    obtain ⟨info, added, reloads⟩ := b.add_reloads pow (within b List.mem_cons_self) entries
    have grown : ∀ i (h : i < (entries ++ [info]).length), Reloads chunkSize i (entries ++ [info])[i] := by
      intro i h
      rw [List.length_append, List.length_singleton] at h
      rcases Nat.lt_succ_iff_lt_or_eq.mp h with old | new
      · rw [List.getElem_append_left old]
        exact each i old
      · subst new
        simpa using reloads
    have later := buildTable_reloads pow rest (entries ++ [info])
      (fun b' mem => within b' (List.mem_cons_of_mem b mem)) grown
    simp only [List.foldl_cons, added]
    refine ⟨?_, later.2⟩
    rw [later.1, List.length_append, List.length_singleton, List.length_cons]
    omega

open RafsV6BlobTable in
/-- `store` then `load` gives back a build's table: at most 256 blobs, as `alloc_index`
allows, each within the limits of `validate`. -/
theorem blobTable_store_load {chunkSize : UInt32} (pow : ∃ k, 12 ≤ k ∧ k ≤ 24 ∧ chunkSize.toNat = 2 ^ k)
    (builds : List BlobBuild) (fewBlobs : builds.length ≤ 256) (within : ∀ b ∈ builds, b.WithinLimits) :
    ∃ records, store (buildTable chunkSize builds) = .ok records ∧
      load records (UInt32.ofNat (size (buildTable chunkSize builds))) chunkSize =
        .ok (buildTable chunkSize builds) := by
  obtain ⟨length, each⟩ := buildTable_reloads pow builds [] within (fun _ h => absurd h (by simp))
  apply load_store _ each
  unfold size RAFS_V6_BLOB_SIZE
  rw [length, List.length_nil, Nat.zero_add]
  omega

open RafsV6BlobTable in
theorem blobTable_reload_and_header :
    (∀ (chunkSize : UInt32) (builds : List BlobBuild), (∃ k, 12 ≤ k ∧ k ≤ 24 ∧ chunkSize.toNat = 2 ^ k) →
      builds.length ≤ 256 → (∀ b ∈ builds, b.WithinLimits) →
      ∃ records, store (buildTable chunkSize builds) = .ok records ∧
        load records (UInt32.ofNat (size (buildTable chunkSize builds))) chunkSize =
          .ok (buildTable chunkSize builds)) ∧
    (∀ (r : RafsV6Blob) (blobIndex chunkSize : UInt32), r.validate blobIndex chunkSize = true →
      0 < r.chunkCount.toNat →
      (r.metaFeatures.toNat &&& BLOB_META_FEATURE_ZRAN ≠ 0 →
        r.ciZranCount.toNat ≤ r.chunkCount.toNat ∧
        r.ciZranOffset.toNat + r.ciZranSize.toNat ≤ r.ciUncompressedSize.toNat) →
      ∃ info, r.toBlobInfo = .ok info ∧
        (validateHeader .debug info info.header = .ok true ∨
          U64_LIMIT ≤ r.ciUncompressedSize.toNat + 0xfff ∧
            validateHeader .debug info info.header = .error .overflow)) :=
  ⟨fun _ builds pow fewBlobs within => blobTable_store_load pow builds fewBlobs within,
    fun _ _ _ valid chunks zranFits => validateHeader_of_validate valid chunks zranFits⟩

/-- A targz reference build: two chunks, V2 entries and the two ZRan records `twoRecords` in a
file of their own. -/
def zranBuild : BlobBuild where
  blobId := "0123456789abcdef0123456789abcdef0123456789abcdef0123456789abcdef"
  chunkCount := 2
  uncompressedSize := 0x2000
  compressedSize := 0x800
  compressor := .gZip
  digester := .sha256
  features := UInt32.ofNat (BLOB_META_FEATURE_CHUNK_INFO_V2 ||| BLOB_META_FEATURE_SEPARATE |||
    BLOB_META_FEATURE_ZRAN)
  blobWriter := none
  compressed := (false, 48)
  zranRecords := twoRecords
  idLength := by decide
  chunkCountLe := by decide
  selected := by decide
  separate := by decide
  afterChunks := by
    intro pos written
    cases written
  compression := rfl
  generated := ⟨by decide, by decide⟩

/-- The record of a ZRan blob of two chunks: 48 bytes of V2 entries, then two contexts and
three dictionary bytes. -/
def zranRecord : RafsV6Blob where
  blobId := Vector.replicate BLOB_SHA256_LEN 0x61
  blobIndex := 0
  chunkSize := 0x1000
  chunkCount := 2
  compressionAlgo := Compress.Algorithm.gZip.toU32
  digestAlgo := Digest.Algorithm.sha256.toU32
  metaFeatures := 0xf
  compressedSize := 0x800
  uncompressedSize := 0x2000
  ciCompressor := 0
  ciOffset := 0
  ciCompressedSize := 131
  ciUncompressedSize := 131
  ciDigest := Vector.replicate 32 0
  ciZranOffset := 48
  ciZranSize := 83
  ciZranCount := 2

open RafsV6BlobTable in
theorem blobTable_reload_and_header_zran :
    (∃ records, store (buildTable 0x1000 [zranBuild]) = .ok records ∧
      load records (UInt32.ofNat (size (buildTable 0x1000 [zranBuild]))) 0x1000 =
        .ok (buildTable 0x1000 [zranBuild])) ∧
    ∃ info, zranRecord.toBlobInfo = .ok info ∧
      (validateHeader .debug info info.header = .ok true ∨
        U64_LIMIT ≤ zranRecord.ciUncompressedSize.toNat + 0xfff ∧
          validateHeader .debug info info.header = .error .overflow) :=
  ⟨blobTable_reload_and_header.1 0x1000 [zranBuild] ⟨12, by decide, by decide, by decide⟩ (by decide)
      (by simpa using (⟨by decide, by decide, by decide,
          fun _ embedded => absurd embedded (by decide)⟩ : zranBuild.WithinLimits)),
    blobTable_reload_and_header.2 zranRecord 0 0x1000 (by decide) (by decide)
      (fun _ => ⟨by decide, by decide⟩)⟩

/-- A directory build of a blob just over 1 TiB: 65537 chunks of 16 MiB, stored whole. -/
def hugeBuild : BlobBuild where
  blobId := "0123456789abcdef0123456789abcdef0123456789abcdef0123456789abcdef"
  chunkCount := 65537
  uncompressedSize := 0x100_0100_0000
  compressedSize := 0x100_0100_0000
  compressor := .zstd
  digester := .blake3
  features := UInt32.ofNat BLOB_META_FEATURE_CHUNK_INFO_V2
  blobWriter := some 0x100_0100_0000
  compressed := (false, 65537 * 24)
  zranRecords := []
  idLength := by decide
  chunkCountLe := by decide
  selected := by decide
  separate := by decide
  afterChunks := by
    intro pos written
    cases written
    rfl
  compression := rfl
  generated := ⟨by decide, by decide⟩

/-- A record with no chunk and an empty V1 array. -/
def emptyRecord : RafsV6Blob where
  blobId := Vector.replicate BLOB_SHA256_LEN 0x61
  blobIndex := 0
  chunkSize := 0x1000
  chunkCount := 0
  compressionAlgo := 0
  digestAlgo := 0
  metaFeatures := 0x1
  compressedSize := 0
  uncompressedSize := 0
  ciCompressor := 0
  ciOffset := 0
  ciCompressedSize := 0
  ciUncompressedSize := 0
  ciDigest := Vector.replicate 32 0
  ciZranOffset := 0
  ciZranSize := 0
  ciZranCount := 0

/-- A ZRan record of one chunk with two contexts. -/
def crowdedZranRecord : RafsV6Blob where
  blobId := Vector.replicate BLOB_SHA256_LEN 0x61
  blobIndex := 0
  chunkSize := 0x1000
  chunkCount := 1
  compressionAlgo := Compress.Algorithm.gZip.toU32
  digestAlgo := Digest.Algorithm.sha256.toU32
  metaFeatures := 0xf
  compressedSize := 0x800
  uncompressedSize := 0x1000
  ciCompressor := 0
  ciOffset := 0
  ciCompressedSize := 104
  ciUncompressedSize := 104
  ciDigest := Vector.replicate 32 0
  ciZranOffset := 24
  ciZranSize := 80
  ciZranCount := 2

/-- An estargz reference build: two chunks, whose V1 entries go at the start of the meta file,
in a blob of sixteen compressed bytes. -/
def estargzRefBuild : BlobBuild where
  blobId := "0123456789abcdef0123456789abcdef0123456789abcdef0123456789abcdef"
  chunkCount := 2
  uncompressedSize := 0x2000
  compressedSize := 0x10
  compressor := .gZip
  digester := .sha256
  features := 0
  blobWriter := none
  compressed := (false, 32)
  zranRecords := []
  idLength := by decide
  chunkCountLe := by decide
  selected := by decide
  separate := by decide
  afterChunks := by
    intro pos written
    cases written
  compression := rfl
  generated := ⟨by decide, by decide⟩

/-- A ZRan record of one chunk whose context table ends 80 bytes past its 24-byte info area. -/
def outsideZranRecord : RafsV6Blob where
  blobId := Vector.replicate BLOB_SHA256_LEN 0x61
  blobIndex := 0
  chunkSize := 0x1000
  chunkCount := 1
  compressionAlgo := Compress.Algorithm.gZip.toU32
  digestAlgo := Digest.Algorithm.sha256.toU32
  metaFeatures := 0xf
  compressedSize := 0x800
  uncompressedSize := 0x1000
  ciCompressor := 0
  ciOffset := 0
  ciCompressedSize := 24
  ciUncompressedSize := 24
  ciDigest := Vector.replicate 32 0
  ciZranOffset := 24
  ciZranSize := 80
  ciZranCount := 1

/-- A ZRan record of one chunk whose info area is `u64::MAX` bytes. -/
def hugeAreaRecord : RafsV6Blob where
  blobId := Vector.replicate BLOB_SHA256_LEN 0x61
  blobIndex := 0
  chunkSize := 0x1000
  chunkCount := 1
  compressionAlgo := Compress.Algorithm.gZip.toU32
  digestAlgo := Digest.Algorithm.sha256.toU32
  metaFeatures := 0xf
  compressedSize := 0x800
  uncompressedSize := 0x1000
  ciCompressor := 0
  ciOffset := 0
  ciCompressedSize := 0xFFFF_FFFF_FFFF_FFFF
  ciUncompressedSize := 0xFFFF_FFFF_FFFF_FFFF
  ciDigest := Vector.replicate 32 0
  ciZranOffset := 24
  ciZranSize := 0
  ciZranCount := 0

open RafsV6BlobTable in
/-- The build's table need not reload: a blob over 1 TiB fails `validate`, and so does an
estargz reference whose array is longer than its blob, since `validate` takes an array at
offset 0 that the header calls embedded for one inside the blob. And a record `validate`
accepts need not pass `validate_header`: not with no chunk, nor with more ZRan contexts than
chunks, nor with ZRan tables past the info area, which `validate` does not bound; and an info
area of `u64::MAX` bytes makes `round_up_4k` overflow, which panics in a debug build. -/
theorem blobTable_reload_and_header_counterexample :
    (store (buildTable 0x100_0000 [hugeBuild]) >>= fun records =>
      load records (UInt32.ofNat (size (buildTable 0x100_0000 [hugeBuild]))) 0x100_0000) =
        .error .invalidEntry ∧
    (store (buildTable 0x1000 [estargzRefBuild]) >>= fun records =>
      load records (UInt32.ofNat (size (buildTable 0x1000 [estargzRefBuild]))) 0x1000) =
        .error .invalidEntry ∧
    emptyRecord.validate 0 0x1000 = true ∧
      (∃ info, emptyRecord.toBlobInfo = .ok info ∧
        validateHeader .debug info info.header = .error (.invalidChunkCount 0)) ∧
    crowdedZranRecord.validate 0 0x1000 = true ∧
      (∃ info, crowdedZranRecord.toBlobInfo = .ok info ∧
        validateHeader .debug info info.header = .error .zranCountTooBig) ∧
    outsideZranRecord.validate 0 0x1000 = true ∧
      (∃ info, outsideZranRecord.toBlobInfo = .ok info ∧
        validateHeader .debug info info.header = .error .invalidZran) ∧
    hugeAreaRecord.validate 0 0x1000 = true ∧
      (∃ info, hugeAreaRecord.toBlobInfo = .ok info ∧
        validateHeader .debug info info.header = .error .overflow) :=
  ⟨by decide, by decide, by decide, ⟨_, rfl, by decide⟩, by decide, ⟨_, rfl, by decide⟩, by decide,
    ⟨_, rfl, by decide⟩, by decide, ⟨_, rfl, by decide⟩⟩

end Nydus
