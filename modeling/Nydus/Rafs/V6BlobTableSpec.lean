import Mathlib
import Nydus.Builder.BlobMeta
import Nydus.Lib.Except

/-!
# Storing and loading the v6 blob table

A blob info comes back from its record when its CI compressor value names an algorithm and
its ZRan fields are zero unless it is a ZRan blob (`toBlobInfo_of_fromBlobInfo`); every entry
`RafsV6BlobTable::add` makes is such a blob info (`add_eq`). `load` reads back what `store`
writes as soon as every record passes `validate` at its index (`load_store`).

`validate` is stated as the conjunction of its checks (`validate_eq_true`), and each check
that the builder's records and the meta header check rely on has its own lemma. A record
`validate` accepts passes the size checks of `BlobMetaInfo::validate_header` once it has a
chunk and, for ZRan, its tables lie in an info area that rounds up within `u64`
(`validateHeader_of_validate`): `validate` checks neither.
-/

namespace Nydus

open Storage

namespace RafsV6Blob

/-- The bytes of a string are UTF-8 of the string. -/
theorem fromUTF8?_data (s : String) : String.fromUTF8? ⟨s.toByteArray.data⟩ = some s := by
  rw [String.fromUTF8?, dif_pos s.isValidUTF8]
  rfl

/-- A blob info reads back from its record when its CI compressor value names an algorithm
and, unless it is a ZRan blob, its ZRan fields are zero as `to_blob_info` leaves them. -/
theorem toBlobInfo_of_fromBlobInfo {b : Storage.BlobInfo} {r : RafsV6Blob} (stored : fromBlobInfo b = .ok r)
    (named : b.metaCiCompressorAlgorithm.toU32 = b.metaCiCompressor)
    (zranFree : b.hasFeature BLOB_META_FEATURE_ZRAN = false →
      b.metaCiZranOffset = 0 ∧ b.metaCiZranSize = 0 ∧ b.metaCiZranCount = 0) :
    r.toBlobInfo = .ok b := by
  unfold fromBlobInfo at stored
  split at stored
  · cases stored
    simp only [toBlobInfo, fromUTF8?_data, Compress.Algorithm.tryFrom_toU32,
      Digest.Algorithm.tryFrom_toU32, named]
    split
    · rfl
    · next notZran =>
      obtain ⟨offset, size, count⟩ := zranFree (eq_false_of_ne_true notZran)
      cases b
      subst offset size count
      rfl
  · cases stored

end RafsV6Blob

namespace RafsV6BlobTable

/-- An entry that `store` writes and that `load` accepts and reads back as itself at index
`idx` of an image of `chunkSize`. -/
def Reloads (chunkSize : UInt32) (idx : Nat) (b : Storage.BlobInfo) : Prop :=
  ∃ r, RafsV6Blob.fromBlobInfo b = .ok r ∧ r.validate (UInt32.ofNat idx) chunkSize = true ∧
    r.toBlobInfo = .ok b

/-- The run of `load`: entries that reload at their indexes come back from the records `store`
writes for them. The induction is on the entries, with the index of the first generalised. -/
theorem loadEntries_store (chunkSize : UInt32) : ∀ (entries : List Storage.BlobInfo) (idx : Nat),
    (∀ i (h : i < entries.length), Reloads chunkSize (idx + i) entries[i]) →
    ∃ records, store entries = .ok records ∧
      loadEntries chunkSize idx entries.length records = .ok entries
  | [], _, _ => ⟨[], rfl, rfl⟩
  | b :: rest, idx, each => by
    obtain ⟨r, stored, valid, read⟩ := each 0 (Nat.zero_lt_succ _)
    simp only [List.getElem_cons_zero, Nat.add_zero] at stored valid read
    have later : ∀ i (h : i < rest.length), Reloads chunkSize (idx + 1 + i) rest[i] := by
      intro i h
      have shifted := each (i + 1) (Nat.succ_lt_succ h)
      rwa [← Nat.add_assoc, Nat.add_right_comm] at shifted
    obtain ⟨records, storedRest, loaded⟩ := loadEntries_store chunkSize rest (idx + 1) later
    refine ⟨r :: records, ?_, ?_⟩
    · unfold store at storedRest ⊢
      rw [List.mapM_cons, stored, Except.ok_bind, storedRest]
      rfl
    · rw [List.length_cons, loadEntries]
      simp [valid, read, loaded]

/-- `load` of the records `store` writes, with the table size `store` reports, is the table
again when every entry reloads at its index. -/
theorem load_store {chunkSize : UInt32} {entries : List Storage.BlobInfo} (fits : size entries < 2 ^ 32)
    (each : ∀ i (h : i < entries.length), Reloads chunkSize i entries[i]) :
    ∃ records, store entries = .ok records ∧
      load records (UInt32.ofNat (size entries)) chunkSize = .ok entries := by
  obtain ⟨records, stored, loaded⟩ :=
    loadEntries_store chunkSize entries 0 (by simpa only [Nat.zero_add] using each)
  refine ⟨records, stored, ?_⟩
  have sized : (UInt32.ofNat (size entries)).toNat = entries.length * RAFS_V6_BLOB_SIZE := by
    rw [UInt32.toNat_ofNat', Nat.mod_eq_of_lt fits]
    rfl
  unfold load
  split
  · next empty =>
    have : entries.length * RAFS_V6_BLOB_SIZE = 0 := by rw [← sized, empty]; rfl
    have none : entries = [] := List.eq_nil_of_length_eq_zero (by simpa [RAFS_V6_BLOB_SIZE] using this)
    rw [none]
  · rw [sized, Nat.mul_mod_left, if_neg (by simp), Nat.mul_div_cancel _ (by decide)]
    exact loaded

/-- The entry `add` appends: the blob's own fields and the header's blob meta, the ZRan
fields only for a ZRan header. -/
theorem add_eq (entries : List Storage.BlobInfo) (blobId : String) (chunkSize chunkCount : UInt32)
    (uncompressedSize compressedSize : UInt64) (compressor : Compress.Algorithm)
    (digester : Digest.Algorithm) (header : BlobMetaHeaderOndisk) :
    let zran := header.sFeatures.toNat &&& BLOB_META_FEATURE_ZRAN != 0
    add entries blobId chunkSize chunkCount uncompressedSize compressedSize compressor digester header =
      entries ++ [⟨UInt32.ofNat entries.length, blobId, compressedSize, uncompressedSize, chunkSize,
        chunkCount, compressor, digester, header.sFeatures, header.ciCompressor.toU32,
        header.sCiOffset, header.sCiCompressedSize, header.sCiUncompressedSize,
        if zran then header.sCiZranOffset else 0, if zran then header.sCiZranSize else 0,
        if zran then header.sCiZranCount else 0⟩] := by
  intro zran
  unfold add
  split <;> rfl

end RafsV6BlobTable

namespace RafsV6Blob

/-- What `validate` checks, as propositions. -/
theorem validate_eq_true {r : RafsV6Blob} {blobIndex chunkSize : UInt32} :
    r.validate blobIndex chunkSize = true ↔
      r.blobIdValid = true ∧ r.blobIndex = blobIndex ∧ r.chunkSizeValid chunkSize = true ∧
      r.chunkCount.toNat ≤ RAFS_MAX_CHUNKS_PER_BLOB ∧ r.algorithmsValid = true ∧
      r.uncompressedSize.toNat ≤ BLOB_MAX_SIZE_UNCOMPRESSED ∧
      r.compressedSize.toNat ≤ BLOB_MAX_SIZE_COMPRESSED ∧ r.ciDigest = Vector.replicate 32 0 ∧
      r.featuresValid = true ∧ r.ciPlacementValid = true ∧ r.layoutValid = true := by
  simp only [validate, Bool.and_eq_true, beq_iff_eq, Bool.not_eq_eq_eq_not, Bool.not_true,
    decide_eq_false_iff_not, not_lt, and_assoc]

/-- The blob info `to_blob_info` makes of a record whose id and algorithms pass `validate`:
the record's chunk count and blob meta, the ZRan fields for a ZRan blob. -/
theorem toBlobInfo_of_valid {r : RafsV6Blob} (ids : r.blobIdValid = true)
    (algos : r.algorithmsValid = true) :
    ∃ info, r.toBlobInfo = .ok info ∧ info.chunkCount = r.chunkCount ∧
      info.metaFlags = r.metaFeatures ∧ info.metaCiUncompressedSize = r.ciUncompressedSize ∧
      (info.hasFeature BLOB_META_FEATURE_ZRAN = true →
        info.metaCiZranOffset = r.ciZranOffset ∧ info.metaCiZranSize = r.ciZranSize ∧
        info.metaCiZranCount = r.ciZranCount) := by
  unfold blobIdValid at ids
  split at ids
  · next blobId named =>
    simp only [algorithmsValid, Bool.not_or, Bool.and_eq_true, Bool.not_eq_true',
      Option.isNone_eq_false_iff, Option.isSome_iff_exists] at algos
    obtain ⟨⟨⟨comp, compressed⟩, -⟩, ⟨digest, digested⟩⟩ := algos
    unfold toBlobInfo
    simp only [named, compressed, digested]
    split
    · exact ⟨_, rfl, rfl, rfl, rfl, fun _ => ⟨rfl, rfl, rfl⟩⟩
    · next plain => exact ⟨_, rfl, rfl, rfl, rfl, fun zran => absurd zran plain⟩
  · cases ids

/-- A power of two from 4 KiB to 16 MiB passes the chunk size check. -/
theorem chunkSizeValid_of_pow {r : RafsV6Blob} {chunkSize : UInt32} (same : r.chunkSize = chunkSize)
    (pow : ∃ k, 12 ≤ k ∧ k ≤ 24 ∧ chunkSize.toNat = 2 ^ k) : r.chunkSizeValid chunkSize = true := by
  obtain ⟨k, lo, hi, eq⟩ := pow
  simp only [chunkSizeValid, same, eq]
  interval_cases k <;> decide

/-- A separate array passes the placement check: uncompressed, at offset 0. -/
theorem ciPlacementValid_of_separate {r : RafsV6Blob}
    (separate : r.metaFeatures.toNat &&& BLOB_META_FEATURE_SEPARATE ≠ 0) (atStart : r.ciOffset = 0)
    (same : r.ciCompressedSize = r.ciUncompressedSize) : r.ciPlacementValid = true := by
  have small := r.ciUncompressedSize.toNat_lt
  simp [ciPlacementValid, separate, atStart, same, U64_LIMIT]
  omega

/-- An array at the end of the blob, no bigger compressed, passes the placement check. -/
theorem ciPlacementValid_of_embedded {r : RafsV6Blob}
    (embedded : r.metaFeatures.toNat &&& BLOB_META_FEATURE_SEPARATE = 0)
    (atEnd : r.ciOffset = r.compressedSize)
    (shrunk : r.ciCompressedSize.toNat ≤ r.ciUncompressedSize.toNat)
    (noWrap : r.ciOffset.toNat + r.ciCompressedSize.toNat < U64_LIMIT) : r.ciPlacementValid = true := by
  rw [atEnd] at noWrap
  simp [ciPlacementValid, embedded, atEnd, shrunk]
  omega

/-- An array at the start of its file that the flags call embedded passes the placement check
when it is no longer, compressed, than the blob. -/
theorem ciPlacementValid_of_front {r : RafsV6Blob}
    (embedded : r.metaFeatures.toNat &&& BLOB_META_FEATURE_SEPARATE = 0) (atStart : r.ciOffset = 0)
    (shrunk : r.ciCompressedSize.toNat ≤ r.ciUncompressedSize.toNat)
    (inBlob : r.ciCompressedSize.toNat ≤ r.compressedSize.toNat) : r.ciPlacementValid = true := by
  have small := r.compressedSize.toNat_lt
  simp [ciPlacementValid, embedded, atStart, shrunk, U64_LIMIT]
  omega

/-- An array of one entry of its layout per chunk passes the layout check. -/
theorem layoutValid_of_exact {r : RafsV6Blob} (v2 : Bool)
    (masked : r.metaFeatures.toNat &&& (BLOB_META_FEATURE_CHUNK_INFO_V2 ||| BLOB_META_FEATURE_ZRAN) =
      if v2 then 0x4 else 0)
    (size : r.ciUncompressedSize.toNat =
      r.chunkCount.toNat * (if v2 then CHUNK_INFO_V2_SIZE else CHUNK_INFO_V1_SIZE)) :
    r.layoutValid = true := by
  cases v2 <;> simp_all [layoutValid]

/-- V2 entries with ZRan tables after them, whose contexts fit, pass the layout check. -/
theorem layoutValid_of_zran {r : RafsV6Blob}
    (masked : r.metaFeatures.toNat &&& (BLOB_META_FEATURE_CHUNK_INFO_V2 ||| BLOB_META_FEATURE_ZRAN) = 0xc)
    (size : r.chunkCount.toNat * CHUNK_INFO_V2_SIZE ≤ r.ciUncompressedSize.toNat)
    (offset : r.ciZranOffset.toNat = r.chunkCount.toNat * CHUNK_INFO_V2_SIZE)
    (fits : r.ciZranCount.toNat * ZRAN_CONTEXT_SIZE ≤ r.ciZranSize.toNat)
    (count : r.ciZranCount.toNat ≤ RAFS_MAX_CHUNKS_PER_BLOB) : r.layoutValid = true := by
  simp [layoutValid, masked, offset, Nat.not_lt.mpr size, Nat.not_lt.mpr fits, Nat.not_lt.mpr count]

/-! The layout check read the other way, for the meta header check. -/

/-- What the layout check says of a ZRan record: the tables follow the V2 entries, and the
contexts fit in their size. -/
theorem zran_of_layout {r : RafsV6Blob} (laid : r.layoutValid = true)
    (zran : r.metaFeatures.toNat &&& BLOB_META_FEATURE_ZRAN ≠ 0) :
    r.chunkCount.toNat * CHUNK_INFO_V2_SIZE ≤ r.ciUncompressedSize.toNat ∧
      r.ciZranOffset.toNat = r.chunkCount.toNat * CHUNK_INFO_V2_SIZE ∧
      r.ciZranCount.toNat * ZRAN_CONTEXT_SIZE ≤ r.ciZranSize.toNat := by
  have inMask : BLOB_META_FEATURE_ZRAN &&& 0xc = BLOB_META_FEATURE_ZRAN := by decide
  unfold layoutValid at laid
  split at laid
  · simp only [Bool.and_eq_true, Bool.not_eq_eq_eq_not, Bool.not_true, decide_eq_false_iff_not,
      beq_iff_eq, not_lt] at laid
    exact ⟨laid.1.1.1, laid.1.1.2, laid.1.2⟩
  -- the V2 and V1 layouts have the ZRan bit clear
  · next masked =>
    have bit := and_feature_of_masked masked inMask
    exact absurd (bit.trans (by decide)) zran
  · next masked =>
    have bit := and_feature_of_masked masked inMask
    exact absurd (bit.trans (by decide)) zran
  · cases laid

/-- The layout check gives the size rule of the meta header check. -/
theorem checkInfoSize_of_layout {r : RafsV6Blob} (laid : r.layoutValid = true)
    (count : r.chunkCount.toNat ≤ RAFS_MAX_CHUNKS_PER_BLOB) :
    checkInfoSize r.metaFeatures.toNat r.chunkCount.toNat r.ciUncompressedSize.toNat
      (roundUp4k r.ciUncompressedSize.toNat) = .ok () := by
  unfold layoutValid at laid
  split at laid
  -- The check's match is on the same flags as the layout's: each branch unfolds the check
  -- only now, so that `split` cannot have split it with the layout's, and rewrites it.
  · next masked =>
    simp only [Bool.and_eq_true, Bool.not_eq_eq_eq_not, Bool.not_true, decide_eq_false_iff_not] at laid
    unfold checkInfoSize
    rw [masked]
    exact if_neg laid.1.1.1
  · next masked =>
    have exact : r.ciUncompressedSize.toNat = r.chunkCount.toNat * CHUNK_INFO_V2_SIZE := by
      simpa using laid
    have aligned := @roundUp4k_le_max _ CHUNK_INFO_V2_SIZE count
    unfold checkInfoSize
    rw [masked]
    refine if_neg (not_or.mpr ⟨fun differs => differs exact, Nat.not_lt.mpr ?_⟩)
    rw [exact]
    exact aligned
  · next masked =>
    have exact : r.ciUncompressedSize.toNat = r.chunkCount.toNat * CHUNK_INFO_V1_SIZE := by
      simpa using laid
    have aligned := @roundUp4k_le_max _ CHUNK_INFO_V1_SIZE count
    unfold checkInfoSize
    rw [masked]
    refine if_neg (not_or.mpr ⟨fun differs => differs exact, Nat.not_lt.mpr ?_⟩)
    rw [exact]
    exact aligned
  · cases laid

end RafsV6Blob

open RafsV6Blob in
/-- A record `validate` accepts passes the checks of `validate_header` in a debug build, for
its blob info and the header that blob info describes, once it has a chunk and, for ZRan, at
most one context per chunk and tables that end within the info area; unless its info area is
so large that `round_up_4k` overflows, and the debug build panics. -/
theorem validateHeader_of_validate {r : RafsV6Blob} {blobIndex chunkSize : UInt32}
    (valid : r.validate blobIndex chunkSize = true) (chunks : 0 < r.chunkCount.toNat)
    (zranFits : r.metaFeatures.toNat &&& BLOB_META_FEATURE_ZRAN ≠ 0 →
      r.ciZranCount.toNat ≤ r.chunkCount.toNat ∧
      r.ciZranOffset.toNat + r.ciZranSize.toNat ≤ r.ciUncompressedSize.toNat) :
    ∃ info, r.toBlobInfo = .ok info ∧
      (validateHeader .debug info info.header = .ok true ∨
        U64_LIMIT ≤ r.ciUncompressedSize.toNat + 0xfff ∧
          validateHeader .debug info info.header = .error .overflow) := by
  obtain ⟨ids, -, -, count, algos, -, -, -, -, -, laid⟩ := validate_eq_true.mp valid
  obtain ⟨info, read, chunkCount, flags, uncompr, zranFields⟩ := toBlobInfo_of_valid ids algos
  refine ⟨info, read, ?_⟩
  have sized := checkInfoSize_of_layout laid count
  have areaIs : info.header.sCiUncompressedSize = r.ciUncompressedSize := uncompr
  have agrees : ¬(info.hasFeature BLOB_META_FEATURE_ZRAN = true ∧
      info.zranDiffers info.header = true) := by
    rintro ⟨zran, differs⟩
    rw [info.zranDiffers_header zran] at differs
    cases differs
  have counted : ¬(info.chunkCount.toNat = 0 ∨ info.chunkCount.toNat > RAFS_MAX_CHUNKS_PER_BLOB) := by
    rw [chunkCount]
    omega
  unfold validateHeader
  simp only [info.headerDiffers_header, Bool.false_eq_true, if_false]
  rw [if_neg agrees, if_neg counted, areaIs]
  -- The header check first rounds the info area up, in `u64`.
  by_cases fits : r.ciUncompressedSize.toNat + 0xfff < U64_LIMIT
  · left
    rw [roundUp4kUsize_debug fits, Except.ok_bind, flags, chunkCount, sized, Except.ok_bind]
    split
    · next zran =>
      have zranBit : r.metaFeatures.toNat &&& BLOB_META_FEATURE_ZRAN ≠ 0 := by
        simpa [BlobInfo.hasFeature, flags] using zran
      obtain ⟨contexts, tables⟩ := zranFits zranBit
      obtain ⟨-, placed, packed⟩ := zran_of_layout laid zranBit
      obtain ⟨offset, size, zranCount⟩ := zranFields zran
      have noWrap : r.chunkCount.toNat * CHUNK_INFO_V2_SIZE + r.ciZranSize.toNat < U64_LIMIT := by
        omega
      unfold checkZran
      simp only [offset, size, zranCount, placed, ne_eq, not_true_eq_false, if_false, add64,
        if_pos noWrap, Except.ok_bind]
      rw [if_neg (by omega), if_neg (by omega), if_neg (by omega)]
    · rfl
  · right
    refine ⟨Nat.le_of_not_lt fits, ?_⟩
    simp only [roundUp4kUsize, add64, if_neg fits]
    rfl

end Nydus
