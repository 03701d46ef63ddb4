import Mathlib
import Nydus.Storage.MetaHeader
import Nydus.Builder.V6Dir

/-!
# The RAFS v6 blob table

A RAFS v6 bootstrap describes its data blobs in a table of 256-byte `RafsV6Blob` records
(`rafs/src/metadata/layout/v6.rs`). `RafsV6BlobTable::add` makes the `BlobInfo` of the next
blob from what the builder knows of it and from its blob meta header;
`RafsV6BlobTable::store` writes each entry as a record (`RafsV6Blob::from_blob_info`), and
`RafsV6BlobTable::load` reads the records back, refuses the first one `RafsV6Blob::validate`
rejects, and turns each into a `BlobInfo` again (`RafsV6Blob::to_blob_info`).

Records are modelled field by field: their byte layout, the reserved fields and the
`RafsSuperFlags` argument `validate` does not read are left out. `validate` is the
conjunction of its checks in the source's order; an early `return false` there only chooses
the message it logs.
-/

namespace Nydus

open Storage

/-- `BLOB_SHA256_LEN`, `BLOB_MAX_SIZE_UNCOMPRESSED` and `BLOB_MAX_SIZE_COMPRESSED`. -/
def BLOB_SHA256_LEN : Nat := 64
def BLOB_MAX_SIZE_UNCOMPRESSED : Nat := 1 <<< 44
def BLOB_MAX_SIZE_COMPRESSED : Nat := 1 <<< 40

/-- `size_of::<RafsV6Blob>()`. -/
def RAFS_V6_BLOB_SIZE : Nat := 256

/-- `count_ones` of a `u64`. -/
def countOnes64 (x : Nat) : Nat := (List.range 64).countP x.testBit

/-- `RafsV6Blob`, little-endian on disk, without its reserved fields. -/
structure RafsV6Blob where
  blobId : Vector UInt8 BLOB_SHA256_LEN
  blobIndex : UInt32
  chunkSize : UInt32
  chunkCount : UInt32
  compressionAlgo : UInt32
  digestAlgo : UInt32
  metaFeatures : UInt32
  compressedSize : UInt64
  uncompressedSize : UInt64
  ciCompressor : UInt32
  ciOffset : UInt64
  ciCompressedSize : UInt64
  ciUncompressedSize : UInt64
  ciDigest : Vector UInt8 32
  ciZranOffset : UInt64
  ciZranSize : UInt64
  ciZranCount : UInt32
deriving DecidableEq, Repr

/-- The errors of the blob table: its `einval!` errors, whose messages the docstrings quote,
and the reader running out of records. -/
inductive BlobTableError where
  /-- `"invalid blob id, {}"`. -/
  | invalidBlobId
  /-- `"invalid compression algorithm in Rafs v6 blob entry"`. -/
  | invalidCompressionAlgorithm
  /-- `"invalid digest algorithm in Rafs v6 blob entry"`. -/
  | invalidDigestAlgorithm
  /-- `"invalid blob id in blob info, {}"`. -/
  | invalidBlobIdInBlobInfo
  /-- `"invalid Rafs v6 blob table size {}"`. -/
  | invalidTableSize
  /-- `read_exact` past the end of the bootstrap. -/
  | unexpectedEof
  /-- `"invalid Rafs v6 blob entry"`. -/
  | invalidEntry
deriving DecidableEq, Repr

namespace RafsV6Blob

/-- `RafsV6Blob::to_blob_info`: the ZRan fields are read only for a ZRan blob. -/
def toBlobInfo (r : RafsV6Blob) : Except BlobTableError Storage.BlobInfo := do
  let some blobId := String.fromUTF8? ⟨r.blobId.toArray⟩ | .error .invalidBlobId
  let blobInfo := BlobInfo.new r.blobIndex blobId r.uncompressedSize r.compressedSize r.chunkSize
    r.chunkCount
  let some comp := Compress.Algorithm.tryFrom r.compressionAlgo | .error .invalidCompressionAlgorithm
  let blobInfo := blobInfo.setCompressor comp
  let some digest := Digest.Algorithm.tryFrom r.digestAlgo | .error .invalidDigestAlgorithm
  let blobInfo := (blobInfo.setDigester digest).setBlobMetaInfo r.metaFeatures r.ciOffset
    r.ciCompressedSize r.ciUncompressedSize r.ciCompressor
  if blobInfo.hasFeature BLOB_META_FEATURE_ZRAN then
    pure (blobInfo.setBlobMetaZranInfo r.ciZranCount r.ciZranOffset r.ciZranSize)
  else pure blobInfo

/-- `RafsV6Blob::from_blob_info`: the blob info's fields, its id as bytes and a zero CI
digest; an id of another length than `BLOB_SHA256_LEN` bytes is refused. -/
def fromBlobInfo (b : Storage.BlobInfo) : Except BlobTableError RafsV6Blob :=
  if h : b.blobId.utf8ByteSize = BLOB_SHA256_LEN then
    .ok { blobId := ⟨b.blobId.toByteArray.data, h⟩
          blobIndex := b.blobIndex
          chunkSize := b.chunkSize
          chunkCount := b.chunkCount
          compressionAlgo := b.compressor.toU32
          digestAlgo := b.digester.toU32
          metaFeatures := b.metaFlags
          compressedSize := b.compressedSize
          uncompressedSize := b.uncompressedSize
          ciCompressor := b.metaCiCompressorAlgorithm.toU32
          ciOffset := b.metaCiOffset
          ciCompressedSize := b.metaCiCompressedSize
          ciUncompressedSize := b.metaCiUncompressedSize
          ciDigest := Vector.replicate 32 0
          ciZranOffset := b.metaCiZranOffset
          ciZranSize := b.metaCiZranSize
          ciZranCount := b.metaCiZranCount }
  else .error .invalidBlobIdInBlobInfo

/-! The checks of `validate`, one block of the source each. -/

/-- The blob id is UTF-8 of `BLOB_SHA256_LEN` bytes. -/
def blobIdValid (r : RafsV6Blob) : Bool :=
  match String.fromUTF8? ⟨r.blobId.toArray⟩ with
  | some v => v.utf8ByteSize == BLOB_SHA256_LEN
  | none => false

/-- The chunk size is a power of two from `EROFS_BLOCK_SIZE` to `RAFS_MAX_CHUNK_SIZE`, and
the image's. -/
def chunkSizeValid (r : RafsV6Blob) (chunkSize : UInt32) : Bool :=
  let cSize := r.chunkSize.toNat
  !decide (countOnes64 cSize ≠ 1 ∨ cSize < EROFS_BLOCK_SIZE ∨ cSize > RAFS_MAX_CHUNK_SIZE ∨
    cSize ≠ chunkSize.toNat)

/-- The chunk compressor, the CI compressor and the digester name algorithms. -/
def algorithmsValid (r : RafsV6Blob) : Bool :=
  !((Compress.Algorithm.tryFrom r.compressionAlgo).isNone ||
    (Compress.Algorithm.tryFrom r.ciCompressor).isNone ||
    (Digest.Algorithm.tryFrom r.digestAlgo).isNone)

/-- No unknown feature bit, and the 4K-aligned one. -/
def featuresValid (r : RafsV6Blob) : Bool :=
  if r.metaFeatures &&& ~~~(UInt32.ofNat BLOB_META_FEATURE_MASK) != 0 then false
  else r.metaFeatures &&& UInt32.ofNat BLOB_META_FEATURE_4K_ALIGNED != 0

/-- The CI array does not wrap around and is no bigger compressed; a separate one is stored
uncompressed at offset 0, an embedded one at the end of the blob or inside it. -/
def ciPlacementValid (r : RafsV6Blob) : Bool :=
  let ciOffset := r.ciOffset.toNat
  let ciComprSize := r.ciCompressedSize.toNat
  let ciUncomprSize := r.ciUncompressedSize.toNat
  if ciOffset + ciComprSize ≥ U64_LIMIT then false
  else if ciComprSize > ciUncomprSize then false
  else if r.metaFeatures.toNat &&& BLOB_META_FEATURE_SEPARATE != 0 then
    !(ciOffset != 0 || ciComprSize != ciUncomprSize)
  else !(ciOffset != r.compressedSize.toNat && decide (ciOffset + ciComprSize > r.compressedSize.toNat))

/-- The CI size per chunk-info layout: at least a V2 entry per chunk and a ZRan table right
after the entries for ZRan, exactly one entry per chunk otherwise; ZRan without V2 is refused. -/
def layoutValid (r : RafsV6Blob) : Bool :=
  let count := r.chunkCount.toNat
  let ciUncomprSize := r.ciUncompressedSize.toNat
  match r.metaFeatures.toNat &&& (BLOB_META_FEATURE_CHUNK_INFO_V2 ||| BLOB_META_FEATURE_ZRAN) with
  | 0xc =>
    !decide (ciUncomprSize < count * CHUNK_INFO_V2_SIZE) &&
      r.ciZranOffset.toNat == count * CHUNK_INFO_V2_SIZE &&
      !decide (r.ciZranCount.toNat * ZRAN_CONTEXT_SIZE > r.ciZranSize.toNat) &&
      !decide (r.ciZranCount.toNat > RAFS_MAX_CHUNKS_PER_BLOB)
  | 0x4 => ciUncomprSize == count * CHUNK_INFO_V2_SIZE
  | 0 => ciUncomprSize == count * CHUNK_INFO_V1_SIZE
  | _ => false

/-- `RafsV6Blob::validate` of the record at `blobIndex` of an image of `chunkSize`. -/
def validate (r : RafsV6Blob) (blobIndex chunkSize : UInt32) : Bool :=
  r.blobIdValid && r.blobIndex == blobIndex && r.chunkSizeValid chunkSize &&
    !decide (r.chunkCount.toNat > RAFS_MAX_CHUNKS_PER_BLOB) && r.algorithmsValid &&
    !decide (r.uncompressedSize.toNat > BLOB_MAX_SIZE_UNCOMPRESSED) &&
    !decide (r.compressedSize.toNat > BLOB_MAX_SIZE_COMPRESSED) &&
    r.ciDigest == Vector.replicate 32 0 && r.featuresValid && r.ciPlacementValid && r.layoutValid

end RafsV6Blob

namespace RafsV6BlobTable

/-- `RafsV6BlobTable::add`: the entries with the blob info of the next index appended, its
algorithms from the build and its blob meta from the header, the ZRan fields only for a ZRan
blob. The prefetch range and the blob features it also records are not modelled. -/
def add (entries : List Storage.BlobInfo) (blobId : String) (chunkSize chunkCount : UInt32)
    (uncompressedSize compressedSize : UInt64) (compressor : Compress.Algorithm)
    (digester : Digest.Algorithm) (header : BlobMetaHeaderOndisk) : List Storage.BlobInfo :=
  let blobInfo := BlobInfo.new (UInt32.ofNat entries.length) blobId uncompressedSize compressedSize
    chunkSize chunkCount
  let blobInfo := ((blobInfo.setCompressor compressor).setDigester digester).setBlobMetaInfo
    header.sFeatures header.sCiOffset header.sCiCompressedSize header.sCiUncompressedSize
    header.ciCompressor.toU32
  let blobInfo := if header.sFeatures.toNat &&& BLOB_META_FEATURE_ZRAN != 0 then
      blobInfo.setBlobMetaZranInfo header.sCiZranCount header.sCiZranOffset header.sCiZranSize
    else blobInfo
  entries ++ [blobInfo]

/-- `RafsV6BlobTable::size`. -/
def size (entries : List Storage.BlobInfo) : Nat := entries.length * RAFS_V6_BLOB_SIZE

/-- `RafsStore::store` of the table: the records of the entries, in order. -/
def store (entries : List Storage.BlobInfo) : Except BlobTableError (List RafsV6Blob) :=
  entries.mapM RafsV6Blob.fromBlobInfo

/-- The loop of `load`: `count` records read from the bootstrap, the first of them at index
`idx`, each validated and then converted. -/
def loadEntries (chunkSize : UInt32) : Nat → Nat → List RafsV6Blob →
    Except BlobTableError (List Storage.BlobInfo)
  | _, 0, _ => .ok []
  | _, _ + 1, [] => .error .unexpectedEof
  | idx, count + 1, r :: rest =>
    if !r.validate (UInt32.ofNat idx) chunkSize then .error .invalidEntry
    else do
      let blobInfo ← r.toBlobInfo
      let entries ← loadEntries chunkSize (idx + 1) count rest
      pure (blobInfo :: entries)

/-- `RafsV6BlobTable::load` into an empty table, from the records the bootstrap holds at the
table's offset. -/
def load (records : List RafsV6Blob) (blobTableSize chunkSize : UInt32) :
    Except BlobTableError (List Storage.BlobInfo) :=
  if blobTableSize = 0 then .ok []
  else if blobTableSize.toNat % RAFS_V6_BLOB_SIZE ≠ 0 then .error .invalidTableSize
  else loadEntries chunkSize 0 (blobTableSize.toNat / RAFS_V6_BLOB_SIZE) records

end RafsV6BlobTable

end Nydus
