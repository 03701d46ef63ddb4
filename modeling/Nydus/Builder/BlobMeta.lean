import Mathlib
import Nydus.Rafs.V6BlobTable
import Nydus.Storage.ZranTables

/-!
# The blob meta header of a build

For each blob it writes, the RAFS v6 builder (`src/bin/nydus-image/core`) keeps a blob meta
header in the blob's `BlobContext`. `BlobContext::new` sets the feature bits of the build;
once the chunks are written, `Blob::dump_meta_data_raw` records where the chunk information
array went, its sizes, and for a ZRan blob the ZRan tables the context generator stored after
it. `BlobManager::to_blob_table` then adds every blob to the table with
`RafsV6BlobTable::add`, which copies the header into the blob's `BlobInfo`.

`main.rs` chooses the features by conversion: none for the tarball builders and the estargz
reference, the V2 layout for a directory, a separate array for a stargz index, and V2,
separate and ZRan for a targz reference. The array goes into the data blob after its chunks, compressed with the build's
compressor, unless the build has no blob writer (the reference builds); then it goes
uncompressed into a file of its own. A `BlobBuild` is such a blob, with what the build
guarantees of it as fields.
-/

namespace Nydus

open Storage

/-- What `compress::compress` returns for an input of `dataLen` bytes, as far as the header
records it: whether it compressed, and the length of the buffer. With no algorithm, or no
gain, the buffer is the input. -/
def Compress.Compressed (algorithm : Compress.Algorithm) (dataLen : Nat) : Bool × Nat → Prop
  | (false, bufLen) => bufLen = dataLen
  | (true, bufLen) => algorithm ≠ .none ∧ bufLen < dataLen

/-- The blob meta header of `BlobContext::new`: the default header with the bits of the
build's features set. -/
def BlobContext.newHeader (features : UInt32) : BlobMetaHeaderOndisk :=
  let selects := fun feature : Nat => features.toNat &&& feature != 0
  let header := BlobMetaHeaderOndisk.default
  let header := if selects BLOB_META_FEATURE_4K_ALIGNED then header.set4kAligned true else header
  let header := if selects BLOB_META_FEATURE_SEPARATE then header.setCiSeparate true else header
  let header := if selects BLOB_META_FEATURE_CHUNK_INFO_V2 then header.setChunkInfoV2 true else header
  if selects BLOB_META_FEATURE_ZRAN then header.setCiZran true else header

/-- `Blob::dump_meta_data_raw` on the header: an array of `entries` chunk infos, V2 or V1,
compressed by `compress::compress` with `compressor` into `compressed`, written at `pos`;
for a ZRan build, followed by the `count` bytes of `zran_count` ZRan contexts the generator
stores. The sums are `u64` additions. -/
def dumpMetaDataRaw (features : UInt32) (header : BlobMetaHeaderOndisk) (v2 : Bool)
    (entries : Nat) (compressor : Compress.Algorithm) (compressed : Bool × Nat) (pos : UInt64)
    (zranStored : Nat × UInt32) : BlobMetaHeaderOndisk :=
  let dataLen := entries * (if v2 then CHUNK_INFO_V2_SIZE else CHUNK_INFO_V1_SIZE)
  let bufLen := compressed.2
  let header := { header with
    sCiCompressor := (if compressed.1 then compressor else .none).toU32
    sCiEntries := UInt32.ofNat entries
    sCiOffset := pos
    sCiCompressedSize := UInt64.ofNat bufLen
    sCiUncompressedSize := UInt64.ofNat dataLen }
  let header := (header.set4kAligned true).setChunkInfoV2 v2
  let header :=
    if features.toNat &&& BLOB_META_FEATURE_ZRAN != 0 then
      let (count, zranCount) := zranStored
      ({ header with
        sCiCompressedSize := UInt64.ofNat bufLen + UInt64.ofNat count
        sCiUncompressedSize := UInt64.ofNat dataLen + UInt64.ofNat count
        sCiZranCount := zranCount
        sCiZranOffset := UInt64.ofNat bufLen
        sCiZranSize := UInt64.ofNat count }).setCiZran true
    else header.setCiZran false
  header.setCiSeparate (features.toNat &&& BLOB_META_FEATURE_SEPARATE != 0)

/-- `Blob::dump_meta_data` for a blob with chunks: into the data blob at the writer's
position with the build's compressor, or with no blob writer into a file of its own, from its
start and with no compression. -/
def dumpMetaData (features : UInt32) (compressor : Compress.Algorithm) (blobWriter : Option UInt64)
    (header : BlobMetaHeaderOndisk) (v2 : Bool) (entries : Nat) (compressed : Bool × Nat)
    (zranStored : Nat × UInt32) : BlobMetaHeaderOndisk :=
  match blobWriter with
  | some pos => dumpMetaDataRaw features header v2 entries compressor compressed pos zranStored
  | none => dumpMetaDataRaw features header v2 entries .none compressed 0 zranStored

/-- A blob the v6 builder has written and dumped the meta data of, as it reaches
`RafsV6BlobTable::add`: what the build knows of it, and what the build guarantees. -/
structure BlobBuild where
  blobId : String
  chunkCount : UInt32
  uncompressedSize : UInt64
  compressedSize : UInt64
  compressor : Compress.Algorithm
  digester : Digest.Algorithm
  /-- `ctx.blob_meta_features`. -/
  features : UInt32
  /-- The position of the blob writer when the array is dumped; none without a writer. -/
  blobWriter : Option UInt64
  /-- What `compress::compress` made of the chunk information array. -/
  compressed : Bool × Nat
  /-- The records of the ZRan context generator. -/
  zranRecords : List ZranContext
  /-- The id is a SHA-256 digest in hex, or one given as long. -/
  idLength : blobId.utf8ByteSize = BLOB_SHA256_LEN
  /-- `BlobContext::alloc_chunk_index` refuses a chunk of index `0xff_ffff`. -/
  chunkCountLe : chunkCount.toNat ≤ 0xff_ffff
  /-- The feature sets `main.rs` chooses for a v6 build. -/
  selected : features ∈ [0, UInt32.ofNat BLOB_META_FEATURE_SEPARATE,
    UInt32.ofNat BLOB_META_FEATURE_CHUNK_INFO_V2,
    UInt32.ofNat (BLOB_META_FEATURE_CHUNK_INFO_V2 ||| BLOB_META_FEATURE_SEPARATE ||| BLOB_META_FEATURE_ZRAN)]
  /-- A separate array goes into a file of its own: a build with one has no blob writer. The
  estargz reference builds have none either, with no feature, and their array goes at the start
  of the meta file, which the header then calls embedded. -/
  separate : (features.toNat &&& BLOB_META_FEATURE_SEPARATE != 0) = true → blobWriter = none
  /-- In the data blob, the array follows the chunks. -/
  afterChunks : ∀ pos, blobWriter = some pos → pos = compressedSize
  /-- The array holds one entry per chunk, and `compress::compress` of it gave `compressed`. -/
  compression : Compress.Compressed (if blobWriter.isSome then compressor else .none)
    (chunkCount.toNat * (if features.toNat &&& BLOB_META_FEATURE_CHUNK_INFO_V2 != 0
      then CHUNK_INFO_V2_SIZE else CHUNK_INFO_V1_SIZE)) compressed
  generated : ZranContext.Generated zranRecords

namespace BlobBuild

/-- The header the blob's `BlobContext` holds once its meta data is dumped. -/
def header (b : BlobBuild) : BlobMetaHeaderOndisk :=
  let stored := ZranContextGenerator.store b.zranRecords
  dumpMetaData b.features b.compressor b.blobWriter (BlobContext.newHeader b.features)
    (b.features.toNat &&& BLOB_META_FEATURE_CHUNK_INFO_V2 != 0) b.chunkCount.toNat b.compressed
    (stored.2.1, stored.2.2)

/-- The length of a build's chunk information array: an entry of its layout per chunk. -/
def arrayLen (b : BlobBuild) : Nat :=
  b.chunkCount.toNat * (if b.features.toNat &&& BLOB_META_FEATURE_CHUNK_INFO_V2 != 0
    then CHUNK_INFO_V2_SIZE else CHUNK_INFO_V1_SIZE)

/-- The limits `RafsV6Blob::validate` sets that the builder does not check: the sizes of the
blob, the number of ZRan contexts, which the generator lets reach one past
`RAFS_MAX_CHUNKS_PER_BLOB`, and for an array at the start of a meta file that the header calls
embedded (the estargz reference builds), an array no longer than the blob: `validate` takes it
for an array inside the blob. -/
structure WithinLimits (b : BlobBuild) : Prop where
  uncompressed : b.uncompressedSize.toNat ≤ BLOB_MAX_SIZE_UNCOMPRESSED
  compressed : b.compressedSize.toNat ≤ BLOB_MAX_SIZE_COMPRESSED
  zranCount : b.zranRecords.length ≤ RAFS_MAX_CHUNKS_PER_BLOB
  frontFits : b.blobWriter = none →
    (b.features.toNat &&& BLOB_META_FEATURE_SEPARATE != 0) = false → b.arrayLen ≤ b.compressedSize.toNat

end BlobBuild

/-- The blob table of a build: `RafsV6BlobTable::add` of each blob in turn, all with the
image's chunk size. -/
def buildTable (chunkSize : UInt32) (builds : List BlobBuild) : List Storage.BlobInfo :=
  builds.foldl (fun entries b => RafsV6BlobTable.add entries b.blobId chunkSize b.chunkCount
    b.uncompressedSize b.compressedSize b.compressor b.digester b.header) []

end Nydus
