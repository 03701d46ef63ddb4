import Mathlib
import Nydus.Builder.Compact
import Nydus.Builder.V6Dir

/-!
# Dumping the data of a node

`Node::dump_node_data_with_reader` (`src/bin/nydus-image/core/node.rs`) cuts a regular
file into chunks of `chunk_size` bytes and reads them in order. A chunk whose digest the
global chunk dict or the layered chunk dict knows is deduplicated
(`find_duplicated_chunk`): the node takes a copy of the known chunk. A chunk found in the
global dict names a blob of the dict's own table, which the first such chunk adds to the
table being built; the dict remembers its index there. Any other chunk is compressed and
appended to the blob of the build (`dump_file_chunk`), at the running offsets of its
`BlobContext`, and the layered dict learns it.

The reader holds the bytes of the file, and the blob writer the bytes written so far
(`none`: the build has no writer). The digester and the compressor are functions of the
build context: `digest` is `RafsDigest::from_buf`, `hashIds` finishes an inode hasher fed
with the digests of the chunks in order, and `compress` is `compress::compress`, which
answers the bytes to store and whether they are compressed, or fails. The ZRan path
(`blob_zran_generator`), the blob hash, the event tracer and the blob meta entries of the
chunk info v2 format are not modelled.
-/

namespace Nydus

/-- The errors of dumping the data of a node. -/
inductive NodeDataError where
  /-- `"inode's symblink is invalid."` -/
  | symlinkInvalid
  /-- `"missing reader to read file data"` -/
  | missingReader
  /-- `"the rest chunk size of inode is bigger than chunk_size"` -/
  | restChunkSizeBigger
  /-- A panic: the slice `data_buf[0..uncompressed_size]` past the end of the buffer. -/
  | bufferTooSmall
  /-- `"failed to read node file"`: the reader ends inside the chunk. -/
  | readFailed
  /-- `"failed to compress node file"`. -/
  | compressFailed
  /-- A panic: `try_round_up_4k(..).unwrap()` on a size whose rounding leaves `u32`. -/
  | roundUpOverflow
  /-- `"the number of chunks in blob exceeds the u32 limit"`. -/
  | tooManyChunks
  /-- An error of the blob table or of the chunk dict. -/
  | blob (e : CompactError)
deriving DecidableEq, Repr

/-- The kind of a node, as `is_dir`, `is_symlink`, `is_special` and `is_reg` tell it. -/
inductive NodeKind where
  | dir
  | symlink
  | special
  | reg
deriving DecidableEq, Repr

/-- `ChunkSource`: where the chunk of a node comes from. -/
inductive ChunkSource where
  | build
  | dict
  | parent
deriving DecidableEq, Repr

/-- `NodeChunk`. -/
structure NodeChunk where
  source : ChunkSource
  inner : ChunkWrapper
deriving DecidableEq, Repr

/-- `Node`, with what the data dump reads and writes: the version, size, digest and
`child_count` of the inode (of a regular file, its number of chunks), the target of a
symlink, and the chunks. -/
structure Node where
  kind : NodeKind
  version : RafsVersion
  size : Nat
  childCount : Nat
  symlink : Option (List UInt8)
  digest : Nat
  chunks : List NodeChunk
deriving DecidableEq, Repr

/-- `BuildContext`, with what the data dump reads. -/
structure BuildContext where
  fsVersion : RafsVersion
  chunkSize : UInt32
  alignedChunk : Bool
  blobOffset : Nat
  blobId : String
  digest : List UInt8 → Nat
  hashIds : List Nat → Nat
  compress : List UInt8 → Option (List UInt8 × Bool)

/-- `ChunkWrapper::new`, which `InodeWrapper::create_chunk` calls with the inode's version. -/
def ChunkWrapper.new (version : RafsVersion) : ChunkWrapper :=
  ⟨version, 0, 0, 0, 0, 0, 0, 0, 0, false⟩

/-- `ChunkWrapper::copy_from`: every field of `other`, in the version of `self`. -/
def ChunkWrapper.copyFrom (self other : ChunkWrapper) : ChunkWrapper :=
  { other with version := self.version }

/-- `try_round_up_4k::<u32, u32>`: `none` when the rounded size does not fit a `u32`. -/
def tryRoundUp4k (x : Nat) : Option Nat :=
  if roundUp4k x < 2 ^ 32 then some (roundUp4k x) else none

/-! ## The blob of the build -/

/-- `BlobContext::alloc_chunk_index`: a RAFS v6 chunk index takes 24 bits. -/
def BlobContext.allocChunkIndex (self : BlobContext) : Except NodeDataError (Nat × BlobContext) :=
  if self.chunkCount ≥ 0xff_ffff then .error .tooManyChunks
  else .ok (self.chunkCount, { self with chunkCount := self.chunkCount + 1 })

namespace BlobManager

/-- `BlobManager::new_blob_ctx`: the blob of the build starts at `blob_offset`, and keeps
an array of its chunks in RAFS v6. -/
def newBlobCtx (ctx : BuildContext) : BlobContext :=
  { (BlobContext.new ctx.blobId ctx.blobOffset) with
    blobMetaInfoEnabled := decide (ctx.fsVersion = .v6) }

/-- The `if` of `get_or_create_current_blob`: the first call allocates an index and adds
the blob of the build there. -/
def createCurrentBlob (self : BlobManager) (ctx : BuildContext) :
    Except CompactError (Nat × BlobManager) :=
  match self.currentBlobIndex with
  | none => do
    let idx ← self.allocIndex
    pure (idx, { self with currentBlobIndex := some idx }.add (newBlobCtx ctx))
  | some idx => pure (idx, self)

/-- `BlobManager::get_or_create_current_blob`. The `unwrap` of `get_current_blob` cannot
fail, the index being set; the indexing `self.blobs[idx]` can. -/
def getOrCreateCurrentBlob (self : BlobManager) (ctx : BuildContext) :
    Except CompactError (Nat × BlobContext × BlobManager) := do
  let (idx, self) ← self.createCurrentBlob ctx
  match self.blobs[idx]? with
  | some blobCtx => pure (idx, blobCtx, self)
  | none => .error .indexOutOfBounds

/-- The blob index, in the table being built, of the blob `innerIdx` of the global chunk
dict, as `find_duplicated_chunk` finds it: the index the dict remembers, or else a newly
allocated one, which the dict remembers and where the dict's blob is added, if the dict
has a blob of that index. -/
def dictBlobIndex (self : BlobManager) (innerIdx : Nat) : Except CompactError (Nat × BlobManager) :=
  match self.globalChunkDict.getRealBlobIdx innerIdx with
  | some blobIdx => pure (blobIdx, self)
  | none => do
    let blobIdx ← self.allocIndex
    let dict ← self.globalChunkDict.setRealBlobIdx innerIdx blobIdx
    let self := { self with globalChunkDict := dict }
    match dict.getBlobsByInnerIdx innerIdx with
    | some blob => pure (blobIdx, self.add (BlobContext.from blob))
    | none => pure (blobIdx, self)

end BlobManager

/-- The blob index of a chunk `find_duplicated_chunk` deduplicates: a chunk of the global
dict takes the index of its blob in the table being built. -/
def BlobManager.realChunk (self : BlobManager) (fromDict : Bool) (chunk : ChunkWrapper) :
    Except NodeDataError (ChunkWrapper × BlobManager) :=
  if fromDict then do
    let (blobIndex, self) ← (self.dictBlobIndex chunk.blobIndex).mapError .blob
    pure ({ chunk with blobIndex := blobIndex }, self)
  else pure (chunk, self)

/-- The lookup of `find_duplicated_chunk`: the global chunk dict first, then the layered
one. The flag tells a chunk of the global dict. -/
def existChunk (blobMgr : BlobManager) (id : Nat) : Option (ChunkWrapper × Bool) :=
  match blobMgr.globalChunkDict.getChunk id with
  | some v => some (v, true)
  | none => (blobMgr.layeredChunkDict.getChunk id).map (·, false)

namespace Node

/-- `Node::read_file_chunk` without the ZRan generator: `read_exact` of `len` bytes, and a
chunk of the inode's version whose id is their digest. Answers the chunk, the bytes read
and the rest of the reader. -/
def readFileChunk (self : Node) (ctx : BuildContext) (reader : List UInt8) (len : Nat) :
    Except NodeDataError (ChunkWrapper × List UInt8 × List UInt8) :=
  if reader.length < len then .error .readFailed
  else
    let buf := reader.take len
    .ok ({ ChunkWrapper.new self.version with id := ctx.digest buf }, buf, reader.drop len)

/-- `Node::find_duplicated_chunk`. A known chunk of the same uncompressed size, or of
none, is copied at the chunk's file offset and pushed to the node's chunks; the answer is
then `none`. Otherwise the chunk is answered back, and nothing changes. -/
def findDuplicatedChunk (self : Node) (blobMgr : BlobManager) (fileOffset uncompressedSize : Nat)
    (chunk : ChunkWrapper) : Except NodeDataError (Option ChunkWrapper × Node × BlobManager) :=
  match existChunk blobMgr chunk.id with
  | some (cachedChunk, fromDict) =>
    -- a hole of the dict may have no uncompressed size: it is taken whatever the chunk's
    if cachedChunk.uncompressedSize = 0 ∨ cachedChunk.uncompressedSize = uncompressedSize then do
      let chunk := { chunk.copyFrom cachedChunk with fileOffset := fileOffset }
      let (chunk, blobMgr) ← blobMgr.realChunk fromDict chunk
      let source := if fromDict then ChunkSource.dict else .build
      pure (none, { self with chunks := self.chunks ++ [⟨source, chunk⟩] }, blobMgr)
    else pure (some chunk, self, blobMgr)
  | none => pure (some chunk, self, blobMgr)

/-- The uncompressed size of chunk `i` in the loop of `dump_node_data_with_reader`:
`chunk_size`, but for the last chunk the rest of the file, cast to a `u32`. -/
def chunkUncompressedSize (self : Node) (chunkSize i : Nat) : Except NodeDataError Nat :=
  if i = self.childCount - 1 then
    if self.size < chunkSize * i then .error .restChunkSizeBigger
    else .ok ((self.size - chunkSize * i) % 2 ^ 32)
  else .ok chunkSize

end Node

/-- The uncompressed size a chunk takes in the blob: rounded up to 4 KiB when chunks are
aligned. -/
def alignedChunkSize (ctx : BuildContext) (uncompressedSize : Nat) : Except NodeDataError Nat :=
  if ctx.alignedChunk then
    match tryRoundUp4k uncompressedSize with
    | some v => .ok v
    | none => .error .roundUpOverflow
  else .ok uncompressedSize

/-- `compress::compress`, failing as `dump_file_chunk` reports it. -/
def compressChunk (ctx : BuildContext) (chunkData : List UInt8) :
    Except NodeDataError (List UInt8 × Bool) :=
  match ctx.compress chunkData with
  | some r => .ok r
  | none => .error .compressFailed

/-- `Node::dump_file_chunk` without ZRan: the chunk takes the running offsets of the blob,
its compressed bytes are written, and the offsets move past it. -/
def dumpFileChunk (ctx : BuildContext) (blobCtx : BlobContext) (blobWriter : Option (List UInt8))
    (chunkData : List UInt8) (chunk : ChunkWrapper) :
    Except NodeDataError (ChunkWrapper × BlobContext × Option (List UInt8)) := do
  let uncompressedSize := chunkData.length
  let alignedChunkSize ← alignedChunkSize ctx uncompressedSize
  let preCompressedOffset := blobCtx.compressedOffset
  let preUncompressedOffset := blobCtx.uncompressedOffset
  let (compressed, isCompressed) ← compressChunk ctx chunkData
  let compressedSize := compressed.length
  let blobCtx := { blobCtx with
    uncompressedBlobSize := preUncompressedOffset + alignedChunkSize
    uncompressedOffset := preUncompressedOffset + alignedChunkSize
    compressedOffset := preCompressedOffset + compressedSize
    compressedBlobSize := blobCtx.compressedBlobSize + compressedSize }
  let chunk := { chunk with
    uncompressedOffset := preUncompressedOffset
    uncompressedSize := uncompressedSize
    compressedOffset := preCompressedOffset
    compressedSize := compressedSize
    isCompressed := isCompressed }
  pure (chunk, blobCtx, blobWriter.map (· ++ compressed))

/-- The slice `data_buf[0..len]`, which panics past the end of the buffer. -/
def checkDataBuf (dataBufLen len : Nat) : Except NodeDataError Unit :=
  if len ≤ dataBufLen then .ok () else .error .bufferTooSmall

/-- What the chunk loop of `dump_node_data_with_reader` carries: the node, the blob
manager, the blob writer, the rest of the file, the digests the inode hasher was fed, and
the compressed size written. -/
structure NodeDataState where
  node : Node
  blobMgr : BlobManager
  blobWriter : Option (List UInt8)
  reader : List UInt8
  inodeHasher : Option (List Nat)
  blobSize : Nat
deriving DecidableEq, Repr

/-- The turn of the chunk loop of `dump_node_data_with_reader` for chunk `i`. A chunk no
dict knows is written to the blob of the build, in the context the blob manager holds at
its index, and learnt by the layered dict. -/
def dumpChunk (ctx : BuildContext) (dataBufLen : Nat) (st : NodeDataState) (i : Nat) :
    Except NodeDataError NodeDataState := do
  let chunkSize := ctx.chunkSize.toNat
  let fileOffset := i * chunkSize
  let uncompressedSize ← st.node.chunkUncompressedSize chunkSize i
  checkDataBuf dataBufLen uncompressedSize
  let (chunk, chunkData, reader) ← st.node.readFileChunk ctx st.reader uncompressedSize
  let inodeHasher := st.inodeHasher.map (· ++ [chunk.id])
  let (found, node, blobMgr) ←
    st.node.findDuplicatedChunk st.blobMgr fileOffset uncompressedSize chunk
  match found with
  | none => pure { st with node, blobMgr, reader, inodeHasher }
  | some chunk => do
    let (blobIndex, blobCtx, blobMgr) ← (blobMgr.getOrCreateCurrentBlob ctx).mapError .blob
    let (chunkIndex, blobCtx) ← blobCtx.allocChunkIndex
    let chunk := { chunk with blobIndex := blobIndex, index := chunkIndex, fileOffset := fileOffset }
    let (chunk, blobCtx, blobWriter) ← dumpFileChunk ctx blobCtx st.blobWriter chunkData chunk
    let blobCtx ← (blobCtx.addChunkMetaInfo chunk).mapError .blob
    pure
      { node := { node with chunks := node.chunks ++ [⟨.build, chunk⟩] }
        blobMgr := { blobMgr with
          blobs := blobMgr.blobs.set blobIndex blobCtx
          layeredChunkDict := blobMgr.layeredChunkDict.addChunk chunk }
        blobWriter := blobWriter
        reader := reader
        inodeHasher := inodeHasher
        blobSize := st.blobSize + chunk.compressedSize }

/-- The chunk loop `for i in 0..child_count`, `n` turns from chunk `i` on. -/
def dumpChunks (ctx : BuildContext) (dataBufLen : Nat) (st : NodeDataState) (i : Nat) :
    Nat → Except NodeDataError NodeDataState
  | 0 => .ok st
  | n + 1 => do
    let st ← dumpChunk ctx dataBufLen st i
    dumpChunks ctx dataBufLen st (i + 1) n

/-- `Node::dump_node_data_with_reader`: a directory has no data, a symlink and a special
file only a digest; a regular file is dumped chunk by chunk, and in RAFS v5 its digest is
the hash of the digests of its chunks. Answers the compressed size written, the node,
the blob manager and the blob writer. -/
def Node.dumpNodeDataWithReader (self : Node) (ctx : BuildContext) (blobMgr : BlobManager)
    (blobWriter : Option (List UInt8)) (reader : Option (List UInt8)) (dataBufLen : Nat) :
    Except NodeDataError (Nat × Node × BlobManager × Option (List UInt8)) :=
  match self.kind with
  | .dir => pure (0, self, blobMgr, blobWriter)
  | .symlink =>
    match self.symlink with
    | some symlink => pure (0, { self with digest := ctx.digest symlink }, blobMgr, blobWriter)
    | none => .error .symlinkInvalid
  | .special => pure (0, { self with digest := ctx.hashIds [] }, blobMgr, blobWriter)
  | .reg =>
    match reader with
    | none => .error .missingReader
    | some reader => do
      let inodeHasher := if self.version = .v5 then some [] else none
      let st ← dumpChunks ctx dataBufLen ⟨self, blobMgr, blobWriter, reader, inodeHasher, 0⟩ 0
        self.childCount
      let node := match st.inodeHasher with
        | some ids => { st.node with digest := ctx.hashIds ids }
        | none => st.node
      pure (st.blobSize, node, st.blobMgr, st.blobWriter)

/-- The loop of `Blob::dump` for a directory build, over the nodes in layout order, each
with the bytes of its file, through a data buffer of `RAFS_MAX_CHUNK_SIZE` bytes. The
prefetch size it adds up is not modelled. -/
def dumpNodesData (ctx : BuildContext) (blobMgr : BlobManager) (blobWriter : Option (List UInt8)) :
    List (Node × Option (List UInt8)) → Except NodeDataError (List Node × BlobManager × Option (List UInt8))
  | [] => pure ([], blobMgr, blobWriter)
  | (node, reader) :: rest => do
    let (_, node, blobMgr, blobWriter) ←
      node.dumpNodeDataWithReader ctx blobMgr blobWriter reader RAFS_MAX_CHUNK_SIZE
    let (nodes, blobMgr, blobWriter) ← dumpNodesData ctx blobMgr blobWriter rest
    pure (node :: nodes, blobMgr, blobWriter)

end Nydus
