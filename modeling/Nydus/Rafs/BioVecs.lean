import Mathlib
import Nydus.Cache.BlobIo
import Nydus.Builder.V6Dir

/-!
# The blob IO of a file read

A read of `size` bytes at `offset` of a regular file becomes the IO it asks of the data
blobs: a `BlobIoDesc` for each chunk the read meets, naming the part of the chunk to
return, collected into `BlobIoVec`s of one blob each (`storage/src/device.rs`).

RAFS v5 (`rafsv5_alloc_bio_vecs`, `rafs/src/metadata/layout/v5.rs`) walks the inode's chunk
records between the indexes `calculate_bio_chunk_index` computes, and `add_chunk_to_bio_desc`
clips each chunk against the read. RAFS v6 (`OndiskInodeWrapper::alloc_bio_vecs`,
`rafs/src/metadata/direct_v6.rs`) walks the chunk addresses from the head chunk on, with a
`u32` count of the bytes left to read. The model follows a debug build: a failed assertion,
an arithmetic overflow and a division by zero are errors, as they are panics there.
-/

namespace Nydus

/-- What the allocation reads of a blob table entry (`BlobInfo`). -/
structure BlobRef where
  blobIndex : Nat
  isLegacyStargz : Bool
deriving DecidableEq, Repr

/-- A blob table as `RafsV5BlobTable` and `RafsV6BlobTable` hold it: the entry at position
`i` is the blob of index `i`. -/
structure BlobTable where
  entries : List BlobRef
  indexed : ∀ i (h : i < entries.length), entries[i].blobIndex = i

/-- `get` of both blob tables: `ENOENT` "blob not found" from the table's length on. -/
def BlobTable.get (t : BlobTable) (blobIndex : Nat) : Option BlobRef := t.entries[blobIndex]?

/-- How an allocation fails: the errors the source returns, then its panics. -/
inductive BioError where
  /-- `einval!("invalid read size")`: the read ends past `u64::MAX`. -/
  | invalidReadSize
  /-- `enoent!("invalid chunk info")`, or a chunk record beyond the mapped bootstrap. -/
  | invalidChunkInfo
  /-- `enoent!("blob not found")`. -/
  | blobNotFound
  /-- `einval!("failed to create blob io vector")`. -/
  | failedToCreateBlobIoVector
  /-- `einval!("failed to get chunk information")`. -/
  | failedToGetChunkInfo
  /-- `RafsError::InvalidImageData`: the chunk addresses run past the mapped bootstrap. -/
  | invalidImageData
  /-- A division by a zero chunk size. -/
  | divideByZero
  /-- `debug_assert!(offset < end)` of `calculate_bio_chunk_index`. -/
  | emptyRange
  /-- An addition past the width of its type, or a subtraction below zero. -/
  | arithmeticOverflow
  /-- `assert_eq!` of `BlobIoVec::push` on the blob index. -/
  | blobMismatch
  /-- `assert!(self.bi_size.checked_add(desc.size).is_some())` of `BlobIoVec::push`. -/
  | sizeOverflow
  /-- `assert_eq!(left, 0)` of the v6 allocation. -/
  | bytesLeft
deriving DecidableEq, Repr

/-- `BlobIoDesc::new`. -/
def BlobIoDesc.new (blob : BlobRef) (chunkinfo : BlobChunkInfo) (offset size : Nat)
    (userIo : Bool) : BlobIoDesc :=
  ⟨blob.isLegacyStargz, chunkinfo, offset, size, userIo⟩

/-- `BlobIoVec`: the blob, the `u32` total of the descriptor sizes, and the descriptors. -/
structure BlobIoVec where
  blob : BlobRef
  size : Nat
  bios : List BlobIoDesc
deriving DecidableEq, Repr

namespace BlobIoVec

/-- `BlobIoVec::new`. -/
def new (blob : BlobRef) : BlobIoVec := ⟨blob, 0, []⟩

/-- `BlobIoVec::push` of a descriptor of `descBlob`. Both tables hold one entry per index, so
the assertion on the blob id follows from the one on the blob index. -/
def push (v : BlobIoVec) (desc : BlobIoDesc) (descBlob : BlobRef) : Except BioError BlobIoVec :=
  if v.blob.blobIndex ≠ descBlob.blobIndex then .error .blobMismatch
  else if U32_MAX < v.size + desc.size then .error .sizeOverflow
  else .ok ⟨v.blob, v.size + desc.size, v.bios ++ [desc]⟩

/-- What both allocations do before a chunk after the first: when its blob is not the current
vector's, the current vector is done and a new one is started for the chunk's blob. -/
def switch (blob : BlobRef) (desc : BlobIoVec) (descs : List BlobIoVec) :
    BlobIoVec × List BlobIoVec :=
  if blob.blobIndex ≠ desc.blob.blobIndex then (BlobIoVec.new blob, descs ++ [desc])
  else (desc, descs)

end BlobIoVec

/-! ## RAFS v5 -/

/-- What the allocation reads of a `RafsV5ChunkInfo` record. -/
structure RafsV5ChunkInfo where
  blobIndex : Nat
  index : Nat
  fileOffset : Nat
  compressedOffset : Nat
  compressedSize : Nat
  uncompressedOffset : Nat
  uncompressedSize : Nat
deriving DecidableEq, Repr

/-- The `V5IoChunk` a chunk record is handed to the storage layer as. -/
def RafsV5ChunkInfo.ioChunk (c : RafsV5ChunkInfo) : BlobChunkInfo :=
  ⟨c.index, c.blobIndex, c.compressedOffset, c.compressedSize, c.uncompressedOffset,
    c.uncompressedSize⟩

/-- What the allocation reads of a RAFS v5 regular file: the image's chunk size,
`i_child_count` (a regular file's number of chunks), the hole flag, the chunk records after
the inode by index as the mapped bootstrap holds them, and the blob table. -/
structure RafsV5Inode where
  chunkSize : UInt32
  childCount : UInt32
  hasHole : Bool
  chunkInfo : Nat → Option RafsV5ChunkInfo
  blobTable : BlobTable

namespace RafsV5Inode

/-- `get_chunk_info_v5`. -/
def getChunkInfoV5 (inode : RafsV5Inode) (idx : Nat) : Except BioError RafsV5ChunkInfo :=
  if inode.childCount.toNat ≤ idx then .error .invalidChunkInfo
  else match inode.chunkInfo idx with
    | some chunk => .ok chunk
    | none => .error .invalidChunkInfo

/-- `get_blob_by_index`. -/
def getBlobByIndex (inode : RafsV5Inode) (idx : Nat) : Except BioError BlobRef :=
  match inode.blobTable.get idx with
  | some blob => .ok blob
  | none => .error .blobNotFound

end RafsV5Inode

/-- `calculate_bio_chunk_index`: the first chunk index and the end of the chunk indexes the
read `[offset, end_)` meets, both `u32`. The `+ 1` after the cast to `u32` overflows at
`u32::MAX`. -/
def calculateBioChunkIndex (offset end_ chunkSize chunkCnt : Nat) (hasHole : Bool) :
    Except BioError (Nat × Nat) :=
  if ¬ offset < end_ then .error .emptyRange
  else if hasHole then .ok (0, chunkCnt)
  else if chunkSize = 0 then .error .divideByZero
  else
    let last := (end_ - 1) / chunkSize % 2 ^ 32
    if last = U32_MAX then .error .arithmeticOverflow
    else .ok (offset / chunkSize % 2 ^ 32, min (last + 1) chunkCnt)

/-- `add_chunk_to_bio_desc`: whether to go on to the next chunk, and the vector with the
part of the chunk within the read `[offset, end_)` pushed. -/
def addChunkToBioDesc (desc : BlobIoVec) (offset end_ : Nat) (chunk : RafsV5ChunkInfo)
    (blob : BlobRef) (userIo : Bool) : Except BioError (Bool × BlobIoVec) :=
  -- the chunk ends before the read starts
  if chunk.fileOffset + chunk.uncompressedSize ≤ offset then .ok (true, desc)
  -- the chunk starts after the read ends
  else if end_ ≤ chunk.fileOffset then .ok (false, desc)
  else
    let chunkStart := if chunk.fileOffset < offset then offset - chunk.fileOffset else 0
    let chunkEnd := if end_ < chunk.fileOffset + chunk.uncompressedSize then
      end_ - chunk.fileOffset else chunk.uncompressedSize
    let bio := BlobIoDesc.new blob chunk.ioChunk (chunkStart % 2 ^ 32)
      ((chunkEnd - chunkStart) % 2 ^ 32) userIo
    (desc.push bio blob).map fun desc => (true, desc)

/-- The loop of `rafsv5_alloc_bio_vecs` over the chunk indexes after the first, with the
vector being filled and the vectors done. -/
def rafsv5AllocLoop (inode : RafsV5Inode) (offset end_ : Nat) (userIo : Bool) :
    List Nat → BlobIoVec → List BlobIoVec → Except BioError (List BlobIoVec)
  | [], desc, descs => .ok (descs ++ [desc])
  | idx :: rest, desc, descs => do
    let chunk ← inode.getChunkInfoV5 idx
    let blob ← inode.getBlobByIndex chunk.blobIndex
    let switched := BlobIoVec.switch blob desc descs
    let added ← addChunkToBioDesc switched.1 offset end_ chunk blob userIo
    if !added.1 then throw .failedToCreateBlobIoVector
    rafsv5AllocLoop inode offset end_ userIo rest added.2 switched.2

/-- `rafsv5_alloc_bio_vecs`. -/
def rafsv5AllocBioVecs (inode : RafsV5Inode) (offset size : Nat) (userIo : Bool) :
    Except BioError (List BlobIoVec) := do
  if U64_LIMIT ≤ offset + size then throw .invalidReadSize
  let end_ := offset + size
  let index ← calculateBioChunkIndex offset end_ inode.chunkSize.toNat inode.childCount.toNat
    inode.hasHole
  if size = 0 ∨ inode.childCount.toNat ≤ index.1 then return []
  let chunk ← inode.getChunkInfoV5 index.1
  let blob ← inode.getBlobByIndex chunk.blobIndex
  let added ← addChunkToBioDesc (BlobIoVec.new blob) offset end_ chunk blob userIo
  if !added.1 then throw .failedToCreateBlobIoVector
  rafsv5AllocLoop inode offset end_ userIo
    (List.range' (index.1 + 1) (index.2 - (index.1 + 1))) added.2 []

/-! ## RAFS v6 -/

/-- `RafsV6InodeChunkAddr`, its little-endian fields read as numbers. -/
structure RafsV6InodeChunkAddr where
  cBlobAddrHi : UInt16
  cBlobAddrLo : UInt16
  cBlkAddr : UInt32
deriving DecidableEq, Repr

namespace RafsV6InodeChunkAddr

/-- `blob_index`: the low byte of the high half, which stores the index plus one. The `u32`
subtraction of a stored zero panics. -/
def blobIndex (a : RafsV6InodeChunkAddr) : Except BioError UInt32 :=
  let stored := (a.cBlobAddrHi &&& 0x00ff).toUInt32
  if stored = 0 then .error .arithmeticOverflow else .ok (stored - 1)

/-- `blob_ci_index`: the high byte of the high half above the low half, 24 bits. -/
def blobCiIndex (a : RafsV6InodeChunkAddr) : UInt32 :=
  ((a.cBlobAddrHi.toUInt32 >>> 8) <<< 16) ||| a.cBlobAddrLo.toUInt32

end RafsV6InodeChunkAddr

/-- The blob device as the allocation uses it: `create_io_chunk` gives the chunk of a blob at
an index of the blob's chunk information array, a chunk of that blob. -/
structure BlobDevice where
  createIoChunk : Nat → Nat → Option BlobChunkInfo
  ofBlob : ∀ blobIndex index chunk, createIoChunk blobIndex index = some chunk →
    chunk.blobIndex = blobIndex

/-- What the allocation reads of a RAFS v6 chunk-based regular file: its `u64` size, the
image's `u32` chunk size, the chunk addresses the mapped bootstrap holds after the inode and
its xattrs, and the blob table. -/
structure RafsV6Inode where
  size : UInt64
  chunkSize : UInt32
  chunkAddrs : List RafsV6InodeChunkAddr
  blobTable : BlobTable

namespace RafsV6Inode

/-- `chunk_addresses`: the addresses from the head chunk to the last of the
`div_round_up(size, chunk_size) as u32` chunks, refused where they run past the mapping. -/
def chunkAddresses (inode : RafsV6Inode) (headChunkIndex : Nat) :
    Except BioError (List RafsV6InodeChunkAddr) := do
  if U64_LIMIT ≤ inode.size.toNat + inode.chunkSize.toNat - 1 then throw .arithmeticOverflow
  let total := divRoundUp inode.size.toNat inode.chunkSize.toNat % 2 ^ 32
  if total < headChunkIndex then throw .arithmeticOverflow
  if inode.chunkAddrs.length < total then throw .invalidImageData
  return (inode.chunkAddrs.drop headChunkIndex).take (total - headChunkIndex)

/-- `make_chunk_io`: the descriptor of a part of the chunk at an address, with its blob;
`None` where the blob table or the device does not know the chunk. -/
def makeChunkIo (inode : RafsV6Inode) (device : BlobDevice) (chunkAddr : RafsV6InodeChunkAddr)
    (contentOffset contentLen : Nat) (userIo : Bool) :
    Except BioError (Option (BlobIoDesc × BlobRef)) := do
  let blobIndex ← chunkAddr.blobIndex
  return do
    let blob ← inode.blobTable.get blobIndex.toNat
    let chunk ← device.createIoChunk blob.blobIndex chunkAddr.blobCiIndex.toNat
    return (BlobIoDesc.new blob chunk contentOffset contentLen userIo, blob)

/-- The loop of `alloc_bio_vecs` over the chunks after the first, with the bytes left, the
vector being filled and the vectors done; it stops once no byte is left. -/
def allocBioVecsLoop (inode : RafsV6Inode) (device : BlobDevice) (userIo : Bool) :
    List RafsV6InodeChunkAddr → Nat → BlobIoVec → List BlobIoVec →
      Except BioError (Nat × BlobIoVec × List BlobIoVec)
  | [], left, descs, vec => .ok (left, descs, vec)
  | c :: rest, left, descs, vec => do
    let contentLen := min inode.chunkSize.toNat left
    match ← inode.makeChunkIo device c 0 contentLen userIo with
    | none => throw .failedToGetChunkInfo
    | some (desc, blob) =>
      let switched := BlobIoVec.switch blob descs vec
      let descs ← switched.1.push desc blob
      if left - contentLen = 0 then return (0, descs, switched.2)
      allocBioVecsLoop inode device userIo rest (left - contentLen) descs switched.2

/-- `OndiskInodeWrapper::alloc_bio_vecs`. -/
def allocBioVecs (inode : RafsV6Inode) (device : BlobDevice) (offset size : Nat)
    (userIo : Bool) : Except BioError (List BlobIoVec) := do
  let chunkSize := inode.chunkSize.toNat
  if chunkSize = 0 then throw .divideByZero
  let chunks ← inode.chunkAddresses (offset / chunkSize % 2 ^ 32)
  match chunks with
  | [] => return []
  | first :: rest =>
    let contentOffset := offset % chunkSize
    if inode.size.toNat < offset then throw .arithmeticOverflow
    let left := min (inode.size.toNat - offset) size % 2 ^ 32
    let contentLen := min (chunkSize - contentOffset) left
    match ← inode.makeChunkIo device first contentOffset contentLen userIo with
    | none => throw .failedToGetChunkInfo
    | some (desc, blob) =>
      let descs ← (BlobIoVec.new blob).push desc blob
      let looped ← if left - contentLen ≠ 0 then
          allocBioVecsLoop inode device userIo rest (left - contentLen) descs []
        else pure (left - contentLen, descs, [])
      let vec := if looped.2.1.bios.isEmpty then looped.2.2 else looped.2.2 ++ [looped.2.1]
      if looped.1 ≠ 0 then throw .bytesLeft
      return vec

end RafsV6Inode

end Nydus
