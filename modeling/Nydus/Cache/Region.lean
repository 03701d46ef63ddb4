import Nydus.Cache.BlobIo

/-!
# Regions of a read

`FileCacheEntry::dispatch_one_range` (`storage/src/cache/cachedfile.rs`) sorts the
chunks of a `BlobIoRange` into regions: runs of chunks read the same way, from the
cache file directly (`CacheFast`), from the cache file through validation or
decompression (`CacheSlow`), or from the backend (`Backend`). `FileIoMergeState` holds
the regions built so far; `Region::append` grows the last one by a chunk, tolerating a
gap of up to `RAFS_DEFAULT_CHUNK_SIZE` before it, and merges the user segments of its
chunks into one.
-/

namespace Nydus

/-- `RAFS_DEFAULT_CHUNK_SIZE`: 1 MiB. -/
def RAFS_DEFAULT_CHUNK_SIZE : Nat := 1024 * 1024

/-- The errors of the cache's read path. The failed assertions of the source, which
panic there, are errors here, each under its own constructor. -/
inductive CacheError where
  /-- `StorageError::NotContinuous` of `Region::append`. -/
  | notContinuous
  /-- An error of the chunk map other than a timeout. -/
  | chunkMap
  /-- `StorageError::MemOverflow` of `copyv`. -/
  | memOverflow
  /-- The failed `assert_eq!(offset, 0)` of `BlobIoSegment::append`. -/
  | segmentNotAtChunkStart (offset : Nat)
  /-- The failed `assert_ne!(self.status, RegionStatus::Committed)` of `Region::append`. -/
  | regionCommitted
  /-- An index past the end of the regions or tags of a range. -/
  | outOfBounds
  /-- The failed `assert_eq!(chunks[idx].id() + 1, chunks[idx + 1].id())` of
  `dispatch_backend`. -/
  | nonConsecutiveChunks (id next : Nat)
  /-- An error of the blob meta lookups. -/
  | blobMeta (e : MetaError)
  /-- `"failed to get blob meta object"`. -/
  | noBlobMeta
  /-- `"failed to get ZRan context for chunk"`. -/
  | noZranContext
  /-- `"requested blob range is too bigger, larger than u32::MAX"`, or the failed
  `assert!(sz < u32::MAX as u64)` of `Region::with`. -/
  | rangeTooBig
  /-- A failed assertion of `BlobIoRange::merge`. -/
  | merge (e : MergeError)
  /-- `"Empty bios list"`. -/
  | emptyRequest
  /-- A `u32` or `u64` addition past its width, or a `u64` subtraction below zero: a debug
  build panics here. -/
  | overflow
deriving DecidableEq, Repr

/-- `RegionStatus`: `Init`, `Open` (`opened`, since `open` is a keyword here) and
`Committed`. -/
inductive RegionStatus where
  | init
  | opened
  | committed
deriving DecidableEq, Repr

/-- `RegionType`; two types are joinable when they are equal. -/
inductive RegionType where
  | cacheFast
  | cacheSlow
  | backend
deriving DecidableEq, Repr

/-- `BlobIoSegment::append`: a later segment must start at its chunk's start; offsets and
lengths are `u32`s. -/
def BlobIoSegment.append (self : BlobIoSegment) (offset len : Nat) :
    Except CacheError BlobIoSegment :=
  if 2 ^ 32 ≤ offset + len then .error .overflow
  else if offset ≠ 0 then .error (.segmentNotAtChunkStart offset)
  else if 2 ^ 32 ≤ self.len + len then .error .overflow
  else .ok ⟨self.offset, self.len + len⟩

/-- `Region`: the range `[blob_address, blob_address + blob_len)` to read, its chunks
with whether each is a user chunk, and the merged user segment `seg`. -/
structure Region where
  type : RegionType
  status : RegionStatus
  count : Nat
  chunks : List BlobChunkInfo
  tags : List Bool
  blobAddress : Nat
  blobLen : Nat
  seg : BlobIoSegment
deriving DecidableEq, Repr

namespace Region

/-- `Region::new`. -/
def new (regionType : RegionType) : Region := ⟨regionType, .init, 0, [], [], 0, 0, ⟨0, 0⟩⟩

/-- `Region::has_user_io`. -/
def hasUserIo (self : Region) : Bool := !self.seg.isEmpty

/-- The user segment after a chunk with tag `tag` joined. -/
def appendSeg (seg : BlobIoSegment) : BlobIoTag → Except CacheError BlobIoSegment
  | .user s => if seg.isEmpty then .ok ⟨s.offset, s.len⟩ else seg.append s.offset s.len
  | .internal => .ok seg

/-- `Region::append`: the first chunk opens the region; a later one must start at most
`RAFS_DEFAULT_CHUNK_SIZE` after its end, and the region grows to the chunk's end. The
chunk itself is kept only when given. The end and the growth are computed on `u64`, the
length is a `u32` that grows by the growth cut to 32 bits (`as u32`). -/
def append (self : Region) (start len : Nat) (tag : BlobIoTag) (chunk : Option BlobChunkInfo) :
    Except CacheError Region := do
  if self.status = .committed then .error .regionCommitted
  else
    let self ← if self.status = .init then
        pure { self with status := .opened, blobAddress := start, blobLen := len, count := 1 }
      else
        let end_ := self.blobAddress + self.blobLen
        if U64_LIMIT ≤ end_ + RAFS_DEFAULT_CHUNK_SIZE then .error .overflow
        else if end_ + RAFS_DEFAULT_CHUNK_SIZE < start ∨ start + len ≥ U64_LIMIT then
          .error .notContinuous
        -- `start + len - end` below zero: a chunk that ends inside the region
        else if start + len < end_ then .error .overflow
        else
          let sz := (start + len - end_) % 2 ^ 32
          if 2 ^ 32 ≤ self.blobLen + sz then .error .overflow
          else pure { self with blobLen := self.blobLen + sz, count := self.count + 1 }
    let seg ← appendSeg self.seg tag
    match chunk with
    | some c => pure { self with seg, chunks := self.chunks ++ [c], tags := self.tags ++ [tag.isUserIo] }
    | none => pure { self with seg }

end Region

/-- `FileIoMergeState`: the regions built so far, and whether the last one may take
more chunks. -/
structure FileIoMergeState where
  regions : List Region
  lastRegionJoinable : Bool
deriving DecidableEq, Repr

namespace FileIoMergeState

/-- `FileIoMergeState::new`. -/
def new : FileIoMergeState := ⟨[], true⟩

/-- `FileIoMergeState::joinable`: the last region has the type and is still open. -/
def joinable (self : FileIoMergeState) (regionType : RegionType) : Bool :=
  match self.regions.getLast? with
  | some last => last.type == regionType && self.lastRegionJoinable
  | none => false

/-- `FileIoMergeState::commit`: later chunks go to a new region. -/
def commit (self : FileIoMergeState) : FileIoMergeState := { self with lastRegionJoinable := false }

/-- `FileIoMergeState::push`: a new region is started unless the last one can take the
chunk; the chunk is appended to the last region. -/
def push (self : FileIoMergeState) (regionType : RegionType) (start len : Nat) (tag : BlobIoTag)
    (chunk : Option BlobChunkInfo) : Except CacheError FileIoMergeState :=
  let self := if self.regions.isEmpty || !self.joinable regionType then
      ⟨self.regions ++ [Region.new regionType], true⟩
    else self
  match self.regions.getLast? with
  | none => .error .outOfBounds
  | some last => do
    let last ← last.append start len tag chunk
    pure { self with regions := self.regions.dropLast ++ [last] }

end FileIoMergeState

end Nydus
