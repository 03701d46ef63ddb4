import Mathlib.Data.List.Sort
import Nydus.Storage.ChunkInfo

/-!
# Compacting the blobs of an image

`BlobCompactor` (`src/bin/nydus-image/core/blob_compact.rs`) rewrites the chunk
references of a bootstrap so that they need fewer blobs. It gives every original blob a
state in four passes: the blobs of the chunk dict are `ChunkDict`, the chunks of the
other blobs are deduplicated into per-blob `Original` chunk sets, blobs nothing refers to
are `Delete`, and sparsely used or small blobs are `Rebuild`, merged greedily. It then
keeps `Original` and `ChunkDict` blobs under new indexes, writes each rebuilt blob from
its chunk set, and rewrites every chunk reference through the two reverse indexes
`c2nodes` (chunk key to positions) and `b2nodes` (blob index to positions).

The `HashMap`s of the source are association lists in insertion order, or functions for
the reverse indexes; the chunk set a rebuilt blob is written from is sorted by blob
index and offset first, so its order matters only for ties. Panics of the source
(`unwrap`, `expect`, slice indexes, `Vec::remove`, division by zero) are errors here,
each under its own constructor.
-/

namespace Nydus

/-- `RafsVersion`. -/
inductive RafsVersion where
  | v5
  | v6
deriving DecidableEq, Repr

/-- `ChunkWrapper`: a chunk of a file, the `RafsV5ChunkInfo` both versions wrap, with the
fields the builder and the compactor read and write. The digest `id` is a number. -/
structure ChunkWrapper where
  version : RafsVersion
  id : Nat
  blobIndex : Nat
  index : Nat
  compressedOffset : Nat
  compressedSize : Nat
  uncompressedOffset : Nat
  uncompressedSize : Nat
  fileOffset : Nat
  isCompressed : Bool
deriving DecidableEq, Repr

/-- `ChunkKey`: a v5 chunk is known by its digest, a v6 chunk by where it is stored. -/
inductive ChunkKey where
  | digest (id : Nat)
  | offset (blobIndex compressedOffset : Nat)
deriving DecidableEq, Repr

/-- `ChunkKey::from`. -/
def ChunkKey.from (c : ChunkWrapper) : ChunkKey :=
  match c.version with
  | .v5 => .digest c.id
  | .v6 => .offset c.blobIndex c.compressedOffset

/-- `ChunkSet`: the chunks by key, and the sum of their compressed sizes. -/
structure ChunkSet where
  chunks : List (ChunkKey × ChunkWrapper)
  totalSize : Nat
deriving DecidableEq, Repr

namespace ChunkSet

def new : ChunkSet := ⟨[], 0⟩

/-- `ChunkSet::add_chunk`: a chunk whose key is present is not added again. -/
def addChunk (self : ChunkSet) (chunk : ChunkWrapper) : ChunkSet :=
  let key := ChunkKey.from chunk
  match self.chunks.lookup key with
  | some _ => self
  | none => ⟨self.chunks ++ [(key, chunk)], self.totalSize + chunk.compressedSize⟩

def getChunk (self : ChunkSet) (key : ChunkKey) : Option ChunkWrapper := self.chunks.lookup key

/-- `ChunkSet::merge`. -/
def merge (self other : ChunkSet) : ChunkSet :=
  other.chunks.foldl (fun cs entry => cs.addChunk entry.2) self

end ChunkSet

/-- The errors of the compactor: its `bail!`s and `ensure!`s, and the panics of the
source. -/
inductive CompactError where
  /-- `"invalid state"`. -/
  | invalidState
  /-- `"different uncompress size"`. -/
  | differentUncompressSize
  /-- `"different compressed size"`. -/
  | differentCompressedSize
  /-- `"unexpected blob_index of chunk"`. -/
  | unexpectedBlobIndex
  /-- `"too many blobs"` of `BlobManager::alloc_index`. -/
  | tooManyBlobs
  /-- The failed `ensure!(self.states.len() == self.ori_blob_mgr.len())`. -/
  | statesMismatch
  /-- A panic: an index past the end of a `Vec`. -/
  | indexOutOfBounds
  /-- A panic: `Option::unwrap` on `None`. -/
  | unwrapNone
  /-- A panic: `Result::unwrap` on the error `e`. -/
  | unwrapErr (e : CompactError)
  /-- A panic: `Vec::remove` past the end. -/
  | removalIndexOutOfBounds
  /-- A panic: a division by zero. -/
  | divisionByZero
  /-- A panic: the failed `assert_eq!(chunk.index(), blob_meta_info.len())` of
  `add_chunk_meta_info`. -/
  | chunkIndexMismatch
  /-- A panic: `set_real_blob_idx` of the empty chunk dict. -/
  | unitSetRealBlobIdx
deriving DecidableEq, Repr

/-- `State` of an original blob. -/
inductive State where
  | original (cs : ChunkSet)
  | chunkDict
  | delete
  | rebuild (cs : ChunkSet)
deriving DecidableEq, Repr

namespace State

def isRebuild : State → Bool
  | rebuild _ => true
  | _ => false

/-- `State::merge_blob`: a rebuilt blob takes the chunks of an original or rebuilt one. -/
def mergeBlob (self other : State) : Except CompactError State := do
  let mergeCs ← match other with
    | original cs => pure cs
    | rebuild cs => pure cs
    | _ => .error .invalidState
  match self with
  | rebuild cs => pure (rebuild (cs.merge mergeCs))
  | _ => .error .invalidState

def chunkTotalSize : State → Except CompactError Nat
  | original cs => .ok cs.totalSize
  | rebuild cs => .ok cs.totalSize
  | _ => .error .invalidState

end State

/-- The free function `apply_chunk_change`: `to` takes the location of `from`, whose
sizes must agree with its own. -/
def applyChunkChange (from_ to_ : ChunkWrapper) : Except CompactError ChunkWrapper :=
  if to_.uncompressedSize ≠ from_.uncompressedSize then .error .differentUncompressSize
  else if to_.compressedSize ≠ from_.compressedSize then .error .differentCompressedSize
  else .ok { to_ with
    blobIndex := from_.blobIndex
    index := from_.index
    uncompressedOffset := from_.uncompressedOffset
    compressedOffset := from_.compressedOffset }

/-! ## Blobs and the chunk dict -/

/-- `BlobInfo`: an entry of a blob table. -/
structure BlobInfo where
  blobIndex : Nat
  blobId : String
  compressedSize : Nat
  uncompressedSize : Nat
deriving DecidableEq, Repr

/-- `BlobContext`, with the fields the compactor reads and writes; `blobMetaInfo` holds
the compressed and uncompressed offset and size of each chunk of the blob meta. -/
structure BlobContext where
  blobId : String
  compressedBlobSize : Nat
  uncompressedBlobSize : Nat
  compressedOffset : Nat
  uncompressedOffset : Nat
  chunkCount : Nat
  blobMetaInfoEnabled : Bool
  blobMetaInfo : List (Nat × Nat × Nat × Nat)
deriving DecidableEq, Repr

namespace BlobContext

/-- `BlobContext::new`. -/
def new (blobId : String) (blobOffset : Nat) : BlobContext :=
  ⟨blobId, 0, 0, blobOffset, 0, 0, false, []⟩

/-- `BlobContext::add_chunk_meta_info`. -/
def addChunkMetaInfo (self : BlobContext) (chunk : ChunkWrapper) : Except CompactError BlobContext :=
  if self.blobMetaInfoEnabled then
    if chunk.index ≠ self.blobMetaInfo.length then .error .chunkIndexMismatch
    else .ok { self with blobMetaInfo := self.blobMetaInfo ++
      [(chunk.compressedOffset, chunk.compressedSize, chunk.uncompressedOffset, chunk.uncompressedSize)] }
  else .ok self

end BlobContext

/-- `BlobContext::from`. -/
def BlobContext.from (blob : BlobInfo) : BlobContext :=
  { (BlobContext.new blob.blobId 0) with
    compressedBlobSize := blob.compressedSize
    uncompressedBlobSize := blob.uncompressedSize }

/-- The chunk dict: `()`, which has nothing and maps every blob index to itself, or a
`HashChunkDict` with its chunks (the first of a digest is kept), its blob table and the
map from its own blob indexes to those of the image being built. -/
inductive ChunkDict where
  | unit
  | hash (m : List ChunkWrapper) (blobs : List BlobInfo) (blobIdxM : List (Nat × Nat))
deriving DecidableEq, Repr

namespace ChunkDict

def getChunk : ChunkDict → Nat → Option ChunkWrapper
  | unit, _ => none
  | hash m _ _, digest => m.find? (·.id = digest)

def getBlobs : ChunkDict → List BlobInfo
  | unit => []
  | hash _ blobs _ => blobs

/-- `add_chunk`: the first chunk of a digest is kept (its reference count is not
modelled); the empty dict takes nothing. -/
def addChunk : ChunkDict → ChunkWrapper → ChunkDict
  | unit, _ => unit
  | hash m blobs blobIdxM, chunk =>
    match m.find? (·.id = chunk.id) with
    | some _ => hash m blobs blobIdxM
    | none => hash (m ++ [chunk]) blobs blobIdxM

/-- `get_blobs_by_inner_idx`: the dict's own blob of that position. -/
def getBlobsByInnerIdx (d : ChunkDict) (idx : Nat) : Option BlobInfo := d.getBlobs[idx]?

/-- `get_real_blob_idx`; the `BTreeMap` is a list whose first entry of a key is its value. -/
def getRealBlobIdx : ChunkDict → Nat → Option Nat
  | unit, innerIdx => some innerIdx
  | hash _ _ blobIdxM, innerIdx => blobIdxM.lookup innerIdx

def setRealBlobIdx : ChunkDict → Nat → Nat → Except CompactError ChunkDict
  | unit, _, _ => .error .unitSetRealBlobIdx
  | hash m blobs blobIdxM, innerIdx, outIdx => .ok (hash m blobs ((innerIdx, outIdx) :: blobIdxM))

end ChunkDict

/-- `BlobManager`: the blob table being built, the index of the blob the builder writes
to, the chunk dict given to the build and the `HashChunkDict` of the chunks of all layers. -/
structure BlobManager where
  blobs : List BlobContext
  currentBlobIndex : Option Nat
  globalChunkDict : ChunkDict
  layeredChunkDict : ChunkDict
deriving DecidableEq, Repr

namespace BlobManager

/-- `BlobManager::new`. -/
def new : BlobManager := ⟨[], none, .unit, .hash [] [] []⟩

/-- `BlobManager::alloc_index`: RAFS v6 takes at most 256 blobs. -/
def allocIndex (self : BlobManager) : Except CompactError Nat :=
  if self.blobs.length < 256 then .ok self.blobs.length else .error .tooManyBlobs

def add (self : BlobManager) (ctx : BlobContext) : BlobManager := { self with blobs := self.blobs ++ [ctx] }

/-- `BlobManager::take_blob`, which is `Vec::remove`: the blobs after `idx` move down. -/
def takeBlob (self : BlobManager) (idx : Nat) : Except CompactError (BlobContext × BlobManager) :=
  match self.blobs[idx]? with
  | some ctx => .ok (ctx, { self with blobs := self.blobs.eraseIdx idx })
  | none => .error .removalIndexOutOfBounds

/-- `BlobManager::from_blob_table`. -/
def fromBlobTable (self : BlobManager) (blobTable : List BlobInfo) : BlobManager :=
  { self with blobs := blobTable.map BlobContext.from }

def getBlobIdxById (self : BlobManager) (id : String) : Option Nat :=
  self.blobs.findIdx? (·.blobId = id)

/-- The loop of `extend_blob_table_from_chunk_dict`: a dict blob already in the table is
mapped to its index, the others are appended. -/
def extendLoop (self : BlobManager) : List BlobInfo → Except CompactError BlobManager
  | [] => .ok self
  | blob :: rest => do
    let self ← match self.getBlobIdxById blob.blobId with
      | some realIdx => do
        let dict ← self.globalChunkDict.setRealBlobIdx blob.blobIndex realIdx
        pure { self with globalChunkDict := dict }
      | none => do
        let idx ← self.allocIndex
        let self := self.add (BlobContext.from blob)
        let dict ← self.globalChunkDict.setRealBlobIdx blob.blobIndex idx
        pure { self with globalChunkDict := dict }
    extendLoop self rest

/-- `BlobManager::extend_blob_table_from_chunk_dict`. -/
def extendBlobTableFromChunkDict (self : BlobManager) : Except CompactError BlobManager :=
  self.extendLoop self.globalChunkDict.getBlobs

end BlobManager

/-- `Config` of the compactor, but for `blobs_dir`, the directory the rebuilt blobs are
written to. -/
structure Config where
  minUsedRatio : UInt8
  compactBlobSize : Nat
  maxCompactSize : Nat
  layersToCompact : Nat
deriving DecidableEq, Repr

/-- `DEFAULT_COMPACT_BLOB_SIZE` and `DEFAULT_MAX_COMPACT_SIZE`. -/
def DEFAULT_COMPACT_BLOB_SIZE : Nat := 10 * 1024 * 1024
def DEFAULT_MAX_COMPACT_SIZE : Nat := 100 * 1024 * 1024

/-- The `Config` of the serde defaults. -/
def Config.default : Config := ⟨0, DEFAULT_COMPACT_BLOB_SIZE, DEFAULT_MAX_COMPACT_SIZE, 0⟩

/-! ## The compactor -/

/-- `BlobCompactor`. `nodes` are the chunks of each node (`node.chunks[_].inner`),
`backend` gives the bytes of a blob by id, and `dumped` the blob files
`dump_new_blobs` wrote, by their index in the new blob table. -/
structure BlobCompactor where
  version : RafsVersion
  states : List (Option State)
  oriBlobMgr : BlobManager
  newBlobMgr : BlobManager
  nodes : List (List ChunkWrapper)
  c2nodes : ChunkKey → List (Nat × Nat)
  b2nodes : Nat → List (Nat × Nat)
  backend : String → List UInt8
  dumped : List (Nat × List UInt8)

/-- `map.entry(key).or_insert(vec![]).push(value)` on a map given as a function. -/
def pushAt {κ β : Type} [DecidableEq κ] (m : κ → List β) (key : κ) (value : β) : κ → List β :=
  fun k => if k = key then m k ++ [value] else m k

/-- `v[i]` of the source, which panics past the end. -/
def getIdx {β : Type} (v : List β) (i : Nat) : Except CompactError β :=
  match v[i]? with
  | some b => .ok b
  | none => .error .indexOutOfBounds

/-- `Option::unwrap`. -/
def unwrapOpt {β : Type} : Option β → Except CompactError β
  | some b => .ok b
  | none => .error .unwrapNone

/-- `Result::unwrap`. -/
def unwrapRes {β : Type} : Except CompactError β → Except CompactError β
  | .ok b => .ok b
  | .error e => .error (.unwrapErr e)

/-- `self.nodes[node_idx].chunks[chunk_idx]`. -/
def getChunkAt (nodes : List (List ChunkWrapper)) (pos : Nat × Nat) : Except CompactError ChunkWrapper := do
  let node ← getIdx nodes pos.1
  getIdx node pos.2

/-- `self.nodes[node_idx].chunks[chunk_idx] = chunk`. -/
def setChunkAt (nodes : List (List ChunkWrapper)) (pos : Nat × Nat) (chunk : ChunkWrapper) :
    List (List ChunkWrapper) :=
  nodes.modify pos.1 fun node => node.set pos.2 chunk

/-- One round of `load_chunk_dict_blobs`: dict blob `i` is `ChunkDict` at its index in
the table. -/
def markChunkDictBlob (dict : ChunkDict) (states : List (Option State)) (i : Nat) :
    Except CompactError (List (Option State)) :=
  match dict.getRealBlobIdx i with
  | some realBlobIdx =>
    if realBlobIdx < states.length then .ok (states.set realBlobIdx (some .chunkDict))
    else .error .indexOutOfBounds
  | none => .ok states

/-- `load_chunk_dict_blobs`: the blobs of the chunk dict are `ChunkDict`. -/
def loadChunkDictBlobs (dict : ChunkDict) (states : List (Option State)) :
    Except CompactError (List (Option State)) :=
  (List.range dict.getBlobs.length).foldlM (markChunkDictBlob dict) states

/-- What `load_and_dedup_chunks` carries from chunk to chunk. -/
structure DedupState where
  allChunks : ChunkSet
  states : List (Option State)
  c2nodes : ChunkKey → List (Nat × Nat)
  b2nodes : Nat → List (Nat × Nat)

/-- The dedup of one chunk, guarded as the source guards it: by whether the chunk's
blob is a `ChunkDict` blob. -/
def dedupChunk (dict : ChunkDict) (st : DedupState) (chunk : ChunkWrapper) :
    Except CompactError (DedupState × ChunkWrapper) := do
  let blobState ← getIdx st.states chunk.blobIndex
  match blobState with
  | some .chunkDict =>
    match dict.getChunk chunk.id with
    | some c => pure (st, ← applyChunkChange c chunk)
    | none =>
      match st.allChunks.getChunk (ChunkKey.from chunk) with
      | some c => pure (st, ← applyChunkChange c chunk)
      | none =>
        let allChunks := st.allChunks.addChunk chunk
        let blobIndex := chunk.blobIndex
        let states := if (st.states[blobIndex]?).join.isNone then
            st.states.set blobIndex (some (.original .new))
          else st.states
        let states := match states[blobIndex]? with
          | some (some (.original cs)) => states.set blobIndex (some (.original (cs.addChunk chunk)))
          | _ => states
        pure ({ st with allChunks, states }, chunk)
  | _ => pure (st, chunk)

/-- The inner loop of `load_and_dedup_chunks` over the chunks of node `nodeIdx`; the
key of `c2nodes` is taken before the dedup, the blob index of `b2nodes` after it. -/
def dedupChunks (dict : ChunkDict) (nodeIdx : Nat) :
    List ChunkWrapper → Nat → DedupState → Except CompactError (DedupState × List ChunkWrapper)
  | [], _, st => .ok (st, [])
  | chunk :: rest, chunkIdx, st => do
    let chunkKey := ChunkKey.from chunk
    let (st, chunk) ← dedupChunk dict st chunk
    let st := { st with
      c2nodes := pushAt st.c2nodes chunkKey (nodeIdx, chunkIdx),
      b2nodes := pushAt st.b2nodes chunk.blobIndex (nodeIdx, chunkIdx) }
    let (st, rest) ← dedupChunks dict nodeIdx rest (chunkIdx + 1) st
    pure (st, chunk :: rest)

/-- The outer loop of `load_and_dedup_chunks`, over the nodes. -/
def dedupNodes (dict : ChunkDict) :
    List (List ChunkWrapper) → Nat → DedupState → Except CompactError (DedupState × List (List ChunkWrapper))
  | [], _, st => .ok (st, [])
  | node :: rest, nodeIdx, st => do
    let (st, node) ← dedupChunks dict nodeIdx node 0 st
    let (st, rest) ← dedupNodes dict rest (nodeIdx + 1) st
    pure (st, node :: rest)

namespace BlobCompactor

variable (self : BlobCompactor)

/-- `load_and_dedup_chunks`. -/
def loadAndDedupChunks : Except CompactError BlobCompactor := do
  let (st, nodes) ← dedupNodes self.oriBlobMgr.globalChunkDict self.nodes 0
    ⟨.new, self.states, self.c2nodes, self.b2nodes⟩
  pure { self with states := st.states, nodes, c2nodes := st.c2nodes, b2nodes := st.b2nodes }

/-- `BlobCompactor::new`. -/
def new (version : RafsVersion) (oriBlobMgr : BlobManager) (nodes : List (List ChunkWrapper))
    (backend : String → List UInt8) : Except CompactError BlobCompactor := do
  let states ← loadChunkDictBlobs oriBlobMgr.globalChunkDict
    (List.replicate oriBlobMgr.blobs.length none)
  let compactor : BlobCompactor :=
    ⟨version, states, oriBlobMgr, .new, nodes, fun _ => [], fun _ => [], backend, []⟩
  compactor.loadAndDedupChunks

/-- `delete_unused_blobs`: a blob no pass gave a state is `Delete`. -/
def deleteUnusedBlobs : BlobCompactor :=
  { self with states := self.states.map fun s => some (s.getD .delete) }

end BlobCompactor

/-- `prepare_to_rebuild`: an original blob becomes a rebuilt one. -/
def prepareToRebuild (states : List (Option State)) (idx : Nat) :
    Except CompactError (List (Option State)) := do
  let s ← unwrapOpt (← getIdx states idx)
  if s.isRebuild then pure states
  else
    match s with
    | .original cs => pure (states.set idx (some (.rebuild cs)))
    | _ => .error .invalidState

/-- The used ratio `try_rebuild_blobs` computes for a blob, as a `u8`; the size of a
blob the table does not know is the size of its data in the backend. -/
def usedRatio (backend : String → List UInt8) (blobInfo : BlobContext) (s : State) :
    Except CompactError Nat :=
  match s with
  | .original cs =>
    let compressedBlobSize := if blobInfo.compressedBlobSize = 0 then (backend blobInfo.blobId).length
      else blobInfo.compressedBlobSize
    if compressedBlobSize = 0 then .error .divisionByZero
    else .ok (cs.totalSize * 100 / compressedBlobSize % 256)
  | _ => .ok 100

/-- The loop of `try_rebuild_blobs` from blob `idx` on. -/
def tryRebuildLoop (backend : String → List UInt8) (ratio : UInt8) :
    List BlobContext → Nat → List (Option State) → Except CompactError (List (Option State))
  | [], _, states => .ok states
  | blobInfo :: rest, idx, states => do
    let s ← unwrapOpt (← getIdx states idx)
    let used ← usedRatio backend blobInfo s
    let states ← if used < ratio.toNat then unwrapRes (prepareToRebuild states idx) else pure states
    tryRebuildLoop backend ratio rest (idx + 1) states

/-- `merge_blob`: blob `from` is deleted and its chunks go to blob `to`. -/
def mergeBlobStates (states : List (Option State)) (from_ to_ : Nat) :
    Except CompactError (List (Option State)) := do
  let s ← unwrapOpt (← getIdx states from_)
  let states := states.set from_ (some .delete)
  let target ← unwrapOpt (← getIdx states to_)
  let merged ← target.mergeBlob s
  pure (states.set to_ (some merged))

/-- The blobs `try_merge_blobs` considers from blob `idx` on, with the sizes it sorts
them by. -/
def needMergeBlobs (blobs : List BlobContext) (low : Nat) :
    List (Option State) → Nat → Except CompactError (List (Nat × Nat))
  | [], _ => .ok []
  | s :: rest, idx => do
    let blobInfo ← unwrapOpt blobs[idx]?
    let candidate := match ← unwrapOpt s with
      | .original cs =>
        let blobSize := if blobInfo.compressedBlobSize = 0 then cs.totalSize
          else blobInfo.compressedBlobSize
        if blobSize < low then [(idx, blobSize)] else []
      | .rebuild cs => if cs.totalSize < low then [(idx, cs.totalSize)] else []
      | _ => []
    let more ← needMergeBlobs blobs low rest (idx + 1)
    pure (candidate ++ more)

/-- The greedy loop of `try_merge_blobs`: blobs go into `mergeTo` while the sum of the
sizes stays within `max`; the first that does not fit is the next target. -/
def tryMergeLoop (max : Nat) :
    List (Nat × Nat) → Nat → List (Option State) → Except CompactError (List (Option State))
  | [], _, states => .ok states
  | (blobIdx, _) :: rest, mergeTo, states => do
    let beforeSize ← (← unwrapOpt (← getIdx states mergeTo)).chunkTotalSize
    let appendSize ← (← unwrapOpt (← getIdx states blobIdx)).chunkTotalSize
    if beforeSize + appendSize ≤ max then
      let states ← prepareToRebuild states mergeTo
      let states ← mergeBlobStates states blobIdx mergeTo
      tryMergeLoop max rest mergeTo states
    else tryMergeLoop max rest blobIdx states

/-- `try_merge_blobs`. -/
def tryMergeBlobs (blobs : List BlobContext) (states : List (Option State)) (low max : Nat) :
    Except CompactError (List (Option State)) := do
  let needMerge ← needMergeBlobs blobs low states 0
  -- `sort_by` is stable, and so is the insertion sort
  match needMerge.insertionSort fun a b => a.2 ≤ b.2 with
  | first :: rest@(_ :: _) => tryMergeLoop max rest first.1 states
  | _ => pure states

namespace BlobCompactor

variable (self : BlobCompactor)

/-- `compact`. -/
def compact (cfg : Config) : Except CompactError BlobCompactor := do
  let self := self.deleteUnusedBlobs
  let states ← tryRebuildLoop self.backend cfg.minUsedRatio self.oriBlobMgr.blobs 0 self.states
  let states ← tryMergeBlobs self.oriBlobMgr.blobs states cfg.compactBlobSize cfg.maxCompactSize
  pure { self with states }

/-- The loop of `apply_blob_move` over the positions of `b2nodes[from]`. -/
def blobMoveLoop (from_ to_ : Nat) :
    List (Nat × Nat) → List (List ChunkWrapper) → Except CompactError (List (List ChunkWrapper))
  | [], nodes => .ok nodes
  | pos :: rest, nodes => do
    let chunk ← getChunkAt nodes pos
    if chunk.blobIndex ≠ from_ then .error .unexpectedBlobIndex
    else blobMoveLoop from_ to_ rest (setChunkAt nodes pos { chunk with blobIndex := to_ })

/-- `apply_blob_move`. -/
def applyBlobMove (from_ to_ : Nat) : Except CompactError BlobCompactor := do
  let nodes ← blobMoveLoop from_ to_ (self.b2nodes from_) self.nodes
  pure { self with nodes }

/-- The loop of the method `apply_chunk_change` over the positions of `c2nodes`. -/
def chunkChangeLoop (to_ : ChunkWrapper) :
    List (Nat × Nat) → List (List ChunkWrapper) → Except CompactError (List (List ChunkWrapper))
  | [], nodes => .ok nodes
  | pos :: rest, nodes => do
    let chunk ← getChunkAt nodes pos
    let chunk ← applyChunkChange to_ chunk
    chunkChangeLoop to_ rest (setChunkAt nodes pos chunk)

/-- The method `apply_chunk_change`: every chunk with the key of `c.1` moves to `c.2`. -/
def applyChunkChanges (c : ChunkWrapper × ChunkWrapper) : Except CompactError BlobCompactor := do
  let nodes ← chunkChangeLoop c.2 (self.c2nodes (ChunkKey.from c.1)) self.nodes
  pure { self with nodes }

end BlobCompactor

/-! ## Writing a rebuilt blob -/

/-- What a read of `len` bytes at `offset` leaves in the buffer; the source reads into an
uninitialized buffer, whose bytes past the end of the blob are zero here. -/
def readAt (data : List UInt8) (offset len : Nat) : List UInt8 :=
  (data.drop offset ++ List.replicate len 0).take len

/-- The order `ChunkSet::dump` sorts the chunks in: by blob index, then offset. -/
def dumpOrder (a b : ChunkWrapper) : Prop :=
  if a.blobIndex = b.blobIndex then a.compressedOffset ≤ b.compressedOffset
  else a.blobIndex ≤ b.blobIndex

instance : DecidableRel dumpOrder := fun a b =>
  inferInstanceAs (Decidable (if a.blobIndex = b.blobIndex then a.compressedOffset ≤ b.compressedOffset
    else a.blobIndex ≤ b.blobIndex))

/-- The loop of `ChunkSet::dump`: each chunk's bytes are read from its original blob and
appended to the new blob, and the chunk is moved to where they now are. -/
def dumpChunksLoop (oriBlobIds : List String) (backend : String → List UInt8) (newBlobIdx : Nat)
    (alignedChunk : Bool) :
    List ChunkWrapper → BlobContext × List (ChunkWrapper × ChunkWrapper) × List UInt8 →
      Except CompactError (BlobContext × List (ChunkWrapper × ChunkWrapper) × List UInt8)
  | [], acc => .ok acc
  | chunk :: rest, (ctx, changes, data) => do
    let blobId ← getIdx oriBlobIds chunk.blobIndex
    let buf := readAt (backend blobId) chunk.compressedOffset chunk.compressedSize
    let newChunk := { chunk with
      index := ctx.chunkCount
      blobIndex := newBlobIdx
      compressedOffset := ctx.compressedOffset
      uncompressedOffset := ctx.uncompressedOffset }
    let ctx ← ctx.addChunkMetaInfo newChunk
    let alignedSize := if alignedChunk then roundUp4k chunk.uncompressedSize else chunk.uncompressedSize
    let ctx := { ctx with
      chunkCount := ctx.chunkCount + 1
      compressedOffset := ctx.compressedOffset + chunk.compressedSize
      compressedBlobSize := ctx.compressedBlobSize + chunk.compressedSize
      uncompressedOffset := ctx.uncompressedOffset + alignedSize
      uncompressedBlobSize := ctx.uncompressedBlobSize + alignedSize }
    dumpChunksLoop oriBlobIds backend newBlobIdx alignedChunk rest
      (ctx, changes ++ [(chunk, newChunk)], data ++ buf)

/-- `ChunkSet::dump`: the new blob context, the chunk changes, and the bytes of the
blob file. The blob id (the digest of the data) and the blob meta written after the
chunks are not modelled. -/
def ChunkSet.dump (self : ChunkSet) (oriBlobIds : List String) (newBlobCtx : BlobContext)
    (newBlobIdx : Nat) (alignedChunk : Bool) (backend : String → List UInt8) :
    Except CompactError (BlobContext × List (ChunkWrapper × ChunkWrapper) × List UInt8) :=
  let chunks := (self.chunks.map (·.2)).insertionSort dumpOrder
  dumpChunksLoop oriBlobIds backend newBlobIdx alignedChunk chunks (newBlobCtx, [], [])

namespace BlobCompactor

/-- The arm of `dump_new_blobs` for an `Original` or `ChunkDict` blob: it is taken out of
the original table and added to the new one, its chunks moved to its new index. -/
def keepBlob (self : BlobCompactor) (idx : Nat) : Except CompactError BlobCompactor := do
  let (ctx, oriBlobMgr) ← self.oriBlobMgr.takeBlob idx
  let self := { self with oriBlobMgr }
  let blobIdx ← self.newBlobMgr.allocIndex
  let self ← if blobIdx ≠ idx then self.applyBlobMove idx blobIdx else pure self
  pure { self with newBlobMgr := self.newBlobMgr.add ctx }

/-- One round of `dump_new_blobs`, for blob `idx` in state `s`: a kept blob is taken
out of the original table and added to the new one, a rebuilt blob is written. -/
def dumpBlob (oriBlobIds : List String) (alignedChunk : Bool) (self : BlobCompactor) (idx : Nat) :
    State → Except CompactError BlobCompactor
  | .original _ | .chunkDict => self.keepBlob idx
  | .delete => pure self
  | .rebuild cs => do
    let blobCtx := { (BlobContext.new "" 0) with blobMetaInfoEnabled := self.version = .v6 }
    let blobIdx ← self.newBlobMgr.allocIndex
    let (blobCtx, newChunks, data) ← cs.dump oriBlobIds blobCtx blobIdx alignedChunk self.backend
    let self ← newChunks.foldlM (fun self c => self.applyChunkChanges c) self
    pure { self with
      newBlobMgr := self.newBlobMgr.add blobCtx
      dumped := self.dumped ++ [(blobIdx, data)] }

/-- The loop of `dump_new_blobs` from blob `idx` on. -/
def dumpLoop (oriBlobIds : List String) (alignedChunk : Bool) :
    List (Option State) → Nat → BlobCompactor → Except CompactError BlobCompactor
  | [], _, self => .ok self
  | s :: rest, idx, self => do
    let s ← unwrapOpt s
    let self ← dumpBlob oriBlobIds alignedChunk self idx s
    dumpLoop oriBlobIds alignedChunk rest (idx + 1) self

/-- `dump_new_blobs`. -/
def dumpNewBlobs (self : BlobCompactor) (alignedChunk : Bool) : Except CompactError BlobCompactor :=
  let oriBlobIds := self.oriBlobMgr.blobs.map (·.blobId)
  if self.states.length ≠ self.oriBlobMgr.blobs.length then .error .statesMismatch
  else dumpLoop oriBlobIds alignedChunk self.states 0 self

end BlobCompactor

/-- The original blob manager of `do_compact`: the source bootstrap's blob table, and
the chunk dict with its blobs appended. -/
def oriBlobManager (blobTable : List BlobInfo) (chunkDict : Option ChunkDict) :
    Except CompactError BlobManager :=
  let mgr := BlobManager.new.fromBlobTable blobTable
  match chunkDict with
  | some dict => { mgr with globalChunkDict := dict }.extendBlobTableFromChunkDict
  | none => .ok mgr

/-- `BlobCompactor::new`, `compact` and `dump_new_blobs` in a row, as `do_compact`
runs them. -/
def runCompactor (version : RafsVersion) (oriBlobMgr : BlobManager) (nodes : List (List ChunkWrapper))
    (backend : String → List UInt8) (cfg : Config) (alignedChunk : Bool) :
    Except CompactError BlobCompactor := do
  let compactor ← BlobCompactor.new version oriBlobMgr nodes backend
  let compactor ← compactor.compact cfg
  compactor.dumpNewBlobs alignedChunk

/-- `do_compact` from the blob table of the source bootstrap and its nodes on: nothing
is done below `layers_to_compact` blobs or when no blob is left, otherwise the
compactor is what the new bootstrap is dumped from. -/
def doCompact (version : RafsVersion) (blobTable : List BlobInfo) (chunkDict : Option ChunkDict)
    (nodes : List (List ChunkWrapper)) (backend : String → List UInt8) (cfg : Config)
    (alignedChunk : Bool) : Except CompactError (Option BlobCompactor) := do
  let oriBlobMgr ← oriBlobManager blobTable chunkDict
  if oriBlobMgr.blobs.length < cfg.layersToCompact then return none
  let compactor ← runCompactor version oriBlobMgr nodes backend cfg alignedChunk
  if compactor.newBlobMgr.blobs.length = 0 then return none
  pure (some compactor)

end Nydus
