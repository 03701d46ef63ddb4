import Nydus.Storage.ChunkIndex

/-!
# Chunks covering a data range

`BlobMetaInfo::get_chunks_uncompressed` and `get_chunks_compressed` turn a range of
the uncompressed (or compressed) blob into the list of chunks to fetch: they check
the range, compute a batch end for read amplification, locate the first chunk by
binary search and then scan forward (`storage/src/meta/mod.rs`). ZRan blobs take a
separate branch that works on whole inflate contexts.

The lookups return the indexes of the chunks they select; the source wraps each index
into a `BlobMetaChunk`, whose accessors read the entry at that index.
-/

namespace Nydus

open BlobMetaChunkInfo

variable {α : Type} [BlobMetaChunkInfo α]

/-- `get_chunk_entry`: the entry at `index`, validated. -/
def getChunkEntry (state : BlobMetaState) (chunks : List α) (index : Nat) : Except MetaError α :=
  match chunks[index]? with
  | none => .error (.outOfBounds index chunks.length)
  | some entry => do
    validate entry state
    pure entry

/-- `state.zran_info_array[index]`. -/
def zranContextAt (state : BlobMetaState) (index : Nat) : Except MetaError ZranInflateContext :=
  match state.zranInfoArray[index]? with
  | none => .error (.outOfBounds index state.zranInfoArray.length)
  | some ctx => .ok ctx

/-! ## The ZRan branches -/

/-- The walk back of the ZRan branches to the header chunk of the context
`zranIndex`, from the entry before `index`: the result is the index of the first
entry of the run of entries of that context ending at `index`. The three copies in
the source differ only in the error for a non-ZRan entry, `err`. -/
def zranWalkBack (err : MetaError) (state : BlobMetaState) (chunks : List α) (zranIndex : Nat) :
    Nat → Except MetaError Nat
  | 0 => .ok 0
  | index + 1 => do
    let entry ← getChunkEntry state chunks index
    if !isZran entry then .error err
    else if getZranIndex entry ≠ zranIndex then .ok (index + 1)
    else zranWalkBack err state chunks zranIndex index

/-- The forward loop shared by the ZRan branches of both lookups, over the entries
from the header chunk on. At the first entry of each new context the branch decides
with `stop` whether to end before it, from its accumulator (`acc`) and the context,
and then updates the accumulator with `next`; every other entry is taken. Every push is
of `BlobMetaChunk::new(index, state)` with the header's `index`, which the loop never
advances. -/
def zranScan (state : BlobMetaState) (index : Nat) (stop : Nat → ZranInflateContext → α → Bool)
    (next : Nat → ZranInflateContext → Nat) :
    List α → Nat → Nat → List Nat → Except MetaError (List Nat)
  | [], _, _, vec => .ok vec
  | entry :: rest, acc, zranLast, vec => do
    validate entry state
    if !isZran entry then .error .inconsistentZran
    else if getZranIndex entry ≠ zranLast then do
      let ctx ← zranContextAt state (getZranIndex entry)
      if stop acc ctx entry then .ok vec
      else zranScan state index stop next rest (next acc ctx) (getZranIndex entry) (vec ++ [index])
    else zranScan state index stop next rest acc zranLast (vec ++ [index])

/-- The forward loop of the ZRan branch of `_get_chunks_uncompressed`: the accumulator
is `count`, the decompressed size of the contexts taken so far, and a new context is
taken while it fits in `batch_size` or the range is not yet covered. -/
def zranUncompressedScan (state : BlobMetaState) (end_ batchSize index : Nat) :
    List α → Nat → Nat → List Nat → Except MetaError (List Nat) :=
  zranScan state index
    (fun count ctx entry => count + ctx.outSize > batchSize ∧ uncompressedOffset entry > end_)
    (fun count ctx => count + ctx.outSize)

/-- The forward loop of the ZRan branch of `_get_chunks_compressed`: `pos` is the
compressed offset of the first context, and a new context is taken while the
compressed span up to its end stays within `batch_size` or the range is not yet
covered; there is no accumulator. The source subtracts `pos` in `u64`; contexts come in
compressed order, so the model's truncated subtraction agrees with it. -/
def zranCompressedScan (state : BlobMetaState) (end_ batchSize index pos : Nat)
    (entries : List α) (zranLast : Nat) (vec : List Nat) : Except MetaError (List Nat) :=
  zranScan state index
    (fun _ ctx entry => ctx.inOffset + ctx.inSize - pos > batchSize ∧ compressedOffset entry > end_)
    (fun _ _ => 0) entries 0 zranLast vec

/-! ## The non-ZRan scans -/

/-- The forward loop of `_get_chunks_uncompressed` for non-ZRan entries, after the
entry at `index` was taken: each next entry must start at `lastEnd`, the aligned end
of the last one taken. It stops once the batch end is reached, or before an entry
that would overshoot the batch end when the range is already covered. The fuel bounds
the `while index + 1 < len` loop. -/
def uncompressedScan (state : BlobMetaState) (chunks : List α) (end_ batchEnd : Nat) :
    Nat → Nat → Nat → List Nat → Except MetaError (List Nat)
  | 0, index, _, _ => .error (.entryNotFound index chunks.length)
  | fuel + 1, index, lastEnd, vec =>
    if index + 1 < chunks.length then
      match getChunkEntry state chunks (index + 1) with
      | .error e => .error e
      | .ok entry =>
        if uncompressedOffset entry ≠ lastEnd then
          .error (.mismatchUncompressed (uncompressedOffset entry) (uncompressedSize entry) lastEnd)
        else if lastEnd ≥ end_ ∧ alignedUncompressedEnd entry > batchEnd then .ok vec
        else if alignedUncompressedEnd entry ≥ batchEnd then .ok (vec ++ [index + 1])
        else
          uncompressedScan state chunks end_ batchEnd fuel (index + 1)
            (alignedUncompressedEnd entry) (vec ++ [index + 1])
    else .error (.entryNotFound index chunks.length)

/-- The forward loop of `_get_chunks_compressed` for non-ZRan entries. Unlike the
uncompressed scan it does not check that the next entry starts where the last one
ended. -/
def compressedScan (state : BlobMetaState) (chunks : List α) (end_ batchEnd : Nat) :
    Nat → Nat → Nat → List Nat → Except MetaError (List Nat)
  | 0, index, _, _ => .error (.entryNotFound index chunks.length)
  | fuel + 1, index, lastEnd, vec =>
    if index + 1 < chunks.length then
      match getChunkEntry state chunks (index + 1) with
      | .error e => .error e
      | .ok entry =>
        if lastEnd ≥ end_ ∧ compressedEnd entry > batchEnd then .ok vec
        else if compressedEnd entry ≥ batchEnd then .ok (vec ++ [index + 1])
        else
          compressedScan state chunks end_ batchEnd fuel (index + 1) (compressedEnd entry)
            (vec ++ [index + 1])
    else .error (.entryNotFound index chunks.length)

/-! ## The lookups -/

/-- `BlobMetaChunkArray::_get_chunks_uncompressed`. -/
def _getChunksUncompressed (state : BlobMetaState) (chunks : List α)
    (start end_ batchEnd batchSize : Nat) : Except MetaError (List Nat) := do
  let index ← _getChunkIndexNocheck chunks start false
  let entry ← getChunkEntry state chunks index
  if isZran entry then
    let zranIndex := getZranIndex entry
    let ctx ← zranContextAt state zranIndex
    let header ← zranWalkBack .inconsistentZran state chunks zranIndex index
    zranUncompressedScan state end_ batchSize header (chunks.drop header) ctx.outSize zranIndex []
  else if alignedUncompressedEnd entry ≥ batchEnd then .ok [index]
  else
    uncompressedScan state chunks end_ batchEnd chunks.length index
      (alignedUncompressedEnd entry) [index]

/-- `BlobMetaChunkArray::_get_chunks_compressed`. -/
def _getChunksCompressed (state : BlobMetaState) (chunks : List α)
    (start end_ batchEnd batchSize : Nat) : Except MetaError (List Nat) := do
  let index ← _getChunkIndexNocheck chunks start true
  let entry ← getChunkEntry state chunks index
  if isZran entry then
    let zranIndex := getZranIndex entry
    let ctx ← zranContextAt state zranIndex
    let header ← zranWalkBack .inconsistentZran state chunks zranIndex index
    zranCompressedScan state end_ batchSize header ctx.inOffset (chunks.drop header) zranIndex []
  else if compressedEnd entry ≥ batchEnd then .ok [index]
  else
    compressedScan state chunks end_ batchEnd chunks.length index (compressedEnd entry) [index]

/-- The blob meta object (`BlobMetaInfo` with its `BlobMetaState`). The source keeps
the chunk array as an enum of the V1 and V2 layouts and dispatches every lookup to the
generic function of the layout at hand; here the layout is the type parameter. -/
structure BlobMetaInfo (α : Type) where
  state : BlobMetaState
  chunkInfoArray : List α

/-- The batch end of a request, shared by both lookups: the end of the range when the
batch is no larger than the range, else `start + batch_size` capped at the blob size
(the range end when that addition overflows). -/
def batchEndOf (start size batchSize end_ limit : Nat) : Nat :=
  if batchSize ≤ size then end_ else min ((checkedAdd start batchSize).getD end_) limit

/-- `BlobMetaInfo::get_chunks_uncompressed`. -/
def BlobMetaInfo.getChunksUncompressed (info : BlobMetaInfo α) (start size batchSize : Nat) :
    Except MetaError (List Nat) :=
  match checkedAdd start size with
  | none => .error (.invalidStart false start size)
  | some end_ =>
    if end_ > info.state.uncompressedSize then
      .error (.invalidEnd false end_ info.state.uncompressedSize)
    else
      let batchEnd := batchEndOf start size batchSize end_ info.state.uncompressedSize
      let batchSize := if batchSize < size then size else batchSize
      _getChunksUncompressed info.state info.chunkInfoArray start end_ batchEnd batchSize

/-- `BlobMetaInfo::get_chunks_compressed`. Unlike the uncompressed lookup it passes the
batch size on unchanged. -/
def BlobMetaInfo.getChunksCompressed (info : BlobMetaInfo α) (start size batchSize : Nat) :
    Except MetaError (List Nat) :=
  match checkedAdd start size with
  | none => .error (.invalidStart true start size)
  | some end_ =>
    if end_ > info.state.compressedSize then
      .error (.invalidEnd true end_ info.state.compressedSize)
    else
      let batchEnd := batchEndOf start size batchSize end_ info.state.compressedSize
      _getChunksCompressed info.state info.chunkInfoArray start end_ batchEnd batchSize

end Nydus
