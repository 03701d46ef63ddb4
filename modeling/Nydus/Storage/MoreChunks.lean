import Nydus.Storage.GetChunks

/-!
# Amplifying a backend request

`BlobMetaChunkArray::_add_more_chunks` (`storage/src/meta/mod.rs`) extends the chunks of
a backend request by chunks that can be read together with them, for at most
`max_size` compressed bytes past the first requested chunk. For a ZRan blob it takes
the whole inflate contexts of the requested chunks and then following contexts while
they fit; otherwise it fills the gaps between the requested chunks and appends the
entries after the last one.
-/

namespace Nydus

open BlobMetaChunkInfo

/-- What `_add_more_chunks` reads of a requested chunk, a `BlobChunkInfo` trait object:
its index in the blob and its compressed range. -/
structure BlobChunkRef where
  id : Nat
  compressedOffset : Nat
  compressedSize : Nat
deriving DecidableEq, Repr

variable {α : Type} [BlobMetaChunkInfo α]

/-- The forward loop of the ZRan branch, over the entries from the header chunk on.
Entries of the contexts up to `lastZranIdx` are taken; an entry of a later context is
taken when that context is the next one and the entry ends `RAFS_MAX_CHUNK_SIZE` before
the batch end, and otherwise the loop stops. Unlike the loops of the lookups, this one
advances `index` with every entry. -/
def addMoreZranScan (state : BlobMetaState) (batchEnd : Nat) :
    List α → Nat → Nat → List Nat → Except MetaError (List Nat)
  | [], _, _, vec => .ok vec
  | entry :: rest, index, lastZranIdx, vec =>
    if !(validate entry state).isOk || !isZran entry then .error .invalidZranData
    else if getZranIndex entry > lastZranIdx then
      if compressedEnd entry + RAFS_MAX_CHUNK_SIZE ≤ batchEnd ∧
          getZranIndex entry = lastZranIdx + 1 then
        addMoreZranScan state batchEnd rest (index + 1) (lastZranIdx + 1) (vec ++ [index])
      else .ok vec
    else addMoreZranScan state batchEnd rest (index + 1) lastZranIdx (vec ++ [index])

/-- The inner loop `for i in chunk.id() + 1..next.id()` of the non-ZRan branch, over
`count` entries from `i`: the entries that pass validation are taken. Indexing past the
array panics in the source. -/
def addGapEntries (state : BlobMetaState) (chunkInfoArray : List α) (i : Nat) :
    Nat → List Nat → Except MetaError (List Nat)
  | 0, vec => .ok vec
  | count + 1, vec =>
    match chunkInfoArray[i]? with
    | none => .error (.outOfBounds i chunkInfoArray.length)
    | some entry =>
      addGapEntries state chunkInfoArray (i + 1) count
        (if (validate entry state).isOk then vec ++ [i] else vec)

/-- The outer loop `for idx in 0..chunks.len() - 1` of the non-ZRan branch, with the
push of the last requested chunk after it: every requested chunk is taken, and the
gap up to the next requested chunk is filled when that chunk ends within the batch. -/
def addRequestedChunks (state : BlobMetaState) (chunkInfoArray : List α) (batchEnd : Nat) :
    List BlobChunkRef → List Nat → Except MetaError (List Nat)
  | [], vec => .ok vec
  | [last], vec => .ok (vec ++ [last.id])
  | chunk :: next :: rest, vec =>
    if chunk.id + 1 ≠ next.id ∧ next.compressedOffset + next.compressedSize ≤ batchEnd then
      match addGapEntries state chunkInfoArray (chunk.id + 1) (next.id - (chunk.id + 1))
          (vec ++ [chunk.id]) with
      | .error e => .error e
      | .ok vec => addRequestedChunks state chunkInfoArray batchEnd (next :: rest) vec
    else addRequestedChunks state chunkInfoArray batchEnd (next :: rest) (vec ++ [chunk.id])

/-- The loop `while last_idx < chunk_info_array.len()` after the last requested chunk:
the following entries, while they pass validation and end within the batch. -/
def addTrailingEntries (state : BlobMetaState) (batchEnd : Nat) :
    List α → Nat → List Nat → List Nat
  | [], _, vec => vec
  | entry :: rest, lastIdx, vec =>
    if !(validate entry state).isOk || decide (compressedEnd entry > batchEnd) then vec
    else addTrailingEntries state batchEnd rest (lastIdx + 1) (vec ++ [lastIdx])

/-- A `u64` addition as a debug build runs it: the sum, or the panic of the overflow. -/
def addU64 (a b : Nat) : Except MetaError Nat :=
  match checkedAdd a b with
  | some sum => .ok sum
  | none => .error .overflow

theorem addU64_of_lt {a b : Nat} (fits : a + b < U64_LIMIT) : addU64 a b = .ok (a + b) := by
  simp [addU64, checkedAdd, fits]

/-- `BlobMetaChunkArray::_add_more_chunks`. The branch is chosen by the last requested
chunk, the ZRan walk back starts from the first one. The source indexes `chunks[0]`,
so an empty request panics, and so does a batch end past `u64` in a debug build. -/
def _addMoreChunks (state : BlobMetaState) (chunkInfoArray : List α)
    (chunks : List BlobChunkRef) (maxSize : Nat) : Except MetaError (List Nat) :=
  match chunks.head?, chunks.getLast? with
  | some first, some last => do
    let batchEnd ← addU64 first.compressedOffset maxSize
    let firstEntry ← getChunkEntry state chunkInfoArray first.id
    let lastEntry ← getChunkEntry state chunkInfoArray last.id
    if isZran lastEntry then
      let index ← zranWalkBack .invalidZranData state chunkInfoArray
        (getZranIndex firstEntry) first.id
      addMoreZranScan state batchEnd (chunkInfoArray.drop index) index
        (getZranIndex lastEntry) []
    else
      let vec ← addRequestedChunks state chunkInfoArray batchEnd chunks []
      pure (addTrailingEntries state batchEnd (chunkInfoArray.drop (last.id + 1))
        (last.id + 1) vec)
  | _, _ => .error (.outOfBounds 0 0)

/-- `BlobMetaInfo::add_more_chunks`. -/
def BlobMetaInfo.addMoreChunks (info : BlobMetaInfo α) (chunks : List BlobChunkRef)
    (maxSize : Nat) : Except MetaError (List Nat) :=
  _addMoreChunks info.state info.chunkInfoArray chunks maxSize

end Nydus
