import Nydus.Cache.Region
import Nydus.Storage.ZranContexts
import Nydus.Storage.CopyvSpec

/-!
# Dispatching a read range

`FileCacheEntry::dispatch_one_range` (`storage/src/cache/cachedfile.rs`) checks the
readiness of each chunk of a `BlobIoRange`, builds regions, and runs one dispatcher per
region; the bytes each dispatcher writes to the user's buffers follow each other in
region order. `dispatch_cache_fast` reads the region's user segment from the cache file
in one piece; `dispatch_cache_slow` reads every chunk on its own, from the cache when it
validates and from the backend otherwise; `dispatch_backend` reads the region's chunks,
possibly more of them, from the backend and copies the user segment out of the user
chunks' data.

The user's buffers are one stream here, with room for every copy: what a dispatcher writes
is the list of bytes it appends. A copy out of chunk data is `copyv` of `storage/src/utils.rs`,
whose model (`Storage.Utils.copyv`) writes, into buffers with room past the copy, exactly the
bytes the stream takes (`copyv_refines`); a copy that fills the buffers exactly is where that
`copyv` can fail (`Storage.Utils.copyv_overflow_after_exact_fill`), which the stream leaves out.
The environment of the cache entry gives the cache file's bytes, the chunk map's answers and
the data the backend yields for each chunk.
-/

namespace Nydus

open BlobMetaChunkInfo

/-- `RAFS_MERGING_SIZE_TO_GAP_SHIFT`: the largest gap merged into a request is its size
limit shifted right by this. -/
def RAFS_MERGING_SIZE_TO_GAP_SHIFT : Nat := 7

/-- The errors of the chunk map: a wait for another thread's fetch timed out, or
anything else. -/
inductive ChunkMapError where
  | timeout
  | other
deriving DecidableEq, Repr

/-- What the read path reads of a `FileCacheEntry`: its settings, its blob meta, the
cache file, the chunk map (by chunk id) and the backend. `chunkData` is the
decompressed data the backend yields for a chunk, `cachedData` what is decompressed
from a compressed cache file, and `checkDigest` the digest check of a chunk's data. -/
structure FileCacheEntry (α : Type) where
  isCompressed : Bool
  isDirectChunkmap : Bool
  validate : Bool
  isLegacyStargz : Bool
  isZran : Bool
  batchSize : Nat
  blobMetaInfo : Option (BlobMetaInfo α)
  file : Nat → UInt8
  checkReadyAndMarkPending : Nat → Except ChunkMapError Bool
  isReady : Nat → Bool
  chunkData : Nat → List UInt8
  cachedData : Nat → List UInt8
  checkDigest : List UInt8 → BlobChunkInfo → Bool

/-! ## Copying into the user's buffers -/

/-- `copyv` into the user's stream: after the check of `offset`, `length` bytes of the sources
laid end to end from `offset` in the first, or what they hold, which is what `copyv` writes
into buffers with room for them (`copyv_refines`). -/
def copyv (src : List (List UInt8)) (offset length : Nat) : Except CacheError (Nat × List UInt8) :=
  if src = [] ∨ length = 0 then .ok (0, [])
  else if (src.getD 0 []).length < offset then .error .memOverflow
  else .ok (min length (src.flatten.length - offset), (src.flatten.drop offset).take length)

open Storage.Utils Slices in
/-- The stream's `copyv` is the model of `copyv` in `Storage.Utils`, through a writer with the
documented behaviour, into non-empty buffers with room past the copy: a copy the stream takes
is the same count of bytes written there at the cursor's flat offset, and the stream's failure
is `copyv`'s check of `offset`. -/
theorem copyv_refines {w : SliceWriter} (documented : w.Documented)
    {src dst : List (List UInt8)} {offset length dstIndex dstOffset : Nat}
    (nonempty : ∀ d ∈ dst, d ≠ []) (within : dstOffset < (dst.getD dstIndex []).length)
    (room : flatOffset (dst.map List.length) dstIndex dstOffset +
      min length (src.flatten.length - offset) < dst.flatten.length) :
    (∀ {n : Nat} {bytes : List UInt8}, copyv src offset length = .ok (n, bytes) →
      ∃ pos dst', Storage.Utils.copyv w src dst offset length dstIndex dstOffset =
          .ok (n, pos, dst') ∧
        dst'.flatten = writeAt dst.flatten (flatOffset (dst.map List.length) dstIndex dstOffset)
          bytes) ∧
    (copyv src offset length = .error .memOverflow →
      Storage.Utils.copyv w src dst offset length dstIndex dstOffset = .error .memOverflow) := by
  constructor
  · intro n bytes ok
    unfold copyv at ok
    split at ok
    · next trivial =>
      -- nothing to copy: `copyv` returns the buffers as they are
      cases ok
      refine ⟨_, dst, by rw [Storage.Utils.copyv, if_pos trivial], (writeAt_nil _ _).symm⟩
    · split at ok
      · cases ok
      · next start =>
        cases ok
        obtain ⟨dst', ran, -, written⟩ :=
          copyv_writes_flat documented (Nat.le_of_not_lt start) nonempty within room
        exact ⟨_, dst', ran, written⟩
  · intro failed
    unfold copyv at failed
    split at failed
    · cases failed
    · next trivial =>
      split at failed
      · next past => rw [Storage.Utils.copyv, if_neg trivial, if_pos (Or.inl past)]
      · cases failed

open Storage.Utils Slices in
/-- The read path's copy of three bytes of `[1, 2]` and `[3]` is what the crate's `write` puts
in two two-byte slices. -/
theorem copyv_refines_twoSlices :
    ∃ pos dst', Storage.Utils.copyv .volatile [[1, 2], [3]] [[0, 0], [0, 0]] 0 3 0 0 =
        .ok (3, pos, dst') ∧ dst'.flatten = [1, 2, 3, 0] := by
  obtain ⟨pos, dst', ran, written⟩ := (copyv_refines SliceWriter.volatile_documented
    (show ∀ d ∈ ([[0, 0], [0, 0]] : List (List UInt8)), d ≠ [] by decide)
    (show 0 < (([[0, 0], [0, 0]] : List (List UInt8)).getD 0 []).length by decide)
    (show flatOffset (([[0, 0], [0, 0]] : List (List UInt8)).map List.length) 0 0 +
      min 3 (([[1, 2], [3]] : List (List UInt8)).flatten.length - 0) <
        ([[0, 0], [0, 0]] : List (List UInt8)).flatten.length by decide)).1
    (show copyv [[1, 2], [3]] 0 3 = .ok (3, [1, 2, 3]) by decide)
  exact ⟨pos, dst', ran, by rw [written]; decide⟩

variable {α : Type} [BlobMetaChunkInfo α]

namespace FileCacheEntry

variable (e : FileCacheEntry α)

/-- `need_validation`, as `FileCacheMgr` sets it: on when asked for or when the chunk
map is not direct, never for legacy stargz. -/
def needValidation : Bool := (e.validate || !e.isDirectChunkmap) && !e.isLegacyStargz

/-- `ondemand_batch_size`: at least 128 KiB. -/
def ondemandBatchSize : Nat := if e.batchSize < 0x2_0000 then 0x2_0000 else e.batchSize

/-- `read_file_cache`: the chunk's data read back from the cache file, if it passes
`validate_chunk_data`. -/
def readFileCache (c : BlobChunkInfo) : Option (List UInt8) :=
  let data := if e.isCompressed then e.cachedData c.id
    else (List.range' c.uncompressedOffset c.uncompressedSize).map e.file
  if data.length ≠ c.uncompressedSize then none
  else if e.needValidation && !e.isLegacyStargz && !e.checkDigest data c then none
  else some data

/-- `read_single_chunk`: the chunk's data from the cache, or else from the backend,
copied from `user_offset` on. -/
def readSingleChunk (c : BlobChunkInfo) (userOffset size : Nat) :
    Except CacheError (Nat × List UInt8) :=
  let data := (e.readFileCache c).getD (e.chunkData c.id)
  copyv [data] userOffset size

/-- `dispatch_cache_fast`: the region's user segment, read from the cache file in one
piece from `blob_address + seg.offset`. -/
def dispatchCacheFast (region : Region) : Nat × List UInt8 :=
  let offset := region.blobAddress + region.seg.offset
  (region.seg.len, (List.range' offset region.seg.len).map e.file)

/-- The loop of `dispatch_cache_slow`: each chunk's part of the user segment, the first
from `seg.offset`, the others from their start. -/
def cacheSlowLoop (seg : BlobIoSegment) :
    Nat → List BlobChunkInfo → Nat → List UInt8 → Except CacheError (Nat × List UInt8)
  | _, [], totalRead, out => .ok (totalRead, out)
  | i, c :: rest, totalRead, out => do
    let userOffset := if i = 0 then seg.offset else 0
    let size := min (c.uncompressedSize - userOffset) (seg.len - totalRead)
    let (n, bytes) ← e.readSingleChunk c userOffset size
    cacheSlowLoop seg (i + 1) rest (totalRead + n) (out ++ bytes)

/-- `dispatch_cache_slow`. -/
def dispatchCacheSlow (region : Region) : Except CacheError (Nat × List UInt8) :=
  e.cacheSlowLoop region.seg 0 region.chunks 0 []

end FileCacheEntry

/-! ## The backend dispatcher -/

/-- `BlobMetaChunk::new(index, state)`: the chunk whose accessors read entry `index` of
the blob meta. -/
def blobMetaChunk (info : BlobMetaInfo α) (index : Nat) : Except CacheError BlobChunkInfo :=
  match info.chunkInfoArray[index]? with
  | none => .error .outOfBounds
  | some entry => .ok ⟨index, info.state.blobIndex, compressedOffset entry, compressedSize entry,
      uncompressedOffset entry, uncompressedSize entry⟩

/-- The ZRan context of a chunk (`get_zran_index`), read through the blob meta. -/
def zranIndexOf (info : BlobMetaInfo α) (id : Nat) : Nat := endAtBy getZranIndex info.chunkInfoArray id

/-- The first position of `chunks`, from `start` on, whose chunk is `id` or has its
context in `pending` (the `while start < len` loop of `strip_ready_chunks`). -/
def findFirstKept (info : BlobMetaInfo α) (pending : List Nat) (id : Nat) :
    List BlobChunkInfo → Nat → Nat
  | [], start => start
  | c :: rest, start =>
    if c.id = id ∨ zranIndexOf info c.id ∈ pending then start
    else findFirstKept info pending id rest (start + 1)

/-- The last position of `chunks` above `start` whose chunk is `id` or has its context
in `pending`, else `start` (the `while end > start` loop of `strip_ready_chunks`);
`fuel` is the number of positions left to try, from `end_` down. -/
def findLastKept (info : BlobMetaInfo α) (pending : List Nat) (id : Nat) (chunks : List BlobChunkInfo)
    (start : Nat) : Nat → Nat → Nat
  | 0, end_ => end_
  | fuel + 1, end_ =>
    if end_ > start then
      match chunks[end_]? with
      | some c =>
        if c.id = id ∨ zranIndexOf info c.id ∈ pending then end_
        else findLastKept info pending id chunks start fuel (end_ - 1)
      | none => end_
    else end_

namespace FileCacheEntry

variable (e : FileCacheEntry α)

/-- `strip_ready_chunks`. For ZRan blobs the extended list is cut to the positions from
the first requested chunk (or the first chunk of a context with a chunk not ready) to
the last one; otherwise the ready chunks at its end are dropped. -/
def stripReadyChunks (info : BlobMetaInfo α) (oldChunks extended : List BlobChunkInfo) :
    Except CacheError (List BlobChunkInfo) :=
  if e.isZran then
    let pending := (extended.filter fun c => !e.isReady c.id).map fun c => zranIndexOf info c.id
    let first := (oldChunks.head?.map (·.id)).getD 0xffff_ffff
    let start := findFirstKept info pending first extended 0
    let last := (oldChunks.getLast?.map (·.id)).getD 0xffff_ffff
    let end_ := findLastKept info pending last extended start extended.length (extended.length - 1)
    if extended = [] ∨ end_ < start then .error .outOfBounds
    else if start = 0 ∧ end_ = extended.length - 1 then .ok extended
    else .ok ((extended.drop start).take (end_ + 1 - start))
  else .ok (dropReadyTail extended)
where
  /-- The loop popping ready chunks off the end. -/
  dropReadyTail (chunks : List BlobChunkInfo) : List BlobChunkInfo :=
    (chunks.reverse.dropWhile fun c => e.isReady c.id).reverse

/-- `extend_pending_chunks`: the chunks `add_more_chunks` adds to the request, stripped,
when the blob has a meta. -/
def extendPendingChunks (chunks : List BlobChunkInfo) (batchSize : Nat) :
    Except CacheError (Option (List BlobChunkInfo)) :=
  match e.blobMetaInfo with
  | none => .ok none
  | some bm => do
    let ids ← match bm.addMoreChunks (chunks.map BlobChunkInfo.toRef) batchSize with
      | .ok ids => pure ids
      | .error err => .error (.blobMeta err)
    let v ← ids.mapM (blobMetaChunk bm)
    let v ← e.stripReadyChunks bm chunks v
    pure (some v)

/-- `get_blob_range`: the compressed range of the chunks, for ZRan blobs that of their
whole contexts. -/
def getBlobRange (chunks : List BlobChunkInfo) : Except CacheError (Nat × Nat × Nat) := do
  let (start, end_) ← if e.isZran then
      match e.blobMetaInfo, chunks.head?, chunks.getLast? with
      | some bm, some first, some last =>
        match bm.state.getZranContext (zranIndexOf bm first.id),
            bm.state.getZranContext (zranIndexOf bm last.id) with
        | some ctx, some ctx' => pure (ctx.inOffset, ctx'.inOffset + ctx'.inLen)
        | _, _ => .error .noZranContext
      | none, _, _ => .error .noBlobMeta
      | _, _, _ => .error .outOfBounds
    else
      match chunks.head?, chunks.getLast? with
      | some first, some last => pure (first.compressedOffset, last.compressedEnd)
      | _, _ => .error .outOfBounds
  if end_ - start > 0xffff_ffff then .error .rangeTooBig
  else pure (start, end_, end_ - start)

end FileCacheEntry

/-- `Region::with`: the region over other chunks, spanning their compressed range, none
of them a user chunk yet. -/
def Region.with (region : Region) (chunks : List BlobChunkInfo) : Except CacheError Region :=
  match chunks.head?, chunks.getLast? with
  | some first, some last =>
    let sz := last.compressedOffset - first.compressedOffset
    if sz ≥ 0xffff_ffff then .error .rangeTooBig
    else .ok ⟨region.type, region.status, chunks.length, chunks, List.replicate chunks.length false,
      first.compressedOffset, sz + last.compressedSize, region.seg⟩
  | _, _ => .error .outOfBounds

/-- The `assert_eq!(chunks[idx].id() + 1, chunks[idx + 1].id())` loop of
`dispatch_backend`. -/
def checkConsecutive : List BlobChunkInfo → Except CacheError Unit
  | c :: next :: rest =>
    if c.id + 1 ≠ next.id then .error (.nonConsecutiveChunks c.id next.id)
    else checkConsecutive (next :: rest)
  | _ => .ok ()

namespace FileCacheEntry

variable (e : FileCacheEntry α)

/-- The region `dispatch_backend` reads: the extended one when the extension has more
chunks, with the requested user chunks tagged again. -/
def extendRegion (region : Region) : Except CacheError Region := do
  match ← e.extendPendingChunks region.chunks e.ondemandBatchSize with
  | some v =>
    if v.length > region.chunks.length then
      let tagSet := ((region.chunks.zip region.tags).filter (·.2)).map (·.1.id)
      let hold ← region.with v
      pure { hold with tags := hold.chunks.map fun c => decide (c.id ∈ tagSet) }
    else pure region
  | none => pure region

/-- `dispatch_backend`: the region's chunks are read from the backend and the user
segment is copied out of the data of its user chunks. -/
def dispatchBackend (r : Region) : Except CacheError (Nat × List UInt8) := do
  if r.chunks.isEmpty || !r.hasUserIo then pure (0, [])
  else
    checkConsecutive r.chunks
    let region ← e.extendRegion r
    let region ← if e.isZran then do
        let (blobOffset, _, blobSize) ← e.getBlobRange region.chunks
        pure { region with blobAddress := blobOffset, blobLen := blobSize }
      else pure region
    let bufs := region.chunks.map fun c => e.chunkData c.id
    let chunkBuffers := ((bufs.zip region.tags).filter (·.2)).map (·.1)
    copyv chunkBuffers region.seg.offset region.seg.len

/-! ## The dispatch -/

/-- The readiness of a chunk as `dispatch_one_range` takes it: a timeout counts as not
ready, any other error of the chunk map ends the dispatch. -/
def chunkIsReady (c : BlobChunkInfo) : Except CacheError Bool :=
  match e.checkReadyAndMarkPending c.id with
  | .ok ready => .ok ready
  | .error .timeout => .ok false
  | .error .other => .error .chunkMap

/-- The loop of `dispatch_one_range` over the chunks of the range, building regions:
ready user chunks of an uncompressed cache without validation go to fast regions, the
other chunks whose data may be in the cache to slow regions, the rest to backend
regions. Internal chunks close the current cache region. -/
def buildRegions (tags : List BlobIoTag) :
    Nat → List BlobChunkInfo → FileIoMergeState → Except CacheError FileIoMergeState
  | _, [], state => .ok state
  | i, chunk :: rest, state => do
    let isReady ← e.chunkIsReady chunk
    let tag ← match tags[i]? with
      | some tag => pure tag
      | none => .error .outOfBounds
    let state ← if isReady && !e.isCompressed && !e.needValidation then
        if tag.isUserIo then
          state.push .cacheFast chunk.uncompressedOffset chunk.uncompressedSize tag none
        else pure state.commit
      else if !e.isDirectChunkmap || isReady then
        if tag.isUserIo then
          state.push .cacheSlow chunk.uncompressedOffset chunk.uncompressedSize tag (some chunk)
        else pure state.commit
      else state.push .backend chunk.compressedOffset chunk.compressedSize tag (some chunk)
    buildRegions tags (i + 1) rest state

/-- One region's dispatcher. -/
def dispatchRegion (r : Region) : Except CacheError (Nat × List UInt8) :=
  match r.type with
  | .cacheFast => .ok (e.dispatchCacheFast r)
  | .cacheSlow => e.dispatchCacheSlow r
  | .backend => e.dispatchBackend r

/-- The loop `for r in &state.regions` of `dispatch_one_range`. -/
def dispatchRegions : List Region → Nat → List UInt8 → Except CacheError (Nat × List UInt8)
  | [], totalRead, out => .ok (totalRead, out)
  | r :: rest, totalRead, out => do
    let (n, bytes) ← e.dispatchRegion r
    dispatchRegions rest (totalRead + n) (out ++ bytes)

/-- `FileCacheEntry::dispatch_one_range`: the total read and the bytes written to the
user's buffers. -/
def dispatchOneRange (req : BlobIoRange) (state : FileIoMergeState) :
    Except CacheError (Nat × List UInt8) := do
  let state ← e.buildRegions req.tags 0 req.chunks state
  e.dispatchRegions state.regions 0 []

/-- The loop of `read_iter` over the merged requests, each dispatched with a fresh
merge state. -/
def dispatchAll : List BlobIoRange → Nat → List UInt8 → Except CacheError (Nat × List UInt8)
  | [], totalRead, out => .ok (totalRead, out)
  | req :: rest, totalRead, out => do
    let (n, bytes) ← e.dispatchOneRange req FileIoMergeState.new
    dispatchAll rest (totalRead + n) (out ++ bytes)

/-- `FileCacheEntry::read_iter`: the descriptors are merged into requests
(`merge_requests_for_user`, with the gap `ondemand_batch_size >> 7`) and dispatched in
order. -/
def readIter (bios : List BlobIoDesc) : Except CacheError (Nat × List UInt8) := do
  let requests ← match BlobIoMergeState.mergeAndIssue bios e.ondemandBatchSize
      (e.ondemandBatchSize >>> RAFS_MERGING_SIZE_TO_GAP_SHIFT) with
    | .ok [] => .error .emptyRequest
    | .ok requests => pure requests
    | .error err => .error (.merge err)
  e.dispatchAll requests 0 []

end FileCacheEntry

/-! ## The count of a read

Every dispatcher returns as its count the number of bytes it wrote to the user's buffers,
and so does a whole read (`readIter_counts`): the fast path's fault below is in which bytes it
writes, not in how many. -/

/-- A result of a dispatcher counts the bytes it wrote. -/
def Counts (result : Nat × List UInt8) : Prop := result.1 = result.2.length

theorem copyv_counts {src : List (List UInt8)} {offset length : Nat} {result : Nat × List UInt8}
    (ok : copyv src offset length = .ok result) : Counts result := by
  unfold copyv at ok
  split at ok
  · cases ok
    rfl
  · split at ok
    · cases ok
    · cases ok
      simp only [Counts, List.length_take, List.length_drop]

namespace FileCacheEntry

variable (e : FileCacheEntry α)

omit [BlobMetaChunkInfo α] in
/-- The slow path counts what each chunk's read gave. The induction is on the chunks, with
the count and the bytes so far generalised. -/
theorem cacheSlowLoop_counts (seg : BlobIoSegment) :
    ∀ (chunks : List BlobChunkInfo) (i totalRead : Nat) (out : List UInt8) {result : Nat × List UInt8},
      totalRead = out.length → e.cacheSlowLoop seg i chunks totalRead out = .ok result → Counts result
  | [], _, _, _, _, counted, ok => by
    cases ok
    exact counted
  | c :: rest, i, totalRead, out, _, counted, ok => by
    obtain ⟨⟨n, bytes⟩, read, later⟩ := Except.bind_eq_ok.mp ok
    unfold readSingleChunk at read
    have readCounts : n = bytes.length := copyv_counts read
    refine cacheSlowLoop_counts seg rest (i + 1) (totalRead + n) (out ++ bytes) ?_ later
    rw [List.length_append, counted, readCounts]

theorem dispatchBackend_counts {r : Region} {result : Nat × List UInt8}
    (ok : e.dispatchBackend r = .ok result) : Counts result := by
  unfold dispatchBackend at ok
  split at ok
  · cases ok
    rfl
  · -- past the checks, the extension and the range of a ZRan blob, the result is `copyv`'s
    obtain ⟨_, -, ok⟩ := Except.bind_eq_ok.mp ok
    obtain ⟨_, -, ok⟩ := Except.bind_eq_ok.mp ok
    split at ok
    · obtain ⟨_, -, ok⟩ := Except.bind_eq_ok.mp ok
      exact copyv_counts ok
    · exact copyv_counts ok

theorem dispatchRegion_counts {r : Region} {result : Nat × List UInt8}
    (ok : e.dispatchRegion r = .ok result) : Counts result := by
  unfold dispatchRegion at ok
  split at ok
  · cases ok
    simp [Counts, dispatchCacheFast]
  · exact e.cacheSlowLoop_counts r.seg r.chunks 0 0 [] rfl ok
  · exact e.dispatchBackend_counts ok

theorem dispatchRegions_counts :
    ∀ (regions : List Region) (totalRead : Nat) (out : List UInt8) {result : Nat × List UInt8},
      totalRead = out.length → e.dispatchRegions regions totalRead out = .ok result → Counts result
  | [], _, _, _, counted, ok => by
    cases ok
    exact counted
  | r :: rest, totalRead, out, _, counted, ok => by
    obtain ⟨⟨n, bytes⟩, dispatched, later⟩ := Except.bind_eq_ok.mp ok
    have regionCounts : n = bytes.length := e.dispatchRegion_counts dispatched
    refine dispatchRegions_counts rest (totalRead + n) (out ++ bytes) ?_ later
    rw [List.length_append, counted, regionCounts]

/-- `dispatch_one_range` returns the number of bytes it wrote to the user's buffers. -/
theorem dispatchOneRange_counts {req : BlobIoRange} {state : FileIoMergeState}
    {result : Nat × List UInt8} (ok : e.dispatchOneRange req state = .ok result) : Counts result := by
  obtain ⟨_, -, dispatched⟩ := Except.bind_eq_ok.mp ok
  exact e.dispatchRegions_counts _ 0 [] rfl dispatched

theorem dispatchAll_counts :
    ∀ (requests : List BlobIoRange) (totalRead : Nat) (out : List UInt8) {result : Nat × List UInt8},
      totalRead = out.length → e.dispatchAll requests totalRead out = .ok result → Counts result
  | [], _, _, _, counted, ok => by
    cases ok
    exact counted
  | req :: rest, totalRead, out, _, counted, ok => by
    obtain ⟨⟨n, bytes⟩, dispatched, later⟩ := Except.bind_eq_ok.mp ok
    have rangeCounts : n = bytes.length := e.dispatchOneRange_counts dispatched
    refine dispatchAll_counts rest (totalRead + n) (out ++ bytes) ?_ later
    rw [List.length_append, counted, rangeCounts]

/-- `read_iter` returns the number of bytes it wrote to the user's buffers, for every list of
descriptors and every cache entry. -/
theorem readIter_counts {bios : List BlobIoDesc} {result : Nat × List UInt8}
    (ok : e.readIter bios = .ok result) : Counts result := by
  unfold readIter at ok
  -- the merge gives the requests, or the read fails
  split at ok
  · cases ok
  · exact e.dispatchAll_counts _ 0 [] rfl ok
  · cases ok

end FileCacheEntry

/-! ## A read the fast path gets wrong -/

/-- Three 16-byte chunks stored one after another in the blob and in the cache file. -/
def gapChunk (id : Nat) : BlobChunkInfo := ⟨id, 0, 0x10 * id, 0x10, 0x10 * id, 0x10⟩

/-- The data of chunk `id`: sixteen bytes `id + 1`. -/
def gapData (id : Nat) : List UInt8 := List.replicate 0x10 (UInt8.ofNat (id + 1))

/-- A cache entry of an uncompressed cache file with a direct chunk map, in which all
three chunks are ready and stored at their uncompressed offsets; `validate` turns data
validation on. The batch size is the one the cache managers set, `RAFS_DEFAULT_CHUNK_SIZE`. -/
def gapEntry (validate : Bool) : FileCacheEntry BlobChunkInfoV2Ondisk where
  isCompressed := false
  isDirectChunkmap := true
  validate := validate
  isLegacyStargz := false
  isZran := false
  batchSize := RAFS_DEFAULT_CHUNK_SIZE
  blobMetaInfo := none
  file k := UInt8.ofNat (k / 0x10 + 1)
  checkReadyAndMarkPending _ := .ok true
  isReady _ := true
  chunkData := gapData
  cachedData := gapData
  checkDigest data c := data == gapData c.id

/-- The read of a whole file made of chunks 0 and 2 of the blob, chunk 1 belonging to
another file: one request, with both chunks user chunks. -/
def gapDescs : List BlobIoDesc :=
  [⟨false, gapChunk 0, 0, 0x10, true⟩, ⟨false, gapChunk 2, 0, 0x10, true⟩]

/-- The read of the file with validation counts the 32 bytes it returns. -/
theorem readIter_counts_gap :
    (gapEntry true).readIter gapDescs = .ok (0x20, gapData 0 ++ gapData 2) ∧
      Counts (0x20, gapData 0 ++ gapData 2) :=
  have read : (gapEntry true).readIter gapDescs = .ok (0x20, gapData 0 ++ gapData 2) := by decide
  ⟨read, (gapEntry true).readIter_counts read⟩

/-- Without validation both chunks go to one fast region, whose single read of the cache
file returns chunk 1's bytes in place of chunk 2's; with validation the per-chunk slow
path returns the file's data. -/
theorem readIter_fast_path_reads_gap :
    (gapEntry false).readIter gapDescs = .ok (0x20, gapData 0 ++ gapData 1) ∧
    (gapEntry true).readIter gapDescs = .ok (0x20, gapData 0 ++ gapData 2) := by
  decide

end Nydus
