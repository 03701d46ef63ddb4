import Mathlib
import Nydus.Storage.MoreChunks
import Nydus.Storage.ZranContexts

/-!
# What amplification adds to a request, outside ZRan

Outside ZRan, `_add_more_chunks` keeps the requested chunks in order and adds two kinds of
entries: those in the gap before a requested chunk that ends within the batch, and those after
the last requested chunk while they end within the batch. On an array whose entries follow one
another in the compressed blob (`SortedIn _ true`), an entry of a gap ends before the next
requested chunk starts, so it ends within the batch too.

For a request of chunks of the blob with increasing ids, the call fails exactly when the entry
of the first or the last chunk fails `validate` (both are read by `get_chunk_entry`), and
otherwise the result is increasing, keeps the request in order, starts with its first chunk,
and adds only entries that pass `validate` and end within the batch (`addMoreChunks_plain`).
The validation of the first and the last chunk is the only one a requested chunk gets: a chunk
in the middle with an empty compressed range is not checked, and the gap before it is filled
up to its offset, past the end of the batch.
-/

namespace Nydus

open BlobMetaChunkInfo

variable {α : Type} [BlobMetaChunkInfo α]

/-- An entry `_add_more_chunks` may add to a request: it passes `validate` and ends within
the batch. -/
def Addable (state : BlobMetaState) (chunkInfoArray : List α) (batchEnd i : Nat) : Prop :=
  ∃ entry, chunkInfoArray[i]? = some entry ∧ (validate entry state).isOk ∧
    compressedEnd entry ≤ batchEnd

/-- A request of chunks of the blob: each reference carries the compressed range of its
entry, and the ids increase. -/
structure ChunkRequest (chunkInfoArray : List α) (chunks : List BlobChunkRef) : Prop where
  increasing : (chunks.map BlobChunkRef.id).Pairwise (· < ·)
  entries : ∀ c ∈ chunks, ∃ entry, chunkInfoArray[c.id]? = some entry ∧
    c.compressedOffset = compressedOffset entry ∧ c.compressedSize = compressedSize entry

/-- An amplified request `out` of the requested ids `ids`: increasing, with the request in
order, and every other entry one that may be added. -/
structure Amplifies (state : BlobMetaState) (chunkInfoArray : List α) (batchEnd : Nat)
    (ids out : List Nat) : Prop where
  increasing : out.Pairwise (· < ·)
  keeps : ids.Sublist out
  added : ∀ i ∈ out, i ∉ ids → Addable state chunkInfoArray batchEnd i

theorem ChunkRequest.tail {chunkInfoArray : List α} {c : BlobChunkRef} {cs : List BlobChunkRef}
    (request : ChunkRequest chunkInfoArray (c :: cs)) : ChunkRequest chunkInfoArray cs where
  increasing := (List.pairwise_cons.mp request.increasing).2
  entries d mem := request.entries d (List.mem_cons_of_mem c mem)

theorem ChunkRequest.id_lt {chunkInfoArray : List α} {c next : BlobChunkRef}
    {cs : List BlobChunkRef} (request : ChunkRequest chunkInfoArray (c :: next :: cs)) :
    c.id < next.id :=
  (List.pairwise_cons.mp request.increasing).1 next.id (by simp)

section Loops

variable (state : BlobMetaState) (chunkInfoArray : List α) (batchEnd : Nat)

/-- The gap loop takes, in order, the entries of the gap that pass `validate`. -/
theorem addGapEntries_spec : ∀ count i vec, i + count ≤ chunkInfoArray.length →
    ∃ g, addGapEntries state chunkInfoArray i count vec = .ok (vec ++ g) ∧
      g.Sublist (List.range' i count) ∧
      ∀ j ∈ g, ∃ entry, chunkInfoArray[j]? = some entry ∧ (validate entry state).isOk
  | 0, i, vec, _ => ⟨[], by simp [addGapEntries], List.Sublist.slnil, by simp⟩
  | count + 1, i, vec, inArray => by
    obtain ⟨entry, found⟩ : ∃ entry, chunkInfoArray[i]? = some entry :=
      ⟨_, List.getElem?_eq_getElem (by omega)⟩
    rw [List.range'_succ]
    cases valid : (validate entry state).isOk
    · obtain ⟨g, run, sub, taken⟩ := addGapEntries_spec count (i + 1) vec (by omega)
      refine ⟨g, ?_, sub.cons i, taken⟩
      simpa [addGapEntries, found, valid] using run
    · obtain ⟨g, run, sub, taken⟩ := addGapEntries_spec count (i + 1) (vec ++ [i]) (by omega)
      refine ⟨i :: g, ?_, sub.cons_cons i, ?_⟩
      · simpa [addGapEntries, found, valid] using run
      · rintro j (_ | ⟨_, mem⟩)
        · exact ⟨entry, found, valid⟩
        · exact taken j mem

/-- The trailing loop takes the entries from `lastIdx` on while they pass `validate` and end
within the batch. -/
theorem addTrailingEntries_spec : ∀ (entries : List α) lastIdx vec,
    ∃ n, addTrailingEntries state batchEnd entries lastIdx vec = vec ++ List.range' lastIdx n ∧
      ∀ k < n, ∃ entry, entries[k]? = some entry ∧ (validate entry state).isOk ∧
        compressedEnd entry ≤ batchEnd
  | [], lastIdx, vec => ⟨0, by simp [addTrailingEntries], by simp⟩
  | entry :: rest, lastIdx, vec => by
    by_cases stop : (!(validate entry state).isOk || decide (compressedEnd entry > batchEnd)) = true
    · exact ⟨0, by simp [addTrailingEntries, stop], by simp⟩
    · obtain ⟨n, run, taken⟩ := addTrailingEntries_spec rest (lastIdx + 1) (vec ++ [lastIdx])
      have fits : (validate entry state).isOk ∧ compressedEnd entry ≤ batchEnd := by
        simpa using stop
      refine ⟨n + 1, ?_, ?_⟩
      · rw [addTrailingEntries, if_neg stop, run, List.range'_succ]
        simp
      · intro k lt
        cases k with
        | zero => exact ⟨entry, rfl, fits⟩
        | succ k => exact taken k (by omega)

variable {state chunkInfoArray batchEnd}

/-- One round of the loop over the requested chunks: the chunk is pushed, then a gap of
entries that may be added. A gap entry lies before the next requested chunk, so it ends
where that chunk starts at the latest, and the guard puts the next chunk within the batch. -/
theorem addRequestedChunks_step (sorted : SortedIn chunkInfoArray true)
    {chunk next : BlobChunkRef} (rest : List BlobChunkRef) (vec : List Nat)
    (lt : chunk.id < next.id)
    (nextEntry : ∃ entry, chunkInfoArray[next.id]? = some entry ∧
      next.compressedOffset = compressedOffset entry) :
    ∃ g, g.Sublist (List.range' (chunk.id + 1) (next.id - (chunk.id + 1))) ∧
      (∀ j ∈ g, Addable state chunkInfoArray batchEnd j) ∧
      addRequestedChunks state chunkInfoArray batchEnd (chunk :: next :: rest) vec =
        addRequestedChunks state chunkInfoArray batchEnd (next :: rest) (vec ++ chunk.id :: g) := by
  obtain ⟨nextAt, found, offset⟩ := nextEntry
  have inArray := (List.getElem?_eq_some_iff.mp found).1
  by_cases fill : chunk.id + 1 ≠ next.id ∧ next.compressedOffset + next.compressedSize ≤ batchEnd
  · obtain ⟨g, run, sub, valid⟩ := addGapEntries_spec state chunkInfoArray
      (next.id - (chunk.id + 1)) (chunk.id + 1) (vec ++ [chunk.id]) (by omega)
    refine ⟨g, sub, ?_, ?_⟩
    · intro j mem
      obtain ⟨entry, at_j, ok⟩ := valid j mem
      have inGap := List.mem_range'_1.mp (sub.subset mem)
      have before := sorted.end_le_start (by omega : j < next.id) at_j found
      simp only [rangeEnd, rangeStart, if_true] at before
      exact ⟨entry, at_j, ok, by omega⟩
    · rw [addRequestedChunks, if_pos fill, run]
      simp
  · refine ⟨[], List.nil_sublist _, by simp, ?_⟩
    rw [addRequestedChunks, if_neg fill]

/-- The loop over the requested chunks, by induction on the request: it succeeds, and what
it pushes is an amplified request between the first and the last requested chunk. -/
theorem addRequestedChunks_amplifies (sorted : SortedIn chunkInfoArray true) :
    ∀ (c : BlobChunkRef) (cs : List BlobChunkRef) (vec : List Nat),
      ChunkRequest chunkInfoArray (c :: cs) →
      ∃ w, addRequestedChunks state chunkInfoArray batchEnd (c :: cs) vec = .ok (vec ++ w) ∧
        Amplifies state chunkInfoArray batchEnd ((c :: cs).map BlobChunkRef.id) w ∧
        w.head? = some c.id ∧
        ∀ i ∈ w, c.id ≤ i ∧ i ≤ ((c :: cs).getLast (List.cons_ne_nil _ _)).id
  | c, [], vec, _ => by
    refine ⟨[c.id], rfl, ⟨by simp, List.Sublist.refl _, by simp⟩, rfl, by simp⟩
  | c, next :: rest, vec, request => by
    have lt := request.id_lt
    obtain ⟨entry, found, offset, -⟩ := request.entries next (by simp)
    obtain ⟨g, sub, gap, round⟩ := addRequestedChunks_step sorted rest vec lt ⟨entry, found, offset⟩
    obtain ⟨w, run, amplifies, head, bounds⟩ :=
      addRequestedChunks_amplifies sorted next rest (vec ++ c.id :: g) request.tail
    have inGap : ∀ j ∈ g, c.id + 1 ≤ j ∧ j < next.id := fun j mem => by
      have := List.mem_range'_1.mp (sub.subset mem)
      omega
    have nextIn : next.id ∈ w := List.mem_of_mem_head? head
    refine ⟨c.id :: g ++ w, by rw [round, run]; simp, ⟨?_, ?_, ?_⟩, rfl, ?_⟩
    -- The gap lies strictly between the chunk and the next one, where `w` starts.
    · refine List.pairwise_cons.mpr ⟨?_, List.pairwise_append.mpr
        ⟨(List.pairwise_lt_range' ..).sublist sub, amplifies.increasing, ?_⟩⟩
      · intro j mem
        rcases List.mem_append.mp mem with inG | inW
        · exact (inGap j inG).1
        · exact Nat.lt_of_lt_of_le lt (bounds j inW).1
      · intro j inG k inW
        exact Nat.lt_of_lt_of_le (inGap j inG).2 (bounds k inW).1
    · exact (amplifies.keeps.trans (List.sublist_append_right g w)).cons_cons c.id
    · intro j mem notRequested
      rcases List.mem_cons.mp mem with rfl | mem
      · exact absurd List.mem_cons_self notRequested
      rcases List.mem_append.mp mem with inG | inW
      · exact gap j inG
      · exact amplifies.added j inW fun requested => notRequested (List.mem_cons_of_mem _ requested)
    · intro j mem
      have lastBound := (bounds next.id nextIn).2
      rw [List.getLast_cons (List.cons_ne_nil _ _)]
      rcases List.mem_cons.mp mem with rfl | mem
      · omega
      rcases List.mem_append.mp mem with inG | inW
      · have := inGap j inG
        omega
      · have := bounds j inW
        omega

/-- The entries after the last requested chunk extend an amplified request. -/
theorem Amplifies.append_trailing {ids w : List Nat} {last n : Nat}
    (amplifies : Amplifies state chunkInfoArray batchEnd ids w) (below : ∀ i ∈ w, i ≤ last)
    (taken : ∀ k < n, Addable state chunkInfoArray batchEnd (last + 1 + k)) :
    Amplifies state chunkInfoArray batchEnd ids (w ++ List.range' (last + 1) n) where
  increasing := List.pairwise_append.mpr ⟨amplifies.increasing, List.pairwise_lt_range' ..,
    fun i inW j inTrail => by
      have := below i inW
      have := List.mem_range'_1.mp inTrail
      omega⟩
  keeps := amplifies.keeps.trans (List.sublist_append_left w _)
  added i mem notRequested := by
    rcases List.mem_append.mp mem with inW | inTrail
    · exact amplifies.added i inW notRequested
    · have := List.mem_range'_1.mp inTrail
      have := taken (i - (last + 1)) (by omega)
      rwa [show last + 1 + (i - (last + 1)) = i by omega] at this

end Loops

/-- `add_more_chunks` on a request of chunks of a blob with no ZRan entry: it fails exactly
when `get_chunk_entry` fails on the first or the last requested chunk, and otherwise it
returns an amplified request that starts with the first chunk, within `max_size` bytes of the
first chunk's compressed offset. -/
theorem addMoreChunks_plain (info : BlobMetaInfo α)
    (plain : ∀ entry ∈ info.chunkInfoArray, isZran entry = false)
    (sorted : SortedIn info.chunkInfoArray true) (first : BlobChunkRef) (rest : List BlobChunkRef)
    (request : ChunkRequest info.chunkInfoArray (first :: rest)) (maxSize : Nat)
    (fits : first.compressedOffset + maxSize < U64_LIMIT) :
    ((∃ out, info.addMoreChunks (first :: rest) maxSize = .ok out) ↔
      (getChunkEntry info.state info.chunkInfoArray first.id).isOk ∧
        (getChunkEntry info.state info.chunkInfoArray
          ((first :: rest).getLast (List.cons_ne_nil _ _)).id).isOk) ∧
    ∀ out, info.addMoreChunks (first :: rest) maxSize = .ok out →
      Amplifies info.state info.chunkInfoArray (first.compressedOffset + maxSize)
          ((first :: rest).map BlobChunkRef.id) out ∧
        out.head? = some first.id := by
  obtain ⟨w, requested, amplifies, head, bounds⟩ :=
    @addRequestedChunks_amplifies _ _ info.state info.chunkInfoArray
      (first.compressedOffset + maxSize) sorted first rest [] request
  generalize lastDef : (first :: rest).getLast (List.cons_ne_nil _ _) = last at bounds
  obtain ⟨n, trailing, taken⟩ := addTrailingEntries_spec info.state
    (first.compressedOffset + maxSize) (info.chunkInfoArray.drop (last.id + 1)) (last.id + 1) w
  -- Both entries read, the branch is the one without ZRan, and its loops cannot fail.
  have outcome : ∀ out, info.addMoreChunks (first :: rest) maxSize = .ok out ↔
      (getChunkEntry info.state info.chunkInfoArray first.id).isOk ∧
        (getChunkEntry info.state info.chunkInfoArray last.id).isOk ∧
        out = w ++ List.range' (last.id + 1) n := by
    intro out
    unfold BlobMetaInfo.addMoreChunks _addMoreChunks
    rw [List.head?_cons, List.getLast?_eq_some_getLast (List.cons_ne_nil _ _), lastDef]
    dsimp only
    rw [addU64_of_lt fits, Except.ok_bind]
    cases firstRes : getChunkEntry info.state info.chunkInfoArray first.id with
    | error e => simp [Except.isOk, Except.toBool]
    | ok firstEntry =>
      cases lastRes : getChunkEntry info.state info.chunkInfoArray last.id with
      | error e => simp [Except.isOk, Except.toBool]
      | ok lastEntry =>
        have notZran := plain lastEntry (List.mem_of_getElem? (getChunkEntry_eq_ok lastRes))
        rw [List.nil_append] at requested
        rw [Except.ok_bind, Except.ok_bind, notZran, if_neg Bool.false_ne_true, requested,
          Except.ok_bind, trailing]
        simp only [Except.isOk, Except.toBool, pure, Except.pure, Except.ok.injEq, true_and]
        exact eq_comm
  refine ⟨⟨fun ⟨out, ok⟩ => ?_, fun ⟨firstOk, lastOk⟩ => ⟨_, (outcome _).mpr ⟨firstOk, lastOk, rfl⟩⟩⟩,
    fun out ok => ?_⟩
  · obtain ⟨firstOk, lastOk, -⟩ := (outcome out).mp ok
    exact ⟨firstOk, lastOk⟩
  · obtain ⟨-, -, rfl⟩ := (outcome out).mp ok
    refine ⟨amplifies.append_trailing (fun i mem => (bounds i mem).2) fun k lt => ?_, by simp [head]⟩
    obtain ⟨entry, found, ok, fits⟩ := taken k lt
    exact ⟨entry, by rwa [List.getElem?_drop] at found, ok, fits⟩

/-- Three 4 KiB chunks of a V1 blob, stored uncompressed one after the other. -/
def plainEntries : List BlobChunkInfoV1Ondisk :=
  [⟨0x00ff_f000_0000_0000, 0x00ff_f000_0000_0000⟩, ⟨0x00ff_f000_0000_1000, 0x00ff_f000_0000_1000⟩,
    ⟨0x00ff_f000_0000_2000, 0x00ff_f000_0000_2000⟩]

def plainInfo : BlobMetaInfo BlobChunkInfoV1Ondisk := ⟨⟨0, 0, 0x3000, 0x3000, [], 0⟩, plainEntries⟩

/-- A request of the first and the last chunk. -/
def plainRequest : List BlobChunkRef := [⟨0, 0, 0x1000⟩, ⟨2, 0x2000, 0x1000⟩]

theorem addMoreChunks_plain_request :
    SortedIn plainInfo.chunkInfoArray true ∧ ChunkRequest plainInfo.chunkInfoArray plainRequest ∧
      ∀ out, plainInfo.addMoreChunks plainRequest 0x3000 = .ok out →
        Amplifies plainInfo.state plainInfo.chunkInfoArray 0x3000 [0, 2] out := by
  have sorted : SortedIn plainInfo.chunkInfoArray true := sortedIn_iff_isChain.mpr (by decide)
  have request : ChunkRequest plainInfo.chunkInfoArray plainRequest := by
    refine ⟨by decide, fun c mem => ?_⟩
    simp only [plainRequest, List.mem_cons, List.not_mem_nil, or_false] at mem
    rcases mem with rfl | rfl
    · exact ⟨_, rfl, by decide, by decide⟩
    · exact ⟨_, rfl, by decide, by decide⟩
  exact ⟨sorted, request, fun out ok =>
    ((addMoreChunks_plain plainInfo (fun _ _ => rfl) sorted _ _ request 0x3000
      (by decide)).2 out ok).1⟩

/-- The same chunks in a blob whose compressed size ends before the last one. -/
def truncatedInfo : BlobMetaInfo BlobChunkInfoV1Ondisk := ⟨⟨0, 0, 0x2000, 0x3000, [], 0⟩, plainEntries⟩

/-- Four V2 entries, compressed, in order of compressed offset: the third has an empty
compressed range, at an offset inside the range of the second. -/
def emptyChunkInfo : BlobMetaInfo BlobChunkInfoV2Ondisk :=
  ⟨⟨0, 0, 0x4000, 0x5000, [], 0⟩,
    [⟨0x0100_0fff_0000_0000, 0x0010_0000_0000_0000, 0⟩, ⟨0x0100_1fff_0000_0001, 0x0020_0000_0000_1000, 0⟩,
      ⟨0x0100_0000_0000_0003, 0x0000_0000_0000_1800, 0⟩, ⟨0x0100_0fff_0000_0004, 0x0010_0000_0000_3000, 0⟩]⟩

def emptyChunkRequest : List BlobChunkRef := [⟨0, 0, 0x1000⟩, ⟨2, 0x1800, 0⟩, ⟨3, 0x3000, 0x1000⟩]

/-- A request need not get a list back: when the entry of its last chunk fails `validate`,
`get_chunk_entry` fails and so does the call. And an entry of a gap need not end within the
batch: the middle chunk of a request, which nothing validates, may have an empty compressed
range; the ranges are then still sorted and disjoint, the gap before it is filled since it
ends at the batch end, and the entry of that gap ends past it. Nor does every `max_size`
give a list: the batch end is a `u64` sum, which overflows for the largest ones. -/
theorem addMoreChunks_plain_failures :
    (truncatedInfo.addMoreChunks plainRequest 0x3000).isOk = false ∧
    plainInfo.addMoreChunks [⟨1, 0x1000, 0x1000⟩] (U64_LIMIT - 1) = .error .overflow ∧
    emptyChunkInfo.chunkInfoArray.map compressedOffset = [0, 0x1000, 0x1800, 0x3000] ∧
      emptyChunkInfo.chunkInfoArray.map compressedSize = [0x1000, 0x2000, 0, 0x1000] ∧
      emptyChunkInfo.addMoreChunks emptyChunkRequest 0x1800 = .ok [0, 1, 2, 3] ∧
      emptyChunkInfo.chunkInfoArray.map compressedEnd = [0x1000, 0x3000, 0x1800, 0x4000] := by
  decide

end Nydus
