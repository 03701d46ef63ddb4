import Mathlib
import Nydus.Rafs.BioVecsSpec

/-!
# Both allocations read the range asked for

For a file whose chunks tile it, a read of `len` bytes at `offset` within the file reads the
bytes from `offset` to `min (offset + len) size`: both allocations return vectors of which
`ReadsRange` holds. Each is proved as a loop lemma, one chunk per step through
`BlobIoVec.switch_push`, then the first chunk and the checks before the loop.

Both need more than that the chunks tile the file. The `u32` total of a vector and the `u32`
count of bytes left of v6 hold at most `u32::MAX` bytes, so a read is at most that long; v5
computes the index of the chunk the read ends in, past the end of the file, as a `u32` and
adds one to it, so the read must end within `u32::MAX` chunks; v6 counts the file's chunks
as a `u32`.
-/

namespace Nydus

open Blocks BlobIoVec

/-- `div_round_up` of a non-empty size: one more than the index of the last unit. -/
theorem divRoundUp_eq_succ {n d : Nat} (nonempty : 0 < n) (pos : 0 < d) :
    divRoundUp n d = (n - 1) / d + 1 := by
  have : n + d - 1 = n - 1 + d := by omega
  rw [divRoundUp, this, Nat.add_div_right _ pos]

/-! ## RAFS v5 -/

namespace RafsV5Inode

/-- Descriptor `d` reads the part `p = (j, o, l)` of a read: `l` bytes at `o` of the chunk
record `j` of the file, through its blob. -/
def ReadsPart (inode : RafsV5Inode) (userIo : Bool) (d : BlobIoDesc) (p : Nat × Nat × Nat) :
    Prop :=
  ∃ chunk blob, inode.chunkInfo p.1 = some chunk ∧ inode.blobTable.get chunk.blobIndex = some blob ∧
    d = BlobIoDesc.new blob chunk.ioChunk p.2.1 p.2.2 userIo

/-- A v5 file of `size` bytes whose chunk records tile it without holes: as many as chunks
of `chunk_size` cover it, record `j` at `j * chunk_size` in the file and `chunk_size` long
but the last, each of a blob the blob table holds. -/
structure Tiled (inode : RafsV5Inode) (size : Nat) : Prop where
  positive : 0 < inode.chunkSize.toNat
  noHole : inode.hasHole = false
  count : inode.childCount.toNat = divRoundUp size inode.chunkSize.toNat
  chunk : ∀ j < inode.childCount.toNat, ∃ c, inode.chunkInfo j = some c ∧
    c.fileOffset = j * inode.chunkSize.toNat ∧
    c.uncompressedSize = min inode.chunkSize.toNat (size - j * inode.chunkSize.toNat) ∧
    ∃ blob, inode.blobTable.get c.blobIndex = some blob

theorem ReadsPart.placed {inode : RafsV5Inode} {userIo : Bool} {d : BlobIoDesc}
    {p : Nat × Nat × Nat} (reads : inode.ReadsPart userIo d p) :
    d.offset = p.2.1 ∧ d.size = p.2.2 := by
  obtain ⟨_, _, _, _, rfl⟩ := reads
  exact ⟨rfl, rfl⟩

theorem getChunkInfoV5_of_found {inode : RafsV5Inode} {j : Nat} {chunk : RafsV5ChunkInfo}
    (within : j < inode.childCount.toNat) (found : inode.chunkInfo j = some chunk) :
    inode.getChunkInfoV5 j = .ok chunk := by
  simp only [getChunkInfoV5, Nat.not_le.mpr within, if_false, found]

theorem getBlobByIndex_of_get {inode : RafsV5Inode} {i : Nat} {blob : BlobRef}
    (found : inode.blobTable.get i = some blob) : inode.getBlobByIndex i = .ok blob := by
  simp only [getBlobByIndex, found]

end RafsV5Inode

/-- The indexes `calculate_bio_chunk_index` gives for a read that ends within `u32::MAX`
chunks: the chunk the read starts in, and one past the chunk it ends in. -/
theorem calculateBioChunkIndex_of_fits {offset end_ chunkSize count : Nat} (started : offset < end_)
    (pos : 0 < chunkSize) (fits : end_ ≤ U32_MAX * chunkSize) :
    calculateBioChunkIndex offset end_ chunkSize count false =
      .ok (offset / chunkSize, min ((end_ - 1) / chunkSize + 1) count) := by
  have last : (end_ - 1) / chunkSize < U32_MAX := (Nat.div_lt_iff_lt_mul pos).mpr (by omega)
  have first : offset / chunkSize ≤ (end_ - 1) / chunkSize := Nat.div_le_div_right (by omega)
  have lastMod : (end_ - 1) / chunkSize % 2 ^ 32 = (end_ - 1) / chunkSize :=
    Nat.mod_eq_of_lt (by unfold U32_MAX at last; omega)
  have firstMod : offset / chunkSize % 2 ^ 32 = offset / chunkSize :=
    Nat.mod_eq_of_lt (by unfold U32_MAX at last; omega)
  simp only [calculateBioChunkIndex, started, not_true_eq_false, if_false, Bool.false_eq_true,
    Nat.pos_iff_ne_zero.mp pos, lastMod, firstMod, last.ne]

/-- One past the chunk a read ends in, clamped to the file's chunks, is one past the chunk
of the last byte read. -/
theorem min_index_end {chunkSize size end_ : Nat} (pos : 0 < chunkSize) (nonempty : 0 < size)
    (started : 0 < end_) :
    min ((end_ - 1) / chunkSize + 1) (divRoundUp size chunkSize) =
      (min end_ size - 1) / chunkSize + 1 := by
  rw [divRoundUp_eq_succ nonempty pos]
  rcases le_total end_ size with shorter | longer
  · have : (end_ - 1) / chunkSize ≤ (size - 1) / chunkSize := Nat.div_le_div_right (by omega)
    rw [min_eq_left shorter]
    omega
  · have : (size - 1) / chunkSize ≤ (end_ - 1) / chunkSize := Nat.div_le_div_right (by omega)
    rw [min_eq_right longer]
    omega

/-- `add_chunk_to_bio_desc` on a chunk of a tiled file that the read meets pushes the part of
the read from the chunk. -/
theorem addChunkToBioDesc_part {desc : BlobIoVec} {chunk : RafsV5ChunkInfo} {blob : BlobRef}
    {userIo : Bool} {cs size offset end_ j : Nat} (pos : 0 < cs) (small : cs < 2 ^ 32)
    (placed : chunk.fileOffset = j * cs) (sized : chunk.uncompressedSize = min cs (size - j * cs))
    (within : offset < size) (started : offset < end_) (first : offset / cs ≤ j)
    (last : j ≤ (min end_ size - 1) / cs) :
    addChunkToBioDesc desc offset end_ chunk blob userIo =
      (desc.push (BlobIoDesc.new blob chunk.ioChunk (part cs offset (min end_ size) j).1
        (part cs offset (min end_ size) j).2 userIo) blob).map fun desc => (true, desc) := by
  have before : j * cs < min end_ size :=
    block_lt_of_le_last pos (show offset < min end_ size by omega) last
  have after : offset < (j + 1) * cs := by
    have := (first_block offset pos).2
    have : (offset / cs + 1) * cs ≤ (j + 1) * cs := Nat.mul_le_mul_right cs (by omega)
    omega
  have next : (j + 1) * cs = j * cs + cs := add_one_mul j cs
  have notBefore : ¬ chunk.fileOffset + chunk.uncompressedSize ≤ offset := by
    rw [placed, sized]
    omega
  have notAfter : ¬ end_ ≤ chunk.fileOffset := by
    rw [placed]
    omega
  -- the two clippings of the source are the two sides of the part
  have start : (if chunk.fileOffset < offset then offset - chunk.fileOffset else 0) % 2 ^ 32 =
      (part cs offset (min end_ size) j).1 := by
    rw [placed]
    simp only [part]
    split_ifs <;> omega
  have length : ((if end_ < chunk.fileOffset + chunk.uncompressedSize then end_ - chunk.fileOffset
      else chunk.uncompressedSize) -
      (if chunk.fileOffset < offset then offset - chunk.fileOffset else 0)) % 2 ^ 32 =
      (part cs offset (min end_ size) j).2 := by
    rw [placed, sized]
    simp only [part]
    split_ifs <;> omega
  simp only [addChunkToBioDesc, notBefore, notAfter, if_false, start, length]

/-- One step of the v5 loop, on a chunk and blob found and a chunk added. -/
theorem rafsv5AllocLoop_step {inode : RafsV5Inode} {offset end_ : Nat} {userIo : Bool} {idx : Nat}
    {rest : List Nat} {desc : BlobIoVec} {done : List BlobIoVec} {chunk : RafsV5ChunkInfo}
    {blob : BlobRef} {next : BlobIoVec} (gotChunk : inode.getChunkInfoV5 idx = .ok chunk)
    (gotBlob : inode.getBlobByIndex chunk.blobIndex = .ok blob)
    (added : addChunkToBioDesc (switch blob desc done).1 offset end_ chunk blob userIo =
      .ok (true, next)) :
    rafsv5AllocLoop inode offset end_ userIo (idx :: rest) desc done =
      rafsv5AllocLoop inode offset end_ userIo rest next (switch blob desc done).2 := by
  simp only [rafsv5AllocLoop, gotChunk, Except.ok_bind, gotBlob, added, Bool.not_true,
    Bool.false_eq_true, if_false]

section V5

variable {inode : RafsV5Inode} {size : Nat}

/-- The chunk of a byte read lies within the file's chunk records. -/
theorem RafsV5Inode.Tiled.lt_count (tiled : inode.Tiled size) {j end_ : Nat} (within : 0 < size)
    (last : j ≤ (min end_ size - 1) / inode.chunkSize.toNat) : j < inode.childCount.toNat := by
  have : (min end_ size - 1) / inode.chunkSize.toNat ≤ (size - 1) / inode.chunkSize.toNat :=
    Nat.div_le_div_right (by omega)
  rw [tiled.count, divRoundUp_eq_succ within tiled.positive]
  omega

/-- The v5 loop from chunk `j` on: with the vectors so far grouped and reading the parts
before chunk `j`, the loop returns grouped vectors reading all the parts. The induction is
on the number of chunks left. -/
theorem rafsv5AllocLoop_reads (tiled : inode.Tiled size) {offset end_ : Nat} {userIo : Bool}
    (within : offset < size) (started : offset < end_) (fits : min end_ size - offset ≤ U32_MAX)
    (n : Nat) :
    ∀ j desc done, offset / inode.chunkSize.toNat < j →
      j + n = (min end_ size - 1) / inode.chunkSize.toNat + 1 →
      Grouped (done ++ [desc]) →
      List.Forall₂ (inode.ReadsPart userIo) (descs (done ++ [desc]))
        (cutBefore inode.chunkSize.toNat offset (min end_ size) j) →
      ∃ vecs, rafsv5AllocLoop inode offset end_ userIo (List.range' j n) desc done = .ok vecs ∧
        Grouped vecs ∧
        List.Forall₂ (inode.ReadsPart userIo) (descs vecs)
          (cut inode.chunkSize.toNat offset (min end_ size)) := by
  have pos := tiled.positive
  have small : inode.chunkSize.toNat < 2 ^ 32 := UInt32.toNat_lt _
  induction n with
  | zero =>
    intro j desc done _ ends grouped reads
    refine ⟨done ++ [desc], rfl, grouped, ?_⟩
    rw [cut_eq_cutBefore, ← ends]
    exact reads
  | succ n ih =>
    intro j desc done after ends grouped reads
    have last : j ≤ (min end_ size - 1) / inode.chunkSize.toNat := by omega
    have inFile := tiled.lt_count (by omega) last
    obtain ⟨chunk, found, placed, sized, blob, gotBlob⟩ := tiled.chunk j inFile
    have keyed : chunk.ioChunk.blobIndex = blob.blobIndex := (BlobTable.get_blobIndex gotBlob).symm
    -- the vectors' total so far is what the parts before chunk `j` read
    have sums : total (done ++ [desc]) +
        (part inode.chunkSize.toNat offset (min end_ size) j).2 ≤ U32_MAX := by
      rw [grouped.total_eq, map_eq_map_of_forall₂ reads (g := fun p => p.2.2)
        (fun _ _ read => read.placed.2)]
      have := sum_cutBefore_le pos (show offset < min end_ size by omega)
        (j := j + 1) (by omega) (by omega)
      rw [cutBefore_succ (by omega), List.map_append, List.sum_append] at this
      simp only [List.map_singleton, List.sum_singleton] at this
      omega
    obtain ⟨next, pushed, grouped', grown⟩ := @switch_push done desc
      (BlobIoDesc.new blob chunk.ioChunk (part inode.chunkSize.toNat offset (min end_ size) j).1
        (part inode.chunkSize.toNat offset (min end_ size) j).2 userIo) blob grouped keyed sums
    have added : addChunkToBioDesc (switch blob desc done).1 offset end_ chunk blob userIo =
        .ok (true, next) := by
      rw [addChunkToBioDesc_part pos small placed sized within started (by omega) last, pushed]
      rfl
    have readsNext : List.Forall₂ (inode.ReadsPart userIo) (descs ((switch blob desc done).2 ++ [next]))
        (cutBefore inode.chunkSize.toNat offset (min end_ size) (j + 1)) := by
      rw [grown, cutBefore_succ (by omega)]
      exact List.rel_append reads (.cons ⟨chunk, blob, found, gotBlob, rfl⟩ .nil)
    obtain ⟨vecs, looped, groupedAll, readsAll⟩ :=
      ih (j + 1) next (switch blob desc done).2 (by omega) (by omega) grouped' readsNext
    refine ⟨vecs, ?_, groupedAll, readsAll⟩
    rw [List.range'_succ, rafsv5AllocLoop_step (inode.getChunkInfoV5_of_found inFile found)
      (inode.getBlobByIndex_of_get gotBlob) added]
    exact looped

/-- The v5 allocation before its loop: with the checks passed and the first chunk added, it
is the loop over the chunks after the first. -/
theorem rafsv5AllocBioVecs_eq_loop {offset len : Nat} {userIo : Bool} {first last : Nat}
    {chunk : RafsV5ChunkInfo} {blob : BlobRef} {desc : BlobIoVec}
    (inRange : ¬ U64_LIMIT ≤ offset + len)
    (index : calculateBioChunkIndex offset (offset + len) inode.chunkSize.toNat
      inode.childCount.toNat inode.hasHole = .ok (first, last))
    (nonempty : 0 < len) (inFile : first < inode.childCount.toNat)
    (gotChunk : inode.getChunkInfoV5 first = .ok chunk)
    (gotBlob : inode.getBlobByIndex chunk.blobIndex = .ok blob)
    (added : addChunkToBioDesc (BlobIoVec.new blob) offset (offset + len) chunk blob userIo =
      .ok (true, desc)) :
    rafsv5AllocBioVecs inode offset len userIo =
      rafsv5AllocLoop inode offset (offset + len) userIo
        (List.range' (first + 1) (last - (first + 1))) desc [] := by
  have notEmpty : ¬ (len = 0 ∨ inode.childCount.toNat ≤ first) := by omega
  simp only [rafsv5AllocBioVecs, inRange, if_false, index, Except.ok_bind, notEmpty, gotChunk,
    gotBlob, added, Bool.not_true, Bool.false_eq_true]

/-- `rafsv5_alloc_bio_vecs` on a tiled file, for a read within the file of at most
`u32::MAX` bytes that ends within `u32::MAX` chunks, returns vectors that read the range. -/
theorem rafsv5AllocBioVecs_reads (tiled : inode.Tiled size) {offset len : Nat} (userIo : Bool)
    (within : offset < size) (nonempty : 0 < len) (fits : len ≤ U32_MAX)
    (indexFits : offset + len ≤ U32_MAX * inode.chunkSize.toNat) :
    ∃ vecs, rafsv5AllocBioVecs inode offset len userIo = .ok vecs ∧
      ReadsRange (inode.ReadsPart userIo) inode.chunkSize.toNat size offset len vecs := by
  have pos := tiled.positive
  have small : inode.chunkSize.toNat < 2 ^ 32 := UInt32.toNat_lt _
  have started : offset < offset + len := by omega
  have inRange : ¬ U64_LIMIT ≤ offset + len := by
    have : U32_MAX * inode.chunkSize.toNat ≤ U32_MAX * 2 ^ 32 := Nat.mul_le_mul_left _ small.le
    unfold U64_LIMIT U32_MAX at *
    omega
  have index : calculateBioChunkIndex offset (offset + len) inode.chunkSize.toNat
      inode.childCount.toNat inode.hasHole = .ok (offset / inode.chunkSize.toNat,
        (min (offset + len) size - 1) / inode.chunkSize.toNat + 1) := by
    rw [tiled.noHole, calculateBioChunkIndex_of_fits started pos indexFits, tiled.count,
      min_index_end pos (by omega) (by omega)]
  -- the first chunk, the one the read starts in
  have startsIn : offset / inode.chunkSize.toNat ≤
      (min (offset + len) size - 1) / inode.chunkSize.toNat := Nat.div_le_div_right (by omega)
  have inFile := tiled.lt_count (by omega) startsIn
  obtain ⟨chunk, found, placed, sized, blob, gotBlob⟩ := tiled.chunk _ inFile
  set first := part inode.chunkSize.toNat offset (min (offset + len) size)
    (offset / inode.chunkSize.toNat) with firstDef
  have firstPart : cutBefore inode.chunkSize.toNat offset (min (offset + len) size)
      (offset / inode.chunkSize.toNat + 1) = [(offset / inode.chunkSize.toNat, first)] := by
    rw [cutBefore_succ le_rfl]
    simp [cutBefore, firstDef]
  have partFits : first.2 ≤ U32_MAX := by
    have := sum_cutBefore_le pos (show offset < min (offset + len) size by omega)
      (j := offset / inode.chunkSize.toNat + 1) (by omega) (by omega)
    rw [firstPart] at this
    simp only [List.map_singleton, List.sum_singleton] at this
    omega
  have added : addChunkToBioDesc (BlobIoVec.new blob) offset (offset + len) chunk blob userIo =
      .ok (true, ⟨blob, first.2, [BlobIoDesc.new blob chunk.ioChunk first.1 first.2 userIo]⟩) := by
    rw [addChunkToBioDesc_part pos small placed sized within started le_rfl startsIn,
      push_new partFits]
    rfl
  have grouped₀ := @Grouped.single (BlobIoDesc.new blob chunk.ioChunk first.1 first.2 userIo) blob
    (BlobTable.get_blobIndex gotBlob).symm
  obtain ⟨vecs, looped, grouped, reads⟩ := rafsv5AllocLoop_reads tiled within started (by omega)
    ((min (offset + len) size - 1) / inode.chunkSize.toNat + 1 - (offset / inode.chunkSize.toNat + 1))
    (offset / inode.chunkSize.toNat + 1) _ [] (by omega) (by omega) grouped₀
    (by
      rw [firstPart, List.nil_append, descs_singleton]
      exact .cons ⟨chunk, blob, found, gotBlob, rfl⟩ .nil)
  refine ⟨vecs, ?_, ReadsRange.of_grouped pos within nonempty grouped
    (reads.imp fun _ _ read => ⟨read, read.placed⟩)⟩
  rw [rafsv5AllocBioVecs_eq_loop inRange index nonempty inFile
    (inode.getChunkInfoV5_of_found inFile found) (inode.getBlobByIndex_of_get gotBlob) added]
  exact looped

end V5

/-! ## RAFS v6 -/

namespace RafsV6Inode

/-- Descriptor `d` reads the part `p = (j, o, l)` of a read: `l` bytes at `o` of the chunk at
address `j` of the file. -/
def ReadsPart (inode : RafsV6Inode) (device : BlobDevice) (userIo : Bool) (d : BlobIoDesc)
    (p : Nat × Nat × Nat) : Prop :=
  ∃ addr blob, inode.chunkAddrs[p.1]? = some addr ∧
    inode.makeChunkIo device addr p.2.1 p.2.2 userIo = .ok (some (d, blob))

/-- A v6 file whose chunk addresses tile it: the bootstrap holds an address for each chunk of
`chunk_size` bytes of the file, chunk `j` at `j * chunk_size`, and each address names a chunk
that the blob table and the device know. -/
structure Tiled (inode : RafsV6Inode) (device : BlobDevice) : Prop where
  positive : 0 < inode.chunkSize.toNat
  mapped : divRoundUp inode.size.toNat inode.chunkSize.toNat ≤ inode.chunkAddrs.length
  resolves : ∀ j < divRoundUp inode.size.toNat inode.chunkSize.toNat, ∀ addr,
    inode.chunkAddrs[j]? = some addr → ∃ index blob chunk, addr.blobIndex = .ok index ∧
      inode.blobTable.get index.toNat = some blob ∧
      device.createIoChunk blob.blobIndex addr.blobCiIndex.toNat = some chunk

theorem makeChunkIo_of_found {inode : RafsV6Inode} {device : BlobDevice}
    {addr : RafsV6InodeChunkAddr} {index : UInt32} {blob : BlobRef} {chunk : BlobChunkInfo}
    (indexed : addr.blobIndex = .ok index) (found : inode.blobTable.get index.toNat = some blob)
    (created : device.createIoChunk blob.blobIndex addr.blobCiIndex.toNat = some chunk)
    (contentOffset contentLen : Nat) (userIo : Bool) :
    inode.makeChunkIo device addr contentOffset contentLen userIo =
      .ok (some (BlobIoDesc.new blob chunk contentOffset contentLen userIo, blob)) := by
  simp only [makeChunkIo, indexed, Except.ok_bind, found, created, Option.bind_eq_bind,
    Option.bind_some]
  rfl

/-- What `make_chunk_io` makes: the descriptor of the part asked for of a chunk of the blob. -/
theorem makeChunkIo_eq_some {inode : RafsV6Inode} {device : BlobDevice}
    {addr : RafsV6InodeChunkAddr} {contentOffset contentLen : Nat} {userIo : Bool}
    {d : BlobIoDesc} {blob : BlobRef}
    (made : inode.makeChunkIo device addr contentOffset contentLen userIo = .ok (some (d, blob))) :
    d.chunkinfo.blobIndex = blob.blobIndex ∧ d.offset = contentOffset ∧ d.size = contentLen := by
  obtain ⟨index, -, made⟩ := Except.bind_eq_ok.mp made
  simp only [pure, Except.pure, Except.ok.injEq, Option.bind_eq_bind,
    Option.bind_eq_some_iff] at made
  obtain ⟨found, foundIs, chunk, created, madeIs⟩ := made
  cases madeIs
  exact ⟨device.ofBlob _ _ _ created, rfl, rfl⟩

theorem ReadsPart.placed {inode : RafsV6Inode} {device : BlobDevice} {userIo : Bool}
    {d : BlobIoDesc} {p : Nat × Nat × Nat} (reads : inode.ReadsPart device userIo d p) :
    d.offset = p.2.1 ∧ d.size = p.2.2 := by
  obtain ⟨_, _, _, made⟩ := reads
  exact (makeChunkIo_eq_some made).2

/-- One step of the v6 loop, on a chunk made and pushed: the loop stops once no byte is left. -/
theorem allocBioVecsLoop_step {inode : RafsV6Inode} {device : BlobDevice} {userIo : Bool}
    {c : RafsV6InodeChunkAddr} {rest : List RafsV6InodeChunkAddr} {left : Nat}
    {cur : BlobIoVec} {done : List BlobIoVec} {d : BlobIoDesc} {blob : BlobRef} {next : BlobIoVec}
    (made : inode.makeChunkIo device c 0 (min inode.chunkSize.toNat left) userIo =
      .ok (some (d, blob)))
    (pushed : (switch blob cur done).1.push d blob = .ok next) :
    inode.allocBioVecsLoop device userIo (c :: rest) left cur done =
      if left - min inode.chunkSize.toNat left = 0 then .ok (0, next, (switch blob cur done).2)
      else inode.allocBioVecsLoop device userIo rest (left - min inode.chunkSize.toNat left) next
        (switch blob cur done).2 := by
  simp only [allocBioVecsLoop, made, pushed, Except.ok_bind]
  rfl

section V6

variable {inode : RafsV6Inode} {device : BlobDevice}

/-- The chunks of a file cover it. -/
theorem size_le_count_mul {size cs : Nat} (nonempty : 0 < size) (pos : 0 < cs) :
    size ≤ divRoundUp size cs * cs := by
  rw [divRoundUp_eq_succ nonempty pos]
  have := Nat.lt_div_mul_add (a := size - 1) pos
  rw [add_one_mul]
  omega

/-- The address of a chunk of the file, and what it resolves to. -/
theorem Tiled.address (tiled : inode.Tiled device) {j : Nat}
    (within : j < divRoundUp inode.size.toNat inode.chunkSize.toNat) :
    ∃ (inBounds : j < inode.chunkAddrs.length) (index : UInt32) (blob : BlobRef)
      (chunk : BlobChunkInfo), inode.chunkAddrs[j].blobIndex = .ok index ∧
      inode.blobTable.get index.toNat = some blob ∧
      device.createIoChunk blob.blobIndex inode.chunkAddrs[j].blobCiIndex.toNat = some chunk := by
  have inBounds : j < inode.chunkAddrs.length := by
    have := tiled.mapped
    omega
  obtain ⟨index, blob, chunk, indexed, found, created⟩ :=
    tiled.resolves j within _ (List.getElem?_eq_getElem inBounds)
  exact ⟨inBounds, index, blob, chunk, indexed, found, created⟩

/-- The v6 loop from chunk `j` on, with the bytes of the read from chunk `j` on left: with the
vectors so far grouped and reading the parts before chunk `j`, the loop uses up the bytes
left and returns grouped vectors reading all the parts. The induction is on the number of
chunk addresses left. -/
theorem allocBioVecsLoop_reads (tiled : inode.Tiled device) {offset stop : Nat} {userIo : Bool}
    (within : offset < stop) (inFile : stop ≤ inode.size.toNat) (fits : stop - offset ≤ U32_MAX)
    (m : Nat) :
    ∀ j left cur done, offset / inode.chunkSize.toNat < j →
      j + m = divRoundUp inode.size.toNat inode.chunkSize.toNat →
      left = stop - j * inode.chunkSize.toNat → 0 < left →
      Grouped (done ++ [cur]) →
      List.Forall₂ (inode.ReadsPart device userIo) (descs (done ++ [cur]))
        (cutBefore inode.chunkSize.toNat offset stop j) →
      ∃ last vec, inode.allocBioVecsLoop device userIo ((inode.chunkAddrs.drop j).take m) left cur
          done = .ok (0, last, vec) ∧
        Grouped (vec ++ [last]) ∧
        List.Forall₂ (inode.ReadsPart device userIo) (descs (vec ++ [last]))
          (cut inode.chunkSize.toNat offset stop) := by
  have pos := tiled.positive
  induction m with
  | zero =>
    -- no chunk is left past the file's last, so no byte is
    intro j left cur done _ ends remaining someLeft
    have := @size_le_count_mul inode.size.toNat inode.chunkSize.toNat (by omega) pos
    rw [← ends, Nat.add_zero] at this
    omega
  | succ m ih =>
    intro j left cur done after ends remaining someLeft grouped reads
    have before : j * inode.chunkSize.toNat < stop := by omega
    have last : j ≤ (stop - 1) / inode.chunkSize.toNat :=
      (Nat.le_div_iff_mul_le pos).mpr (by omega)
    obtain ⟨inBounds, index, blob, chunk, indexed, found, created⟩ := tiled.address (j := j) (by omega)
    have next : (j + 1) * inode.chunkSize.toNat = j * inode.chunkSize.toNat + inode.chunkSize.toNat :=
      add_one_mul _ _
    -- the chunk's part is what is left of the read, up to a chunk
    have thePart : part inode.chunkSize.toNat offset stop j = (0, min inode.chunkSize.toNat left) := by
      rw [part_of_lt pos after, next, remaining]
      congr 1
      omega
    have made := makeChunkIo_of_found indexed found created 0 (min inode.chunkSize.toNat left) userIo
    have keyed := (makeChunkIo_eq_some made).1
    have sums : total (done ++ [cur]) + min inode.chunkSize.toNat left ≤ U32_MAX := by
      rw [grouped.total_eq, map_eq_map_of_forall₂ reads (g := fun p => p.2.2)
        (fun _ _ read => read.placed.2)]
      have := sum_cutBefore_le pos within (j := j + 1) (by omega) (by omega)
      rw [cutBefore_succ (by omega), List.map_append, List.sum_append, thePart] at this
      simp only [List.map_singleton, List.sum_singleton] at this
      omega
    obtain ⟨pushedOn, pushed, grouped', grown⟩ := switch_push grouped keyed sums
    have readsNext : List.Forall₂ (inode.ReadsPart device userIo)
        (descs ((switch blob cur done).2 ++ [pushedOn]))
        (cutBefore inode.chunkSize.toNat offset stop (j + 1)) := by
      rw [grown, cutBefore_succ (by omega), thePart]
      exact List.rel_append reads
        (.cons ⟨_, blob, List.getElem?_eq_getElem inBounds, made⟩ .nil)
    have addresses : (inode.chunkAddrs.drop j).take (m + 1) =
        inode.chunkAddrs[j] :: (inode.chunkAddrs.drop (j + 1)).take m := by
      rw [List.drop_eq_getElem_cons inBounds, List.take_succ_cons]
    rw [addresses, allocBioVecsLoop_step made pushed]
    by_cases finished : left - min inode.chunkSize.toNat left = 0
    · -- the read ends in chunk `j`, the last it meets
      have lastIs : (stop - 1) / inode.chunkSize.toNat = j := last_eq pos before (by omega)
      refine ⟨pushedOn, (switch blob cur done).2, by rw [if_pos finished], grouped', ?_⟩
      rw [cut_eq_cutBefore, lastIs]
      exact readsNext
    · rw [if_neg finished]
      exact ih (j + 1) _ pushedOn _ (by omega) (by omega) (by omega) (by omega) grouped' readsNext

/-- `chunk_addresses` of a file of at most `u32::MAX` chunks, from a chunk of the file on: the
addresses from there to the file's last chunk. -/
theorem chunkAddresses_of_tiled (tiled : inode.Tiled device) {head : Nat}
    (nonempty : 0 < inode.size.toNat)
    (sizeFits : inode.size.toNat ≤ U32_MAX * inode.chunkSize.toNat)
    (inFile : head < divRoundUp inode.size.toNat inode.chunkSize.toNat) :
    inode.chunkAddresses (head % 2 ^ 32) = .ok ((inode.chunkAddrs.drop head).take
      (divRoundUp inode.size.toNat inode.chunkSize.toNat - head)) := by
  have pos := tiled.positive
  have small : inode.chunkSize.toNat < 2 ^ 32 := UInt32.toNat_lt _
  have count : (inode.size.toNat - 1) / inode.chunkSize.toNat < U32_MAX :=
    (Nat.div_lt_iff_lt_mul pos).mpr (by omega)
  rw [divRoundUp_eq_succ nonempty pos] at inFile ⊢
  have totalMod : ((inode.size.toNat - 1) / inode.chunkSize.toNat + 1) % 2 ^ 32 =
      (inode.size.toNat - 1) / inode.chunkSize.toNat + 1 :=
    Nat.mod_eq_of_lt (by unfold U32_MAX at count; omega)
  have headMod : head % 2 ^ 32 = head := Nat.mod_eq_of_lt (by unfold U32_MAX at count; omega)
  -- `div_round_up`'s `u64` sum stays below `2 ^ 64`
  have inRange : ¬ U64_LIMIT ≤ inode.size.toNat + inode.chunkSize.toNat - 1 := by
    have : U32_MAX * inode.chunkSize.toNat ≤ U32_MAX * 2 ^ 32 := Nat.mul_le_mul_left _ small.le
    unfold U64_LIMIT U32_MAX at *
    omega
  have mapped := tiled.mapped
  rw [divRoundUp_eq_succ nonempty pos] at mapped
  simp only [chunkAddresses, inRange, if_false, divRoundUp_eq_succ nonempty pos, totalMod, headMod,
    Nat.not_lt.mpr inFile.le, Nat.not_lt.mpr mapped]
  rfl

/-- The v6 allocation once the addresses are read and the first chunk is made and pushed:
what the loop after it returns, with the vector being filled added. -/
theorem allocBioVecs_of_first {offset len : Nat} {userIo : Bool} {first : RafsV6InodeChunkAddr}
    {rest : List RafsV6InodeChunkAddr} {d : BlobIoDesc} {blob : BlobRef} {cur last : BlobIoVec}
    {vec : List BlobIoVec} {left contentLen : Nat} (pos : 0 < inode.chunkSize.toNat)
    (addresses : inode.chunkAddresses (offset / inode.chunkSize.toNat % 2 ^ 32) =
      .ok (first :: rest))
    (inFile : offset ≤ inode.size.toNat) (leftIs : min (inode.size.toNat - offset) len % 2 ^ 32 = left)
    (lenIs : min (inode.chunkSize.toNat - offset % inode.chunkSize.toNat) left = contentLen)
    (made : inode.makeChunkIo device first (offset % inode.chunkSize.toNat) contentLen userIo =
      .ok (some (d, blob)))
    (pushed : (BlobIoVec.new blob).push d blob = .ok cur)
    (looped : (if left - contentLen ≠ 0 then
        inode.allocBioVecsLoop device userIo rest (left - contentLen) cur []
      else pure (left - contentLen, cur, [])) = .ok (0, last, vec))
    (nonempty : last.bios ≠ []) :
    inode.allocBioVecs device offset len userIo = .ok (vec ++ [last]) := by
  have notEmpty : last.bios.isEmpty = false := by
    rw [Bool.eq_false_iff, ne_eq, List.isEmpty_iff]
    exact nonempty
  simp only [allocBioVecs, pos.ne', if_false, addresses, Except.ok_bind, Nat.not_lt.mpr inFile,
    leftIs, lenIs, made, pushed]
  -- the source joins the two branches after the loop; the model repeats what follows in each
  split
  · rename_i more
    rw [if_pos more] at looped
    simp only [looped, Except.ok_bind, notEmpty, Bool.false_eq_true, if_false]
    rfl
  · rename_i finished
    rw [if_neg finished] at looped
    rw [looped]
    simp only [Except.ok_bind, notEmpty, Bool.false_eq_true, if_false]
    rfl

/-- `alloc_bio_vecs` on a tiled file of at most `u32::MAX` chunks, for a read within the file
of at most `u32::MAX` bytes, returns vectors that read the range. -/
theorem allocBioVecs_reads (tiled : inode.Tiled device) {offset len : Nat} (userIo : Bool)
    (within : offset < inode.size.toNat) (nonempty : 0 < len) (fits : len ≤ U32_MAX)
    (sizeFits : inode.size.toNat ≤ U32_MAX * inode.chunkSize.toNat) :
    ∃ vecs, inode.allocBioVecs device offset len userIo = .ok vecs ∧
      ReadsRange (inode.ReadsPart device userIo) inode.chunkSize.toNat inode.size.toNat offset len
        vecs := by
  have pos := tiled.positive
  have split := Nat.div_add_mod offset inode.chunkSize.toNat
  have next : (offset / inode.chunkSize.toNat + 1) * inode.chunkSize.toNat =
      inode.chunkSize.toNat * (offset / inode.chunkSize.toNat) + inode.chunkSize.toNat := by
    rw [add_one_mul, Nat.mul_comm]
  have below := Nat.mod_lt offset pos
  have low : offset / inode.chunkSize.toNat * inode.chunkSize.toNat =
      inode.chunkSize.toNat * (offset / inode.chunkSize.toNat) := Nat.mul_comm _ _
  -- the chunk the read starts in, and the addresses from there on
  have head : offset / inode.chunkSize.toNat < divRoundUp inode.size.toNat inode.chunkSize.toNat := by
    rw [divRoundUp_eq_succ (by omega) pos]
    have : offset / inode.chunkSize.toNat ≤ (inode.size.toNat - 1) / inode.chunkSize.toNat :=
      Nat.div_le_div_right (by omega)
    omega
  obtain ⟨inBounds, index, blob, chunk, indexed, found, created⟩ := tiled.address head
  have addresses : inode.chunkAddresses (offset / inode.chunkSize.toNat % 2 ^ 32) =
      .ok (inode.chunkAddrs[offset / inode.chunkSize.toNat] ::
        (inode.chunkAddrs.drop (offset / inode.chunkSize.toNat + 1)).take
          (divRoundUp inode.size.toNat inode.chunkSize.toNat - (offset / inode.chunkSize.toNat + 1))) := by
    have count : divRoundUp inode.size.toNat inode.chunkSize.toNat - offset / inode.chunkSize.toNat =
        (divRoundUp inode.size.toNat inode.chunkSize.toNat - (offset / inode.chunkSize.toNat + 1)) + 1 := by
      omega
    rw [chunkAddresses_of_tiled tiled (by omega) sizeFits head, List.drop_eq_getElem_cons inBounds,
      count, List.take_succ_cons]
  -- where the read stops, the `u32` count of bytes left, and what the first chunk gives
  obtain ⟨stop, stopIs⟩ : ∃ stop, stop = min (offset + len) inode.size.toNat := ⟨_, rfl⟩
  have stopped : offset < stop := by omega
  have leftIs : min (inode.size.toNat - offset) len % 2 ^ 32 = stop - offset := by
    rw [Nat.mod_eq_of_lt (by unfold U32_MAX at fits; omega)]
    omega
  obtain ⟨firstLen, firstLenIs⟩ : ∃ l,
      min (inode.chunkSize.toNat - offset % inode.chunkSize.toNat) (stop - offset) = l := ⟨_, rfl⟩
  have firstPart : part inode.chunkSize.toNat offset stop (offset / inode.chunkSize.toNat) =
      (offset % inode.chunkSize.toNat, firstLen) := by
    rw [part_first pos, next, Prod.mk.injEq]
    exact ⟨rfl, by omega⟩
  have made := makeChunkIo_of_found indexed found created (offset % inode.chunkSize.toNat) firstLen
    userIo
  have pushed := @push_new (BlobIoDesc.new blob chunk (offset % inode.chunkSize.toNat) firstLen
    userIo) blob (by show firstLen ≤ U32_MAX; omega)
  have grouped₀ : Grouped [⟨blob, firstLen, [BlobIoDesc.new blob chunk
      (offset % inode.chunkSize.toNat) firstLen userIo]⟩] :=
    Grouped.single (makeChunkIo_eq_some made).1
  have reads₀ : List.Forall₂ (inode.ReadsPart device userIo)
      (descs ([] ++ [⟨blob, firstLen, [BlobIoDesc.new blob chunk (offset % inode.chunkSize.toNat)
        firstLen userIo]⟩]))
      (cutBefore inode.chunkSize.toNat offset stop (offset / inode.chunkSize.toNat + 1)) := by
    rw [cutBefore_succ le_rfl, firstPart, List.nil_append, descs_singleton]
    simp only [cutBefore, Nat.sub_self, List.range'_zero, List.map_nil, List.nil_append]
    exact .cons ⟨_, blob, List.getElem?_eq_getElem inBounds, made⟩ .nil
  by_cases finished : stop - offset - firstLen = 0
  · -- the read ends in the chunk it starts in
    have lastIs : (stop - 1) / inode.chunkSize.toNat = offset / inode.chunkSize.toNat :=
      last_eq pos (by omega) (by omega)
    refine ⟨[] ++ [_], allocBioVecs_of_first pos addresses within.le leftIs firstLenIs
      made pushed (by rw [if_neg (not_not.mpr finished), finished]; rfl) (by simp),
      ReadsRange.of_grouped pos within nonempty grouped₀ ?_⟩
    rw [← stopIs, cut_eq_cutBefore, lastIs]
    exact reads₀.imp fun _ _ read => ⟨read, read.placed⟩
  · -- the loop reads the chunks after the first
    obtain ⟨last, vec, looped, grouped, reads⟩ := allocBioVecsLoop_reads tiled stopped
      (by omega) (by omega)
      (divRoundUp inode.size.toNat inode.chunkSize.toNat - (offset / inode.chunkSize.toNat + 1))
      (offset / inode.chunkSize.toNat + 1) (stop - offset - firstLen) _ [] (by omega) (by omega)
      (by omega) (by omega) (by simpa using grouped₀) reads₀
    refine ⟨vec ++ [last], allocBioVecs_of_first pos addresses within.le leftIs
      firstLenIs made pushed (by rw [if_pos finished]; exact looped)
      (grouped.nonempty last (by simp)), ReadsRange.of_grouped pos within nonempty grouped ?_⟩
    rw [← stopIs]
    exact reads.imp fun _ _ read => ⟨read, read.placed⟩

end V6

end RafsV6Inode

/-! ## The read of a tiled file -/

/-- Both allocations read the range asked of a tiled file by a read within the file of at
most `u32::MAX` bytes: v5 when the read ends within `u32::MAX` chunks, v6 when the file has at
most `u32::MAX` chunks. -/
theorem allocBioVecs_read_range {offset len : Nat} (userIo : Bool) (nonempty : 0 < len)
    (fits : len ≤ U32_MAX) :
    (∀ (inode : RafsV5Inode) (size : Nat), inode.Tiled size → offset < size →
        offset + len ≤ U32_MAX * inode.chunkSize.toNat →
        ∃ vecs, rafsv5AllocBioVecs inode offset len userIo = .ok vecs ∧
          ReadsRange (inode.ReadsPart userIo) inode.chunkSize.toNat size offset len vecs) ∧
      ∀ (inode : RafsV6Inode) (device : BlobDevice), inode.Tiled device →
        offset < inode.size.toNat → inode.size.toNat ≤ U32_MAX * inode.chunkSize.toNat →
        ∃ vecs, inode.allocBioVecs device offset len userIo = .ok vecs ∧
          ReadsRange (inode.ReadsPart device userIo) inode.chunkSize.toNat inode.size.toNat offset
            len vecs :=
  ⟨fun _ _ tiled within indexFits =>
      rafsv5AllocBioVecs_reads tiled userIo within nonempty fits indexFits,
    fun _ _ tiled within sizeFits =>
      RafsV6Inode.allocBioVecs_reads tiled userIo within nonempty fits sizeFits⟩

/-- A blob table of two blobs. -/
def twoBlobs : BlobTable := ⟨[⟨0, false⟩, ⟨1, false⟩], by decide⟩

/-- A device that knows every chunk of blobs 0 and 1, chunk `i` at `i * 0x1000`. -/
def twoBlobDevice : BlobDevice :=
  ⟨fun blob index => if blob < 2 then
      some ⟨index, blob, 0x100 * index, 0x100, 0x1000 * index, 0x1000⟩
    else none,
   fun blob index chunk made => by
     by_cases known : blob < 2
     · simp only [known, if_true, Option.some.injEq] at made
       rw [← made]
     · simp only [known, if_false, reduceCtorEq] at made⟩

/-- A v5 file of `0x2800` bytes in chunks of 4 KiB, the first two in blob 0 and the last in
blob 1. -/
def twoBlobV5 : RafsV5Inode :=
  ⟨0x1000, 3, false, fun j => [⟨0, 0, 0, 0, 0x100, 0, 0x1000⟩,
    ⟨0, 1, 0x1000, 0x100, 0x100, 0x1000, 0x1000⟩, ⟨1, 0, 0x2000, 0, 0x80, 0, 0x800⟩][j]?,
    twoBlobs⟩

theorem twoBlobV5_tiled : twoBlobV5.Tiled 0x2800 where
  positive := by decide
  noHole := rfl
  count := by decide
  chunk := by
    intro j within
    have three : j < 3 := within
    interval_cases j <;> exact ⟨_, rfl, by decide, by decide, _, rfl⟩

/-- The same file in RAFS v6: its three chunk addresses. -/
def twoBlobV6 : RafsV6Inode := ⟨0x2800, 0x1000, [⟨1, 0, 0⟩, ⟨1, 1, 0⟩, ⟨2, 0, 0⟩], twoBlobs⟩

theorem twoBlobV6_tiled : twoBlobV6.Tiled twoBlobDevice where
  positive := by decide
  mapped := by decide
  resolves := by
    intro j within addr found
    have three : j < 3 := within
    interval_cases j <;> (obtain rfl := Option.some.inj found.symm; exact ⟨_, _, _, rfl, rfl, rfl⟩)

theorem allocBioVecs_read_range_twoBlobs :
    (∃ vecs, rafsv5AllocBioVecs twoBlobV5 0x800 0x2000 true = .ok vecs ∧
      ReadsRange (twoBlobV5.ReadsPart true) twoBlobV5.chunkSize.toNat 0x2800 0x800 0x2000 vecs) ∧
    ∃ vecs, twoBlobV6.allocBioVecs twoBlobDevice 0x800 0x2000 true = .ok vecs ∧
      ReadsRange (twoBlobV6.ReadsPart twoBlobDevice true) twoBlobV6.chunkSize.toNat
        twoBlobV6.size.toNat 0x800 0x2000 vecs :=
  have read := @allocBioVecs_read_range 0x800 0x2000 true (by decide) (by decide)
  ⟨read.1 twoBlobV5 0x2800 twoBlobV5_tiled (by decide) (by decide),
    read.2 twoBlobV6 twoBlobDevice twoBlobV6_tiled (by decide) (by decide)⟩

example : (rafsv5AllocBioVecs twoBlobV5 0x800 0x2000 true).map (fun vecs => vecs.map fun v =>
    (v.blob.blobIndex, v.size, v.bios.map fun d => (d.offset, d.size))) =
      .ok [(0, 0x1800, [(0x800, 0x800), (0, 0x1000)]), (1, 0x800, [(0, 0x800)])] := by
  decide

/-- A v6 file of 257 chunks of 16 MiB in blob 0, one chunk longer than `2 ^ 32` bytes. -/
def bigV6 : RafsV6Inode := ⟨0x1_0100_0000, 0x100_0000, List.replicate 257 ⟨1, 0, 0⟩, twoBlobs⟩

theorem bigV6_tiled : bigV6.Tiled twoBlobDevice where
  positive := by decide
  mapped := by
    show divRoundUp bigV6.size.toNat bigV6.chunkSize.toNat ≤
      (List.replicate 257 (⟨1, 0, 0⟩ : RafsV6InodeChunkAddr)).length
    rw [List.length_replicate]
    decide
  resolves := by
    intro j within addr found
    have inFile : j < 257 := within
    change (List.replicate 257 (⟨1, 0, 0⟩ : RafsV6InodeChunkAddr))[j]? = some addr at found
    rw [List.getElem?_replicate, if_pos inFile] at found
    obtain rfl := Option.some.inj found.symm
    exact ⟨_, _, _, rfl, rfl, rfl⟩

/-- A v5 file of `u32::MAX` chunks of 4 KiB in blob 0. -/
def edgeV5 : RafsV5Inode :=
  ⟨0x1000, 0xFFFF_FFFF, false,
    fun j => if j < 0xFFFF_FFFF then some ⟨0, j, j * 0x1000, 0, 0x1000, j * 0x1000, 0x1000⟩
      else none, twoBlobs⟩

theorem edgeV5_tiled : edgeV5.Tiled (U32_MAX * 0x1000) where
  positive := by decide
  noHole := rfl
  count := by decide
  chunk := by
    intro j within
    have inFile : j < 0xFFFF_FFFF := within
    refine ⟨_, if_pos inFile, rfl, ?_, _, rfl⟩
    show 0x1000 = min 0x1000 (U32_MAX * 0x1000 - j * 0x1000)
    unfold U32_MAX
    omega

set_option maxRecDepth 2000 in
/-- Reads of tiled files past the bounds. A read of `2 ^ 32` bytes of the v6 file: the `u32`
count of bytes left wraps to zero, and the one vector returned holds one descriptor of no
byte. A read of two bytes from the last byte of the v5 file: the chunk the read ends in,
past the file, has index `u32::MAX`, and the `+ 1` overflows. -/
theorem allocBioVecs_u32_bounds :
    bigV6.Tiled twoBlobDevice ∧
      bigV6.allocBioVecs twoBlobDevice 0 (2 ^ 32) true =
        .ok [⟨⟨0, false⟩, 0, [BlobIoDesc.new ⟨0, false⟩ ⟨0, 0, 0, 0x100, 0, 0x1000⟩ 0 0 true]⟩] ∧
    edgeV5.Tiled (U32_MAX * 0x1000) ∧
      rafsv5AllocBioVecs edgeV5 (U32_MAX * 0x1000 - 1) 2 true = .error .arithmeticOverflow :=
  ⟨bigV6_tiled, by decide, edgeV5_tiled, by decide⟩

end Nydus
