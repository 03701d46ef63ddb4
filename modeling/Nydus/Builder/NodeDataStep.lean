import Nydus.Builder.NodeDataSpec

/-!
# A turn of the chunk loop

One turn of the loop of `dump_node_data_with_reader` reads a chunk of the file and
either deduplicates it against the dicts or writes it to the blob of the build. Under
`DumpInv`, with digests that do not collide and a compressor whose output decompresses
to its input, the turn keeps the invariant, only grows the table and the written bytes,
and pushes to the node one chunk that designates exactly the bytes read
(`dumpChunk_turn`).

Each function of the model has its lemma here: what a success of it says, and how it
keeps the invariant.
-/

namespace Nydus

open Store

/-! ## The functions of the model -/

theorem Node.readFileChunk_eq_ok {node : Node} {ctx : BuildContext} {reader : List UInt8} {len : Nat}
    {chunk : ChunkWrapper} {buf rest : List UInt8}
    (h : node.readFileChunk ctx reader len = .ok (chunk, buf, rest)) :
    len ≤ reader.length ∧ buf = reader.take len ∧ rest = reader.drop len ∧
      chunk = { ChunkWrapper.new node.version with id := ctx.digest buf } := by
  unfold Node.readFileChunk at h
  split at h
  · cases h
  · cases h
    exact ⟨by omega, rfl, rfl, rfl⟩

@[simp] theorem checkDataBuf_eq_ok {dataBufLen len : Nat} {u : Unit} :
    checkDataBuf dataBufLen len = .ok u ↔ len ≤ dataBufLen := by
  unfold checkDataBuf
  split <;> simp_all

theorem BlobContext.allocChunkIndex_eq_ok {b b' : BlobContext} {idx : Nat}
    (h : b.allocChunkIndex = .ok (idx, b')) :
    idx = b.chunkCount ∧ b' = { b with chunkCount := b.chunkCount + 1 } := by
  unfold BlobContext.allocChunkIndex at h
  split at h
  · cases h
  · cases h
    exact ⟨rfl, rfl⟩

theorem BlobManager.allocIndex_eq_ok {mgr : BlobManager} {idx : Nat} (h : mgr.allocIndex = .ok idx) :
    idx = mgr.blobs.length := by
  unfold BlobManager.allocIndex at h
  split at h
  · cases h
    rfl
  · cases h

/-- The chunk array of a blob that keeps one gains the chunk's entry; nothing else of the
blob changes. -/
theorem BlobContext.addChunkMetaInfo_eq_ok {b b' : BlobContext} {chunk : ChunkWrapper}
    (h : b.addChunkMetaInfo chunk = .ok b') :
    b' = { b with blobMetaInfo := if b.blobMetaInfoEnabled then b.blobMetaInfo ++
      [(chunk.compressedOffset, chunk.compressedSize, chunk.uncompressedOffset, chunk.uncompressedSize)]
      else b.blobMetaInfo } ∧
      (b.blobMetaInfoEnabled = true → chunk.index = b.blobMetaInfo.length) := by
  unfold BlobContext.addChunkMetaInfo at h
  by_cases enabled : b.blobMetaInfoEnabled = true
  · rw [if_pos enabled] at h
    split at h
    · cases h
    · rename_i sameIndex
      cases h
      exact ⟨by rw [if_pos enabled], fun _ => Decidable.of_not_not sameIndex⟩
  · rw [if_neg enabled] at h
    cases h
    exact ⟨by rw [if_neg enabled], fun h => absurd h enabled⟩

theorem compressChunk_eq_ok {ctx : BuildContext} {buf compressed : List UInt8} {isCompressed : Bool}
    (h : compressChunk ctx buf = .ok (compressed, isCompressed)) :
    ctx.compress buf = some (compressed, isCompressed) := by
  unfold compressChunk at h
  split at h
  · rename_i r compressedOk
    cases h
    exact compressedOk
  · cases h

/-- `dump_file_chunk` writes the compressed bytes of the chunk after what was written, at
the blob's compressed offset, and moves the offset past them. -/
theorem dumpFileChunk_eq_ok {ctx : BuildContext} {b b' : BlobContext} {written : List UInt8}
    {w' : Option (List UInt8)} {buf : List UInt8} {chunk chunk' : ChunkWrapper}
    (h : dumpFileChunk ctx b (some written) buf chunk = .ok (chunk', b', w')) :
    ∃ compressed isCompressed, ctx.compress buf = some (compressed, isCompressed) ∧
      w' = some (written ++ compressed) ∧
      chunk' = { chunk with
        uncompressedOffset := b.uncompressedOffset
        uncompressedSize := buf.length
        compressedOffset := b.compressedOffset
        compressedSize := compressed.length
        isCompressed := isCompressed } ∧
      b'.compressedOffset = b.compressedOffset + compressed.length ∧ b'.chunkCount = b.chunkCount ∧
      b'.blobMetaInfoEnabled = b.blobMetaInfoEnabled ∧ b'.blobMetaInfo = b.blobMetaInfo := by
  unfold dumpFileChunk at h
  obtain ⟨aligned, -, h⟩ := Except.bind_eq_ok.mp h
  obtain ⟨⟨compressed, isCompressed⟩, compress, h⟩ := Except.bind_eq_ok.mp h
  cases h
  exact ⟨compressed, isCompressed, compressChunk_eq_ok compress, rfl, rfl, rfl, rfl, rfl, rfl⟩

/-! ## Blobs and dicts -/

section Inv

variable {ctx : BuildContext} {decompress : List UInt8 → List UInt8} {backend : String → List UInt8}

/-- The blob the global dict remembers for the blob of one of its chunks is in the table,
is not the blob of the build, and holds the dict's blob. -/
theorem DumpInv.blobData_realIdx {mgr : BlobManager} {written : List UInt8} {id r : Nat}
    {c : ChunkWrapper} (inv : DumpInv ctx decompress backend mgr written)
    (found : mgr.globalChunkDict.getChunk id = some c)
    (real : mgr.globalChunkDict.getRealBlobIdx c.blobIndex = some r) :
    r < mgr.blobs.length ∧ mgr.currentBlobIndex ≠ some r ∧
      blobData ctx backend mgr written r = dictData backend mgr.globalChunkDict c.blobIndex := by
  obtain ⟨notCurrent, sameId⟩ := inv.realIdx id c r found real
  obtain ⟨d, stored, -⟩ := inv.dict id c found
  -- the dict has the blob of its chunk, so the table has the blob remembered for it
  have dictHas := isSome_of_storedData stored
  obtain ⟨bi, hbi⟩ := Option.isSome_iff_exists.mp dictHas
  unfold dictData at hbi
  obtain ⟨blob, hblob, -⟩ := Option.map_eq_some_iff.mp hbi
  rw [hblob, Option.map_some] at sameId
  obtain ⟨b, hb, -⟩ := Option.map_eq_some_iff.mp sameId
  rw [hb, Option.map_some] at sameId
  refine ⟨(List.getElem?_eq_some_iff.mp hb).1, notCurrent, ?_⟩
  unfold blobData dictData
  rw [if_neg notCurrent, hb, hblob, Option.map_some, Option.map_some, Option.some.inj sameId]

/-- A blob the invariant's table has is in the table. -/
theorem DumpInv.lt_of_blobData {mgr : BlobManager} {written : List UInt8} {idx : Nat}
    (inv : DumpInv ctx decompress backend mgr written)
    (has : (blobData ctx backend mgr written idx).isSome) : idx < mgr.blobs.length := by
  unfold blobData at has
  split at has
  · rename_i isCurrent
    obtain ⟨b, hb, -⟩ := inv.current idx isCurrent
    exact (List.getElem?_eq_some_iff.mp hb).1
  · obtain ⟨b, hb⟩ := Option.isSome_iff_exists.mp has
    obtain ⟨blob, hblob, -⟩ := Option.map_eq_some_iff.mp hb
    exact (List.getElem?_eq_some_iff.mp hblob).1

/-- The invariant holds on in a grown table with the same global dict, given what it says
of the blob of the build and of the layered dict there. -/
theorem DumpInv.grow {mgr mgr' : BlobManager} {written t : List UInt8}
    (inv : DumpInv ctx decompress backend mgr written) (g : TableGrows mgr mgr')
    (global : mgr'.globalChunkDict = mgr.globalChunkDict)
    (fresh : mgr'.currentBlobIndex = none → written ++ t = [])
    (current : ∀ k, mgr'.currentBlobIndex = some k → ∃ b, mgr'.blobs[k]? = some b ∧
      b.compressedOffset = ctx.blobOffset + (written ++ t).length ∧
      (b.blobMetaInfoEnabled = true → b.chunkCount = b.blobMetaInfo.length))
    (layered : ∀ id c, mgr'.layeredChunkDict.getChunk id = some c →
      mgr.layeredChunkDict.getChunk id = some c ∨
        ChunkHolds ctx.digest decompress (blobData ctx backend mgr' (written ++ t)) c) :
    DumpInv ctx decompress backend mgr' (written ++ t) where
  fresh := fresh
  current := current
  dict := by
    rw [global]
    exact inv.dict
  realIdx := by
    intro id c r found real
    rw [global] at found real ⊢
    obtain ⟨inTable, notCurrent, -⟩ := inv.blobData_realIdx found real
    have stillNot : mgr'.currentBlobIndex ≠ some r := by
      rcases g.current with same | ⟨-, k, set, past⟩
      · rwa [same]
      · rw [set]
        intro hk
        cases hk
        omega
    rw [g.blobs r inTable notCurrent]
    exact ⟨stillNot, (inv.realIdx id c r found real).2⟩
  layered := by
    intro id c found
    rcases layered id c found with old | holds
    · exact (inv.layered id c old).of_grows (g.blobData_grows written t)
    · exact holds

/-- `get_or_create_current_blob` keeps the invariant: the blob it adds starts at
`blob_offset`, where nothing was written yet. -/
theorem getOrCreateCurrentBlob_inv {mgr mgr' : BlobManager} {written : List UInt8} {k : Nat}
    {b : BlobContext} (inv : DumpInv ctx decompress backend mgr written)
    (h : mgr.getOrCreateCurrentBlob ctx = .ok (k, b, mgr')) :
    DumpInv ctx decompress backend mgr' written ∧ TableGrows mgr mgr' ∧
      mgr'.currentBlobIndex = some k ∧ mgr'.blobs[k]? = some b ∧
      mgr'.globalChunkDict = mgr.globalChunkDict ∧ mgr'.layeredChunkDict = mgr.layeredChunkDict := by
  unfold BlobManager.getOrCreateCurrentBlob at h
  obtain ⟨⟨idx, mgr₁⟩, created, h⟩ := Except.bind_eq_ok.mp h
  dsimp only at h
  split at h
  · rename_i blobCtx got
    cases h
    unfold BlobManager.createCurrentBlob at created
    split at created
    · -- the first chunk written: the blob of the build is added at the end of the table
      rename_i noCurrent
      obtain ⟨allocated, alloc, added⟩ := Except.bind_eq_ok.mp created
      cases added
      rw [BlobManager.allocIndex_eq_ok alloc] at got ⊢
      simp only [BlobManager.add, List.getElem?_append_right (le_refl _), Nat.sub_self,
        List.getElem?_cons_zero, Option.some.injEq] at got
      subst got
      have growing : TableGrows mgr
          ({ mgr with currentBlobIndex := some mgr.blobs.length }.add (BlobManager.newBlobCtx ctx)) := by
        refine ⟨Or.inr ⟨noCurrent, _, rfl, le_refl _⟩, ?_, ?_⟩
        · intro i inTable _
          exact List.getElem?_append_left inTable
        · simp [BlobManager.add]
      have nothingWritten := inv.fresh noCurrent
      subst nothingWritten
      have added : ({ mgr with currentBlobIndex := some mgr.blobs.length }.add
          (BlobManager.newBlobCtx ctx)).blobs[mgr.blobs.length]? = some (BlobManager.newBlobCtx ctx) := by
        simp [BlobManager.add]
      have kept := inv.grow (t := []) growing rfl (fun hnone => by cases hnone)
        (fun k' isCurrent => by
          cases isCurrent
          exact ⟨_, added, rfl, fun _ => rfl⟩)
        (fun id c found => Or.inl found)
      exact ⟨kept, growing, rfl, added, rfl, rfl⟩
    · rename_i current isCurrent
      cases created
      exact ⟨inv, TableGrows.refl mgr, isCurrent, got, rfl, rfl⟩
  · cases h

/-- The blob of the build is in the table, so not past it. -/
theorem DumpInv.current_ne_length {mgr : BlobManager} {written : List UInt8}
    (inv : DumpInv ctx decompress backend mgr written) :
    mgr.currentBlobIndex ≠ some mgr.blobs.length := by
  intro isCurrent
  obtain ⟨b, hb, -⟩ := inv.current _ isCurrent
  exact absurd (List.getElem?_eq_some_iff.mp hb).1 (lt_irrefl _)

/-- Appending blobs grows the table. -/
theorem TableGrows.of_append {mgr mgr' : BlobManager} {extra : List BlobContext}
    (current : mgr'.currentBlobIndex = mgr.currentBlobIndex) (blobs : mgr'.blobs = mgr.blobs ++ extra) :
    TableGrows mgr mgr' := by
  refine ⟨Or.inl current, fun i inTable _ => ?_, ?_⟩
  · rw [blobs, List.getElem?_append_left inTable]
  · rw [blobs, List.length_append]
    exact Nat.le_add_right _ _

/-- A table whose blobs stay grows. -/
theorem TableGrows.of_blobs {mgr mgr' : BlobManager}
    (current : mgr'.currentBlobIndex = mgr.currentBlobIndex) (blobs : mgr'.blobs = mgr.blobs) :
    TableGrows mgr mgr' :=
  TableGrows.of_append current (show mgr'.blobs = mgr.blobs ++ [] by rw [blobs, List.append_nil])

/-- The blob index of a chunk of the global dict in the table being built holds the dict's
blob. Allocating it adds that blob, and the invariant holds on. -/
theorem dictBlobIndex_inv {mgr mgr' : BlobManager} {written : List UInt8} {id r : Nat}
    {c : ChunkWrapper} (inv : DumpInv ctx decompress backend mgr written)
    (found : mgr.globalChunkDict.getChunk id = some c)
    (h : mgr.dictBlobIndex c.blobIndex = .ok (r, mgr')) :
    DumpInv ctx decompress backend mgr' written ∧ TableGrows mgr mgr' ∧
      mgr'.layeredChunkDict = mgr.layeredChunkDict ∧
      blobData ctx backend mgr' written r = dictData backend mgr.globalChunkDict c.blobIndex := by
  unfold BlobManager.dictBlobIndex at h
  split at h
  · -- the dict remembers the blob
    rename_i r' real
    cases h
    exact ⟨inv, TableGrows.refl mgr, rfl, (inv.blobData_realIdx found real).2.2⟩
  · rename_i unknown
    obtain ⟨idx, alloc, h⟩ := Except.bind_eq_ok.mp h
    obtain ⟨dict, set, h⟩ := Except.bind_eq_ok.mp h
    rw [BlobManager.allocIndex_eq_ok alloc] at set h
    -- the empty dict knows no chunk
    cases hd : mgr.globalChunkDict with
    | unit =>
      rw [hd] at found
      cases found
    | hash m blobs blobIdxM =>
      rw [hd] at set
      cases set
      -- the dict has the blob of its chunk
      obtain ⟨d, stored, -⟩ := inv.dict id c found
      obtain ⟨data, hdata⟩ := Option.isSome_iff_exists.mp (isSome_of_storedData stored)
      rw [hd] at hdata
      obtain ⟨bi, hbi, -⟩ := Option.map_eq_some_iff.mp hdata
      simp only [ChunkDict.getBlobsByInnerIdx, ChunkDict.getBlobs] at hbi
      simp only [ChunkDict.getBlobsByInnerIdx, ChunkDict.getBlobs, hbi] at h
      cases h
      have growing : TableGrows mgr
          ({ mgr with globalChunkDict := .hash m blobs ((c.blobIndex, mgr.blobs.length) :: blobIdxM) }.add
            (BlobContext.from bi)) := TableGrows.of_append rfl rfl
      have notCurrent := inv.current_ne_length
      refine ⟨⟨inv.fresh, ?_, ?_, ?_, ?_⟩, growing, rfl, ?_⟩
      · intro k isCurrent
        obtain ⟨b, hb, rest⟩ := inv.current k isCurrent
        refine ⟨b, ?_, rest⟩
        simp only [BlobManager.add]
        rw [List.getElem?_append_left (List.getElem?_eq_some_iff.mp hb).1, hb]
      · have dictHolds := inv.dict
        rw [hd] at dictHolds
        exact dictHolds
      · intro id' c' r found' real'
        simp only [BlobManager.add] at found' real' ⊢
        have foundOld : mgr.globalChunkDict.getChunk id' = some c' := by rw [hd]; exact found'
        simp only [ChunkDict.getRealBlobIdx, List.lookup_cons] at real'
        split at real'
        · -- the blob just allocated
          rename_i same
          cases real'
          have sameIdx : c'.blobIndex = c.blobIndex := by simpa using same
          refine ⟨notCurrent, ?_⟩
          simp [ChunkDict.getBlobsByInnerIdx, ChunkDict.getBlobs, sameIdx, hbi, BlobContext.from,
            BlobContext.new]
        · have realOld : mgr.globalChunkDict.getRealBlobIdx c'.blobIndex = some r := by
            rw [hd]
            exact real'
          obtain ⟨inTable, notCur, -⟩ := inv.blobData_realIdx foundOld realOld
          have sameBlob := (inv.realIdx id' c' r foundOld realOld).2
          rw [hd] at sameBlob
          refine ⟨notCur, ?_⟩
          rw [List.getElem?_append_left inTable]
          exact sameBlob
      · intro id' c' found'
        exact (inv.layered id' c' found').of_grows growing.blobData_grows_same
      · unfold blobData dictData
        simp [BlobManager.add, notCurrent, ChunkDict.getBlobsByInnerIdx, ChunkDict.getBlobs, hbi,
          BlobContext.from, BlobContext.new]

/-- A chunk the dicts know has the digest it was looked up by and tells the truth about its
data: in the dict's own blobs for the global dict, in the table for the layered one. -/
theorem existChunk_holds {mgr : BlobManager} {written : List UInt8} {id : Nat} {c : ChunkWrapper}
    {fromDict : Bool} (inv : DumpInv ctx decompress backend mgr written)
    (h : existChunk mgr id = some (c, fromDict)) :
    c.id = id ∧ (fromDict = true ∧ mgr.globalChunkDict.getChunk id = some c ∨
      fromDict = false ∧ ChunkHolds ctx.digest decompress (blobData ctx backend mgr written) c) := by
  unfold existChunk at h
  split at h
  · rename_i v global
    cases h
    exact ⟨ChunkDict.id_of_getChunk global, Or.inl ⟨rfl, global⟩⟩
  · obtain ⟨v, layered, hv⟩ := Option.map_eq_some_iff.mp h
    cases hv
    exact ⟨ChunkDict.id_of_getChunk layered, Or.inr ⟨rfl, inv.layered id c layered⟩⟩

/-- `find_duplicated_chunk` answers the chunk back and changes nothing, or pushes to the
node a chunk at the file offset that designates the bytes read, keeping the invariant:
digests that do not collide make the chunk the dicts know a chunk of those bytes. -/
theorem findDuplicatedChunk_inv (noCollision : Function.Injective ctx.digest)
    {node node' : Node} {mgr mgr' : BlobManager} {written buf : List UInt8} {fileOffset len : Nat}
    {chunk : ChunkWrapper} {found : Option ChunkWrapper}
    (inv : DumpInv ctx decompress backend mgr written) (id : chunk.id = ctx.digest buf)
    (sized : buf.length = len)
    (h : node.findDuplicatedChunk mgr fileOffset len chunk = .ok (found, node', mgr')) :
    found = some chunk ∧ node' = node ∧ mgr' = mgr ∨
      found = none ∧ DumpInv ctx decompress backend mgr' written ∧ TableGrows mgr mgr' ∧
        mgr'.layeredChunkDict = mgr.layeredChunkDict ∧
        ∃ c, node' = { node with chunks := node.chunks ++ [c] } ∧ c.inner.fileOffset = fileOffset ∧
          c.inner.uncompressedSize = buf.length ∧
          storedData decompress (blobData ctx backend mgr' written) c.inner = some buf := by
  subst sized
  unfold Node.findDuplicatedChunk at h
  split at h
  · rename_i cached fromDict known
    obtain ⟨sameId, source⟩ := existChunk_holds inv known
    split at h
    · obtain ⟨⟨chunk', mgr₁⟩, real, h⟩ := Except.bind_eq_ok.mp h
      cases h
      refine Or.inr ⟨rfl, ?_⟩
      unfold BlobManager.realChunk at real
      rcases source with ⟨rfl, global⟩ | ⟨rfl, holds⟩
      · -- a chunk of the global dict: its blob is found or added in the table
        obtain ⟨d, stored, digest, size⟩ := inv.dict _ cached global
        have same : d = buf := noCollision (digest.trans (sameId.trans id))
        subst same
        rw [if_pos rfl] at real
        obtain ⟨⟨r, mgr₂⟩, dictIdx, real⟩ := Except.bind_eq_ok.mp real
        cases real
        obtain ⟨kept, growing, layered, at_r⟩ :=
          dictBlobIndex_inv inv global (Except.mapError_eq_ok.mp dictIdx)
        refine ⟨kept, growing, layered, _, rfl, rfl, size.symm, ?_⟩
        refine (storedData_congr (c := cached) ?_ ?_ ?_ ?_).trans stored
        · exact at_r
        all_goals rfl
      · -- a chunk of the layered dict is copied as it is
        obtain ⟨d, stored, digest, size⟩ := holds
        have same : d = buf := noCollision (digest.trans (sameId.trans id))
        subst same
        rw [if_neg Bool.false_ne_true] at real
        cases real
        refine ⟨inv, TableGrows.refl mgr, rfl, _, rfl, rfl, size.symm, ?_⟩
        refine (storedData_congr (c := cached) ?_ ?_ ?_ ?_).trans stored
        all_goals rfl
    · cases h
      exact Or.inl ⟨rfl, rfl, rfl⟩
  · cases h
    exact Or.inl ⟨rfl, rfl, rfl⟩

/-! ## The set-up of the table -/

/-- How the build leaves the blob manager before it extends the table with the blobs of
the chunk dict: no blob of the build yet; a global chunk dict that remembers no blob yet,
whose blobs sit at their own index and whose chunks tell the truth about their data in
them; a layered dict (the chunks of the parent bootstrap) whose chunks tell the truth in
the table. -/
structure BuildStart (ctx : BuildContext) (decompress : List UInt8 → List UInt8)
    (backend : String → List UInt8) (mgr : BlobManager) : Prop where
  noCurrent : mgr.currentBlobIndex = none
  unmapped : mgr.globalChunkDict = .unit ∨ ∃ m blobs, mgr.globalChunkDict = .hash m blobs []
  positions : ∀ j (h : j < mgr.globalChunkDict.getBlobs.length),
    mgr.globalChunkDict.getBlobs[j].blobIndex = j
  dict : ∀ id c, mgr.globalChunkDict.getChunk id = some c →
    ChunkHolds ctx.digest decompress (dictData backend mgr.globalChunkDict) c
  layered : ∀ id c, mgr.layeredChunkDict.getChunk id = some c →
    ChunkHolds ctx.digest decompress (blobData ctx backend mgr []) c

theorem BlobManager.getBlobIdxById_eq_some {mgr : BlobManager} {id : String} {idx : Nat}
    (h : mgr.getBlobIdxById id = some idx) : mgr.blobs[idx]?.map (·.blobId) = some id := by
  unfold BlobManager.getBlobIdxById at h
  obtain ⟨inTable, named, -⟩ := List.findIdx?_eq_some_iff_getElem.mp h
  rw [List.getElem?_eq_getElem inTable, Option.map_some]
  simpa using named

/-- The dict's blobs the map remembers are at blobs of the table with their ids. -/
def Remembers (blobs : List BlobInfo) (table : List BlobContext) (blobIdxM : List (Nat × Nat)) : Prop :=
  ∀ inner r, blobIdxM.lookup inner = some r →
    ∃ bi, blobs[inner]? = some bi ∧ table[r]?.map (·.blobId) = some bi.blobId

/-- Remembering a blob at an index of the table that has its id. -/
theorem Remembers.cons {blobs : List BlobInfo} {table : List BlobContext} {blobIdxM : List (Nat × Nat)}
    {blob : BlobInfo} {idx : Nat} (here : blobs[blob.blobIndex]? = some blob)
    (named : table[idx]?.map (·.blobId) = some blob.blobId) (remembered : Remembers blobs table blobIdxM) :
    Remembers blobs table ((blob.blobIndex, idx) :: blobIdxM) := by
  intro inner r found
  rw [List.lookup_cons] at found
  split at found
  · rename_i same
    cases found
    have sameIdx : inner = blob.blobIndex := by simpa using same
    exact ⟨blob, sameIdx ▸ here, named⟩
  · exact remembered inner r found

/-- What is remembered stays where it is when the table grows at its end. -/
theorem Remembers.append {blobs : List BlobInfo} {table : List BlobContext} {blobIdxM : List (Nat × Nat)}
    (extra : List BlobContext) (remembered : Remembers blobs table blobIdxM) :
    Remembers blobs (table ++ extra) blobIdxM := by
  intro inner r found
  obtain ⟨bi, inDict, named⟩ := remembered inner r found
  obtain ⟨b, hb, -⟩ := Option.map_eq_some_iff.mp named
  refine ⟨bi, inDict, ?_⟩
  rw [List.getElem?_append_left (List.getElem?_eq_some_iff.mp hb).1]
  exact named

/-- The loop of `extend_blob_table_from_chunk_dict` over blobs of the dict that sit at
their own index remembers each at a blob of the table with its id; nothing changes but
the map and the table, which grows. Induction on the blobs left. -/
theorem extendLoop_inv {m : List ChunkWrapper} {blobs : List BlobInfo} :
    ∀ (rest : List BlobInfo) {mgr mgr' : BlobManager} {blobIdxM : List (Nat × Nat)},
    mgr.extendLoop rest = .ok mgr' → mgr.globalChunkDict = .hash m blobs blobIdxM →
    (∀ bi ∈ rest, blobs[bi.blobIndex]? = some bi) → Remembers blobs mgr.blobs blobIdxM →
    mgr'.currentBlobIndex = mgr.currentBlobIndex ∧ mgr'.layeredChunkDict = mgr.layeredChunkDict ∧
      TableGrows mgr mgr' ∧
      ∃ blobIdxM', mgr'.globalChunkDict = .hash m blobs blobIdxM' ∧ Remembers blobs mgr'.blobs blobIdxM'
  | [], mgr, mgr', blobIdxM, h, dict, _, remembered => by
    cases h
    exact ⟨rfl, rfl, TableGrows.refl _, blobIdxM, dict, remembered⟩
  | blob :: rest, mgr, mgr', blobIdxM, h, dict, placed, remembered => by
    unfold BlobManager.extendLoop at h
    dsimp only at h
    have here := placed blob List.mem_cons_self
    have placedRest := fun bi mem => placed bi (List.mem_cons_of_mem blob mem)
    split at h
    · -- a blob the table has already: the dict remembers its index
      rename_i realIdx found
      obtain ⟨dict₁, set, h⟩ := Except.bind_eq_ok.mp h
      rw [dict] at set
      cases set
      obtain ⟨mgr₁, step, loop⟩ := Except.bind_eq_ok.mp h
      cases step
      obtain ⟨current, layered, growing, rest'⟩ := extendLoop_inv rest loop rfl placedRest
        (remembered.cons here (BlobManager.getBlobIdxById_eq_some found))
      exact ⟨current, layered, TableGrows.trans (TableGrows.of_blobs (by rfl) (by rfl)) growing, rest'⟩
    · -- a blob the table has not: it is added at a new index
      obtain ⟨idx, alloc, h⟩ := Except.bind_eq_ok.mp h
      rw [BlobManager.allocIndex_eq_ok alloc] at h
      obtain ⟨dict₁, set, h⟩ := Except.bind_eq_ok.mp h
      simp only [BlobManager.add, dict] at set
      cases set
      obtain ⟨mgr₁, step, loop⟩ := Except.bind_eq_ok.mp h
      cases step
      have named : (mgr.blobs ++ [BlobContext.from blob])[mgr.blobs.length]?.map (·.blobId) =
          some blob.blobId := by
        simp [BlobContext.from, BlobContext.new]
      obtain ⟨current, layered, growing, rest'⟩ := extendLoop_inv rest loop rfl placedRest
        ((remembered.append _).cons here named)
      exact ⟨current, layered, TableGrows.trans (TableGrows.of_append (by rfl) (by rfl)) growing, rest'⟩

/-- `extend_blob_table_from_chunk_dict`, from where the build starts, sets the invariant
up: it remembers every blob of the dict at a blob of the table with its id. -/
theorem extendBlobTableFromChunkDict_inv {mgr mgr' : BlobManager}
    (start : BuildStart ctx decompress backend mgr) (h : mgr.extendBlobTableFromChunkDict = .ok mgr') :
    DumpInv ctx decompress backend mgr' [] ∧ TableGrows mgr mgr' := by
  unfold BlobManager.extendBlobTableFromChunkDict at h
  rcases start.unmapped with unit | ⟨m, blobs, hash⟩
  · -- the empty dict has no blob
    rw [unit] at h
    cases h
    refine ⟨⟨fun _ => rfl, fun k isCurrent => ?_, start.dict, fun id c r found => ?_, start.layered⟩,
      TableGrows.refl _⟩
    · rw [start.noCurrent] at isCurrent
      cases isCurrent
    · rw [unit] at found
      cases found
  · rw [hash] at h
    have placed : ∀ bi ∈ blobs, blobs[bi.blobIndex]? = some bi := by
      intro bi mem
      obtain ⟨j, lt, rfl⟩ := List.getElem_of_mem mem
      have atOwn := start.positions j (by simpa [hash, ChunkDict.getBlobs] using lt)
      simp only [hash, ChunkDict.getBlobs] at atOwn
      rw [atOwn]
      exact List.getElem?_eq_getElem lt
    obtain ⟨current, layered, growing, blobIdxM', dict', remembered⟩ :=
      extendLoop_inv blobs h hash placed (fun inner r found => by cases found)
    have noCurrent : mgr'.currentBlobIndex = none := current.trans start.noCurrent
    refine ⟨⟨fun _ => rfl, fun k isCurrent => ?_, ?_, fun id c r found real => ?_, ?_⟩, growing⟩
    · rw [noCurrent] at isCurrent
      cases isCurrent
    · have dictHolds := start.dict
      rw [hash] at dictHolds
      rw [dict']
      exact dictHolds
    · rw [dict'] at found real ⊢
      obtain ⟨bi, inDict, named⟩ := remembered _ r real
      refine ⟨by rw [noCurrent]; exact Option.some_ne_none r |>.symm, ?_⟩
      simp only [ChunkDict.getBlobsByInnerIdx, ChunkDict.getBlobs, inDict, Option.map_some]
      exact named
    · intro id c found
      rw [layered] at found
      exact (start.layered id c found).of_grows growing.blobData_grows_same

/-! ## The turn of a new chunk -/

/-- Setting the blob of the build grows the table. -/
theorem TableGrows.of_set {mgr mgr' : BlobManager} {k : Nat} {b : BlobContext}
    (isCurrent : mgr.currentBlobIndex = some k) (current : mgr'.currentBlobIndex = mgr.currentBlobIndex)
    (blobs : mgr'.blobs = mgr.blobs.set k b) : TableGrows mgr mgr' := by
  refine ⟨Or.inl current, fun i _ notCurrent => ?_, ?_⟩
  · have other : k ≠ i := fun same => notCurrent (by rw [isCurrent, same])
    rw [blobs, List.getElem?_set_ne other]
  · rw [blobs, List.length_set]

/-- The bytes appended to the blob of the build read back at the offset they were written
at. -/
theorem storedData_written {mgr : BlobManager} {written compressed : List UInt8} {k : Nat}
    {c : ChunkWrapper} (isCurrent : mgr.currentBlobIndex = some k) (blob : c.blobIndex = k)
    (offset : c.compressedOffset = ctx.blobOffset + written.length)
    (size : c.compressedSize = compressed.length) :
    storedData decompress (blobData ctx backend mgr (written ++ compressed)) c =
      some (if c.isCompressed then decompress compressed else compressed) := by
  have before : (List.replicate ctx.blobOffset (0 : UInt8) ++ written).length =
      ctx.blobOffset + written.length := by
    rw [List.length_append, List.length_replicate]
  unfold storedData Store.read blobData
  rw [blob, isCurrent, if_pos rfl, offset, size, ← List.append_assoc, ← before, Option.bind_some,
    readRange_append_self, Option.map_some]

end Inv

/-! ## The turn -/

section Turn

variable {ctx : BuildContext} {decompress : List UInt8 → List UInt8} {backend : String → List UInt8}
  (noCollision : Function.Injective ctx.digest)
  (roundTrip : ∀ d c b, ctx.compress d = some (c, b) → (if b then decompress c else c) = d)

include noCollision roundTrip in
/-- A turn of the chunk loop, for a chunk of `len` bytes: it reads them, feeds their
digest to the inode hasher, keeps the invariant with what it writes after what was
written, and pushes to the node one chunk at the chunk's file offset that designates
exactly the bytes read. -/
theorem dumpChunk_turn {dataBufLen i len : Nat} {st st' : NodeDataState} {written : List UInt8}
    (writer : st.blobWriter = some written) (inv : DumpInv ctx decompress backend st.blobMgr written)
    (size : st.node.chunkUncompressedSize ctx.chunkSize.toNat i = .ok len)
    (turn : dumpChunk ctx dataBufLen st i = .ok st') :
    len ≤ st.reader.length ∧ st'.reader = st.reader.drop len ∧
      st'.inodeHasher = st.inodeHasher.map (· ++ [ctx.digest (st.reader.take len)]) ∧
      TableGrows st.blobMgr st'.blobMgr ∧
      ∃ written' c, (∃ t, written' = written ++ t) ∧ st'.blobWriter = some written' ∧
        DumpInv ctx decompress backend st'.blobMgr written' ∧
        st'.node = { st.node with chunks := st.node.chunks ++ [c] } ∧
        c.inner.fileOffset = i * ctx.chunkSize.toNat ∧ c.inner.uncompressedSize = len ∧
        storedData decompress (blobData ctx backend st'.blobMgr written') c.inner =
          some (st.reader.take len) := by
  unfold dumpChunk at turn
  dsimp only at turn
  obtain ⟨len', sized, turn⟩ := Except.bind_eq_ok.mp turn
  rw [size] at sized
  cases sized
  obtain ⟨-, -, turn⟩ := Except.bind_eq_ok.mp turn
  obtain ⟨⟨chunk, buf, rest⟩, read, turn⟩ := Except.bind_eq_ok.mp turn
  obtain ⟨readable, rfl, rfl, rfl⟩ := Node.readFileChunk_eq_ok read
  dsimp only at turn
  obtain ⟨⟨found, node₁, mgr₁⟩, dup, turn⟩ := Except.bind_eq_ok.mp turn
  have bufLength : (st.reader.take len).length = len := List.length_take_of_le readable
  rcases findDuplicatedChunk_inv noCollision inv rfl bufLength dup with
    ⟨rfl, rfl, rfl⟩ | ⟨rfl, kept, growing, -, c, rfl, offset, usize, stored⟩
  · -- a chunk no dict knows: it is written to the blob of the build
    obtain ⟨⟨k, b, mgr₂⟩, created, turn⟩ := Except.bind_eq_ok.mp turn
    obtain ⟨inv₂, growing₂, current₂, at₂, -, -⟩ :=
      getOrCreateCurrentBlob_inv inv (Except.mapError_eq_ok.mp created)
    obtain ⟨b', at₂', offsetAt, countAt⟩ := inv₂.current k current₂
    rw [at₂, Option.some.injEq] at at₂'
    subst at₂'
    obtain ⟨⟨idx, b₁⟩, alloc, turn⟩ := Except.bind_eq_ok.mp turn
    obtain ⟨hidx, hb₁⟩ := BlobContext.allocChunkIndex_eq_ok alloc
    dsimp only at turn
    obtain ⟨⟨chunk₂, b₂, w₂⟩, dumped, turn⟩ := Except.bind_eq_ok.mp turn
    rw [writer] at dumped
    obtain ⟨compressed, isCompressed, compress, hw₂, hchunk₂, offset₂, count₂, enabled₂, meta₂⟩ :=
      dumpFileChunk_eq_ok dumped
    obtain ⟨b₃, added, turn⟩ := Except.bind_eq_ok.mp turn
    obtain ⟨hb₃, indexed⟩ := BlobContext.addChunkMetaInfo_eq_ok (Except.mapError_eq_ok.mp added)
    have hst := (Except.ok.inj turn).symm
    subst hst hw₂ hb₁
    -- where the chunk is written: at the end of what was written before
    have blob₂ : chunk₂.blobIndex = k := by rw [hchunk₂]
    have offsetChunk : chunk₂.compressedOffset = ctx.blobOffset + written.length := by
      rw [hchunk₂, ← offsetAt]
    have sizeChunk : chunk₂.compressedSize = compressed.length := by rw [hchunk₂]
    set mgr₃ : BlobManager := { mgr₂ with
      blobs := mgr₂.blobs.set k b₃
      layeredChunkDict := mgr₂.layeredChunkDict.addChunk chunk₂ } with hmgr₃
    have current₃ : mgr₃.currentBlobIndex = some k := current₂
    have stored₂ : storedData decompress (blobData ctx backend mgr₃ (written ++ compressed)) chunk₂ =
        some (st.reader.take len) := by
      rw [storedData_written current₃ blob₂ offsetChunk sizeChunk, hchunk₂]
      exact congrArg some (roundTrip _ _ _ compress)
    have growing₃ : TableGrows mgr₂ mgr₃ := TableGrows.of_set current₂ rfl rfl
    have inTable : k < mgr₂.blobs.length := (List.getElem?_eq_some_iff.mp at₂).1
    refine ⟨readable, rfl, rfl, growing₂.trans growing₃, written ++ compressed, ⟨.build, chunk₂⟩,
      ⟨compressed, rfl⟩, rfl, ?_, rfl, by rw [hchunk₂], by rw [hchunk₂, bufLength], stored₂⟩
    refine inv₂.grow growing₃ rfl (fun noCurrent => by rw [current₃] at noCurrent; cases noCurrent) ?_ ?_
    · -- the blob of the build moves past the chunk, and its chunk array takes the chunk
      intro k' isCurrent
      rw [current₂, Option.some.injEq] at isCurrent
      subst isCurrent
      refine ⟨b₃, List.getElem?_set_self inTable, ?_, ?_⟩
      · rw [hb₃, offset₂, offsetAt, List.length_append, Nat.add_assoc]
      · intro enabled
        subst hb₃
        simp only [count₂, meta₂, enabled₂] at enabled ⊢
        rw [if_pos enabled, List.length_append, List.length_singleton, countAt enabled]
    · intro id c found
      rcases ChunkDict.getChunk_addChunk found with old | rfl
      · exact Or.inl old
      · refine Or.inr ⟨_, stored₂, ?_, ?_⟩
        · rw [hchunk₂]
        · rw [hchunk₂, bufLength]
  · -- a chunk the dicts know: nothing is written
    cases turn
    exact ⟨readable, rfl, rfl, growing, written, c, ⟨[], (List.append_nil _).symm⟩, writer, kept, rfl,
      offset, usize.trans bufLength, stored⟩

end Turn

end Nydus
