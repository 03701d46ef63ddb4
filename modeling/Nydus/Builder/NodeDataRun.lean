import Nydus.Builder.NodeDataStep

/-!
# Dumping the data of files

The chunk loop of `dump_node_data_with_reader` runs `child_count` turns over a reader
holding the file. When `child_count` is `div_round_up(size, chunk_size)`, as
`Node::build_inode` sets it, turn `i` reads chunk `i` of the file: `chunk_size` bytes
from `i * chunk_size` on, the rest of the file for the last one (`fileChunk`). By
`dumpChunk_turn`, each turn pushes a chunk that designates those bytes, and the whole
loop gives the node the chunks of its file in order (`dumpChunks_run`), whatever the
later turns and files write (`Store.Grows`).
-/

namespace Nydus

open Store

/-- Chunk `i` of a file: `chunk_size` bytes from `i * chunk_size` on, fewer at its end. -/
def fileChunk (file : List UInt8) (chunkSize i : Nat) : List UInt8 :=
  (file.drop (i * chunkSize)).take chunkSize

/-- A chunk of a node is chunk `i` of its file: it starts at `i * chunk_size`, has the
size of that chunk, and designates its bytes in the blobs `S`. -/
structure IsFileChunk (decompress : List UInt8 → List UInt8) (S : Nat → Option (List UInt8))
    (file : List UInt8) (chunkSize i : Nat) (c : ChunkWrapper) : Prop where
  fileOffset : c.fileOffset = i * chunkSize
  uncompressedSize : c.uncompressedSize = (fileChunk file chunkSize i).length
  data : storedData decompress S c = some (fileChunk file chunkSize i)

/-- The chunks of a node are those of its file, in order. -/
def FileChunks (decompress : List UInt8 → List UInt8) (S : Nat → Option (List UInt8))
    (file : List UInt8) (chunkSize : Nat) (chunks : List NodeChunk) : Prop :=
  chunks.length = divRoundUp file.length chunkSize ∧
    ∀ i (h : i < chunks.length), IsFileChunk decompress S file chunkSize i chunks[i].inner

/-- What dumping its file gives a node that had no chunks, with the blobs `S` of a table
of `tableLen` blobs: `div_round_up(size, chunk_size)` chunks; chunk `i` starts at
`i * chunk_size`, has the size of chunk `i` of the file, names a blob of the table, and
designates there the file's bytes from `i * chunk_size` on; in RAFS v5 the digest of the
node is the hash of the digests of its chunks, in order. -/
def DumpedFile (ctx : BuildContext) (decompress : List UInt8 → List UInt8)
    (S : Nat → Option (List UInt8)) (tableLen : Nat) (f : Node × List UInt8) (node : Node) : Prop :=
  node.chunks.length = divRoundUp f.2.length ctx.chunkSize.toNat ∧
    (∀ i (h : i < node.chunks.length),
      node.chunks[i].inner.fileOffset = i * ctx.chunkSize.toNat ∧
      node.chunks[i].inner.uncompressedSize = (fileChunk f.2 ctx.chunkSize.toNat i).length ∧
      node.chunks[i].inner.blobIndex < tableLen ∧
      storedData decompress S node.chunks[i].inner =
        some ((f.2.drop (i * ctx.chunkSize.toNat)).take node.chunks[i].inner.uncompressedSize)) ∧
    (f.1.version = .v5 →
      node.digest = ctx.hashIds ((List.range (divRoundUp f.2.length ctx.chunkSize.toNat)).map
        fun i => ctx.digest (fileChunk f.2 ctx.chunkSize.toNat i)))

/-- The digests of the chunks of a file, in order: what the RAFS v5 inode hasher is fed. -/
def chunkDigests (digest : List UInt8 → Nat) (file : List UInt8) (chunkSize : Nat) : List Nat :=
  (List.range (divRoundUp file.length chunkSize)).map fun i => digest (fileChunk file chunkSize i)

theorem IsFileChunk.of_grows {decompress : List UInt8 → List UInt8} {S S' : Nat → Option (List UInt8)}
    {file : List UInt8} {chunkSize i : Nat} {c : ChunkWrapper} (g : Grows S S')
    (h : IsFileChunk decompress S file chunkSize i c) : IsFileChunk decompress S' file chunkSize i c :=
  ⟨h.fileOffset, h.uncompressedSize, storedData_of_grows g h.data⟩

theorem FileChunks.of_grows {decompress : List UInt8 → List UInt8} {S S' : Nat → Option (List UInt8)}
    {file : List UInt8} {chunkSize : Nat} {chunks : List NodeChunk} (g : Grows S S')
    (h : FileChunks decompress S file chunkSize chunks) : FileChunks decompress S' file chunkSize chunks :=
  ⟨h.1, fun i lt => (h.2 i lt).of_grows g⟩

/-! ## The chunks of a file -/

section Chunks

variable {file : List UInt8} {chunkSize i : Nat}

/-- A chunk index below `div_round_up(size, chunk_size)` starts inside the file. -/
theorem lt_of_lt_divRoundUp (pos : 0 < chunkSize) (lt : i < divRoundUp file.length chunkSize) :
    i * chunkSize < file.length := by
  unfold divRoundUp at lt
  have := (Nat.le_div_iff_mul_le pos).mp (Nat.succ_le_of_lt lt)
  rw [Nat.succ_mul] at this
  omega

/-- The last chunk index ends past the end of the file. -/
theorem le_of_divRoundUp_le (pos : 0 < chunkSize) (le : divRoundUp file.length chunkSize ≤ i + 1) :
    file.length ≤ (i + 1) * chunkSize := by
  unfold divRoundUp at le
  have := (Nat.div_lt_iff_lt_mul pos).mp (Nat.lt_succ_of_le le)
  rw [Nat.succ_mul] at this
  omega

theorem fileChunk_length : (fileChunk file chunkSize i).length = min chunkSize (file.length - i * chunkSize) := by
  simp only [fileChunk, List.length_take, List.length_drop]

/-- The uncompressed size the loop computes for chunk `i` is the length of chunk `i`: the
chunk size, but for the last chunk, which the `u32` cast keeps whole. -/
theorem chunkUncompressedSize_eq {node : Node} (pos : 0 < chunkSize) (small : chunkSize < 2 ^ 32)
    (sized : node.size = file.length) (counted : node.childCount = divRoundUp file.length chunkSize)
    (lt : i < node.childCount) :
    node.chunkUncompressedSize chunkSize i = .ok (fileChunk file chunkSize i).length := by
  rw [fileChunk_length]
  have inside := lt_of_lt_divRoundUp pos (counted ▸ lt)
  unfold Node.chunkUncompressedSize
  split
  · -- the last chunk: the rest of the file, at most a chunk
    rename_i last
    have past : file.length ≤ (i + 1) * chunkSize := le_of_divRoundUp_le pos (by omega)
    rw [Nat.succ_mul] at past
    rw [sized, Nat.mul_comm chunkSize i, if_neg (by omega), Nat.mod_eq_of_lt (by omega)]
    congr 1
    omega
  · -- an inner chunk: a whole chunk
    rename_i notLast
    have next : (i + 1) * chunkSize < file.length := lt_of_lt_divRoundUp pos (by omega)
    rw [Nat.succ_mul] at next
    congr 1
    omega

/-- Reading chunk `i` from the reader at `i * chunk_size` leaves it at `(i + 1) * chunk_size`. -/
theorem drop_fileChunk_length :
    (file.drop (i * chunkSize)).drop (fileChunk file chunkSize i).length =
      file.drop ((i + 1) * chunkSize) := by
  rw [fileChunk_length, List.drop_drop, Nat.succ_mul]
  by_cases whole : chunkSize ≤ file.length - i * chunkSize
  · rw [Nat.min_eq_left whole]
  · rw [List.drop_eq_nil_of_le (by omega), List.drop_eq_nil_of_le (by omega)]

theorem take_fileChunk_length :
    (file.drop (i * chunkSize)).take (fileChunk file chunkSize i).length = fileChunk file chunkSize i := by
  rw [fileChunk_length, ← List.length_drop, ← List.take_take, List.take_length]
  rfl

end Chunks

/-! ## The chunk loop -/

section Loop

variable {ctx : BuildContext} {decompress : List UInt8 → List UInt8} {backend : String → List UInt8}
  (noCollision : Function.Injective ctx.digest)
  (roundTrip : ∀ d c b, ctx.compress d = some (c, b) → (if b then decompress c else c) = d)
  {dataBufLen : Nat} {file : List UInt8}

include noCollision roundTrip in
/-- The chunk loop from chunk `i` on, with the reader at `i * chunk_size`, pushes chunks
`i`, `i + 1`, ... of the file, each designating its bytes, and feeds their digests to the
inode hasher in order. Induction on the number of turns, with `dumpChunk_turn` for each. -/
theorem dumpChunks_run (pos : 0 < ctx.chunkSize.toNat) :
    ∀ (n : Nat) {i : Nat} {st st' : NodeDataState} {written : List UInt8},
    st.node.size = file.length → st.node.childCount = divRoundUp file.length ctx.chunkSize.toNat →
    i + n ≤ st.node.childCount → st.reader = file.drop (i * ctx.chunkSize.toNat) →
    st.blobWriter = some written → DumpInv ctx decompress backend st.blobMgr written →
    dumpChunks ctx dataBufLen st i n = .ok st' →
    TableGrows st.blobMgr st'.blobMgr ∧
      ∃ written' new, (∃ t, written' = written ++ t) ∧ st'.blobWriter = some written' ∧
        DumpInv ctx decompress backend st'.blobMgr written' ∧
        st'.node = { st.node with chunks := st.node.chunks ++ new } ∧ new.length = n ∧
        (∀ j (h : j < new.length), IsFileChunk decompress (blobData ctx backend st'.blobMgr written')
          file ctx.chunkSize.toNat (i + j) new[j].inner) ∧
        st'.inodeHasher = st.inodeHasher.map
          (· ++ (List.range' i n).map fun j => ctx.digest (fileChunk file ctx.chunkSize.toNat j))
  | 0, i, st, st', written, _, _, _, _, writer, inv, run => by
    cases run
    exact ⟨TableGrows.refl _, written, [], ⟨[], (List.append_nil _).symm⟩, writer, inv,
      by rw [List.append_nil], rfl, fun j h => absurd h (Nat.not_lt_zero j),
      by simp⟩
  | n + 1, i, st, st', written, sized, counted, fits, reader, writer, inv, run => by
    obtain ⟨st₁, turn, run⟩ := Except.bind_eq_ok.mp run
    have size := chunkUncompressedSize_eq (i := i) pos (UInt32.toNat_lt _) sized counted (by omega)
    obtain ⟨-, reader₁, hasher₁, growing₁, written₁, c, ⟨t₁, rfl⟩, writer₁, inv₁, node₁, offset₁,
      usize₁, stored₁⟩ := dumpChunk_turn noCollision roundTrip writer inv size turn
    rw [reader, take_fileChunk_length] at stored₁
    rw [reader, drop_fileChunk_length] at reader₁
    have same : st₁.node.size = st.node.size ∧ st₁.node.childCount = st.node.childCount := by
      rw [node₁]
      exact ⟨rfl, rfl⟩
    obtain ⟨growing, written', new, ⟨t, rfl⟩, writer', inv', node', length', chunks', hasher'⟩ :=
      dumpChunks_run pos n (same.1.trans sized) (same.2.trans counted) (by omega) reader₁ writer₁ inv₁ run
    refine ⟨growing₁.trans growing, written ++ t₁ ++ t, c :: new, ⟨t₁ ++ t, List.append_assoc _ _ _⟩,
      writer', inv', ?_, by rw [List.length_cons, length'], ?_, ?_⟩
    · rw [node', node₁, List.append_assoc, List.singleton_append]
    · -- the chunk of this turn keeps designating its bytes; the later ones are the loop's
      intro j lt
      cases j with
      | zero =>
        exact ⟨offset₁, usize₁, storedData_of_grows (growing.blobData_grows _ t) stored₁⟩
      | succ j =>
        have later := chunks' j (by simpa using lt)
        rw [Nat.add_right_comm] at later
        exact later
    · rw [hasher', hasher₁, reader, take_fileChunk_length, Option.map_map, List.range'_succ]
      congr 1
      funext ids
      simp

include noCollision roundTrip in
/-- `dump_node_data_with_reader` of a regular file whose `child_count` is
`div_round_up(size, chunk_size)`, as `build_inode` sets it: the node gains the chunks of
the file, and in RAFS v5 its digest is the hash of their digests in order. -/
theorem dumpNodeDataWithReader_reg (pos : 0 < ctx.chunkSize.toNat) {node node' : Node}
    {mgr mgr' : BlobManager} {written : List UInt8} {w' : Option (List UInt8)} {size : Nat}
    (reg : node.kind = .reg) (sized : node.size = file.length)
    (counted : node.childCount = divRoundUp file.length ctx.chunkSize.toNat)
    (inv : DumpInv ctx decompress backend mgr written)
    (dumped : node.dumpNodeDataWithReader ctx mgr (some written) (some file) dataBufLen =
      .ok (size, node', mgr', w')) :
    TableGrows mgr mgr' ∧ ∃ written', (∃ t, written' = written ++ t) ∧ w' = some written' ∧
      DumpInv ctx decompress backend mgr' written' ∧
      ∃ new, node'.chunks = node.chunks ++ new ∧
        FileChunks decompress (blobData ctx backend mgr' written') file ctx.chunkSize.toNat new ∧
        node'.digest = if node.version = .v5
          then ctx.hashIds (chunkDigests ctx.digest file ctx.chunkSize.toNat) else node.digest := by
  unfold Node.dumpNodeDataWithReader at dumped
  rw [reg] at dumped
  dsimp only at dumped
  obtain ⟨st, run, done⟩ := Except.bind_eq_ok.mp dumped
  cases done
  obtain ⟨growing, written', new, grown, writer, inv', node₁, length, chunks, hasher⟩ :=
    dumpChunks_run noCollision roundTrip pos node.childCount sized counted (by simp) (by simp) rfl inv run
  refine ⟨growing, written', grown, writer, inv', new, ?_,
    ⟨length.trans counted, fun j lt => by simpa using chunks j lt⟩, ?_⟩
  all_goals
    -- the inode hasher is there in RAFS v5 only
    by_cases v5 : node.version = .v5
    · simp only [v5, if_true] at hasher
      rw [hasher, ← List.range_eq_range', counted]
      simp [node₁, v5, chunkDigests]
    · simp only [v5, if_false, Option.map_none] at hasher
      rw [hasher]
      simp [node₁, v5]

include noCollision roundTrip in
/-- The loop of `Blob::dump` over regular files, each with `child_count` set by
`build_inode`: every node gains the chunks of its file, designating their bytes in the
table and the blob as the loop leaves them. Induction on the files, with
`dumpNodeDataWithReader_reg` for each and growth for the later ones. -/
theorem dumpNodesData_run (pos : 0 < ctx.chunkSize.toNat) :
    ∀ (files : List (Node × List UInt8)) {mgr mgr' : BlobManager} {written : List UInt8}
      {nodes' : List Node} {w' : Option (List UInt8)},
    (∀ f ∈ files, f.1.kind = .reg ∧ f.1.size = f.2.length ∧
      f.1.childCount = divRoundUp f.2.length ctx.chunkSize.toNat) →
    DumpInv ctx decompress backend mgr written →
    dumpNodesData ctx mgr (some written) (files.map fun f => (f.1, some f.2)) = .ok (nodes', mgr', w') →
    TableGrows mgr mgr' ∧ ∃ written', (∃ t, written' = written ++ t) ∧ w' = some written' ∧
      DumpInv ctx decompress backend mgr' written' ∧
      List.Forall₂ (fun f node' => ∃ new, node'.chunks = f.1.chunks ++ new ∧
        FileChunks decompress (blobData ctx backend mgr' written') f.2 ctx.chunkSize.toNat new ∧
        node'.digest = if f.1.version = .v5
          then ctx.hashIds (chunkDigests ctx.digest f.2 ctx.chunkSize.toNat) else f.1.digest) files nodes'
  | [], mgr, mgr', written, nodes', w', _, inv, dumped => by
    cases dumped
    exact ⟨TableGrows.refl _, written, ⟨[], (List.append_nil _).symm⟩, rfl, inv, .nil⟩
  | f :: rest, mgr, mgr', written, nodes', w', regular, inv, dumped => by
    obtain ⟨⟨size, node₁, mgr₁, w₁⟩, dumped₁, dumped⟩ := Except.bind_eq_ok.mp dumped
    obtain ⟨reg, sized, counted⟩ := regular f List.mem_cons_self
    obtain ⟨growing₁, written₁, ⟨t₁, rfl⟩, rfl, inv₁, new, chunks₁, file₁, digest₁⟩ :=
      dumpNodeDataWithReader_reg noCollision roundTrip pos reg sized counted inv dumped₁
    obtain ⟨⟨nodes, mgr₂, w₂⟩, run, done⟩ := Except.bind_eq_ok.mp dumped
    cases done
    obtain ⟨growing₂, written₂, ⟨t₂, rfl⟩, rfl, inv₂, rest₂⟩ :=
      dumpNodesData_run pos rest (fun f' mem => regular f' (List.mem_cons_of_mem f mem)) inv₁ run
    refine ⟨growing₁.trans growing₂, written ++ t₁ ++ t₂, ⟨t₁ ++ t₂, List.append_assoc _ _ _⟩, rfl,
      inv₂, .cons ⟨new, chunks₁, file₁.of_grows (growing₂.blobData_grows _ t₂), digest₁⟩ rest₂⟩

include noCollision roundTrip in
/-- Dumping regular files, each with `child_count` set by `build_inode`, into one blob
manager that `extend_blob_table_from_chunk_dict` set up from where the build starts:
every node gets the chunks of its file (`DumpedFile`), and the final table keeps the
invariant, with the blob of the build at its index and every blob the dict remembers at
a blob with its id. -/
theorem dumpNodesData_file_chunks (pos : 0 < ctx.chunkSize.toNat) {mgr mgr₁ mgr' : BlobManager}
    {files : List (Node × List UInt8)} {nodes' : List Node} {w' : Option (List UInt8)}
    (start : BuildStart ctx decompress backend mgr)
    (extended : mgr.extendBlobTableFromChunkDict = .ok mgr₁)
    (regular : ∀ f ∈ files, f.1.kind = .reg ∧ f.1.size = f.2.length ∧ f.1.chunks = [] ∧
      f.1.childCount = divRoundUp f.2.length ctx.chunkSize.toNat)
    (dumped : dumpNodesData ctx mgr₁ (some []) (files.map fun f => (f.1, some f.2)) =
      .ok (nodes', mgr', w')) :
    ∃ written, w' = some written ∧ DumpInv ctx decompress backend mgr' written ∧
      List.Forall₂ (DumpedFile ctx decompress (blobData ctx backend mgr' written) mgr'.blobs.length)
        files nodes' := by
  obtain ⟨inv₁, -⟩ := extendBlobTableFromChunkDict_inv start extended
  obtain ⟨-, written, -, rfl, inv', dumpedFiles⟩ := dumpNodesData_run noCollision roundTrip pos files
    (fun f mem => ⟨(regular f mem).1, (regular f mem).2.1, (regular f mem).2.2.2⟩) inv₁ dumped
  refine ⟨written, rfl, inv', ?_⟩
  rw [List.forall₂_iff_zip] at dumpedFiles ⊢
  refine ⟨dumpedFiles.1, fun {f node} mem => ?_⟩
  obtain ⟨new, chunks, ⟨length, fileChunks⟩, digest⟩ := dumpedFiles.2 mem
  obtain ⟨-, -, empty, -⟩ := regular f (List.of_mem_zip mem).1
  rw [empty, List.nil_append] at chunks
  subst chunks
  refine ⟨length, fun i lt => ?_, fun v5 => by rw [digest, if_pos v5, chunkDigests]⟩
  obtain ⟨offset, usize, data⟩ := fileChunks i lt
  refine ⟨offset, usize, inv'.lt_of_blobData (isSome_of_storedData data), ?_⟩
  rw [data, usize, take_fileChunk_length]

end Loop

/-! ## Runs -/

/-- A digest without collisions: the bytes are the digits of a number in base 257. -/
def byteDigits (d : List UInt8) : Nat := d.foldr (fun b acc => b.toNat + 1 + 257 * acc) 0

theorem byteDigits_cons (b : UInt8) (d : List UInt8) :
    byteDigits (b :: d) = b.toNat + 1 + 257 * byteDigits d := rfl

theorem byteDigits_injective : Function.Injective byteDigits := by
  intro a
  induction a with
  | nil =>
    intro b same
    cases b with
    | nil => rfl
    | cons y ys =>
      rw [byteDigits_cons] at same
      simp only [byteDigits, List.foldr_nil] at same
      omega
  | cons x xs ih =>
    intro b same
    cases b with
    | nil =>
      rw [byteDigits_cons] at same
      simp only [byteDigits, List.foldr_nil] at same
      omega
    | cons y ys =>
      rw [byteDigits_cons, byteDigits_cons] at same
      have hx := x.toNat_lt
      have hy := y.toNat_lt
      -- the lowest digit and the rest of the number are each determined
      have rest : byteDigits xs = byteDigits ys := by omega
      have digit : x.toNat = y.toNat := by omega
      rw [UInt8.toNat_inj.mp digit, ih rest]

/-- A RAFS v5 build of 4-byte chunks that stores chunks as they are. -/
def sampleCtx : BuildContext :=
  ⟨.v5, 4, false, 0, "build", byteDigits, List.sum, fun d => some (d, false)⟩

theorem sampleCtx_roundTrip (d c : List UInt8) (b : Bool) (h : sampleCtx.compress d = some (c, b)) :
    (if b then id c else c) = d := by
  simp only [sampleCtx, Option.some.injEq, Prod.mk.injEq] at h
  obtain ⟨rfl, rfl⟩ := h
  rfl

/-- A chunk dict of one blob, `"dict"`, holding the bytes `5, 6, 7, 8` as one chunk. -/
def sampleDictChunk : ChunkWrapper :=
  { ChunkWrapper.new .v5 with id := byteDigits [5, 6, 7, 8], compressedSize := 4, uncompressedSize := 4 }

def sampleBackend (id : String) : List UInt8 := if id = "dict" then [5, 6, 7, 8] else []

def sampleMgr : BlobManager :=
  { BlobManager.new with globalChunkDict := .hash [sampleDictChunk] [⟨0, "dict", 4, 4⟩] [] }

/-- A file of three chunks: a new one, the same again, and the one of the dict. -/
def sampleFile : List UInt8 := [1, 2, 3, 4, 1, 2, 3, 4, 5, 6, 7, 8]

def sampleNode : Node := ⟨.reg, .v5, 12, 3, none, 0, []⟩

theorem sampleMgr_start : BuildStart sampleCtx id sampleBackend sampleMgr where
  noCurrent := rfl
  unmapped := Or.inr ⟨_, _, rfl⟩
  positions := by decide
  dict := by
    intro digest c found
    simp only [sampleMgr, ChunkDict.getChunk, List.find?_cons, List.find?_nil] at found
    split at found
    · cases found
      exact ⟨[5, 6, 7, 8], rfl, rfl, rfl⟩
    · cases found
  layered := by
    intro digest c found
    cases found

theorem dumpNodesData_file_chunks_sample :
    ∃ mgr₁ nodes' mgr' w', sampleMgr.extendBlobTableFromChunkDict = .ok mgr₁ ∧
      dumpNodesData sampleCtx mgr₁ (some []) [(sampleNode, some sampleFile)] = .ok (nodes', mgr', w') ∧
      ∃ written, w' = some written ∧ DumpInv sampleCtx id sampleBackend mgr' written ∧
        List.Forall₂ (DumpedFile sampleCtx id (blobData sampleCtx sampleBackend mgr' written)
          mgr'.blobs.length) [(sampleNode, sampleFile)] nodes' :=
  ⟨_, _, _, _, rfl, rfl, dumpNodesData_file_chunks byteDigits_injective sampleCtx_roundTrip
    (by decide) sampleMgr_start rfl (by decide) rfl⟩

/-- A chunk dict whose chunk is a hole of the bytes `1, 2, 3, 4`: it has their digest, and
no size. -/
def holeMgr : BlobManager :=
  { BlobManager.new with
    globalChunkDict := .hash [{ ChunkWrapper.new .v5 with id := byteDigits [1, 2, 3, 4] }]
      [⟨0, "dict", 4, 4⟩] [] }

def holeNode : Node := ⟨.reg, .v5, 4, 1, none, 0, []⟩

/-- A chunk dict whose chunk of the bytes `1, 2, 3, 4` names a blob its table lacks. -/
def strayMgr : BlobManager :=
  { BlobManager.new with
    globalChunkDict := .hash [{ sampleDictChunk with id := byteDigits [1, 2, 3, 4], blobIndex := 3 }]
      [⟨0, "dict", 4, 4⟩] [] }

def strayFile : List UInt8 := [1, 2, 3, 4, 5, 6, 7, 8]

def strayNode : Node := ⟨.reg, .v5, 8, 2, none, 0, []⟩

/-- The two dicts `dumpNodesData_file_chunks` excludes. A file of one chunk whose digest is
that of a hole of the dict gets a chunk of uncompressed size 0, not 4. A chunk of the dict
whose blob the dict lacks gets an index allocated but no blob added there; the blob of
the build is then added at that same index, and the dict chunk designates the bytes the
build wrote, `5, 6, 7, 8`, not the file's `1, 2, 3, 4`. -/
theorem dumpNodesData_dict_hole_and_stray :
    ((holeMgr.extendBlobTableFromChunkDict.mapError NodeDataError.blob >>= fun mgr =>
        dumpNodesData sampleCtx mgr (some []) [(holeNode, some [1, 2, 3, 4])]) :
          Except NodeDataError (List Node × BlobManager × Option (List UInt8))).map
        (fun r => r.1.map fun node => node.chunks.map (·.inner.uncompressedSize)) = .ok [[0]] ∧
      (fileChunk [1, 2, 3, 4] 4 0).length = 4 ∧
      ((strayMgr.extendBlobTableFromChunkDict.mapError NodeDataError.blob >>= fun mgr =>
        dumpNodesData sampleCtx mgr (some []) [(strayNode, some strayFile)]) :
          Except NodeDataError (List Node × BlobManager × Option (List UInt8))).map
        (fun r => r.1.map fun node => node.chunks.map fun c =>
          storedData id (blobData sampleCtx sampleBackend r.2.1 (r.2.2.getD [])) c.inner) =
        .ok [[some [5, 6, 7, 8], some [5, 6, 7, 8]]] ∧
      fileChunk strayFile 4 0 = [1, 2, 3, 4] := by
  refine ⟨?_, ?_, ?_, ?_⟩ <;> decide

end Nydus
