import Mathlib
import Nydus.Lib.LittleEndian
import Nydus.Lib.Store
import Nydus.Rafs.V6DirLayout
import Nydus.Rafs.V6DirLookup

/-!
# Reading back what the v6 builder writes

`v6_dump_dir` packs the dirents of a directory into 4 KiB blocks and writes each block, its
dirents followed by its names, at the block's place. The reader takes a block's number of
entries from its first dirent and a name's end from the next dirent's name offset; the last
name of a block ends at the block's fill, which for the directory's last block comes from the
inode size. Written into a zeroed bootstrap in the plain layout, a block reads back as the
writer's entries, its last name cut at the fill the reader computes (`readsBlock_of_written`).
-/

namespace Nydus

/-! ## Fields in little-endian bytes -/

theorem leBytes_eq_encode : ∀ (width n : Nat), leBytes width n = LittleEndian.encode width n
  | 0, _ => rfl
  | width + 1, n => by
    rw [LittleEndian.encode, ← leBytes_eq_encode width (n / 256), leBytes, leBytes,
      List.range_succ_eq_map, List.map_cons, List.map_map]
    congr 1
    apply List.map_congr_left
    intro i _
    -- byte `i + 1` of `n` is byte `i` of `n / 256`
    simp only [Function.comp, Nat.mul_succ, Nat.shiftRight_eq_div_pow]
    rw [Nat.add_comm, pow_add, ← Nat.div_div_eq_div_mul]
    rfl

theorem leValue_eq_decode : ∀ bytes : List UInt8, leValue bytes = LittleEndian.decode bytes
  | [] => rfl
  | b :: bytes => by
    rw [LittleEndian.decode, ← leValue_eq_decode bytes]
    rfl

/-- A dirent's twelve bytes decode to its fields, each within the width it is stored in. -/
theorem getEntry_of_getSlice {d : OndiskDir} {b j o : Nat} {de : RafsV6Dirent}
    (placed : d.dataBlockOffset b = .ok o)
    (bytes : d.getSlice (o + RAFS_V6_DIRENT_SIZE * j) RAFS_V6_DIRENT_SIZE = .ok de.toBytes) :
    d.getEntry b j = .ok ⟨de.eNid % 2 ^ 64, de.eNameoff % 2 ^ 16, de.eFileType % 2 ^ 8⟩ := by
  rw [OndiskDir.getEntry, placed, Except.ok_bind, bytes, Except.ok_bind]
  have nid : de.toBytes.take 8 = LittleEndian.encode 8 de.eNid := by
    simp [RafsV6Dirent.toBytes, leBytes_eq_encode]
  have nameoff : (de.toBytes.drop 8).take 2 = LittleEndian.encode 2 de.eNameoff := by
    simp [RafsV6Dirent.toBytes, leBytes_eq_encode]
  have fileType : (de.toBytes.drop 10).take 1 = [UInt8.ofNat de.eFileType] := by
    rw [RafsV6Dirent.toBytes, List.drop_left' (by simp)]
    rfl
  simp only [nid, nameoff, fileType, leValue_eq_decode, LittleEndian.decode_encode]
  simp [LittleEndian.decode, UInt8.toNat_ofNat']
  rfl

/-! ## The bytes of a written block -/

theorem length_setNameOffsets : ∀ (dirents : List (RafsV6Dirent × List UInt8)) (nameoff : Nat),
    (setNameOffsets dirents nameoff).length = dirents.length
  | [], _ => rfl
  | _ :: rest, nameoff => by
    rw [setNameOffsets, List.length_cons, length_setNameOffsets rest, List.length_cons]

/-- Dirent `j` of a block names the offset of name `j`: the start offset and the names
before it. -/
theorem getElem?_setNameOffsets : ∀ (dirents : List (RafsV6Dirent × List UInt8)) (nameoff j : Nat),
    j < dirents.length →
      (setNameOffsets dirents nameoff)[j]? =
        some { dirents[j]?.getD (⟨0, 0, 0⟩, []) |>.1 with
          eNameoff := nameoff + ((dirents.take j).map (·.2.length)).sum }
  | [], _, _, lt => absurd lt (Nat.not_lt_zero _)
  | (entry, name) :: rest, nameoff, 0, _ => by simp [setNameOffsets]
  | (entry, name) :: rest, nameoff, j + 1, lt => by
    rw [setNameOffsets, List.getElem?_cons_succ,
      getElem?_setNameOffsets rest (nameoff + name.length) j (by simpa using lt)]
    simp [Nat.add_assoc]

/-- Where the writer puts name `j` of a block: after the block's dirents and the names
before it. -/
def nameOffset (es : List (RafsV6Dirent × List UInt8)) (j : Nat) : Nat :=
  RAFS_V6_DIRENT_SIZE * es.length + ((es.take j).map (·.2.length)).sum

theorem nameOffset_succ {es : List (RafsV6Dirent × List UInt8)} {j : Nat} (h : j < es.length) :
    nameOffset es (j + 1) = nameOffset es j + es[j].2.length := by
  rw [nameOffset, nameOffset, List.take_add_one, List.getElem?_eq_getElem h, Option.toList_some,
    List.map_append, List.sum_append, List.map_singleton, List.sum_singleton, Nat.add_assoc]

/-- Dirent `j` of a written block: the writer's dirent with the offset of name `j`. -/
theorem getElem_setNameOffsets {es : List (RafsV6Dirent × List UInt8)} {j : Nat} (h : j < es.length) :
    (setNameOffsets es (RAFS_V6_DIRENT_SIZE * es.length))[j]? =
      some { es[j].1 with eNameoff := nameOffset es j } := by
  rw [getElem?_setNameOffsets es _ j h, List.getElem?_eq_getElem h]
  rfl

theorem blockBytes_dirent {es : List (RafsV6Dirent × List UInt8)} {j : Nat} (h : j < es.length) :
    ((blockBytes es (RAFS_V6_DIRENT_SIZE * es.length)).drop (RAFS_V6_DIRENT_SIZE * j)).take
        RAFS_V6_DIRENT_SIZE = RafsV6Dirent.toBytes { es[j].1 with eNameoff := nameOffset es j } := by
  have inParts : j < (setNameOffsets es (RAFS_V6_DIRENT_SIZE * es.length)).length := by
    rw [length_setNameOffsets]
    exact h
  have part := Store.take_drop_flatten_map RafsV6Dirent.toBytes inParts
  -- every dirent before `j` takes twelve bytes
  have before : (((setNameOffsets es (RAFS_V6_DIRENT_SIZE * es.length)).take j).map
      fun p => p.toBytes.length).sum = RAFS_V6_DIRENT_SIZE * j := by
    simp [length_setNameOffsets, Nat.min_eq_left (Nat.le_of_lt h), Nat.mul_comm]
  have entry : (setNameOffsets es (RAFS_V6_DIRENT_SIZE * es.length))[j] =
      { es[j].1 with eNameoff := nameOffset es j } :=
    Option.some_injective _ (by rw [← List.getElem?_eq_getElem inParts, getElem_setNameOffsets h])
  rw [before, entry, RafsV6Dirent.toBytes_length] at part
  have within : RAFS_V6_DIRENT_SIZE * j + RAFS_V6_DIRENT_SIZE ≤
      ((setNameOffsets es (RAFS_V6_DIRENT_SIZE * es.length)).map RafsV6Dirent.toBytes).flatten.length := by
    rw [setNameOffsets_bytes_length]
    simp only [RAFS_V6_DIRENT_SIZE]
    omega
  rw [blockBytes, List.drop_append_of_le_length (by omega),
    List.take_append_of_le_length (by rw [List.length_drop]; omega)]
  exact part

theorem blockBytes_name {es : List (RafsV6Dirent × List UInt8)} {j : Nat} (h : j < es.length) :
    ((blockBytes es (RAFS_V6_DIRENT_SIZE * es.length)).drop (nameOffset es j)).take
        es[j].2.length = es[j].2 := by
  rw [blockBytes, nameOffset, ← List.drop_drop, List.drop_left' (setNameOffsets_bytes_length _ _)]
  exact Store.take_drop_flatten_map (fun e : RafsV6Dirent × List UInt8 => e.2) h

/-- The last name of a block is where the block's bytes end. -/
theorem blockBytes_drop_last {es : List (RafsV6Dirent × List UInt8)} (pos : 0 < es.length) :
    (blockBytes es (RAFS_V6_DIRENT_SIZE * es.length)).drop (nameOffset es (es.length - 1)) =
      es[es.length - 1].2 := by
  have split : (es.map (·.2)).flatten =
      ((es.take (es.length - 1)).map (·.2)).flatten ++ es[es.length - 1].2 := by
    conv_lhs => rw [← List.take_append_drop (es.length - 1) es]
    rw [List.drop_eq_getElem_cons (by omega), List.drop_eq_nil_of_le (by omega)]
    simp only [List.map_append, List.flatten_append, List.map_cons, List.map_nil, List.flatten_cons,
      List.flatten_nil, List.append_nil]
  have before : ((es.take (es.length - 1)).map (·.2.length)).sum =
      ((es.take (es.length - 1)).map (·.2)).flatten.length := by
    rw [List.length_flatten, List.map_map]
    rfl
  rw [blockBytes, nameOffset, ← List.drop_drop, List.drop_left' (setNameOffsets_bytes_length _ _),
    split, before, List.drop_left]

/-- A written block as it stands in the bootstrap: its bytes, then zeros to the block's end. -/
def padBlock (es : List (RafsV6Dirent × List UInt8)) : List UInt8 :=
  blockBytes es (RAFS_V6_DIRENT_SIZE * es.length) ++
    List.replicate (EROFS_BLOCK_SIZE - (blockBytes es (RAFS_V6_DIRENT_SIZE * es.length)).length) 0

theorem length_padBlock {es : List (RafsV6Dirent × List UInt8)}
    (fits : (blockBytes es (RAFS_V6_DIRENT_SIZE * es.length)).length ≤ EROFS_BLOCK_SIZE) :
    (padBlock es).length = EROFS_BLOCK_SIZE := by
  rw [padBlock, List.length_append, List.length_replicate]
  omega

/-- The reader's slice of a range inside what the bootstrap holds at `o`. -/
theorem getSlice_of_readRange {d : OndiskDir} {o : Nat} {held : List UInt8}
    (holds : Store.readRange d.map o held.length = some held) {k len : Nat}
    (inside : k + len ≤ held.length) : d.getSlice (o + k) len = .ok ((held.drop k).take len) := by
  unfold Store.readRange at holds
  split at holds
  · next within =>
    have stored := Option.some_injective _ holds
    rw [OndiskDir.getSlice, if_pos (by omega)]
    conv_rhs => rw [← stored]
    rw [List.drop_take, List.take_take, Nat.min_eq_left (by omega), List.drop_drop]
  · cases holds

/-- The names of a block end where its bytes end. -/
theorem nameOffset_length (es : List (RafsV6Dirent × List UInt8)) :
    nameOffset es es.length = (blockBytes es (RAFS_V6_DIRENT_SIZE * es.length)).length := by
  rw [nameOffset, List.take_length, blockBytes, List.length_append, setNameOffsets_bytes_length,
    List.length_flatten, List.map_map]
  rfl

theorem nameOffset_mono (es : List (RafsV6Dirent × List UInt8)) {i j : Nat} (le : i ≤ j) :
    nameOffset es i ≤ nameOffset es j := by
  have names := ((List.take_sublist_take_left (l := es) le).map
    (fun e : RafsV6Dirent × List UInt8 => e.2.length)).sum_le_sum
    (fun _ _ => Nat.zero_le _)
  unfold nameOffset
  omega

theorem nameOffset_le {es : List (RafsV6Dirent × List UInt8)} {j : Nat} (le : j ≤ es.length) :
    nameOffset es j ≤ (blockBytes es (RAFS_V6_DIRENT_SIZE * es.length)).length :=
  nameOffset_length es ▸ nameOffset_mono es le

/-- Inside the block's bytes, the padding is not read. -/
theorem padBlock_drop_take {es : List (RafsV6Dirent × List UInt8)} {k len : Nat}
    (inside : k + len ≤ (blockBytes es (RAFS_V6_DIRENT_SIZE * es.length)).length) :
    ((padBlock es).drop k).take len =
      ((blockBytes es (RAFS_V6_DIRENT_SIZE * es.length)).drop k).take len := by
  rw [padBlock, List.drop_append_of_le_length (by omega),
    List.take_append_of_le_length (by rw [List.length_drop]; omega)]

/-- From the last name on, a written block is that name and zeros. -/
theorem padBlock_drop_last {es : List (RafsV6Dirent × List UInt8)} (pos : 0 < es.length) :
    (padBlock es).drop (nameOffset es (es.length - 1)) =
      es[es.length - 1].2 ++
        List.replicate (EROFS_BLOCK_SIZE - (blockBytes es (RAFS_V6_DIRENT_SIZE * es.length)).length) 0 := by
  rw [padBlock, List.drop_append_of_le_length (nameOffset_le (Nat.sub_le _ _)),
    blockBytes_drop_last pos]

/-- The reader keeps the bytes of a name up to the first zero: of a name without one and
zeros after it, what it took of the name. -/
theorem take_nonzeroPrefixLength {name : List UInt8} (nonzero : (0 : UInt8) ∉ name) (r k : Nat) :
    ((name ++ List.replicate r 0).take k).take
        (OndiskDir.nonzeroPrefixLength ((name ++ List.replicate r 0).take k)) = name.take k := by
  have kept : ∀ x ∈ name.take k, (x ≠ 0 : Bool) = true := by
    intro x mem
    have := List.mem_of_mem_take mem
    simp only [ne_eq, decide_eq_true_eq]
    rintro rfl
    exact nonzero this
  rw [List.take_append, List.take_replicate, OndiskDir.nonzeroPrefixLength, List.takeWhile_append_of_pos kept,
    List.takeWhile_replicate, if_neg (by decide), List.append_nil]
  exact List.take_left' rfl

namespace OndiskDir

/-- The fill the reader gives block `b`: the directory's size past its last full block in
the last block, a whole block in the others. -/
def blockFill (d : OndiskDir) (b : Nat) : Nat :=
  if divRoundUp d.size EROFS_BLOCK_SIZE = b + 1 then d.size % EROFS_BLOCK_SIZE else EROFS_BLOCK_SIZE

theorem blockFill_le (d : OndiskDir) (b : Nat) : d.blockFill b ≤ EROFS_BLOCK_SIZE := by
  unfold blockFill
  split
  · exact Nat.le_of_lt (Nat.mod_lt _ (by decide))
  · exact Nat.le_refl _

/-- The blocks of a directory whose size is `k` full blocks and `len` bytes of one more. -/
theorem blocksCount_of_size {d : OndiskDir} {k len : Nat} (size : d.size = EROFS_BLOCK_SIZE * k + len)
    (pos : 0 < len) (le : len ≤ EROFS_BLOCK_SIZE) : d.blocksCount = k + 1 := by
  rw [blocksCount, size, divRoundUp]
  simp only [EROFS_BLOCK_SIZE] at le ⊢
  omega

/-- The fills of such a directory: what its size leaves of the last block, which is nothing
when that block is full. -/
theorem blockFill_of_size {d : OndiskDir} {k len : Nat} (size : d.size = EROFS_BLOCK_SIZE * k + len)
    (pos : 0 < len) (le : len ≤ EROFS_BLOCK_SIZE) (i : Nat) :
    d.blockFill i = if i = k then len % EROFS_BLOCK_SIZE else EROFS_BLOCK_SIZE := by
  rw [blockFill, ← blocksCount, blocksCount_of_size size pos le]
  by_cases last : i = k
  · rw [if_pos (by omega), if_pos last, size, Nat.mul_add_mod]
  · rw [if_neg (by omega), if_neg last]

end OndiskDir

/-- What the writer gives a block: it is not empty, its dirents and names fit in a block,
its nids fit their field and no name has a zero byte. -/
structure WrittenBlock (es : List (RafsV6Dirent × List UInt8)) : Prop where
  nonempty : es ≠ []
  fits : (blockBytes es (RAFS_V6_DIRENT_SIZE * es.length)).length ≤ EROFS_BLOCK_SIZE
  nid_lt : ∀ e ∈ es, e.1.eNid < 2 ^ 64
  nonzero : ∀ e ∈ es, (0 : UInt8) ∉ e.2

theorem WrittenBlock.length_pos {es : List (RafsV6Dirent × List UInt8)} (written : WrittenBlock es) :
    0 < es.length :=
  List.length_pos_iff.mpr written.nonempty

theorem WrittenBlock.bytes_pos {es : List (RafsV6Dirent × List UInt8)} (written : WrittenBlock es) :
    0 < (blockBytes es (RAFS_V6_DIRENT_SIZE * es.length)).length :=
  Nat.lt_of_lt_of_le (Nat.mul_pos (by decide) written.length_pos) (nameOffset_le (Nat.zero_le _))

/-- Block `b` of `d` starts at `o` and holds the written block `es`. -/
structure OndiskDir.HoldsBlock (d : OndiskDir) (b o : Nat) (es : List (RafsV6Dirent × List UInt8)) :
    Prop where
  placed : d.dataBlockOffset b = .ok o
  holds : Store.readRange d.map o EROFS_BLOCK_SIZE = some (padBlock es)

/-- What the reader reads of a written block with fill `fill`: the writer's names and nids,
the last name cut at the fill. -/
def blockView (es : List (RafsV6Dirent × List UInt8)) (fill : Nat) : List (List UInt8 × Nat) :=
  es.mapIdx fun j e => (if j + 1 = es.length then e.2.take (fill - nameOffset es j) else e.2, e.1.eNid)

/-- What the reader reads of a written block whose fill covers its bytes: the writer's names
and nids. -/
def wholeView (es : List (RafsV6Dirent × List UInt8)) : List (List UInt8 × Nat) :=
  es.map fun e => (e.2, e.1.eNid)

/-- With a fill that covers the block's bytes, the last name is not cut. -/
theorem blockView_of_le {es : List (RafsV6Dirent × List UInt8)} {fill : Nat}
    (whole : (blockBytes es (RAFS_V6_DIRENT_SIZE * es.length)).length ≤ fill) :
    blockView es fill = wholeView es := by
  apply List.ext_getElem (by rw [blockView, wholeView, List.length_mapIdx, List.length_map])
  intro j inView inMap
  simp only [blockView, wholeView, List.getElem_mapIdx, List.getElem_map]
  split
  · next last =>
    have lt : j < es.length := by omega
    have next := nameOffset_succ lt
    rw [last, nameOffset_length] at next
    rw [List.take_of_length_le (by omega)]
  · rfl

namespace OndiskDir.HoldsBlock

variable {d : OndiskDir} {b o : Nat} {es : List (RafsV6Dirent × List UInt8)}

theorem getSlice_pad (block : d.HoldsBlock b o es) (written : WrittenBlock es) {k len : Nat}
    (inside : k + len ≤ EROFS_BLOCK_SIZE) : d.getSlice (o + k) len = .ok (((padBlock es).drop k).take len) := by
  have held := block.holds
  rw [← length_padBlock written.fits] at held inside
  exact getSlice_of_readRange held inside

theorem getSlice (block : d.HoldsBlock b o es) (written : WrittenBlock es) {k len : Nat}
    (inside : k + len ≤ (blockBytes es (RAFS_V6_DIRENT_SIZE * es.length)).length) :
    d.getSlice (o + k) len = .ok (((blockBytes es (RAFS_V6_DIRENT_SIZE * es.length)).drop k).take len) := by
  rw [block.getSlice_pad written (inside.trans written.fits), padBlock_drop_take inside]

/-- Dirent `j` of a written block reads back with the nid the writer gave it and the offset
of name `j`. -/
theorem getEntry (block : d.HoldsBlock b o es) (written : WrittenBlock es) {j : Nat} (lt : j < es.length) :
    d.getEntry b j = .ok ⟨es[j].1.eNid, nameOffset es j, es[j].1.eFileType % 2 ^ 8⟩ := by
  have inside : RAFS_V6_DIRENT_SIZE * j + RAFS_V6_DIRENT_SIZE ≤
      (blockBytes es (RAFS_V6_DIRENT_SIZE * es.length)).length := by
    have := @nameOffset_le es 0 (Nat.zero_le _)
    simp only [nameOffset, List.take_zero, List.map_nil, List.sum_nil, RAFS_V6_DIRENT_SIZE] at this ⊢
    omega
  have bytes := block.getSlice written inside
  rw [blockBytes_dirent lt] at bytes
  have nid : es[j].1.eNid < 2 ^ 64 := written.nid_lt _ (List.getElem_mem lt)
  have nameoff : nameOffset es j < 2 ^ 16 :=
    Nat.lt_of_le_of_lt ((nameOffset_le (Nat.le_of_lt lt)).trans written.fits) (by decide)
  rw [getEntry_of_getSlice block.placed bytes]
  simp only [Nat.mod_eq_of_lt nid, Nat.mod_eq_of_lt nameoff]

/-- A block's number of entries is read from its first dirent. -/
theorem entriesCount (block : d.HoldsBlock b o es) (written : WrittenBlock es) :
    d.entriesCount b = .ok es.length := by
  rw [OndiskDir.entriesCount, block.getEntry written written.length_pos, Except.ok_bind]
  show Except.ok _ = _
  simp only [nameOffset, List.take_zero, List.map_nil, List.sum_nil, Nat.add_zero]
  rw [Nat.mul_div_cancel_left _ (by decide)]

/-- A name other than the last ends where the next begins. -/
theorem entryName_of_lt (block : d.HoldsBlock b o es) (written : WrittenBlock es) {j : Nat}
    (succ : j + 1 < es.length) : d.entryName b j es.length = .ok es[j].2 := by
  have lt : j < es.length := by omega
  have next := nameOffset_succ lt
  have inside : nameOffset es j + es[j].2.length ≤
      (blockBytes es (RAFS_V6_DIRENT_SIZE * es.length)).length :=
    next ▸ nameOffset_le succ.le
  have early : j < es.length - 1 := by omega
  have ascending : ¬ nameOffset es (j + 1) < nameOffset es j :=
    Nat.not_lt.mpr (nameOffset_mono es (Nat.le_succ j))
  simp only [OndiskDir.entryName, block.placed, block.getEntry written lt, block.getEntry written succ,
    checkedSub_of_le (Nat.one_le_of_lt lt), Except.ok_bind, early, ascending, ↓reduceIte]
  rw [next, Nat.add_sub_cancel_left, block.getSlice written inside, blockBytes_name lt]

/-- The last name of a block is read up to the block's fill. -/
theorem entryName_last_eq (block : d.HoldsBlock b o es) (written : WrittenBlock es) {j : Nat}
    (last : j + 1 = es.length) :
    d.entryName b j es.length = (do
      let len ← checkedSub (d.blockFill b) (nameOffset es j)
      let buf ← d.getSlice (o + nameOffset es j) len
      pure (buf.take (OndiskDir.nonzeroPrefixLength buf))) := by
  have lt : j < es.length := by omega
  have late : ¬ j < es.length - 1 := by omega
  have start : nameOffset es 0 ≤ nameOffset es j := nameOffset_mono es (Nat.zero_le j)
  -- the reader measures the last name from the block's first name, which follows the dirents
  have first : nameOffset es 0 = RAFS_V6_DIRENT_SIZE * es.length := by
    simp only [nameOffset, List.take_zero, List.map_nil, List.sum_nil, Nat.add_zero]
  simp only [OndiskDir.entryName, block.placed, block.getEntry written lt,
    block.getEntry written written.length_pos, checkedSub_of_le (Nat.one_le_of_lt lt),
    checkedSub_of_le start, Except.ok_bind, late, ↓reduceIte]
  rw [first, Nat.sub_add_cancel (first ▸ start)]
  by_cases inLast : divRoundUp d.size EROFS_BLOCK_SIZE = b + 1 <;>
    simp only [OndiskDir.blockFill, inLast, ↓reduceIte]

theorem entryName_last (block : d.HoldsBlock b o es) (written : WrittenBlock es) {j : Nat}
    (last : j + 1 = es.length) (room : nameOffset es j ≤ d.blockFill b) :
    d.entryName b j es.length = .ok (es[j].2.take (d.blockFill b - nameOffset es j)) := by
  have inside : nameOffset es j + (d.blockFill b - nameOffset es j) ≤ EROFS_BLOCK_SIZE := by
    have := d.blockFill_le b
    omega
  rw [block.entryName_last_eq written last, checkedSub_of_le room, Except.ok_bind,
    block.getSlice_pad written inside, Except.ok_bind]
  obtain rfl : j = es.length - 1 := by omega
  rw [padBlock_drop_last written.length_pos]
  exact congrArg Except.ok (take_nonzeroPrefixLength (written.nonzero _ (List.getElem_mem _)) _ _)

/-- A last name that starts past the fill underflows its length. -/
theorem entryName_underflow (block : d.HoldsBlock b o es) (written : WrittenBlock es) {j : Nat}
    (last : j + 1 = es.length) (beyond : d.blockFill b < nameOffset es j) :
    d.entryName b j es.length = .error .underflow := by
  rw [block.entryName_last_eq written last, checkedSub_of_lt beyond, Except.error_bind]

/-- A written block whose last name starts within its fill reads back as its view. -/
theorem readsBlock (block : d.HoldsBlock b o es) (written : WrittenBlock es)
    (room : nameOffset es (es.length - 1) ≤ d.blockFill b) :
    d.ReadsBlock b (blockView es (d.blockFill b)) := by
  have length : (blockView es (d.blockFill b)).length = es.length := List.length_mapIdx
  refine ⟨length ▸ block.entriesCount written, ?_⟩
  intro j lt
  have ltEs : j < es.length := length ▸ lt
  rw [length]
  simp only [blockView, List.getElem_mapIdx]
  refine ⟨⟨_, block.getEntry written ltEs, rfl⟩, ?_⟩
  split
  · next last =>
    obtain rfl : j = es.length - 1 := by omega
    exact block.entryName_last written last room
  · next notLast => exact block.entryName_of_lt written (by omega)

/-- A written block whose fill covers its bytes reads back whole. -/
theorem readsBlock_whole (block : d.HoldsBlock b o es) (written : WrittenBlock es)
    (whole : (blockBytes es (RAFS_V6_DIRENT_SIZE * es.length)).length ≤ d.blockFill b) :
    d.ReadsBlock b (wholeView es) := by
  rw [← blockView_of_le whole]
  exact block.readsBlock written ((nameOffset_le (Nat.sub_le _ _)).trans whole)

/-- A written block whose last name starts past its fill fails to list at that name. -/
theorem blockEntries_underflow (block : d.HoldsBlock b o es) (written : WrittenBlock es)
    (beyond : d.blockFill b < nameOffset es (es.length - 1)) :
    d.blockEntries b es.length (List.range es.length) = .error .underflow := by
  have pos := written.length_pos
  -- the entries before the last read back whole
  let view := (es.take (es.length - 1)).map fun e => (e.2, e.1.eNid)
  have length : view.length = es.length - 1 := by
    simp only [view, List.length_map, List.length_take]
    omega
  have short : view.length < es.length := by omega
  refine OndiskDir.blockEntries_range_of_error short ?reads ?entryOk ?fails
  case reads =>
    intro j lt
    have succ : j + 1 < es.length := by omega
    simp only [view, List.getElem_map, List.getElem_take]
    exact ⟨⟨_, block.getEntry written (by omega), rfl⟩, block.entryName_of_lt written succ⟩
  case entryOk => exact ⟨_, block.getEntry written short⟩
  case fails => exact block.entryName_underflow written (by omega) (length ▸ beyond)

end OndiskDir.HoldsBlock

/-! ## The blocks the writer packs -/

/-- The dirent the writer makes of an entry, with the entry's name; the name offset is set
when the block is written. -/
def direntOf (metaOffset metaAddr : Nat) (e : V6DirentEntry) : RafsV6Dirent × List UInt8 :=
  (⟨calculateNid (e.offset + metaOffset) metaAddr, 0, RafsV6Dirent.fileType e.mode⟩, e.name)

/-- The blocks the loop of `v6_dump_dir` fills, from a block `cur` that uses `used` bytes:
an entry that does not fit closes the block and opens the next. -/
def packBlocks (metaOffset metaAddr : Nat) :
    List V6DirentEntry → List (RafsV6Dirent × List UInt8) → Nat → List (List (RafsV6Dirent × List UInt8))
  | [], cur, _ => [cur]
  | e :: rest, cur, used =>
    let len := e.name.length + RAFS_V6_DIRENT_SIZE
    if used + len > EROFS_BLOCK_SIZE then
      cur :: packBlocks metaOffset metaAddr rest [direntOf metaOffset metaAddr e] len
    else packBlocks metaOffset metaAddr rest (cur ++ [direntOf metaOffset metaAddr e]) (used + len)

/-- The writes of blocks laid one after the other from `off` on. -/
def blockWrites : Nat → List (List (RafsV6Dirent × List UInt8)) → List (Nat × List UInt8)
  | _, [] => []
  | off, es :: rest =>
    (off, blockBytes es (RAFS_V6_DIRENT_SIZE * es.length)) :: blockWrites (off + EROFS_BLOCK_SIZE) rest

theorem blockWrites_append (off : Nat) (blocks more : List (List (RafsV6Dirent × List UInt8))) :
    blockWrites off (blocks ++ more) =
      blockWrites off blocks ++ blockWrites (off + EROFS_BLOCK_SIZE * blocks.length) more := by
  induction blocks generalizing off with
  | nil => simp [blockWrites]
  | cons es rest ih =>
    rw [List.cons_append, blockWrites, blockWrites, ih, List.length_cons, Nat.mul_succ, Nat.add_assoc,
      Nat.add_comm EROFS_BLOCK_SIZE, List.cons_append]

/-- The packed blocks hold the block being filled and then every entry, in order. -/
theorem packBlocks_flatten (metaOffset metaAddr : Nat) :
    ∀ (entries : List V6DirentEntry) (cur : List (RafsV6Dirent × List UInt8)) (used : Nat),
      (packBlocks metaOffset metaAddr entries cur used).flatten =
        cur ++ entries.map (direntOf metaOffset metaAddr)
  | [], cur, _ => by simp [packBlocks]
  | e :: rest, cur, used => by
    rw [packBlocks]
    split
    · rw [List.flatten_cons, packBlocks_flatten metaOffset metaAddr rest, List.map_cons]
      rfl
    · rw [packBlocks_flatten metaOffset metaAddr rest, List.map_cons, List.append_assoc]
      rfl

theorem packBlocks_ne_nil (metaOffset metaAddr : Nat) :
    ∀ (entries : List V6DirentEntry) (cur : List (RafsV6Dirent × List UInt8)) (used : Nat),
      packBlocks metaOffset metaAddr entries cur used ≠ []
  | [], _, _ => List.cons_ne_nil _ _
  | e :: rest, cur, used => by
    rw [packBlocks]
    split
    · exact List.cons_ne_nil _ _
    · exact packBlocks_ne_nil metaOffset metaAddr rest _ _

theorem length_blockWrites (off : Nat) (blocks : List (List (RafsV6Dirent × List UInt8))) :
    (blockWrites off blocks).length = blocks.length := by
  induction blocks generalizing off with
  | nil => rfl
  | cons es rest ih => rw [blockWrites, List.length_cons, ih, List.length_cons]

/-- The extent of blocks written one after the other: the blocks before the last and the
bytes of the last. -/
theorem writtenExtent_blockWrites (off : Nat) {blocks : List (List (RafsV6Dirent × List UInt8))}
    (pos : blocks ≠ []) :
    writtenExtent (blockWrites off blocks) = EROFS_BLOCK_SIZE * (blocks.length - 1) +
      (blockBytes (blocks.getLast pos) (RAFS_V6_DIRENT_SIZE * (blocks.getLast pos).length)).length := by
  conv_lhs => rw [← List.dropLast_append_getLast pos, blockWrites_append]
  rw [blockWrites, blockWrites, writtenExtent_append_tail, length_blockWrites, List.length_dropLast]

/-- The loop of `v6_dump_dir` writes the blocks it packs. From a state that wrote the blocks
`done` from `start` on and fills `st.dirents`, the loop's writes and the block it is left
with are the writes of `done` and of the blocks packed from `st.dirents`. -/
theorem dumpLoop_writes (metaOffset metaAddr start : Nat) :
    ∀ (entries : List V6DirentEntry) (st : DumpState) (done : List (List (RafsV6Dirent × List UInt8))),
      st.writes = blockWrites start done → st.direntOff = start + EROFS_BLOCK_SIZE * done.length →
      st.nameoff = RAFS_V6_DIRENT_SIZE * st.dirents.length →
      (dumpLoop metaOffset metaAddr entries st).writes ++
          [((dumpLoop metaOffset metaAddr entries st).direntOff,
            blockBytes (dumpLoop metaOffset metaAddr entries st).dirents
              (dumpLoop metaOffset metaAddr entries st).nameoff)] =
        blockWrites start (done ++ packBlocks metaOffset metaAddr entries st.dirents st.used)
  | [], st, done, writes, off, nameoff => by
    rw [dumpLoop, packBlocks, blockWrites_append, ← writes, ← off, nameoff]
    rfl
  | e :: rest, st, done, writes, off, nameoff => by
    rw [dumpLoop, packBlocks]
    split_ifs with full
    · -- the block is written out and the entry opens the next one
      have next := dumpLoop_writes metaOffset metaAddr start rest
        ⟨[direntOf metaOffset metaAddr e], RAFS_V6_DIRENT_SIZE, e.name.length + RAFS_V6_DIRENT_SIZE,
          st.direntOff + EROFS_BLOCK_SIZE, st.writes ++ [(st.direntOff, blockBytes st.dirents st.nameoff)]⟩
        (done ++ [st.dirents])
        (by rw [blockWrites_append, ← writes, ← off, nameoff]; rfl)
        (by rw [off, List.length_append, List.length_singleton, Nat.mul_succ, Nat.add_assoc])
        rfl
      rw [List.append_assoc, List.singleton_append] at next
      simp only [List.nil_append, Nat.zero_add]
      exact next
    · -- the entry joins the block being filled
      exact dumpLoop_writes metaOffset metaAddr start rest _ done writes off
        (by rw [List.length_append, List.length_singleton, Nat.mul_succ, ← nameoff])

/-- In the plain layout, `v6_dump_dir` writes the blocks it packs one after the other from
the directory's dirent offset, the last one where the loop left it. -/
theorem v6DumpDir_plain {node : V6DirNode} {metaAddr metaOffset : Nat}
    (plain : node.v6Datalayout = EROFS_INODE_FLAT_PLAIN) (nonempty : node.v6Dirents ≠ []) :
    node.v6DumpDir metaAddr metaOffset =
      .ok (node.v6DirentsOffset / EROFS_BLOCK_SIZE,
        blockWrites node.v6DirentsOffset (packBlocks metaOffset metaAddr node.v6Dirents [] 0)) := by
  have used := dumpLoop_used_pos metaOffset metaAddr node.v6Dirents ⟨[], 0, 0, node.v6DirentsOffset, []⟩
    (.inr nonempty)
  have writes := dumpLoop_writes metaOffset metaAddr node.v6DirentsOffset node.v6Dirents
    ⟨[], 0, 0, node.v6DirentsOffset, []⟩ [] rfl rfl rfl
  have notInline : node.v6Datalayout ≠ EROFS_INODE_FLAT_INLINE := by
    rw [plain]
    decide
  simp only [V6DirNode.v6DumpDir, if_pos used, if_neg notInline, if_pos plain]
  rw [writes]
  rfl

/-! ## The bootstrap after the writes -/

section Padded

variable {blocks : List (List (RafsV6Dirent × List UInt8))}
  (fits : ∀ es ∈ blocks, (blockBytes es (RAFS_V6_DIRENT_SIZE * es.length)).length ≤ EROFS_BLOCK_SIZE)
include fits

theorem sum_length_padBlock :
    (blocks.map fun es => (padBlock es).length).sum = EROFS_BLOCK_SIZE * blocks.length := by
  rw [List.map_congr_left (fun es mem => length_padBlock (fits es mem)), List.map_const',
    List.sum_replicate, smul_eq_mul, Nat.mul_comm]

/-- Block `i` stands where the blocks before it end. -/
theorem readRange_padBlocks (pre rest : List UInt8) {i : Nat} (lt : i < blocks.length) :
    Store.readRange (pre ++ (blocks.map padBlock).flatten ++ rest) (pre.length + EROFS_BLOCK_SIZE * i)
      EROFS_BLOCK_SIZE = some (padBlock blocks[i]) := by
  have fitsBefore : ∀ es ∈ blocks.take i, _ := fun es mem => fits es (List.mem_of_mem_take mem)
  have part := Store.take_drop_flatten_map padBlock lt
  rw [sum_length_padBlock fitsBefore, List.length_take, Nat.min_eq_left lt.le,
    length_padBlock (fits _ (List.getElem_mem lt))] at part
  have total : (blocks.map padBlock).flatten.length = EROFS_BLOCK_SIZE * blocks.length := by
    rw [List.length_flatten, List.map_map]
    exact sum_length_padBlock fits
  have inside : EROFS_BLOCK_SIZE * i + EROFS_BLOCK_SIZE ≤ (blocks.map padBlock).flatten.length := by
    rw [total, ← Nat.mul_succ]
    exact Nat.mul_le_mul_left _ lt
  unfold Store.readRange
  rw [if_pos (by simp only [List.length_append]; omega), List.append_assoc, List.drop_length_add_append,
    List.drop_append_of_le_length (by omega),
    List.take_append_of_le_length (by rw [List.length_drop]; omega), part]

omit fits in
/-- A block written at the end of `pre`, into zeros, stands there padded to a block. -/
theorem applyWrite_block {es : List (RafsV6Dirent × List UInt8)}
    (fitsEs : (blockBytes es (RAFS_V6_DIRENT_SIZE * es.length)).length ≤ EROFS_BLOCK_SIZE)
    (pre : List UInt8) {k : Nat} (room : EROFS_BLOCK_SIZE ≤ k) :
    applyWrite (pre ++ List.replicate k 0) (pre.length, blockBytes es (RAFS_V6_DIRENT_SIZE * es.length)) =
      pre ++ padBlock es ++ List.replicate (k - EROFS_BLOCK_SIZE) 0 := by
  -- the zeros after the block's bytes are its padding and the zeros after the block
  have zeros : k - (blockBytes es (RAFS_V6_DIRENT_SIZE * es.length)).length =
      (EROFS_BLOCK_SIZE - (blockBytes es (RAFS_V6_DIRENT_SIZE * es.length)).length) +
        (k - EROFS_BLOCK_SIZE) := by
    omega
  rw [applyWrite, List.take_left' rfl, List.length_append, Nat.sub_eq_zero_of_le (Nat.le_add_right _ _),
    List.replicate_zero, List.append_nil, List.drop_length_add_append, List.drop_replicate, padBlock]
  dsimp only
  rw [zeros, List.replicate_add]
  simp only [List.append_assoc]

/-- Blocks written one after the other into zeros stand padded one after the other. -/
theorem foldl_blockWrites :
    ∀ (pre : List UInt8) (k : Nat), EROFS_BLOCK_SIZE * blocks.length ≤ k →
      (blockWrites pre.length blocks).foldl applyWrite (pre ++ List.replicate k 0) =
        pre ++ (blocks.map padBlock).flatten ++ List.replicate (k - EROFS_BLOCK_SIZE * blocks.length) 0 := by
  induction blocks with
  | nil =>
    intro pre k _
    simp [blockWrites]
  | cons es rest ih =>
    intro pre k room
    have fitsEs := fits es List.mem_cons_self
    rw [List.length_cons, Nat.mul_succ] at room
    have later := ih (fun es' mem => fits es' (List.mem_cons_of_mem es mem)) (pre ++ padBlock es)
      (k - EROFS_BLOCK_SIZE) (by omega)
    rw [List.length_append, length_padBlock fitsEs] at later
    rw [blockWrites, List.foldl_cons, applyWrite_block fitsEs pre (by omega), later, List.map_cons,
      List.flatten_cons, List.append_assoc pre, List.length_cons, Nat.sub_sub, Nat.mul_succ,
      Nat.add_comm EROFS_BLOCK_SIZE]

end Padded

/-! ## A directory dumped in the plain layout -/

/-- Every block the loop packs from a block that fits is not empty and fits, when each entry
fits a block on its own: an entry that closes a block opens the next. -/
theorem packBlocks_fit (metaOffset metaAddr : Nat) :
    ∀ (entries : List V6DirentEntry) (cur : List (RafsV6Dirent × List UInt8)) (used : Nat),
      (∀ e ∈ entries, e.name.length + RAFS_V6_DIRENT_SIZE ≤ EROFS_BLOCK_SIZE) →
      used = (cur.map fun d => d.2.length + RAFS_V6_DIRENT_SIZE).sum → used ≤ EROFS_BLOCK_SIZE →
      cur ≠ [] ∨ entries ≠ [] →
      ∀ es ∈ packBlocks metaOffset metaAddr entries cur used,
        es ≠ [] ∧ (es.map fun d => d.2.length + RAFS_V6_DIRENT_SIZE).sum ≤ EROFS_BLOCK_SIZE
  | [], cur, used, _, usedEq, fits, nonempty => by
    intro es mem
    rw [packBlocks, List.mem_singleton] at mem
    subst mem
    exact ⟨nonempty.resolve_right (fun ne => ne rfl), usedEq ▸ fits⟩
  | e :: rest, cur, used, short, usedEq, fits, _ => by
    have shortE := short e List.mem_cons_self
    have shortRest : ∀ e' ∈ rest, _ := fun e' mem => short e' (List.mem_cons_of_mem e mem)
    rw [packBlocks]
    split
    · next full =>
      intro es mem
      rcases List.mem_cons.mp mem with rfl | later
      · -- the block it closes is not empty: on its own the entry would have fit
        refine ⟨?_, usedEq ▸ fits⟩
        rintro rfl
        rw [List.map_nil, List.sum_nil] at usedEq
        omega
      · exact packBlocks_fit metaOffset metaAddr rest _ _ shortRest
          (by simp [direntOf]) shortE (.inl (List.cons_ne_nil _ _)) es later
    · next fitting =>
      exact packBlocks_fit metaOffset metaAddr rest _ _ shortRest
        (by rw [List.map_append, List.sum_append, ← usedEq]; simp [direntOf]) (by omega)
        (.inl (by simp))

/-- The reader's data block offsets of a directory in the plain layout: block `b` of the
data that starts at block `d.union`. -/
theorem OndiskDir.dataBlockOffset_of_plain {d : OndiskDir}
    (format : d.format = EROFS_INODE_FLAT_PLAIN <<< EROFS_I_VERSION_BITS) (b : Nat) :
    d.dataBlockOffset b = .ok (d.union * EROFS_BLOCK_SIZE + b * EROFS_BLOCK_SIZE) := by
  rw [OndiskDir.dataBlockOffset, format]
  rfl

/-- What the reader needs of a directory the builder dumps in the plain layout: its dirents
start on a block, it has at least one, each fits a block, each nid fits its field and no
name has a zero byte. -/
structure PlainDir (node : V6DirNode) (metaAddr metaOffset : Nat) : Prop where
  plain : node.v6Datalayout = EROFS_INODE_FLAT_PLAIN
  aligned : node.v6DirentsOffset % EROFS_BLOCK_SIZE = 0
  nonempty : node.v6Dirents ≠ []
  short : ∀ e ∈ node.v6Dirents, e.name.length + RAFS_V6_DIRENT_SIZE ≤ EROFS_BLOCK_SIZE
  nid_lt : ∀ e ∈ node.v6Dirents, calculateNid (e.offset + metaOffset) metaAddr < 2 ^ 64
  nonzero : ∀ e ∈ node.v6Dirents, (0 : UInt8) ∉ e.name

/-- The blocks `v6_dump_dir` packs the dirents of a directory into. -/
def V6DirNode.v6Blocks (node : V6DirNode) (metaAddr metaOffset : Nat) :
    List (List (RafsV6Dirent × List UInt8)) :=
  packBlocks metaOffset metaAddr node.v6Dirents [] 0

theorem v6Dirents_ne_nil (nodeOffset parentOffset : Nat) (children : List V6DirentEntry) :
    v6Dirents nodeOffset parentOffset children ≠ [] :=
  List.ne_nil_of_length_pos (by rw [v6Dirents, List.length_insertionSort, List.length_cons]; omega)

theorem V6DirNode.v6Blocks_ne_nil (node : V6DirNode) (metaAddr metaOffset : Nat) :
    node.v6Blocks metaAddr metaOffset ≠ [] :=
  packBlocks_ne_nil _ _ _ _ _

namespace PlainDir

variable {node : V6DirNode} {metaAddr metaOffset : Nat}

/-- Each packed block is one the reader can read. -/
theorem written (dir : PlainDir node metaAddr metaOffset) {es : List (RafsV6Dirent × List UInt8)}
    (mem : es ∈ node.v6Blocks metaAddr metaOffset) : WrittenBlock es := by
  obtain ⟨nonempty, fits⟩ := packBlocks_fit metaOffset metaAddr node.v6Dirents [] 0 dir.short rfl
    (Nat.zero_le _) (.inr dir.nonempty) es mem
  -- each entry of a block is the dirent of an entry of the directory
  have origin : ∀ x ∈ es, ∃ e ∈ node.v6Dirents, direntOf metaOffset metaAddr e = x := by
    intro x inEs
    have inAll : x ∈ (node.v6Blocks metaAddr metaOffset).flatten := List.mem_flatten.mpr ⟨es, mem, inEs⟩
    rw [V6DirNode.v6Blocks, packBlocks_flatten, List.nil_append, List.mem_map] at inAll
    exact inAll
  refine ⟨nonempty, blockBytes_length es _ ▸ fits, ?_, ?_⟩
  · intro x inEs
    obtain ⟨e, inDir, rfl⟩ := origin x inEs
    exact dir.nid_lt e inDir
  · intro x inEs
    obtain ⟨e, inDir, rfl⟩ := origin x inEs
    exact dir.nonzero e inDir

/-- Dumped into `m` zeroed bytes that have room for its blocks, a directory in the plain
layout holds block `i` of its dirents where the reader looks for it. -/
theorem holdsBlock (dir : PlainDir node metaAddr metaOffset) {dSize u m : Nat}
    {writes : List (Nat × List UInt8)} (dumped : node.v6DumpDir metaAddr metaOffset = .ok (u, writes))
    (room : node.v6DirentsOffset + EROFS_BLOCK_SIZE * (node.v6Blocks metaAddr metaOffset).length ≤ m)
    {i : Nat} (lt : i < (node.v6Blocks metaAddr metaOffset).length) :
    (OndiskDir.ofDump node dSize u writes (List.replicate m 0)).HoldsBlock i
      (node.v6DirentsOffset + EROFS_BLOCK_SIZE * i) (node.v6Blocks metaAddr metaOffset)[i] := by
  rw [v6DumpDir_plain dir.plain dir.nonempty] at dumped
  cases dumped
  have fits : ∀ es ∈ node.v6Blocks metaAddr metaOffset, _ := fun es mem => (dir.written mem).fits
  -- the zeros before the dirents stay, the blocks stand padded after them
  have base : List.replicate m (0 : UInt8) =
      List.replicate node.v6DirentsOffset 0 ++ List.replicate (m - node.v6DirentsOffset) 0 := by
    rw [← List.replicate_add, Nat.add_sub_cancel' (by omega)]
  have map := foldl_blockWrites fits (List.replicate node.v6DirentsOffset 0)
    (m - node.v6DirentsOffset) (by omega)
  rw [List.length_replicate, ← base] at map
  have block := readRange_padBlocks fits (List.replicate node.v6DirentsOffset 0)
    (List.replicate (m - node.v6DirentsOffset - EROFS_BLOCK_SIZE * (node.v6Blocks metaAddr metaOffset).length) 0) lt
  rw [List.length_replicate] at block
  constructor
  · rw [OndiskDir.dataBlockOffset_of_plain (by rw [OndiskDir.ofDump, dir.plain])]
    show Except.ok (node.v6DirentsOffset / EROFS_BLOCK_SIZE * EROFS_BLOCK_SIZE + i * EROFS_BLOCK_SIZE) = _
    rw [Nat.div_mul_cancel (Nat.dvd_of_mod_eq_zero dir.aligned), Nat.mul_comm i]
  · show Store.readRange ((blockWrites _ (node.v6Blocks metaAddr metaOffset)).foldl applyWrite
      (List.replicate m 0)) _ _ = _
    rw [map, block]

/-- Block `i` of a dumped directory reads back whole when the reader's fill covers it. -/
theorem readsBlock_whole (dir : PlainDir node metaAddr metaOffset) {dSize u m : Nat}
    {writes : List (Nat × List UInt8)} (dumped : node.v6DumpDir metaAddr metaOffset = .ok (u, writes))
    (room : node.v6DirentsOffset + EROFS_BLOCK_SIZE * (node.v6Blocks metaAddr metaOffset).length ≤ m)
    {i : Nat} (lt : i < (node.v6Blocks metaAddr metaOffset).length)
    (whole : (blockBytes (node.v6Blocks metaAddr metaOffset)[i]
        (RAFS_V6_DIRENT_SIZE * (node.v6Blocks metaAddr metaOffset)[i].length)).length ≤
      (OndiskDir.ofDump node dSize u writes (List.replicate m 0)).blockFill i) :
    (OndiskDir.ofDump node dSize u writes (List.replicate m 0)).ReadsBlock i
      (wholeView (node.v6Blocks metaAddr metaOffset)[i]) :=
  (dir.holdsBlock dumped room lt).readsBlock_whole (dir.written (List.getElem_mem lt)) whole

/-- The whole views of the blocks list the directory's entries with the nids the builder
gives them. -/
theorem flatten_wholeView :
    ((node.v6Blocks metaAddr metaOffset).map wholeView).flatten =
      node.v6Dirents.map fun e => (e.name, calculateNid (e.offset + metaOffset) metaAddr) := by
  have view : (wholeView : _ → List (List UInt8 × Nat)) = List.map fun e => (e.2, e.1.eNid) := rfl
  rw [view, ← List.map_flatten, V6DirNode.v6Blocks, packBlocks_flatten, List.nil_append, List.map_map]
  rfl

/-- What `v6_dump_dir` writes of a directory in the plain layout: its packed blocks, one after
the other from the dirent offset. -/
theorem writes_eq (dir : PlainDir node metaAddr metaOffset) {u : Nat} {writes : List (Nat × List UInt8)}
    (dumped : node.v6DumpDir metaAddr metaOffset = .ok (u, writes)) :
    writes = blockWrites node.v6DirentsOffset (node.v6Blocks metaAddr metaOffset) := by
  rw [v6DumpDir_plain dir.plain dir.nonempty] at dumped
  cases dumped
  rfl

section Extent

variable (dir : PlainDir node metaAddr metaOffset) {u m : Nat} {writes : List (Nat × List UInt8)}
  (dumped : node.v6DumpDir metaAddr metaOffset = .ok (u, writes))
  (room : node.v6DirentsOffset + EROFS_BLOCK_SIZE * (node.v6Blocks metaAddr metaOffset).length ≤ m)
include dir dumped room

/-- A directory dumped in the plain layout reads back as written when its inode size is the
written extent and its last block is not full: the walk lists every entry, in the order of
the dirents, with the nid the builder gave it. -/
theorem walkChildrenInodes_of_dumped (notFull : writtenExtent writes % EROFS_BLOCK_SIZE ≠ 0) :
    (OndiskDir.ofDump node (writtenExtent writes) u writes (List.replicate m 0)).walkChildrenInodes =
      .ok (node.v6Dirents.map fun e => (e.name, calculateNid (e.offset + metaOffset) metaAddr)) := by
  have pos : node.v6Blocks metaAddr metaOffset ≠ [] := packBlocks_ne_nil _ _ _ _ _
  have extent := writtenExtent_blockWrites node.v6DirentsOffset pos
  rw [← dir.writes_eq dumped] at extent
  set blocks := node.v6Blocks metaAddr metaOffset
  have lastWritten := dir.written (List.getLast_mem pos)
  set len := (blockBytes (blocks.getLast pos) (RAFS_V6_DIRENT_SIZE * (blocks.getLast pos).length)).length
  -- the last block holds its first dirent and is not full, so it ends the size
  have lastLt : len < EROFS_BLOCK_SIZE := by
    rw [extent, Nat.mul_add_mod] at notFull
    refine Nat.lt_of_le_of_ne lastWritten.fits fun full => notFull ?_
    rw [full, Nat.mod_self]
  have count := List.length_pos_iff.mpr pos
  set d := OndiskDir.ofDump node (writtenExtent writes) u writes (List.replicate m 0)
  have size : d.size = EROFS_BLOCK_SIZE * (blocks.length - 1) + len := extent
  have nonzero : d.size ≠ 0 := by
    have := lastWritten.bytes_pos
    omega
  have covers : (blocks.map wholeView).length = d.blocksCount := by
    rw [List.length_map, OndiskDir.blocksCount_of_size size lastWritten.bytes_pos lastLt.le]
    omega
  refine (d.walkChildrenInodes_of_readsBlock nonzero covers ?reads).trans (congrArg _ flatten_wholeView)
  intro i lt
  rw [List.length_map] at lt
  rw [List.getElem_map]
  refine dir.readsBlock_whole dumped room lt ?whole
  -- the last block ends at the size, the others are full blocks
  rw [OndiskDir.blockFill_of_size size lastWritten.bytes_pos lastLt.le]
  split
  · next isLast =>
    subst isLast
    rw [Nat.mod_eq_of_lt lastLt, ← List.getLast_eq_getElem pos]
  · exact (dir.written (List.getElem_mem lt)).fits

/-- With the inode size of the written extent, a directory whose last block is full fails to
list: the reader gives that block a fill of nothing, and the length of its last name
underflows. -/
theorem walkChildrenInodes_of_full (full : writtenExtent writes % EROFS_BLOCK_SIZE = 0) :
    (OndiskDir.ofDump node (writtenExtent writes) u writes (List.replicate m 0)).walkChildrenInodes =
      .error .underflow := by
  have pos : node.v6Blocks metaAddr metaOffset ≠ [] := packBlocks_ne_nil _ _ _ _ _
  have extent := writtenExtent_blockWrites node.v6DirentsOffset pos
  rw [← dir.writes_eq dumped] at extent
  set blocks := node.v6Blocks metaAddr metaOffset
  have lastWritten := dir.written (List.getLast_mem pos)
  set len := (blockBytes (blocks.getLast pos) (RAFS_V6_DIRENT_SIZE * (blocks.getLast pos).length)).length
  have count := List.length_pos_iff.mpr pos
  set d := OndiskDir.ofDump node (writtenExtent writes) u writes (List.replicate m 0)
  have size : d.size = EROFS_BLOCK_SIZE * (blocks.length - 1) + len := extent
  have nonzero : d.size ≠ 0 := by
    have := lastWritten.bytes_pos
    omega
  have fill := OndiskDir.blockFill_of_size size lastWritten.bytes_pos lastWritten.fits
  -- the last block is full, so the size leaves nothing of it
  have lastFull : len % EROFS_BLOCK_SIZE = 0 := by
    rw [extent, Nat.mul_add_mod] at full
    exact full
  -- the blocks before the last are full blocks and read back whole
  let views := (blocks.take (blocks.length - 1)).map wholeView
  have length : views.length = blocks.length - 1 := by
    rw [List.length_map, List.length_take, Nat.min_eq_left (Nat.sub_le _ _)]
  have within : views.length < d.blocksCount := by
    rw [length, OndiskDir.blocksCount_of_size size lastWritten.bytes_pos lastWritten.fits]
    omega
  have lastIdx : blocks.length - 1 < blocks.length := Nat.sub_lt count Nat.one_pos
  have block : d.HoldsBlock (blocks.length - 1) _ blocks[blocks.length - 1] :=
    dir.holdsBlock dumped room lastIdx
  have written := dir.written (List.getElem_mem lastIdx)
  have counted : d.entriesCount views.length = .ok blocks[blocks.length - 1].length := by
    rw [length]
    exact block.entriesCount written
  refine d.walkChildrenInodes_of_error nonzero within ?reads counted ?fails
  case reads =>
    intro i lt
    have inBlocks : i < blocks.length := by omega
    simp only [views, List.getElem_map, List.getElem_take]
    refine dir.readsBlock_whole dumped room inBlocks ?_
    rw [fill, if_neg (by omega)]
    exact (dir.written (List.getElem_mem inBlocks)).fits
  case fails =>
    rw [length]
    refine block.blockEntries_underflow written ?_
    rw [fill, if_pos rfl, lastFull]
    exact Nat.lt_of_lt_of_le (Nat.mul_pos (by decide) written.length_pos) (nameOffset_mono _ (Nat.zero_le _))

end Extent

end PlainDir

/-! ## A directory the size loop gets wrong -/

/-- Sixteen children whose 245-byte names sort before `"."`, and fifteen whose 243-byte
names sort after `".."`. -/
def lostBlockChild (i : Nat) : V6DirentEntry :=
  if i < 16 then ⟨0x1000 + 0x20 * i, 0x2d :: UInt8.ofNat (0x41 + i) :: List.replicate 243 0x61, 0o100644⟩
  else ⟨0x2000 + 0x20 * i, 0x7a :: UInt8.ofNat (0x41 + i) :: List.replicate 241 0x62, 0o100644⟩

def lostBlockChildren : List V6DirentEntry := (List.range 31).map lostBlockChild

/-- The directory node, its dirents laid out in plain blocks from 4 KiB on. Plain is the
builder's choice: `v6_set_offset_with_tail` inlines the tail only when the inode and the tail
fit in a block, and here the 32-byte compact inode and the tail of the 8178 bytes the size loop
counts (`lostBlock_computed`), 4082 bytes, take 4114. -/
def lostBlockNode : V6DirNode :=
  ⟨0x400, 0x20, 0x1000, EROFS_INODE_FLAT_PLAIN, v6Dirents 0x400 0x400 lostBlockChildren⟩

/-- The directory as the reader sees it after the builder wrote it. -/
def lostBlockDir : OndiskDir :=
  match lostBlockNode.v6DumpDir 0 0 with
  | .ok (u, writes) =>
    OndiskDir.ofDump lostBlockNode (v6DirDSize (lostBlockChildren.map (·.name))) u writes
      (List.replicate 0x4000 0)
  | .error _ => ⟨0, 0, 0, 0, 0, []⟩

/-- A directory of fifteen children with 255-byte names and one with a 52-byte name,
whose dirents fill one block exactly. -/
def fullBlockChild (i : Nat) : V6DirentEntry :=
  if i < 15 then ⟨0x1000 + 0x20 * i, 0x7a :: UInt8.ofNat (0x41 + i) :: List.replicate 253 0x62, 0o100644⟩
  else ⟨0x3000, 0x7a :: 0x7a :: List.replicate 50 0x63, 0o100644⟩

def fullBlockChildren : List V6DirentEntry := (List.range 16).map fullBlockChild

/-- Its dirents fill one block, with no tail: the builder lays it out plain. -/
def fullBlockNode : V6DirNode :=
  ⟨0x400, 0x20, 0x1000, EROFS_INODE_FLAT_PLAIN, v6Dirents 0x400 0x400 fullBlockChildren⟩

def fullBlockDir : OndiskDir :=
  match fullBlockNode.v6DumpDir 0 0 with
  | .ok (u, writes) =>
    OndiskDir.ofDump fullBlockNode (v6DirDSize (fullBlockChildren.map (·.name))) u writes
      (List.replicate 0x3000 0)
  | .error _ => ⟨0, 0, 0, 0, 0, []⟩

/-- What the reader lists of the lost-block directory: its first two blocks, whole. -/
def lostBlockViews : List (List (List UInt8 × Nat)) :=
  ((lostBlockNode.v6Blocks 0 0).take 2).map wholeView

/-- What the two directories come to, computed once: the size loop's count, the bytes each
block the writer packs takes, what makes the nodes readable, and the names the reader lists.
Each fact is its own kernel evaluation, in one declaration, so that the evaluations run one
after the other. -/
theorem lostBlock_computed :
    v6DirDSize (lostBlockChildren.map (·.name)) = 8178 ∧
    (lostBlockNode.v6Blocks 0 0).map (fun es => (es.map fun d => d.2.length + RAFS_V6_DIRENT_SIZE).sum) =
      [3855, 3854, 255] ∧
    (∀ e ∈ lostBlockNode.v6Dirents, e.name.length + RAFS_V6_DIRENT_SIZE ≤ EROFS_BLOCK_SIZE) ∧
    (∀ e ∈ lostBlockNode.v6Dirents, calculateNid (e.offset + 0) 0 < 2 ^ 64) ∧
    (∀ e ∈ lostBlockNode.v6Dirents, (0 : UInt8) ∉ e.name) ∧
    (∀ view ∈ lostBlockViews, view ≠ []) ∧
    lostBlockViews.flatten.Pairwise (fun a b => a.1 < b.1) ∧
    lostBlockViews.flatten.length = 32 ∧
    (∀ x ∈ lostBlockViews.flatten, x.1 ≠ (lostBlockChild 30).name) ∧
    (∀ view ∈ lostBlockViews.head?,
      firstName view ≤ (lostBlockChild 30).name ∧ ([0x21] : List UInt8) < firstName view) := by
  refine ⟨?_, ?_, ?_, ?_, ?_, ?_, ?_, ?_, ?_, ?_⟩
  · decide +kernel
  · decide +kernel
  · decide +kernel
  · decide +kernel
  · decide +kernel
  · decide +kernel
  · decide +kernel
  · decide +kernel
  · decide +kernel
  · decide +kernel

theorem fullBlock_computed :
    v6DirDSize (fullBlockChildren.map (·.name)) = 4096 ∧
    (fullBlockNode.v6Blocks 0 0).map (fun es => (es.map fun d => d.2.length + RAFS_V6_DIRENT_SIZE).sum) =
      [4096] ∧
    (∀ e ∈ fullBlockNode.v6Dirents, e.name.length + RAFS_V6_DIRENT_SIZE ≤ EROFS_BLOCK_SIZE) ∧
    (∀ e ∈ fullBlockNode.v6Dirents, calculateNid (e.offset + 0) 0 < 2 ^ 64) ∧
    (∀ e ∈ fullBlockNode.v6Dirents, (0 : UInt8) ∉ e.name) := by
  refine ⟨?_, ?_, ?_, ?_, ?_⟩
  · decide +kernel
  · decide +kernel
  · decide +kernel
  · decide +kernel
  · decide +kernel

/-- The bytes a packed block takes, read off the list of what each block takes. -/
theorem blockBytes_of_sizes {blocks : List (List (RafsV6Dirent × List UInt8))} {sizes : List Nat}
    (sized : blocks.map (fun es => (es.map fun d => d.2.length + RAFS_V6_DIRENT_SIZE).sum) = sizes)
    {i : Nat} (lt : i < blocks.length) :
    (blockBytes blocks[i] (RAFS_V6_DIRENT_SIZE * blocks[i].length)).length = sizes.getD i 0 := by
  rw [blockBytes_length, ← sized, List.getD_eq_getElem _ _ (by rw [List.length_map]; exact lt),
    List.getElem_map]

theorem lostBlockNode_plain : PlainDir lostBlockNode 0 0 :=
  ⟨rfl, rfl, v6Dirents_ne_nil _ _ _, lostBlock_computed.2.2.1, lostBlock_computed.2.2.2.1,
    lostBlock_computed.2.2.2.2.1⟩

theorem lostBlockNode_dumped :
    lostBlockNode.v6DumpDir 0 0 = .ok (1, blockWrites 0x1000 (lostBlockNode.v6Blocks 0 0)) :=
  v6DumpDir_plain lostBlockNode_plain.plain lostBlockNode_plain.nonempty

theorem lostBlockDir_eq :
    lostBlockDir = OndiskDir.ofDump lostBlockNode (v6DirDSize (lostBlockChildren.map (·.name))) 1
      (blockWrites 0x1000 (lostBlockNode.v6Blocks 0 0)) (List.replicate 0x4000 0) := by
  unfold lostBlockDir
  rw [lostBlockNode_dumped]

/-- The size the builder gives the directory: one full block and 4082 bytes of a second. -/
theorem lostBlockDir_size : lostBlockDir.size = EROFS_BLOCK_SIZE * 1 + 4082 := by
  rw [lostBlockDir_eq]
  exact lostBlock_computed.1.trans (by decide)

/-- The writer packs the directory into three blocks. -/
theorem lostBlockNode_blocks : (lostBlockNode.v6Blocks 0 0).length = 3 := by
  rw [← List.length_map, lostBlock_computed.2.1]
  rfl

theorem lostBlockDir_nonzero : lostBlockDir.size ≠ 0 := by
  rw [lostBlockDir_size]
  decide

/-- The reader's views are of the first two of the three blocks. -/
theorem lostBlockViews_length : lostBlockViews.length = 2 := by
  simp only [lostBlockViews, List.length_map, List.length_take, lostBlockNode_blocks]
  rfl

/-- The reader walks two blocks of the directory. -/
theorem lostBlockViews_covers : lostBlockViews.length = lostBlockDir.blocksCount := by
  rw [OndiskDir.blocksCount_of_size lostBlockDir_size (by decide) (by decide), lostBlockViews_length]

/-- The writer writes 8447 bytes: two blocks and 255 bytes of a third. -/
theorem lostBlockNode_extent :
    writtenExtent (blockWrites 0x1000 (lostBlockNode.v6Blocks 0 0)) = 8447 := by
  have inBlocks : 3 - 1 < (lostBlockNode.v6Blocks 0 0).length := by
    rw [lostBlockNode_blocks]
    decide
  rw [writtenExtent_blockWrites _ (V6DirNode.v6Blocks_ne_nil _ _ _), List.getLast_eq_getElem]
  simp only [lostBlockNode_blocks]
  rw [blockBytes_of_sizes lostBlock_computed.2.1 inBlocks]
  rfl

/-- With the extent the writer wrote as its size, the directory reads back whole. -/
theorem walkChildrenInodes_lostBlock_extent :
    (OndiskDir.ofDump lostBlockNode (writtenExtent (blockWrites 0x1000 (lostBlockNode.v6Blocks 0 0)))
        1 (blockWrites 0x1000 (lostBlockNode.v6Blocks 0 0)) (List.replicate 0x4000 0)).walkChildrenInodes =
      .ok (lostBlockNode.v6Dirents.map fun e => (e.name, calculateNid (e.offset + 0) 0)) :=
  lostBlockNode_plain.walkChildrenInodes_of_dumped lostBlockNode_dumped
    (by rw [lostBlockNode_blocks]; decide) (by rw [lostBlockNode_extent]; decide)

theorem lostBlockDir_reads :
    ∀ b (lt : b < lostBlockViews.length), lostBlockDir.ReadsBlock b lostBlockViews[b] := by
  intro b lt
  have early : b < 2 := lostBlockViews_length ▸ lt
  have inBlocks : b < (lostBlockNode.v6Blocks 0 0).length := by
    rw [lostBlockNode_blocks]
    omega
  have fill := OndiskDir.blockFill_of_size lostBlockDir_size (by decide) (by decide)
  simp only [lostBlockViews, List.getElem_map, List.getElem_take]
  rw [lostBlockDir_eq] at fill ⊢
  refine lostBlockNode_plain.readsBlock_whole lostBlockNode_dumped
    (by rw [lostBlockNode_blocks]; decide) inBlocks ?_
  -- block 0 is full, block 1 ends within the size
  rw [fill, blockBytes_of_sizes lostBlock_computed.2.1 inBlocks]
  rcases (by omega : b = 0 ∨ b = 1) with rfl | rfl <;> decide

theorem lostBlockViews_ascending : Ascending lostBlockViews :=
  ⟨lostBlock_computed.2.2.2.2.2.1, lostBlock_computed.2.2.2.2.2.2.1⟩

theorem lostBlockViews_first (pos : 0 < lostBlockViews.length) :
    firstName lostBlockViews[0] ≤ (lostBlockChild 30).name ∧
      ([0x21] : List UInt8) < firstName lostBlockViews[0] :=
  lostBlock_computed.2.2.2.2.2.2.2.2.2 _ (by rw [List.head?_eq_getElem?, List.getElem?_eq_getElem pos]; rfl)

/-- A child in the blocks the builder's size covers is found, with the nid the builder gave
it. -/
theorem getChildByName_lostBlock_first :
    lostBlockDir.getChildByName (lostBlockChild 0).name = .ok 0x80 :=
  OndiskDir.getChildByName_of_mem lostBlockDir_nonzero lostBlockViews_covers lostBlockDir_reads
    lostBlockViews_ascending (by decide +kernel)

theorem fullBlockNode_plain : PlainDir fullBlockNode 0 0 :=
  ⟨rfl, rfl, v6Dirents_ne_nil _ _ _, fullBlock_computed.2.2.1, fullBlock_computed.2.2.2.1,
    fullBlock_computed.2.2.2.2⟩

theorem fullBlockNode_dumped :
    fullBlockNode.v6DumpDir 0 0 = .ok (1, blockWrites 0x1000 (fullBlockNode.v6Blocks 0 0)) :=
  v6DumpDir_plain fullBlockNode_plain.plain fullBlockNode_plain.nonempty

theorem fullBlockNode_blocks : (fullBlockNode.v6Blocks 0 0).length = 1 := by
  rw [← List.length_map, fullBlock_computed.2.1]
  rfl

/-- The writer fills one block exactly. -/
theorem fullBlockNode_extent :
    writtenExtent (blockWrites 0x1000 (fullBlockNode.v6Blocks 0 0)) = EROFS_BLOCK_SIZE := by
  have pos : 0 < (fullBlockNode.v6Blocks 0 0).length := by
    rw [fullBlockNode_blocks]
    decide
  rw [writtenExtent_blockWrites _ (V6DirNode.v6Blocks_ne_nil _ _ _), List.getLast_eq_getElem,
    blockBytes_of_sizes fullBlock_computed.2.1 (Nat.sub_lt pos Nat.one_pos)]
  simp only [fullBlockNode_blocks]
  rfl

/-- The builder's size of the directory is the extent it writes. -/
theorem fullBlockDir_eq :
    fullBlockDir = OndiskDir.ofDump fullBlockNode (writtenExtent (blockWrites 0x1000 (fullBlockNode.v6Blocks 0 0)))
      1 (blockWrites 0x1000 (fullBlockNode.v6Blocks 0 0)) (List.replicate 0x3000 0) := by
  have size : v6DirDSize (fullBlockChildren.map (·.name)) =
      writtenExtent (blockWrites 0x1000 (fullBlockNode.v6Blocks 0 0)) := by
    rw [fullBlockNode_extent]
    exact fullBlock_computed.1
  unfold fullBlockDir
  rw [fullBlockNode_dumped, size]

/-- The size loop counts two blocks where the writer wrote three, so the reader loses
the last child: it is not listed and not found by name. A name below all of the first
block's names underflows the block search, and a directory whose dirents fill its last
block exactly underflows the name length of its last entry. -/
theorem v6Dir_size_and_read_back_fail :
    v6DirDSize (lostBlockChildren.map (·.name)) = 8178 ∧
    (lostBlockNode.v6DumpDir 0 0).map (fun r => writtenExtent r.2) = .ok 8447 ∧
    lostBlockDir.walkChildrenInodes.map List.length = .ok 32 ∧
    lostBlockDir.getChildByName (lostBlockChild 30).name = .error .enoent ∧
    lostBlockDir.getChildByName [0x21] = .error .underflow ∧
    v6DirDSize (fullBlockChildren.map (·.name)) = 4096 ∧
    fullBlockDir.walkChildrenInodes = .error .underflow := by
  have nonzero := lostBlockDir_nonzero
  have covers := lostBlockViews_covers
  have pos : 0 < lostBlockViews.length := by
    rw [lostBlockViews_length]
    decide
  refine ⟨lostBlock_computed.1, ?extent, ?walk, ?lost, ?belowFirst, fullBlock_computed.1, ?fullWalk⟩
  case extent =>
    calc (lostBlockNode.v6DumpDir 0 0).map (fun r => writtenExtent r.2)
        = .ok (writtenExtent (blockWrites 0x1000 (lostBlockNode.v6Blocks 0 0))) := by
          simp only [lostBlockNode_dumped, Except.map]
      _ = .ok 8447 := by rw [lostBlockNode_extent]
  case walk =>
    rw [OndiskDir.walkChildrenInodes_of_readsBlock nonzero covers lostBlockDir_reads]
    exact congrArg Except.ok lostBlock_computed.2.2.2.2.2.2.2.1
  case lost =>
    -- the lost child sorts after every name the reader lists
    exact OndiskDir.getChildByName_of_not_mem nonzero covers lostBlockDir_reads lostBlockViews_ascending
      pos (lostBlockViews_first pos).1 lostBlock_computed.2.2.2.2.2.2.2.2.1
  case belowFirst =>
    exact OndiskDir.getChildByName_underflow nonzero covers lostBlockDir_reads lostBlockViews_ascending
      pos (lostBlockViews_first pos).2
  case fullWalk =>
    rw [fullBlockDir_eq]
    exact fullBlockNode_plain.walkChildrenInodes_of_full fullBlockNode_dumped
      (by rw [fullBlockNode_blocks]; decide) (by rw [fullBlockNode_extent]; decide)

end Nydus
