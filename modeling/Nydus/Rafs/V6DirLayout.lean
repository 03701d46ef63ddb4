import Mathlib
import Nydus.Rafs.V6DirReader

/-!
# Writing a v6 directory and reading it back

The builder gives a directory the inode size `v6_dir_d_size` and writes its dirents
with `v6_dump_dir`; the reader trusts the inode size for the number of blocks and the
fill of the last one. Both pack entries into 4 KiB blocks greedily, so the size is the
written extent when both pack the same sequence (`writtenExtent_eq_v6DirDSize`): the
size loop puts `"."` and `".."` first, the writer puts them where they sort. A child
whose name sorts before `".."` breaks this, and with it the read back.
-/

namespace Nydus

/-- The bootstrap after a write of `bytes` at `off`, zero-filled up to it. -/
def applyWrite (file : List UInt8) (w : Nat × List UInt8) : List UInt8 :=
  file.take w.1 ++ List.replicate (w.1 - file.length) 0 ++ w.2 ++ file.drop (w.1 + w.2.length)

/-- The reader's view of a directory the builder dumped into `base`: a compact inode
(`i_format` is the layout shifted past the version bit) of size `dSize`, with the
bootstrap after the dirent writes. The reader's inode-with-xattr size is the writer's
`v6_size_with_xattr`. -/
def OndiskDir.ofDump (node : V6DirNode) (dSize u : Nat) (writes : List (Nat × List UInt8))
    (base : List UInt8) : OndiskDir :=
  ⟨node.v6Offset, node.v6SizeWithXattr, node.v6Datalayout <<< EROFS_I_VERSION_BITS, u, dSize,
    writes.foldl applyWrite base⟩

/-! ## When the size is the written extent -/

@[simp] theorem leBytes_length (width n : Nat) : (leBytes width n).length = width := by
  simp [leBytes]

@[simp] theorem RafsV6Dirent.toBytes_length (d : RafsV6Dirent) :
    d.toBytes.length = RAFS_V6_DIRENT_SIZE := by
  simp [RafsV6Dirent.toBytes, RAFS_V6_DIRENT_SIZE]

theorem setNameOffsets_bytes_length (dirents : List (RafsV6Dirent × List UInt8)) (nameoff : Nat) :
    ((setNameOffsets dirents nameoff).map RafsV6Dirent.toBytes).flatten.length =
      RAFS_V6_DIRENT_SIZE * dirents.length := by
  induction dirents generalizing nameoff with
  | nil => rfl
  | cons d rest ih =>
    rw [setNameOffsets, List.map_cons, List.flatten_cons, List.length_append, ih,
      RafsV6Dirent.toBytes_length, List.length_cons, Nat.mul_succ, Nat.add_comm]

/-- A block takes twelve bytes per dirent and the bytes of its names. -/
theorem blockBytes_length (dirents : List (RafsV6Dirent × List UInt8)) (nameoff : Nat) :
    (blockBytes dirents nameoff).length =
      (dirents.map fun d => d.2.length + RAFS_V6_DIRENT_SIZE).sum := by
  rw [blockBytes, List.length_append, setNameOffsets_bytes_length, List.length_flatten]
  induction dirents with
  | nil => rfl
  | cons d rest ih =>
    simp only [List.map_cons, List.sum_cons, List.length_cons, RAFS_V6_DIRENT_SIZE] at ih ⊢
    omega

/-- What the writer's state keeps: the block being filled uses the bytes of its dirents
and names, and they fit in a block. -/
structure DumpState.Fits (st : DumpState) : Prop where
  used_eq : st.used = (st.dirents.map fun d => d.2.length + RAFS_V6_DIRENT_SIZE).sum
  used_le : st.used ≤ EROFS_BLOCK_SIZE

/-- One round of the size loop from a state `w` blocks and `used` bytes in, in the
terms of the writer: an entry that does not fit starts block `w + 1`. -/
theorem dSizeLoop_cons_packed (name : List UInt8) (rest : List (List UInt8)) {w used : Nat}
    (fits : used ≤ EROFS_BLOCK_SIZE) (short : name.length + RAFS_V6_DIRENT_SIZE ≤ EROFS_BLOCK_SIZE) :
    dSizeLoop (name :: rest) (EROFS_BLOCK_SIZE * w + used) =
      dSizeLoop rest (if used + (name.length + RAFS_V6_DIRENT_SIZE) > EROFS_BLOCK_SIZE then
          EROFS_BLOCK_SIZE * (w + 1) + (name.length + RAFS_V6_DIRENT_SIZE)
        else EROFS_BLOCK_SIZE * w + (used + (name.length + RAFS_V6_DIRENT_SIZE))) := by
  simp only [dSizeLoop]
  congr 1
  -- the round-up of a state inside block `w` with `used > 0` is the start of block `w + 1`
  split <;> split <;> simp only [divRoundUp, EROFS_BLOCK_SIZE] at * <;> omega

/-- The writer's loop tracks the size loop: blocks written and bytes used of the block
being filled are what the size loop counts over the same names. -/
theorem dumpLoop_extent (metaOffset metaAddr : Nat) :
    ∀ (entries : List V6DirentEntry) (st : DumpState),
      (∀ e ∈ entries, e.name.length + RAFS_V6_DIRENT_SIZE ≤ EROFS_BLOCK_SIZE) → st.Fits →
      (dumpLoop metaOffset metaAddr entries st).Fits ∧
      EROFS_BLOCK_SIZE * (dumpLoop metaOffset metaAddr entries st).writes.length +
          (dumpLoop metaOffset metaAddr entries st).used =
        dSizeLoop (entries.map (·.name)) (EROFS_BLOCK_SIZE * st.writes.length + st.used)
  | [], st, _, fits => ⟨fits, rfl⟩
  | d :: rest, st, short, fits => by
    have shortD := short d (List.mem_cons_self ..)
    have shortRest : ∀ e ∈ rest, _ := fun e he => short e (List.mem_cons_of_mem d he)
    rw [List.map_cons, dSizeLoop_cons_packed d.name _ fits.used_le shortD, dumpLoop]
    split_ifs with full
    · -- the block is written out and the entry opens the next one
      refine And.imp_right ?extent (dumpLoop_extent metaOffset metaAddr rest _ shortRest ?fits)
      case fits => exact ⟨by simp, by simpa using shortD⟩
      case extent =>
        intro extent
        rw [extent]
        simp
    · -- the entry joins the block being filled
      refine dumpLoop_extent metaOffset metaAddr rest _ shortRest ⟨?_, ?_⟩
      · rw [List.map_append, List.sum_append, ← fits.used_eq]
        simp
      · exact Nat.not_lt.mp full

/-- The block being filled is never empty once an entry was written. -/
theorem dumpLoop_used_pos (metaOffset metaAddr : Nat) :
    ∀ (entries : List V6DirentEntry) (st : DumpState), 0 < st.used ∨ entries ≠ [] →
      0 < (dumpLoop metaOffset metaAddr entries st).used
  | [], _, nonempty => nonempty.resolve_right (fun ne => ne rfl)
  | d :: rest, st, _ => by
    rw [dumpLoop]
    apply dumpLoop_used_pos metaOffset metaAddr rest
    left
    split_ifs <;> simp only [RAFS_V6_DIRENT_SIZE] <;> omega

theorem writtenExtent_append_tail (writes : List (Nat × List UInt8)) (off : Nat) (tail : List UInt8) :
    writtenExtent (writes ++ [(off, tail)]) = EROFS_BLOCK_SIZE * writes.length + tail.length := by
  simp [writtenExtent]

/-- With no child name at or below `".."`, the sort leaves `"."` and `".."` in front
of the (sorted) children, where the size loop counts them. -/
theorem v6Dirents_eq_of_after_dots {nodeOffset parentOffset : Nat} {children : List V6DirentEntry}
    (sorted : children.Pairwise fun a b => a.name ≤ b.name)
    (afterDots : ∀ c ∈ children, dotDotName < c.name) :
    v6Dirents nodeOffset parentOffset children =
      ⟨nodeOffset, dotName, S_IFDIR⟩ :: ⟨parentOffset, dotDotName, S_IFDIR⟩ :: children := by
  have dotLt : dotName < dotDotName := by decide
  apply List.Pairwise.insertionSort_eq
  refine List.Pairwise.cons ?_ (List.Pairwise.cons ?_ sorted)
  · intro b mem
    rcases List.mem_cons.mp mem with rfl | inChildren
    · exact List.le_of_lt dotLt
    · exact List.le_of_lt (List.lt_trans dotLt (afterDots b inChildren))
  · intro b inChildren
    exact List.le_of_lt (afterDots b inChildren)

/-- The builder's size is the extent of the dirents it writes, for sorted children
whose names sort after `".."` and have at most 255 bytes. -/
theorem writtenExtent_eq_v6DirDSize {node : V6DirNode} {nodeOffset parentOffset : Nat}
    {children : List V6DirentEntry} {metaAddr metaOffset u : Nat} {writes : List (Nat × List UInt8)}
    (dirents : node.v6Dirents = v6Dirents nodeOffset parentOffset children)
    (sorted : children.Pairwise fun a b => a.name ≤ b.name)
    (afterDots : ∀ c ∈ children, dotDotName < c.name)
    (short : ∀ c ∈ children, c.name.length ≤ 255)
    (dumped : node.v6DumpDir metaAddr metaOffset = .ok (u, writes)) :
    writtenExtent writes = v6DirDSize (children.map (·.name)) := by
  set entries : List V6DirentEntry :=
    ⟨nodeOffset, dotName, S_IFDIR⟩ :: ⟨parentOffset, dotDotName, S_IFDIR⟩ :: children
  have layout : node.v6Dirents = entries := dirents.trans (v6Dirents_eq_of_after_dots sorted afterDots)
  have shortAll : ∀ e ∈ entries, e.name.length + RAFS_V6_DIRENT_SIZE ≤ EROFS_BLOCK_SIZE := by
    intro e mem
    rcases List.mem_cons.mp mem with rfl | mem
    · exact (by decide : dotName.length + RAFS_V6_DIRENT_SIZE ≤ EROFS_BLOCK_SIZE)
    rcases List.mem_cons.mp mem with rfl | inChildren
    · exact (by decide : dotDotName.length + RAFS_V6_DIRENT_SIZE ≤ EROFS_BLOCK_SIZE)
    · have := short e inChildren
      simp only [RAFS_V6_DIRENT_SIZE, EROFS_BLOCK_SIZE]
      omega
  have start : DumpState.Fits ⟨[], 0, 0, node.v6DirentsOffset, []⟩ := ⟨rfl, Nat.zero_le _⟩
  obtain ⟨fits, extent⟩ := dumpLoop_extent metaOffset metaAddr entries _ shortAll start
  have used := dumpLoop_used_pos metaOffset metaAddr entries ⟨[], 0, 0, node.v6DirentsOffset, []⟩
    (.inr (List.cons_ne_nil _ _))
  -- both layouts put the tail last, so only the number of full blocks and the tail count
  simp only [V6DirNode.v6DumpDir, layout, if_pos used] at dumped
  split at dumped
  · cases dumped
    rw [writtenExtent_append_tail, blockBytes_length, ← fits.used_eq, extent]
    rfl
  · cases dumped

end Nydus
