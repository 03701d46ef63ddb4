import Mathlib.Data.List.Sort
import Nydus.Lib.Except

/-!
# The dirents of a RAFS v6 directory

The RAFS v6 builder (`src/bin/nydus-image/core`) lays a directory out as EROFS dirent
blocks. `Bootstrap::rafsv6_update_dirents` lists `"."`, `".."` and the children and
sorts them by name. `Node::v6_dir_d_size` precomputes the directory's size, which
becomes its inode size, by packing `"."`, `".."` and then the children into 4 KiB
blocks; `Node::v6_dump_dir` writes the sorted dirents, packed into blocks the same way:
a block holds the dirents of its entries, the first naming the offset of the first name,
followed by the names. The last block may be inlined after the inode.

Names are byte strings, compared as `OsStr` compares them, byte by byte.
-/

namespace Nydus

/-- `EROFS_BLOCK_SIZE`. -/
def EROFS_BLOCK_SIZE : Nat := 4096

/-- `size_of::<RafsV6Dirent>()`. -/
def RAFS_V6_DIRENT_SIZE : Nat := 12

/-- `EROFS_INODE_SLOT_BITS`: inodes are 32-byte aligned. -/
def EROFS_INODE_SLOT_BITS : Nat := 5

/-- `EROFS_INODE_FLAT_PLAIN` and `EROFS_INODE_FLAT_INLINE`. -/
def EROFS_INODE_FLAT_PLAIN : Nat := 0
def EROFS_INODE_FLAT_INLINE : Nat := 2

/-- `div_round_up`. -/
def divRoundUp (n d : Nat) : Nat := (n + d - 1) / d

/-- The names `"."` and `".."`. -/
def dotName : List UInt8 := [0x2e]
def dotDotName : List UInt8 := [0x2e, 0x2e]

/-! ## The size -/

/-- The loop of `v6_dir_d_size` over the children's names: an entry that would cross a
block boundary starts the next block. -/
def dSizeLoop : List (List UInt8) → Nat → Nat
  | [], dSize => dSize
  | name :: rest, dSize =>
    let len := name.length + RAFS_V6_DIRENT_SIZE
    let dSize := if dSize % EROFS_BLOCK_SIZE + len > EROFS_BLOCK_SIZE then
        divRoundUp dSize EROFS_BLOCK_SIZE * EROFS_BLOCK_SIZE
      else dSize
    dSizeLoop rest (dSize + len)

/-- `Node::v6_dir_d_size` of a directory whose children, in the tree's order, have these
names: `"."` and `".."` come first. -/
def v6DirDSize (children : List (List UInt8)) : Nat :=
  dSizeLoop children (dotName.length + RAFS_V6_DIRENT_SIZE + dotDotName.length + RAFS_V6_DIRENT_SIZE)

/-! ## The dirents -/

/-- An entry of `Node::v6_dirents`: the inode offset, the name and the mode. -/
structure V6DirentEntry where
  offset : Nat
  name : List UInt8
  mode : Nat
deriving DecidableEq, Repr

/-- `S_IFMT`, `S_IFDIR`. -/
def S_IFMT : Nat := 0o170000
def S_IFDIR : Nat := 0o040000

/-- `Bootstrap::rafsv6_update_dirents` for one directory: `"."`, `".."` and the
children, sorted by name. The source sorts with `sort_unstable_by`; the names of a
directory are distinct, so every sort gives this order. -/
def v6Dirents (nodeOffset parentOffset : Nat) (children : List V6DirentEntry) :
    List V6DirentEntry :=
  (⟨nodeOffset, dotName, S_IFDIR⟩ :: ⟨parentOffset, dotDotName, S_IFDIR⟩ :: children).insertionSort
    fun a b => a.name ≤ b.name

/-- `RafsV6Dirent`. -/
structure RafsV6Dirent where
  eNid : Nat
  eNameoff : Nat
  eFileType : Nat
deriving DecidableEq, Repr

/-- The little-endian bytes of `n` in `width` bytes. -/
def leBytes (width n : Nat) : List UInt8 := (List.range width).map fun i => UInt8.ofNat (n >>> (8 * i))

/-- The on-disk bytes of a dirent: `e_nid`, `e_nameoff`, `e_file_type`, reserved. -/
def RafsV6Dirent.toBytes (d : RafsV6Dirent) : List UInt8 :=
  leBytes 8 d.eNid ++ leBytes 2 d.eNameoff ++ [UInt8.ofNat d.eFileType, 0]

/-- `RafsV6Dirent::file_type`. -/
def RafsV6Dirent.fileType (mode : Nat) : Nat :=
  match mode &&& S_IFMT with
  | 0o100000 => 1
  | 0o040000 => 2
  | 0o020000 => 3
  | 0o060000 => 4
  | 0o010000 => 5
  | 0o140000 => 6
  | 0o120000 => 7
  | _ => 0

/-- `calculate_nid`. -/
def calculateNid (offset metaSize : Nat) : Nat := (offset - metaSize) >>> EROFS_INODE_SLOT_BITS

/-- The dirents of a block with their name offsets set, from `nameoff` on. -/
def setNameOffsets : List (RafsV6Dirent × List UInt8) → Nat → List RafsV6Dirent
  | [], _ => []
  | (entry, name) :: rest, nameoff =>
    { entry with eNameoff := nameoff } :: setNameOffsets rest (nameoff + name.length)

/-- The bytes written for one block: its dirents, then its names. -/
def blockBytes (dirents : List (RafsV6Dirent × List UInt8)) (nameoff : Nat) : List UInt8 :=
  ((setNameOffsets dirents nameoff).map RafsV6Dirent.toBytes).flatten ++ (dirents.map (·.2)).flatten

/-- The state of the loop of `v6_dump_dir`: the dirents of the block being filled, the
offset its first name will have, the bytes it uses, where it will be written, and the
writes done so far. -/
structure DumpState where
  dirents : List (RafsV6Dirent × List UInt8)
  nameoff : Nat
  used : Nat
  direntOff : Nat
  writes : List (Nat × List UInt8)
deriving DecidableEq, Repr

/-- The loop of `v6_dump_dir`: a block is written out when the next entry does not fit. -/
def dumpLoop (metaOffset metaAddr : Nat) : List V6DirentEntry → DumpState → DumpState
  | [], st => st
  | d :: rest, st =>
    let len := d.name.length + RAFS_V6_DIRENT_SIZE
    let st := if st.used + len > EROFS_BLOCK_SIZE then
        ⟨[], 0, 0, st.direntOff + EROFS_BLOCK_SIZE,
          st.writes ++ [(st.direntOff, blockBytes st.dirents st.nameoff)]⟩
      else st
    let entry : RafsV6Dirent :=
      ⟨calculateNid (d.offset + metaOffset) metaAddr, 0, RafsV6Dirent.fileType d.mode⟩
    dumpLoop metaOffset metaAddr rest
      ⟨st.dirents ++ [(entry, d.name)], st.nameoff + RAFS_V6_DIRENT_SIZE, st.used + len,
        st.direntOff, st.writes⟩

/-- The errors of `v6_dump_dir`. -/
inductive DumpError where
  /-- `"unsupported RAFS v6 inode layout for directory"`. -/
  | unsupportedLayout
deriving DecidableEq, Repr

/-- What `v6_dump_dir` reads of a directory node. -/
structure V6DirNode where
  v6Offset : Nat
  v6SizeWithXattr : Nat
  v6DirentsOffset : Nat
  v6Datalayout : Nat
  v6Dirents : List V6DirentEntry
deriving DecidableEq, Repr

/-- The dirent writes of `Node::v6_dump_dir`, and the `i_u` it sets: the full blocks
from `v6_dirents_offset` on, then the tail, inlined after the inode or in the next
block. -/
def V6DirNode.v6DumpDir (node : V6DirNode) (metaAddr metaOffset : Nat) :
    Except DumpError (Nat × List (Nat × List UInt8)) :=
  let st := dumpLoop metaOffset metaAddr node.v6Dirents ⟨[], 0, 0, node.v6DirentsOffset, []⟩
  let u := node.v6DirentsOffset / EROFS_BLOCK_SIZE
  if st.used > 0 then
    let tailOff := if node.v6Datalayout = EROFS_INODE_FLAT_INLINE then
        some (node.v6Offset + node.v6SizeWithXattr)
      else if node.v6Datalayout = EROFS_INODE_FLAT_PLAIN then some st.direntOff
      else none
    match tailOff with
    | some tailOff => .ok (u, st.writes ++ [(tailOff, blockBytes st.dirents st.nameoff)])
    | none => .error .unsupportedLayout
  else .ok (u, st.writes)

/-- The extent of the dirent data `v6_dump_dir` writes: the full blocks and the tail. -/
def writtenExtent (writes : List (Nat × List UInt8)) : Nat :=
  match writes.getLast? with
  | some (_, tail) => EROFS_BLOCK_SIZE * (writes.length - 1) + tail.length
  | none => 0

end Nydus
