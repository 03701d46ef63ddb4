import Nydus.Builder.V6Dir

/-!
# Reading a RAFS v6 directory back

`OndiskInodeWrapper` (`rafs/src/metadata/direct_v6.rs`) reads a directory from the
mapped bootstrap. A block's first dirent names the offset of the first name, so the
block holds that offset over 12 entries; a name ends where the next one starts, and the
last name of a block ends at the block's fill, which for the last block of the
directory is `i_size % 4096`, or at its first zero byte. Lookups binary search the
blocks by their first and last names, then the entries of the block.

Unsigned arithmetic that would underflow in the source (and panic in a debug build)
is the error `underflow` here.
-/

namespace Nydus

/-- The errors of the directory reader. -/
inductive DirError where
  /-- `ENOENT`. -/
  | enoent
  /-- `RafsError::InvalidImageData`: a read outside the mapped bootstrap. -/
  | invalidImageData
  /-- `RafsError::IllegalMetaStruct`: a name offset below the previous one. -/
  | illegalMetaStruct (cur next : Nat)
  /-- `RafsError::Incompatible`: an inode format other than a flat one. -/
  | incompatible (format : Nat)
  /-- An unsigned subtraction below zero. -/
  | underflow
deriving DecidableEq, Repr

/-- Unsigned subtraction as a debug build does it. -/
def checkedSub (a b : Nat) : Except DirError Nat :=
  if b ≤ a then .ok (a - b) else .error .underflow

/-- The little-endian number in `bytes`. -/
def leValue (bytes : List UInt8) : Nat := bytes.foldr (fun b acc => b.toNat + 256 * acc) 0

/-- `EROFS_I_VERSION_BITS` and `EROFS_I_DATALAYOUT_BITS`. -/
def EROFS_I_VERSION_BITS : Nat := 1
def EROFS_I_DATALAYOUT_BITS : Nat := 3

/-- What the reader reads of a directory inode: its offset in the bootstrap, the size
of the inode with its xattrs, `i_format`, `i_u` and `i_size`, and the mapped
bootstrap. -/
structure OndiskDir where
  offset : Nat
  inodeXattrSize : Nat
  format : Nat
  union : Nat
  size : Nat
  map : List UInt8

namespace OndiskDir

variable (d : OndiskDir)

/-- `blocks_count`. -/
def blocksCount : Nat := divRoundUp d.size EROFS_BLOCK_SIZE

/-- `get_slice` of the mapping. -/
def getSlice (offset len : Nat) : Except DirError (List UInt8) :=
  if offset + len ≤ d.map.length then .ok ((d.map.drop offset).take len)
  else .error .invalidImageData

/-- `data_block_offset`: where block `index` of the directory's data starts; the last
block of an inline layout follows the inode. -/
def dataBlockOffset (index : Nat) : Except DirError Nat :=
  if d.format &&& (0xffff ^^^ ((((1 <<< EROFS_I_DATALAYOUT_BITS) - 1) <<< 1) ||| EROFS_I_VERSION_BITS)) ≠ 0 then
    .error (.incompatible d.format)
  else
    let layout := d.format >>> EROFS_I_VERSION_BITS
    if layout = EROFS_INODE_FLAT_PLAIN then .ok (d.union * EROFS_BLOCK_SIZE + index * EROFS_BLOCK_SIZE)
    else if layout = EROFS_INODE_FLAT_INLINE then
      if index ≠ d.blocksCount - 1 then .ok (d.union * EROFS_BLOCK_SIZE + index * EROFS_BLOCK_SIZE)
      else .ok (d.offset + d.inodeXattrSize)
    else .error .invalidImageData

/-- `get_entry`: dirent `index` of block `blockIndex`. -/
def getEntry (blockIndex index : Nat) : Except DirError RafsV6Dirent := do
  let offset ← d.dataBlockOffset blockIndex
  let bytes ← d.getSlice (offset + RAFS_V6_DIRENT_SIZE * index) RAFS_V6_DIRENT_SIZE
  pure ⟨leValue (bytes.take 8), leValue ((bytes.drop 8).take 2), leValue ((bytes.drop 10).take 1)⟩

/-- The length of the longest prefix of `buf` without a zero byte. -/
def nonzeroPrefixLength (buf : List UInt8) : Nat := (buf.takeWhile (· ≠ 0)).length

/-- `entry_name`: the name of entry `index` of a block of `maxEntries` entries. -/
def entryName (blockIndex index maxEntries : Nat) : Except DirError (List UInt8) := do
  let offset ← d.dataBlockOffset blockIndex
  let de ← d.getEntry blockIndex index
  let lastIndex ← checkedSub maxEntries 1
  if index < lastIndex then
    let nextDe ← d.getEntry blockIndex (index + 1)
    if nextDe.eNameoff < de.eNameoff then
      .error (.illegalMetaStruct nextDe.eNameoff de.eNameoff)
    else d.getSlice (offset + de.eNameoff) (nextDe.eNameoff - de.eNameoff)
  else
    let headDe ← d.getEntry blockIndex 0
    let s ← checkedSub de.eNameoff headDe.eNameoff
    let s := s + RAFS_V6_DIRENT_SIZE * maxEntries
    -- The last block ends at the directory's size, the others are full.
    let len ← if divRoundUp d.size EROFS_BLOCK_SIZE = blockIndex + 1 then
        checkedSub (d.size % EROFS_BLOCK_SIZE) s
      else checkedSub EROFS_BLOCK_SIZE s
    let buf ← d.getSlice (offset + de.eNameoff) len
    pure (buf.take (nonzeroPrefixLength buf))

/-- The number of entries of a block, from its first dirent's name offset. -/
def entriesCount (blockIndex : Nat) : Except DirError Nat := do
  let head ← d.getEntry blockIndex 0
  pure (head.eNameoff / RAFS_V6_DIRENT_SIZE)

/-- The entries of one block, as `walk_children_inodes` visits them: name and nid. -/
def blockEntries (blockIndex count : Nat) : List Nat → Except DirError (List (List UInt8 × Nat))
  | [] => .ok []
  | j :: rest => do
    let de ← d.getEntry blockIndex j
    let name ← d.entryName blockIndex j count
    let more ← blockEntries blockIndex count rest
    pure ((name, de.eNid) :: more)

/-- `walk_children_inodes` from offset 0: every entry of every block, in order. -/
def walkChildrenInodes : Except DirError (List (List UInt8 × Nat)) :=
  if d.size = 0 then .error .enoent
  else
    (List.range d.blocksCount).foldlM (fun acc i => do
      let count ← d.entriesCount i
      let entries ← d.blockEntries i count (List.range count)
      pure (acc ++ entries)) []

/-- `get_child_count`: the entries of all blocks but `"."` and `".."`. -/
def getChildCount : Except DirError Nat := do
  let total ← (List.range d.blocksCount).foldlM (fun acc i => do
    let count ← d.entriesCount i
    pure (acc + count)) 0
  checkedSub total 2

/-- The binary search of `find_target_block` over blocks `[first, last]`; `fuel`
bounds its rounds. -/
def findTargetBlockLoop (name : List UInt8) : Nat → Nat → Nat → Except DirError Nat
  | 0, _, _ => .ok 0
  | fuel + 1, first, last =>
    if first ≤ last then do
      let pivot := first + (last - first) / 2
      let count ← d.entriesCount pivot
      let hName ← d.entryName pivot 0 count
      let lastIndex ← checkedSub count 1
      let tName ← d.entryName pivot lastIndex count
      if hName ≤ name ∧ name ≤ tName then .ok pivot
      else if name < hName then do
        let last ← checkedSub pivot 1
        findTargetBlockLoop name fuel first last
      else findTargetBlockLoop name fuel (pivot + 1) last
    else .ok 0

/-- `find_target_block`: the block whose names bracket `name`, block 0 when none does. -/
def findTargetBlock (name : List UInt8) : Except DirError Nat :=
  if d.size = 0 then .error .enoent
  else do
    let last ← checkedSub d.blocksCount 1
    d.findTargetBlockLoop name (d.blocksCount + 1) 0 last

/-- The binary search of `get_child_by_name` over the entries `[first, last]` of a
block. -/
def childSearchLoop (name : List UInt8) (block count : Nat) :
    Nat → Nat → Nat → Except DirError Nat
  | 0, _, _ => .error .enoent
  | fuel + 1, first, last =>
    if first ≤ last then do
      let pivot := first + (last - first) / 2
      let de ← d.getEntry block pivot
      let dName ← d.entryName block pivot count
      match compare dName name with
      | .eq => .ok de.eNid
      | .lt => childSearchLoop name block count fuel (pivot + 1) last
      | .gt => do
        let last ← checkedSub pivot 1
        childSearchLoop name block count fuel first last
    else .error .enoent

/-- `get_child_by_name`: the nid of the child named `name`. A failed block search is
`ENOENT`; an underflow panics in the source and stays an underflow. -/
def getChildByName (name : List UInt8) : Except DirError Nat :=
  match d.findTargetBlock name with
  | .ok block => do
    let count ← d.entriesCount block
    let last ← checkedSub count 1
    d.childSearchLoop name block count (count + 1) 0 last
  | .error .underflow => .error .underflow
  | .error _ => .error .enoent

end OndiskDir

end Nydus
