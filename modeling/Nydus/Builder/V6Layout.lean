import Mathlib
import Nydus.Lib.Run
import Nydus.Builder.NodeData

/-!
# Where the RAFS v6 builder puts each inode

`Bootstrap::build_rafs` walks the tree breadth first and gives every node its place in the
bootstrap: an inode slot (`v6_offset`) and, for a directory or a symlink, the place of its
data (`v6_dirents_offset`). The space comes from a `BootstrapContext` that holds two
allocators at once. `offset` is a bump pointer. `v6_available_blocks` is a free list of
4 KiB blocks that still have room at their end, bucketed by that room counted in 32-byte
inode slots: deque `idx` holds blocks whose last `idx` slots are free.

* `BootstrapContext::allocate_available_block` pops a block from the first non-empty deque
  with enough room, hands out the start of its free room and pushes the block back with what
  is left;
* `BootstrapContext::append_available_block` lists the block of an offset by the room left
  after it;
* `Node::v6_set_offset` places a regular file (its inode with the chunk address table), a
  symlink (by `v6_set_offset_with_tail`) or any other node (its inode alone);
* `Node::v6_set_dir_offset` places a directory by `v6_set_offset_with_tail`, which either
  inlines the last partial block of the data after the inode (`EROFS_INODE_FLAT_INLINE`) or
  puts the inode and the whole data apart (`EROFS_INODE_FLAT_PLAIN`).

After each node `build_rafs` aligns the bump pointer to the next inode slot. Offsets are
`u64` in the source and stay far below `2 ^ 64`; they are natural numbers here.
-/

namespace Nydus

/-- `EROFS_INODE_SLOT_SIZE`: `1 << EROFS_INODE_SLOT_BITS`. -/
def EROFS_INODE_SLOT_SIZE : Nat := 1 <<< EROFS_INODE_SLOT_BITS

/-- `EROFS_INODE_CHUNK_BASED`. -/
def EROFS_INODE_CHUNK_BASED : Nat := 4

/-- `size_of::<RafsV6InodeChunkAddr>()`: a `u16` blob index, a `u16` blob chunk index and a
`u32` block address. -/
def chunkAddrSize : Nat := 8

/-- `round_up`. -/
def roundUp (n d : Nat) : Nat := (n + d - 1) / d * d

/-- `round_down_4k`: `x & !4095`. -/
def roundDown4k (x : Nat) : Nat := x / 4096 * 4096

theorem EROFS_INODE_SLOT_SIZE_eq : EROFS_INODE_SLOT_SIZE = 32 := rfl

/-- What the allocator keeps of `BootstrapContext`: the bump pointer and the deques of
partially used blocks. -/
structure BootstrapContext where
  offset : Nat
  v6AvailableBlocks : List (List Nat)
deriving DecidableEq, Repr

namespace BootstrapContext

/-- `BootstrapContext::new`: the first block is left to the super block. -/
def new : BootstrapContext where
  offset := EROFS_BLOCK_SIZE
  v6AvailableBlocks := List.replicate (EROFS_BLOCK_SIZE / EROFS_INODE_SLOT_SIZE) []

/-- `BootstrapContext::align_offset`. -/
def alignOffset (ctx : BootstrapContext) (alignSize : Nat) : BootstrapContext :=
  if ctx.offset % alignSize > 0 then
    { ctx with offset := divRoundUp ctx.offset alignSize * alignSize }
  else ctx

/-- `BootstrapContext::append_available_block`: the block of `offset`, with room from
`offset` to its end, goes to the back of the deque of that room in slots. -/
def appendAvailableBlock (ctx : BootstrapContext) (offset : Nat) : BootstrapContext :=
  if offset % EROFS_BLOCK_SIZE ≠ 0 then
    let avail := EROFS_BLOCK_SIZE - offset % EROFS_BLOCK_SIZE
    let idx := avail / EROFS_INODE_SLOT_SIZE
    { ctx with v6AvailableBlocks := ctx.v6AvailableBlocks.modify idx (· ++ [roundDown4k offset]) }
  else ctx

/-- The loop of `allocate_available_block` over the deques `idxs`: the first block found is
popped, its free room from `offset` on is handed out, and what is left after the `minIdx`
slots asked for goes back to the free list. -/
def allocateFrom (ctx : BootstrapContext) (minIdx : Nat) : List Nat → BootstrapContext × Nat
  | [] => (ctx, 0)
  | idx :: idxs =>
    match ctx.v6AvailableBlocks.getD idx [] with
    | [] => ctx.allocateFrom minIdx idxs
    | block :: blocks =>
      let offset := block + (EROFS_BLOCK_SIZE - idx * EROFS_INODE_SLOT_SIZE)
      let ctx := { ctx with v6AvailableBlocks := ctx.v6AvailableBlocks.set idx blocks }
      (ctx.appendAvailableBlock (offset + minIdx * EROFS_INODE_SLOT_SIZE), offset)

/-- `BootstrapContext::allocate_available_block`: room for `size` bytes of metadata in a
listed block, or `0` when there is none. -/
def allocateAvailableBlock (ctx : BootstrapContext) (size : Nat) : BootstrapContext × Nat :=
  if size ≥ EROFS_BLOCK_SIZE then (ctx, 0)
  else
    let minIdx := divRoundUp size EROFS_INODE_SLOT_SIZE
    let maxIdx := divRoundUp EROFS_BLOCK_SIZE EROFS_INODE_SLOT_SIZE
    ctx.allocateFrom minIdx (List.range' minIdx (maxIdx - minIdx))

end BootstrapContext

/-- What the placement of a node reads of it. -/
structure V6Node where
  kind : NodeKind
  /-- `v6_size_with_xattr()`: the inode with its extended attributes. -/
  sizeWithXattr : Nat
  /-- `inode.size()`: a symlink's target length. -/
  size : Nat
  /-- `inode.child_count()`: a regular file's chunks. -/
  childCount : Nat
deriving DecidableEq, Repr

/-- What the placement of a node writes to it; the fields it leaves alone keep the values of
`Node::new`. -/
structure V6Placement where
  v6Offset : Nat
  v6DirentsOffset : Nat := 0
  v6Datalayout : Nat := EROFS_INODE_FLAT_PLAIN
deriving DecidableEq, Repr

/-- `should_inline` of `v6_set_offset_with_tail`: the data ends in a partial block, which fits
in one block together with the inode. -/
def shouldInline (inodeSize dSize : Nat) : Bool :=
  dSize % EROFS_BLOCK_SIZE != 0 && inodeSize + dSize % EROFS_BLOCK_SIZE ≤ EROFS_BLOCK_SIZE

open BootstrapContext

/-- The inode and the inlined tail of `v6_set_offset_with_tail`: from a listed block, or else
from the current block, or else, the current block listed, from the next one. -/
def placeInline (ctx : BootstrapContext) (size : Nat) : BootstrapContext × Nat :=
  let (ctx, v6Offset) := ctx.allocateAvailableBlock size
  if v6Offset = 0 then
    let available := EROFS_BLOCK_SIZE - ctx.offset % EROFS_BLOCK_SIZE
    let ctx :=
      if available < size then (ctx.appendAvailableBlock ctx.offset).alignOffset EROFS_BLOCK_SIZE
      else ctx
    ({ ctx with offset := ctx.offset + size }, ctx.offset)
  else (ctx, v6Offset)

/-- The inode alone of `v6_set_offset_with_tail`: from a listed block, or else sequentially. -/
def placePlain (ctx : BootstrapContext) (size : Nat) : BootstrapContext × Nat :=
  let (ctx, v6Offset) := ctx.allocateAvailableBlock size
  if v6Offset = 0 then ({ ctx with offset := ctx.offset + size }, ctx.offset)
  else (ctx, v6Offset)

/-- `Node::v6_set_offset_with_tail`, for a node whose inode takes `inodeSize` bytes and whose
data takes `dSize`. -/
def v6SetOffsetWithTail (ctx : BootstrapContext) (inodeSize dSize : Nat) :
    BootstrapContext × V6Placement :=
  let tail := dSize % EROFS_BLOCK_SIZE
  if shouldInline inodeSize dSize then
    let (ctx, v6Offset) := placeInline ctx (inodeSize + tail)
    -- the whole blocks of the data start at the next block
    let ctx :=
      if dSize ≠ tail then (ctx.appendAvailableBlock ctx.offset).alignOffset EROFS_BLOCK_SIZE
      else ctx
    ({ ctx with offset := ctx.offset + roundDown4k dSize },
      { v6Offset, v6DirentsOffset := ctx.offset, v6Datalayout := EROFS_INODE_FLAT_INLINE })
  else
    let (ctx, v6Offset) := placePlain ctx inodeSize
    let ctx := (ctx.appendAvailableBlock ctx.offset).alignOffset EROFS_BLOCK_SIZE
    (({ ctx with offset := ctx.offset + dSize } : BootstrapContext).alignOffset EROFS_BLOCK_SIZE,
      { v6Offset, v6DirentsOffset := ctx.offset, v6Datalayout := EROFS_INODE_FLAT_PLAIN })

namespace V6Node

/-- `Node::v6_set_offset`: a hard link takes the offset of the inode it links to. -/
def v6SetOffset (node : V6Node) (ctx : BootstrapContext) (v6HardlinkOffset : Option Nat) :
    BootstrapContext × V6Placement :=
  match node.kind with
  | .reg =>
    match v6HardlinkOffset with
    | some v6HardlinkOffset =>
      (ctx, { v6Offset := v6HardlinkOffset, v6Datalayout := EROFS_INODE_CHUNK_BASED })
    | none =>
      let size := node.sizeWithXattr
      let unit := chunkAddrSize
      let totalSize := roundUp size unit + node.childCount * unit
      let (ctx, v6Offset) := ctx.allocateAvailableBlock totalSize
      if v6Offset = 0 then
        let ctx' := ({ ctx with offset := ctx.offset + size } : BootstrapContext).alignOffset unit
        ({ ctx' with offset := ctx'.offset + node.childCount * unit },
          { v6Offset := ctx.offset, v6Datalayout := EROFS_INODE_CHUNK_BASED })
      else (ctx, { v6Offset, v6Datalayout := EROFS_INODE_CHUNK_BASED })
  | .symlink => v6SetOffsetWithTail ctx node.sizeWithXattr node.size
  | _ => ({ ctx with offset := ctx.offset + node.sizeWithXattr }, { v6Offset := ctx.offset })

/-- `Node::v6_set_dir_offset` of a directory whose dirents and names take `dSize` bytes (the
`ensure!` that the node is a directory holds at the one call, which checks `is_dir` first). -/
def v6SetDirOffset (node : V6Node) (ctx : BootstrapContext) (dSize : Nat) :
    BootstrapContext × V6Placement :=
  v6SetOffsetWithTail ctx node.sizeWithXattr dSize

end V6Node

/-- A placement that `build_rafs` makes: a directory with its `v6_dir_d_size`, when it is
taken as a parent, or a child that is not a directory, with the offset of the inode it is a
hard link of. -/
inductive Place where
  | dir (node : V6Node) (dSize : Nat)
  | child (node : V6Node) (v6HardlinkOffset : Option Nat)
deriving DecidableEq, Repr

/-- One placement of `build_rafs`, followed by `align_offset(EROFS_INODE_SLOT_SIZE)`. -/
def Place.apply (ctx : BootstrapContext) : Place → BootstrapContext × V6Placement
  | .dir node dSize =>
    let (ctx, placed) := node.v6SetDirOffset ctx dSize
    (ctx.alignOffset EROFS_INODE_SLOT_SIZE, placed)
  | .child node v6HardlinkOffset =>
    let (ctx, placed) := node.v6SetOffset ctx v6HardlinkOffset
    (ctx.alignOffset EROFS_INODE_SLOT_SIZE, placed)

/-- The layout so far: the context, and every placement made with its result. -/
structure Layout where
  ctx : BootstrapContext
  placed : List (Place × V6Placement)

/-- One placement, recorded. -/
def Layout.step (layout : Layout) (place : Place) : Layout :=
  let (ctx, placement) := place.apply layout.ctx
  ⟨ctx, layout.placed ++ [(place, placement)]⟩

/-- The layout of the placements of a build, in order, from a new context. -/
def layoutRafs (places : List Place) : Layout := Run.run Layout.step ⟨BootstrapContext.new, []⟩ places

end Nydus
