import Mathlib
import Nydus.Lib.Regions
import Nydus.Builder.V6Layout

/-!
# The RAFS v6 layout never places two things on the same bytes

The free list of a `BootstrapContext` promises that a block listed in deque `idx` has its last
`idx` inode slots free (`freeTail`). `BootstrapContext.Sound ctx used` says that the promise
holds: the free rooms of all listed blocks and the regions `used` handed out so far are
pairwise apart, and all of them lie between the super block and the bump pointer. Each
operation of the context keeps it (`Sound.extend` for the bump pointer and `align_offset`,
`Sound.appendAlign` for listing the current block and moving to the next,
`Sound.allocate` for `allocate_available_block`), and so does every placement
(`Sound.of_apply`). Over a whole build (`layoutRafs_sound`):

* the regions of all placements are pairwise disjoint and lie in
  `[EROFS_BLOCK_SIZE, offset)` (`layoutRafs_regions_disjoint`);
* every inode that is not a hard link sits on a 32-byte slot, an inlined tail lies in its
  inode's block, and the whole data blocks start on a block (`layoutRafs_aligned`);
* the free room of every listed block is apart from all of them (`layoutRafs_free_room`).
-/

namespace Nydus

open Regions

theorem EROFS_BLOCK_SIZE_eq : EROFS_BLOCK_SIZE = 4096 := rfl

/-- The free room of a block listed in deque `idx`: its last `idx` inode slots. -/
def freeTail (idx block : Nat) : Regions.Region :=
  (block + (EROFS_BLOCK_SIZE - idx * EROFS_INODE_SLOT_SIZE), block + EROFS_BLOCK_SIZE)

/-- The free room of the blocks listed in `deques`, the first of them being deque `first`. -/
def freeTails : Nat → List (List Nat) → List Regions.Region
  | _, [] => []
  | first, blocks :: deques => blocks.map (freeTail first) ++ freeTails (first + 1) deques

/-- The room that `append_available_block x` lists: from the last slot boundary at or after
`x` to the end of its block. -/
def appendedRoom (x : Nat) : List Regions.Region :=
  if x % EROFS_BLOCK_SIZE ≠ 0 then
    [freeTail ((EROFS_BLOCK_SIZE - x % EROFS_BLOCK_SIZE) / EROFS_INODE_SLOT_SIZE) (roundDown4k x)]
  else []

/-- A listed block: on a block boundary, after the super block, and below the bump pointer. -/
def Listed (top block : Nat) : Prop :=
  block % EROFS_BLOCK_SIZE = 0 ∧ EROFS_BLOCK_SIZE ≤ block ∧ block + EROFS_BLOCK_SIZE ≤ top

/-- The region lies in one 4 KiB block. -/
def InOneBlock (r : Regions.Region) : Prop := r.2 ≤ roundDown4k r.1 + EROFS_BLOCK_SIZE

theorem le_roundUp (n : Nat) {d : Nat} (pos : 0 < d) : n ≤ roundUp n d := by
  have := Nat.lt_div_mul_add (a := n + d - 1) pos
  unfold roundUp; omega

/-! ## The free rooms of the deques -/

section FreeTails

variable {deques : List (List Nat)} {idx : Nat}

theorem mem_freeTails {first : Nat} {r : Regions.Region} (mem : r ∈ freeTails first deques) :
    ∃ idx, ∃ block ∈ deques.getD idx [], r = freeTail (first + idx) block := by
  induction deques generalizing first with
  | nil => simp [freeTails] at mem
  | cons deque deques ih =>
    simp only [freeTails, List.mem_append, List.mem_map] at mem
    rcases mem with ⟨block, mem, rfl⟩ | mem
    · exact ⟨0, block, by simpa using mem, rfl⟩
    · obtain ⟨idx, block, listed, rfl⟩ := ih mem
      refine ⟨idx + 1, block, by simpa using listed, ?_⟩
      rw [Nat.add_right_comm, Nat.add_assoc]

theorem freeTail_mem_freeTails {first block : Nat} (mem : block ∈ deques.getD idx []) :
    freeTail (first + idx) block ∈ freeTails first deques := by
  induction deques generalizing first idx with
  | nil => simp at mem
  | cons deque deques ih =>
    cases idx with
    | zero => simpa [freeTails] using .inl ⟨block, mem, rfl⟩
    | succ idx =>
      simp only [List.getD_cons_succ] at mem
      have later : freeTail (first + 1 + idx) block ∈ freeTails (first + 1) deques := ih mem
      rw [show first + (idx + 1) = first + 1 + idx by omega]
      exact List.mem_append_right _ later

/-- Popping `block` from deque `idx` takes its free room out of the free rooms. -/
theorem freeTails_set {block : Nat} {blocks : List Nat} (first : Nat)
    (popped : deques.getD idx [] = block :: blocks) :
    (freeTails first deques).Perm
      (freeTail (first + idx) block :: freeTails first (deques.set idx blocks)) := by
  induction deques generalizing first idx with
  | nil => simp at popped
  | cons deque deques ih =>
    cases idx with
    | zero =>
      simp only [List.getD_cons_zero] at popped
      subst popped
      simp [freeTails]
    | succ idx =>
      simp only [List.getD_cons_succ] at popped
      simp only [freeTails, List.set_cons_succ]
      rw [show first + (idx + 1) = first + 1 + idx by omega]
      exact ((ih (first + 1) popped).append_left _).trans List.perm_middle

/-- Pushing `block` to the back of deque `idx` adds its free room. -/
theorem freeTails_modify (first block : Nat) (lt : idx < deques.length) :
    (freeTails first (deques.modify idx (· ++ [block]))).Perm
      (freeTail (first + idx) block :: freeTails first deques) := by
  induction deques generalizing first idx with
  | nil => simp at lt
  | cons deque deques ih =>
    cases idx with
    | zero =>
      simp only [List.modify_zero_cons, freeTails, List.map_append, List.map_cons, List.map_nil,
        List.append_assoc, List.singleton_append, Nat.add_zero]
      exact List.perm_middle
    | succ idx =>
      simp only [List.modify_succ_cons, freeTails]
      rw [show first + (idx + 1) = first + 1 + idx by omega]
      exact ((ih (first + 1) (by simpa using lt)).append_left _).trans List.perm_middle

theorem mem_getD_set {blocks : List Nat} {j b : Nat} (mem : b ∈ (deques.set idx blocks).getD j []) :
    b ∈ deques.getD j [] ∨ b ∈ blocks := by
  rw [List.getD_eq_getElem?_getD, List.getElem?_set] at mem
  split_ifs at mem
  · exact .inr (by simpa using mem)
  · simp at mem
  · exact .inl (by rwa [List.getD_eq_getElem?_getD])

theorem mem_getD_modify {block j b : Nat} (mem : b ∈ (deques.modify idx (· ++ [block])).getD j []) :
    b ∈ deques.getD j [] ∨ b = block := by
  rw [List.getD_eq_getElem?_getD, List.getElem?_modify] at mem
  rw [List.getD_eq_getElem?_getD]
  rcases found : deques[j]? with _ | deque
  · simp [found] at mem
  · by_cases same : idx = j
    · simpa [found, same, or_comm] using mem
    · exact .inl (by simpa [found, same] using mem)

theorem appendedRoom_pairwise (x : Nat) : (appendedRoom x).Pairwise Apart := by
  unfold appendedRoom; split <;> simp

/-- The room `append_available_block x` lists starts at or after `x`, and ends with the block
of `x`. -/
theorem appendedRoom_within {x : Nat} {r : Regions.Region} (mem : r ∈ appendedRoom x) :
    x % EROFS_BLOCK_SIZE ≠ 0 ∧ x ≤ r.1 ∧ r.2 = roundDown4k x + EROFS_BLOCK_SIZE := by
  unfold appendedRoom at mem
  split at mem
  · rename_i unaligned
    simp only [List.mem_singleton] at mem
    subst mem
    refine ⟨unaligned, ?_, rfl⟩
    simp only [freeTail, roundDown4k, EROFS_BLOCK_SIZE_eq, EROFS_INODE_SLOT_SIZE_eq] at unaligned ⊢
    omega
  · simp at mem

end FreeTails

namespace BootstrapContext

/-! ## The operations of the context, one lemma each -/

variable {ctx ctx' : BootstrapContext} {used : List Regions.Region}

@[simp] theorem alignOffset_v6AvailableBlocks (ctx : BootstrapContext) (alignSize : Nat) :
    (ctx.alignOffset alignSize).v6AvailableBlocks = ctx.v6AvailableBlocks := by
  unfold alignOffset; split <;> rfl

theorem alignOffset_offset (ctx : BootstrapContext) {alignSize : Nat} (pos : 0 < alignSize) :
    (ctx.alignOffset alignSize).offset = roundUp ctx.offset alignSize := by
  unfold alignOffset roundUp divRoundUp
  split
  · rfl
  · -- an aligned offset is its own round-up
    obtain ⟨k, hk⟩ : alignSize ∣ ctx.offset := Nat.dvd_of_mod_eq_zero (by omega)
    rw [hk, Nat.add_sub_assoc pos, Nat.mul_add_div pos, Nat.div_eq_of_lt (by omega), Nat.add_zero,
      Nat.mul_comm]

@[simp] theorem appendAvailableBlock_offset (ctx : BootstrapContext) (x : Nat) :
    (ctx.appendAvailableBlock x).offset = ctx.offset := by
  unfold appendAvailableBlock; split <;> rfl

@[simp] theorem length_appendAvailableBlock (ctx : BootstrapContext) (x : Nat) :
    (ctx.appendAvailableBlock x).v6AvailableBlocks.length = ctx.v6AvailableBlocks.length := by
  unfold appendAvailableBlock; split <;> simp

theorem mem_getD_appendAvailableBlock {x j b : Nat}
    (mem : b ∈ (ctx.appendAvailableBlock x).v6AvailableBlocks.getD j []) :
    b ∈ ctx.v6AvailableBlocks.getD j [] ∨ (x % EROFS_BLOCK_SIZE ≠ 0 ∧ b = roundDown4k x) := by
  unfold appendAvailableBlock at mem
  split at mem
  · rcases mem_getD_modify mem with mem | rfl
    · exact .inl mem
    · exact .inr ⟨‹_›, rfl⟩
  · exact .inl mem

/-- `append_available_block x` adds the room after `x` to the free rooms. -/
theorem freeTails_appendAvailableBlock
    (deques : ctx.v6AvailableBlocks.length = EROFS_BLOCK_SIZE / EROFS_INODE_SLOT_SIZE) (x : Nat) :
    (freeTails 0 (ctx.appendAvailableBlock x).v6AvailableBlocks).Perm
      (appendedRoom x ++ freeTails 0 ctx.v6AvailableBlocks) := by
  unfold appendAvailableBlock appendedRoom
  split
  · have lt : (EROFS_BLOCK_SIZE - x % EROFS_BLOCK_SIZE) / EROFS_INODE_SLOT_SIZE
        < ctx.v6AvailableBlocks.length := by
      rw [deques]; simp only [EROFS_BLOCK_SIZE_eq, EROFS_INODE_SLOT_SIZE_eq] at *; omega
    simpa using freeTails_modify 0 (roundDown4k x) lt
  · simp

/-- The loop of `allocate_available_block` either finds nothing and changes nothing, or pops
the first block of a deque it visits and hands out the start of that block's free room. -/
theorem allocateFrom_cases (ctx : BootstrapContext) (minIdx : Nat) (idxs : List Nat) :
    ctx.allocateFrom minIdx idxs = (ctx, 0) ∨
    ∃ idx ∈ idxs, ∃ block blocks, ctx.v6AvailableBlocks.getD idx [] = block :: blocks ∧
      ctx.allocateFrom minIdx idxs =
        (({ ctx with v6AvailableBlocks := ctx.v6AvailableBlocks.set idx blocks } :
            BootstrapContext).appendAvailableBlock
          (block + (EROFS_BLOCK_SIZE - idx * EROFS_INODE_SLOT_SIZE) + minIdx * EROFS_INODE_SLOT_SIZE),
          block + (EROFS_BLOCK_SIZE - idx * EROFS_INODE_SLOT_SIZE)) := by
  induction idxs with
  | nil => exact .inl rfl
  | cons idx idxs ih =>
    unfold allocateFrom
    split
    · rcases ih with found | ⟨idx', mem, block, blocks, popped, found⟩
      · exact .inl found
      · exact .inr ⟨idx', List.mem_cons_of_mem idx mem, block, blocks, popped, found⟩
    · exact .inr ⟨idx, List.mem_cons_self, _, _, ‹_›, rfl⟩

/-! ## The invariant of the context -/

/-- The free list keeps its promise: the context has its `128` deques, every listed block lies
between the super block and the bump pointer, and the free rooms of the listed blocks and the
regions `used` handed out so far are pairwise apart and below the bump pointer. -/
structure Sound (ctx : BootstrapContext) (used : List Regions.Region) : Prop where
  deques : ctx.v6AvailableBlocks.length = EROFS_BLOCK_SIZE / EROFS_INODE_SLOT_SIZE
  start : EROFS_BLOCK_SIZE ≤ ctx.offset
  listed : ∀ idx, ∀ block ∈ ctx.v6AvailableBlocks.getD idx [], Listed ctx.offset block
  within : ∀ r ∈ used, EROFS_BLOCK_SIZE ≤ r.1 ∧ r.2 ≤ ctx.offset
  apart : (freeTails 0 ctx.v6AvailableBlocks ++ used).Pairwise Apart

theorem sound_new : Sound new [] where
  deques := by simp [new]
  start := le_rfl
  listed idx block mem := by
    simp only [new, List.getD_eq_getElem?_getD, List.getElem?_replicate] at mem
    split at mem <;> simp at mem
  within := by simp
  apart := by
    have empty : ∀ n first, freeTails first (List.replicate n []) = [] := by
      intro n
      induction n with
      | zero => simp [freeTails]
      | succ n ih => simp [List.replicate_succ, freeTails, ih]
    simp [new, empty]

/-- Every free room and every region handed out ends below the bump pointer. -/
theorem Sound.le_offset (sound : Sound ctx used) {r : Regions.Region}
    (mem : r ∈ freeTails 0 ctx.v6AvailableBlocks ++ used) : r.2 ≤ ctx.offset := by
  rcases List.mem_append.1 mem with mem | mem
  · obtain ⟨idx, block, listed, rfl⟩ := mem_freeTails mem
    exact (sound.listed idx block listed).2.2
  · exact (sound.within r mem).2

/-- Moving the bump pointer up keeps the invariant, with the regions `new` between the old
and the new pointer handed out. -/
theorem Sound.extend (sound : Sound ctx used) {new : List Regions.Region}
    (blocks : ctx'.v6AvailableBlocks = ctx.v6AvailableBlocks) (le : ctx.offset ≤ ctx'.offset)
    (inside : ∀ s ∈ new, ctx.offset ≤ s.1 ∧ s.2 ≤ ctx'.offset) (new_apart : new.Pairwise Apart) :
    Sound ctx' (used ++ new) where
  deques := blocks ▸ sound.deques
  start := sound.start.trans le
  listed idx block mem := by
    obtain ⟨aligned, after, below⟩ := sound.listed idx block (blocks ▸ mem)
    exact ⟨aligned, after, below.trans le⟩
  within r mem := by
    rcases List.mem_append.1 mem with mem | mem
    · exact ⟨(sound.within r mem).1, (sound.within r mem).2.trans le⟩
    · exact ⟨sound.start.trans (inside r mem).1, (inside r mem).2⟩
  apart := by
    rw [blocks, ← List.append_assoc]
    exact pairwise_append_above sound.apart (fun r mem => sound.le_offset mem) new_apart
      fun s mem => (inside s mem).1

theorem Sound.alignOffset (sound : Sound ctx used) {alignSize : Nat} (pos : 0 < alignSize) :
    Sound (ctx.alignOffset alignSize) used := by
  have grown : Sound (ctx.alignOffset alignSize) (used ++ []) :=
    sound.extend (alignOffset_v6AvailableBlocks ctx alignSize)
      (by rw [alignOffset_offset ctx pos]; exact le_roundUp ctx.offset pos) (by simp) (by simp)
  simpa using grown

/-- Where `append_available_block(offset)` and `align_offset(EROFS_BLOCK_SIZE)` leave the bump
pointer: at the next block boundary. -/
theorem appendAlign_offset (ctx : BootstrapContext) :
    ((ctx.appendAvailableBlock ctx.offset).alignOffset EROFS_BLOCK_SIZE).offset =
      roundUp ctx.offset EROFS_BLOCK_SIZE := by
  rw [alignOffset_offset _ (by decide), appendAvailableBlock_offset]

/-- Listing the room left in the current block and moving the bump pointer to the next block,
as `v6_set_offset_with_tail` does before it places data on a block boundary, keeps the
invariant. -/
theorem Sound.appendAlign (sound : Sound ctx used) :
    Sound ((ctx.appendAvailableBlock ctx.offset).alignOffset EROFS_BLOCK_SIZE) used := by
  have grows : ctx.offset ≤ ((ctx.appendAvailableBlock ctx.offset).alignOffset EROFS_BLOCK_SIZE).offset := by
    rw [appendAlign_offset]; exact le_roundUp _ (by decide)
  refine ⟨by simpa using sound.deques, sound.start.trans grows, ?_, ?_, ?_⟩
  · intro idx block mem
    rw [alignOffset_v6AvailableBlocks] at mem
    rcases mem_getD_appendAvailableBlock mem with mem | ⟨unaligned, rfl⟩
    · obtain ⟨aligned, after, below⟩ := sound.listed idx block mem
      exact ⟨aligned, after, below.trans grows⟩
    · -- the current block, listed, lies below the next block boundary
      have start := sound.start
      rw [Listed, appendAlign_offset]
      simp only [roundUp, roundDown4k, EROFS_BLOCK_SIZE_eq] at unaligned start ⊢
      omega
  · intro r mem
    exact ⟨(sound.within r mem).1, (sound.within r mem).2.trans grows⟩
  · -- the room listed starts at the old bump pointer, above everything else
    have perm := (freeTails_appendAvailableBlock sound.deques ctx.offset).append_right used
    rw [alignOffset_v6AvailableBlocks, pairwise_perm_iff perm, List.append_assoc,
      pairwise_perm_iff List.perm_append_comm]
    exact pairwise_append_above sound.apart (fun r mem => sound.le_offset mem)
      (appendedRoom_pairwise _) fun s mem => (appendedRoom_within mem).2.1

/-- What `allocate_available_block` hands out from a block popped from deque `idx`, and the
room of that block it lists again, both lie in the free room the block had. -/
theorem allocated_within {block idx minIdx size : Nat} (aligned : block % EROFS_BLOCK_SIZE = 0)
    (visited : minIdx ≤ idx) (lt : idx < EROFS_BLOCK_SIZE / EROFS_INODE_SLOT_SIZE)
    (fits : size ≤ minIdx * EROFS_INODE_SLOT_SIZE) :
    let offset := block + (EROFS_BLOCK_SIZE - idx * EROFS_INODE_SLOT_SIZE)
    ∀ s ∈ appendedRoom (offset + minIdx * EROFS_INODE_SLOT_SIZE) ++ [(offset, offset + size)],
      Within s (freeTail idx block) := by
  intro offset s mem
  rcases List.mem_append.1 mem with mem | mem
  · obtain ⟨unaligned, after, ends⟩ := appendedRoom_within mem
    simp only [Within, freeTail, ends, offset, roundDown4k, EROFS_BLOCK_SIZE_eq,
      EROFS_INODE_SLOT_SIZE_eq] at aligned lt fits unaligned after ⊢
    omega
  · simp only [List.mem_singleton] at mem
    subst mem
    simp only [Within, freeTail, offset, EROFS_BLOCK_SIZE_eq, EROFS_INODE_SLOT_SIZE_eq] at lt fits ⊢
    omega

/-- Popping `block` from deque `idx`, handing out `size` bytes at the start of its free room
and listing again what is left after `minIdx` slots, as `allocate_available_block` does,
keeps the invariant with those bytes counted as used. -/
theorem Sound.pop (sound : Sound ctx used) {idx block minIdx size : Nat} {blocks : List Nat}
    (popped : ctx.v6AvailableBlocks.getD idx [] = block :: blocks) (visited : minIdx ≤ idx)
    (fits : size ≤ minIdx * EROFS_INODE_SLOT_SIZE) :
    let offset := block + (EROFS_BLOCK_SIZE - idx * EROFS_INODE_SLOT_SIZE)
    Sound (({ ctx with v6AvailableBlocks := ctx.v6AvailableBlocks.set idx blocks } :
        BootstrapContext).appendAvailableBlock (offset + minIdx * EROFS_INODE_SLOT_SIZE))
      (used ++ [(offset, offset + size)]) := by
  intro offset
  have head : block ∈ ctx.v6AvailableBlocks.getD idx [] := by rw [popped]; exact List.mem_cons_self
  obtain ⟨aligned, after, below⟩ := sound.listed idx block head
  have lt : idx < EROFS_BLOCK_SIZE / EROFS_INODE_SLOT_SIZE := by
    rw [← sound.deques]
    by_contra past
    rw [List.getD_eq_default _ _ (by omega)] at popped
    cases popped
  set popCtx : BootstrapContext := { ctx with v6AvailableBlocks := ctx.v6AvailableBlocks.set idx blocks }
  have popCtx_offset : popCtx.offset = ctx.offset := rfl
  have popped_deques : popCtx.v6AvailableBlocks.length = EROFS_BLOCK_SIZE / EROFS_INODE_SLOT_SIZE := by
    simpa [popCtx] using sound.deques
  refine ⟨by simpa using popped_deques, by simpa using sound.start, ?_, ?_, ?_⟩
  · -- a block still listed was listed before, or is the popped one listed again
    intro j b mem
    rw [appendAvailableBlock_offset]
    rcases mem_getD_appendAvailableBlock mem with mem | ⟨unaligned, rfl⟩
    · rcases mem_getD_set mem with mem | mem
      · exact sound.listed j b mem
      · exact sound.listed idx b (by rw [popped]; exact List.mem_cons_of_mem block mem)
    · have again : roundDown4k (offset + minIdx * EROFS_INODE_SLOT_SIZE) = block := by
        simp only [offset, roundDown4k, EROFS_BLOCK_SIZE_eq, EROFS_INODE_SLOT_SIZE_eq]
          at aligned lt unaligned fits ⊢
        omega
      rw [again]
      exact ⟨aligned, after, below⟩
  · intro r mem
    rw [appendAvailableBlock_offset]
    rcases List.mem_append.1 mem with mem | mem
    · exact sound.within r mem
    · simp only [List.mem_singleton] at mem
      subst mem
      rw [popCtx_offset]
      simp only [offset, EROFS_BLOCK_SIZE_eq, EROFS_INODE_SLOT_SIZE_eq] at after below lt fits ⊢
      omega
  · -- the popped block's room is split into what is handed out and what is listed again
    have before : (freeTail idx block :: (freeTails 0 popCtx.v6AvailableBlocks ++ used)).Pairwise Apart := by
      have perm := (freeTails_set 0 popped).append_right used
      rw [Nat.zero_add] at perm
      exact (pairwise_perm_iff perm).1 sound.apart
    set rest := offset + minIdx * EROFS_INODE_SLOT_SIZE
    set handed : Regions.Region := (offset, offset + size)
    have perm : (freeTails 0 (popCtx.appendAvailableBlock rest).v6AvailableBlocks
        ++ (used ++ [handed])).Perm
        ((appendedRoom rest ++ [handed]) ++ (freeTails 0 popCtx.v6AvailableBlocks ++ used)) :=
      calc List.Perm _ ((appendedRoom rest ++ freeTails 0 popCtx.v6AvailableBlocks) ++ (used ++ [handed])) :=
            (freeTails_appendAvailableBlock popped_deques rest).append_right _
        _ = appendedRoom rest ++ ((freeTails 0 popCtx.v6AvailableBlocks ++ used) ++ [handed]) := by
            simp only [List.append_assoc]
        List.Perm _ (appendedRoom rest ++ (handed :: (freeTails 0 popCtx.v6AvailableBlocks ++ used))) :=
            (List.perm_append_singleton _ _).append_left _
        _ = _ := by simp only [List.append_assoc, List.singleton_append]
    rw [pairwise_perm_iff perm]
    refine pairwise_replace before (allocated_within aligned visited lt fits)
      (List.pairwise_append.2 ⟨appendedRoom_pairwise _, List.pairwise_singleton _ _,
        fun r mem s mem' => ?_⟩)
    simp only [List.mem_singleton] at mem'
    subst mem'
    have after : offset + minIdx * EROFS_INODE_SLOT_SIZE ≤ r.1 := (appendedRoom_within mem).2.1
    exact (apart_of_le (show offset + size ≤ r.1 by omega)).symm

/-- `allocate_available_block size` either finds no block and changes nothing, or hands out
`size` bytes at a non-zero offset on a slot boundary, in one block, and keeps the invariant
with them counted as used; the bump pointer does not move. -/
theorem Sound.allocate (sound : Sound ctx used) (size : Nat) :
    ctx.allocateAvailableBlock size = (ctx, 0) ∨
    ∃ ctx' offset, ctx.allocateAvailableBlock size = (ctx', offset) ∧ 0 < offset ∧
      offset % EROFS_INODE_SLOT_SIZE = 0 ∧ InOneBlock (offset, offset + size) ∧
      ctx'.offset = ctx.offset ∧ Sound ctx' (used ++ [(offset, offset + size)]) := by
  unfold allocateAvailableBlock
  split
  · exact .inl rfl
  rename_i small
  set minIdx := divRoundUp size EROFS_INODE_SLOT_SIZE with minIdx_eq
  rcases allocateFrom_cases ctx minIdx _ with none | ⟨idx, mem, block, blocks, popped, found⟩
  · exact .inl none
  refine .inr ⟨_, _, found, ?_⟩
  -- the deque visited and the block popped from it
  have visited := List.mem_range'_1.1 mem
  have fits : size ≤ minIdx * EROFS_INODE_SLOT_SIZE := by
    simp only [minIdx_eq, divRoundUp, EROFS_INODE_SLOT_SIZE_eq]; omega
  have aligned := (sound.listed idx block (by rw [popped]; exact List.mem_cons_self)).1
  simp only [divRoundUp, EROFS_BLOCK_SIZE_eq, EROFS_INODE_SLOT_SIZE_eq] at visited small aligned fits
  refine ⟨?_, ?_, ?_, by simp, sound.pop popped visited.1 (by simpa only [EROFS_INODE_SLOT_SIZE_eq] using fits)⟩
  all_goals
    simp only [InOneBlock, roundDown4k, EROFS_BLOCK_SIZE_eq, EROFS_INODE_SLOT_SIZE_eq]
    omega

theorem Sound.bump (sound : Sound ctx used) (size : Nat) :
    Sound { ctx with offset := ctx.offset + size } (used ++ [(ctx.offset, ctx.offset + size)]) :=
  sound.extend rfl (by simp) (by simp) (List.pairwise_singleton _ _)

end BootstrapContext

/-! ## What a placement takes and promises -/

/-- The bytes that the placement of a directory or a symlink takes: the inode, with the tail
of the data when it is inlined, and the data blocks. -/
def tailRegions (inodeSize dSize : Nat) (placement : V6Placement) : List Regions.Region :=
  if shouldInline inodeSize dSize then
    [(placement.v6Offset, placement.v6Offset + (inodeSize + dSize % EROFS_BLOCK_SIZE)),
      (placement.v6DirentsOffset, placement.v6DirentsOffset + roundDown4k dSize)]
  else
    [(placement.v6Offset, placement.v6Offset + inodeSize),
      (placement.v6DirentsOffset, placement.v6DirentsOffset + roundUp dSize EROFS_BLOCK_SIZE)]

/-- What the placement of a directory or a symlink promises of its own: the inode on a slot
boundary, an inlined tail in the inode's block, and data blocks that are not empty from a
block boundary. -/
def tailAligned (inodeSize dSize : Nat) (placement : V6Placement) : Prop :=
  placement.v6Offset % EROFS_INODE_SLOT_SIZE = 0 ∧
  (shouldInline inodeSize dSize = true →
    InOneBlock (placement.v6Offset, placement.v6Offset + (inodeSize + dSize % EROFS_BLOCK_SIZE))) ∧
  (shouldInline inodeSize dSize = false ∨ EROFS_BLOCK_SIZE ≤ dSize →
    placement.v6DirentsOffset % EROFS_BLOCK_SIZE = 0)

/-- The bytes of the bootstrap that a placement takes: a regular file's inode with its chunk
address table, a directory's or a symlink's inode and data, any other node's inode. A hard
link takes none of its own. -/
def Place.regions : Place → V6Placement → List Regions.Region
  | .dir node dSize, placement => tailRegions node.sizeWithXattr dSize placement
  | .child node v6HardlinkOffset, placement =>
    match node.kind, v6HardlinkOffset with
    | .reg, some _ => []
    | .reg, none =>
      [(placement.v6Offset, placement.v6Offset +
        (roundUp node.sizeWithXattr chunkAddrSize + node.childCount * chunkAddrSize))]
    | .symlink, _ => tailRegions node.sizeWithXattr node.size placement
    | _, _ => [(placement.v6Offset, placement.v6Offset + node.sizeWithXattr)]

/-- What a placement promises of its own: every inode but a hard link's on a slot boundary,
and `tailAligned` for directories and symlinks. -/
def Place.Aligned : Place → V6Placement → Prop
  | .dir node dSize, placement => tailAligned node.sizeWithXattr dSize placement
  | .child node v6HardlinkOffset, placement =>
    match node.kind, v6HardlinkOffset with
    | .reg, some _ => True
    | .symlink, _ => tailAligned node.sizeWithXattr node.size placement
    | _, _ => placement.v6Offset % EROFS_INODE_SLOT_SIZE = 0

/-! ## Every placement keeps the invariant -/

namespace BootstrapContext

variable {ctx ctx' : BootstrapContext} {used : List Regions.Region}

/-- The inode alone of `v6_set_offset_with_tail`, from a listed block or at the bump pointer. -/
theorem Sound.of_placePlain (sound : Sound ctx used) (slot : ctx.offset % EROFS_INODE_SLOT_SIZE = 0)
    {size offset : Nat} (placed : placePlain ctx size = (ctx', offset)) :
    Sound ctx' (used ++ [(offset, offset + size)]) ∧ offset % EROFS_INODE_SLOT_SIZE = 0 := by
  unfold placePlain at placed
  rcases sound.allocate size with none | ⟨ctx₁, offset₁, found, pos, slot₁, -, -, sound₁⟩
  · simp only [none, Prod.mk.injEq, ↓reduceIte] at placed
    obtain ⟨rfl, rfl⟩ := placed
    exact ⟨sound.bump size, slot⟩
  · simp only [found, Prod.mk.injEq, pos.ne', ↓reduceIte] at placed
    obtain ⟨rfl, rfl⟩ := placed
    exact ⟨sound₁, slot₁⟩

/-- The inode and the inlined tail of `v6_set_offset_with_tail`: from a listed block, from the
current block, or from the next one; in each case within one block. -/
theorem Sound.of_placeInline (sound : Sound ctx used) (slot : ctx.offset % EROFS_INODE_SLOT_SIZE = 0)
    {size offset : Nat} (fits : size ≤ EROFS_BLOCK_SIZE) (placed : placeInline ctx size = (ctx', offset)) :
    Sound ctx' (used ++ [(offset, offset + size)]) ∧ offset % EROFS_INODE_SLOT_SIZE = 0 ∧
      InOneBlock (offset, offset + size) := by
  unfold placeInline at placed
  rcases sound.allocate size with none | ⟨ctx₁, offset₁, found, pos, slot₁, block₁, -, sound₁⟩
  · simp only [none, Prod.mk.injEq, ↓reduceIte] at placed
    by_cases room : EROFS_BLOCK_SIZE - ctx.offset % EROFS_BLOCK_SIZE < size
    · -- no room left in the current block: list it and take the next one
      simp only [room, ↓reduceIte] at placed
      obtain ⟨rfl, rfl⟩ := placed
      refine ⟨sound.appendAlign.bump size, ?_, ?_⟩
      · rw [appendAlign_offset]
        simp only [roundUp, EROFS_BLOCK_SIZE_eq, EROFS_INODE_SLOT_SIZE_eq]
        omega
      · simp only [InOneBlock]
        rw [appendAlign_offset]
        simp only [roundUp, roundDown4k, EROFS_BLOCK_SIZE_eq] at fits ⊢
        omega
    · simp only [room, ↓reduceIte] at placed
      obtain ⟨rfl, rfl⟩ := placed
      refine ⟨sound.bump size, slot, ?_⟩
      simp only [InOneBlock, roundDown4k, EROFS_BLOCK_SIZE_eq] at room ⊢
      omega
  · simp only [found, Prod.mk.injEq, pos.ne', ↓reduceIte] at placed
    obtain ⟨rfl, rfl⟩ := placed
    exact ⟨sound₁, slot₁, block₁⟩

/-- Listing the current block and moving to the next, or not: either way the invariant holds. -/
theorem Sound.appendAlign_if (sound : Sound ctx used) (c : Prop) [Decidable c] :
    Sound (if c then (ctx.appendAvailableBlock ctx.offset).alignOffset EROFS_BLOCK_SIZE else ctx)
      used := by
  split
  · exact sound.appendAlign
  · exact sound

/-- `v6_set_offset_with_tail` keeps the invariant with the inode and the data of the node
handed out, and keeps its promises of alignment. -/
theorem Sound.of_v6SetOffsetWithTail (sound : Sound ctx used)
    (slot : ctx.offset % EROFS_INODE_SLOT_SIZE = 0) {inodeSize dSize : Nat} {placement : V6Placement}
    (placed : v6SetOffsetWithTail ctx inodeSize dSize = (ctx', placement)) :
    Sound ctx' (used ++ tailRegions inodeSize dSize placement) ∧
      tailAligned inodeSize dSize placement := by
  unfold v6SetOffsetWithTail at placed
  by_cases inline : shouldInline inodeSize dSize = true
  · -- the inode with the tail, then the whole blocks of the data from the next block on
    have fits : inodeSize + dSize % EROFS_BLOCK_SIZE ≤ EROFS_BLOCK_SIZE := by
      simp only [shouldInline, Bool.and_eq_true, bne_iff_ne, decide_eq_true_eq] at inline
      exact inline.2
    rcases inode : placeInline ctx (inodeSize + dSize % EROFS_BLOCK_SIZE) with ⟨ctx₁, offset₁⟩
    obtain ⟨sound₁, slot₁, block₁⟩ := sound.of_placeInline slot fits inode
    simp only [inline, inode, ↓reduceIte, Prod.mk.injEq] at placed
    have sound₂ := sound₁.appendAlign_if (dSize ≠ dSize % EROFS_BLOCK_SIZE)
    have boundary : EROFS_BLOCK_SIZE ≤ dSize →
        (if dSize ≠ dSize % EROFS_BLOCK_SIZE then
          (ctx₁.appendAvailableBlock ctx₁.offset).alignOffset EROFS_BLOCK_SIZE else ctx₁).offset
          % EROFS_BLOCK_SIZE = 0 := by
      intro whole
      rw [if_pos (by simp only [EROFS_BLOCK_SIZE_eq] at whole ⊢; omega), appendAlign_offset]
      simp only [roundUp, EROFS_BLOCK_SIZE_eq]
      omega
    generalize (if dSize ≠ dSize % EROFS_BLOCK_SIZE then
      (ctx₁.appendAvailableBlock ctx₁.offset).alignOffset EROFS_BLOCK_SIZE else ctx₁) = ctx₂
      at placed sound₂ boundary
    obtain ⟨rfl, rfl⟩ := placed
    refine ⟨?_, slot₁, fun _ => block₁, fun whole => boundary (by simpa [inline] using whole)⟩
    simpa [tailRegions, inline] using sound₂.bump (roundDown4k dSize)
  · -- the inode alone, then the whole data from the next block on
    rcases inode : placePlain ctx inodeSize with ⟨ctx₁, offset₁⟩
    obtain ⟨sound₁, slot₁⟩ := sound.of_placePlain slot inode
    simp only [inline, inode, Bool.false_eq_true, ↓reduceIte, Prod.mk.injEq] at placed
    obtain ⟨rfl, rfl⟩ := placed
    have sound₂ := sound₁.appendAlign
    have boundary := appendAlign_offset ctx₁
    generalize (ctx₁.appendAvailableBlock ctx₁.offset).alignOffset EROFS_BLOCK_SIZE = ctx₂
      at sound₂ boundary ⊢
    have aligned₂ : ctx₂.offset % EROFS_BLOCK_SIZE = 0 := by
      rw [boundary]; simp only [roundUp, EROFS_BLOCK_SIZE_eq]; omega
    -- the data, rounded up to whole blocks, from the block boundary on
    have ends := alignOffset_offset ({ ctx₂ with offset := ctx₂.offset + dSize } : BootstrapContext)
      (show 0 < EROFS_BLOCK_SIZE by decide)
    have sound₃ : Sound (({ ctx₂ with offset := ctx₂.offset + dSize } : BootstrapContext).alignOffset
        EROFS_BLOCK_SIZE) ((used ++ [(offset₁, offset₁ + inodeSize)]) ++
          [(ctx₂.offset, ctx₂.offset + roundUp dSize EROFS_BLOCK_SIZE)]) := by
      refine sound₂.extend (by simp) ?_ ?_ (List.pairwise_singleton _ _)
      · rw [ends]; exact le_roundUp _ (by decide) |>.trans' (Nat.le_add_right _ _)
      · simp only [List.mem_singleton, forall_eq, le_refl, true_and]
        rw [ends]
        simp only [roundUp, EROFS_BLOCK_SIZE_eq] at aligned₂ ⊢
        omega
    refine ⟨by simpa [tailRegions, inline] using sound₃, slot₁, fun shown => absurd shown inline,
      fun _ => aligned₂⟩

theorem alignOffset_slot (ctx : BootstrapContext) :
    (ctx.alignOffset EROFS_INODE_SLOT_SIZE).offset % EROFS_INODE_SLOT_SIZE = 0 := by
  rw [alignOffset_offset _ (by decide)]
  simp only [roundUp, EROFS_INODE_SLOT_SIZE_eq]
  omega

/-- `v6_set_offset` keeps the invariant with what the node takes handed out, and keeps its
promises of alignment. -/
theorem Sound.of_v6SetOffset (sound : Sound ctx used) (slot : ctx.offset % EROFS_INODE_SLOT_SIZE = 0)
    (node : V6Node) (v6HardlinkOffset : Option Nat) {placement : V6Placement}
    (placed : node.v6SetOffset ctx v6HardlinkOffset = (ctx', placement)) :
    Sound ctx' (used ++ (Place.child node v6HardlinkOffset).regions placement) ∧
      (Place.child node v6HardlinkOffset).Aligned placement := by
  rcases node with ⟨kind, sizeWithXattr, size, childCount⟩
  cases kind with
  | reg =>
    cases v6HardlinkOffset with
    | some v6HardlinkOffset =>
      -- a hard link shares the inode it links to
      simp only [V6Node.v6SetOffset, Prod.mk.injEq] at placed
      obtain ⟨rfl, rfl⟩ := placed
      exact ⟨by simpa [Place.regions] using sound, trivial⟩
    | none =>
      simp only [V6Node.v6SetOffset] at placed
      rcases sound.allocate (roundUp sizeWithXattr chunkAddrSize + childCount * chunkAddrSize) with
        none | ⟨ctx₁, offset₁, found, pos, slot₁, -, -, sound₁⟩
      · -- the inode, padded to a chunk address, then the chunk addresses, at the bump pointer
        simp only [none, ↓reduceIte, Prod.mk.injEq] at placed
        obtain ⟨rfl, rfl⟩ := placed
        have ends : (({ ctx with offset := ctx.offset + sizeWithXattr } : BootstrapContext).alignOffset
            chunkAddrSize).offset = roundUp (ctx.offset + sizeWithXattr) chunkAddrSize :=
          alignOffset_offset _ (by decide)
        have grown : Sound
            { ({ ctx with offset := ctx.offset + sizeWithXattr } : BootstrapContext).alignOffset
                chunkAddrSize with
              offset := (({ ctx with offset := ctx.offset + sizeWithXattr } : BootstrapContext).alignOffset
                chunkAddrSize).offset + childCount * chunkAddrSize }
            (used ++ [(ctx.offset, ctx.offset +
              (roundUp sizeWithXattr chunkAddrSize + childCount * chunkAddrSize))]) := by
          refine sound.extend (by simp) ?_ ?_ (List.pairwise_singleton _ _) <;>
          · simp only [ends, List.mem_singleton, forall_eq]
            simp only [roundUp, chunkAddrSize, EROFS_INODE_SLOT_SIZE_eq] at slot ⊢
            omega
        exact ⟨by simpa [Place.regions] using grown, slot⟩
      · simp only [found, pos.ne', ↓reduceIte, Prod.mk.injEq] at placed
        obtain ⟨rfl, rfl⟩ := placed
        exact ⟨by simpa [Place.regions] using sound₁, slot₁⟩
  | symlink =>
    simp only [V6Node.v6SetOffset] at placed
    simpa [Place.regions, Place.Aligned] using sound.of_v6SetOffsetWithTail slot placed
  | dir | special =>
    -- the inode alone, at the bump pointer
    simp only [V6Node.v6SetOffset, Prod.mk.injEq] at placed
    obtain ⟨rfl, rfl⟩ := placed
    exact ⟨by simpa [Place.regions] using sound.bump sizeWithXattr, slot⟩

/-- Every placement of `build_rafs`, with the slot alignment after it, keeps the invariant with
what it takes handed out, leaves the bump pointer on a slot boundary, and keeps its
promises. -/
theorem Sound.of_apply (sound : Sound ctx used) (slot : ctx.offset % EROFS_INODE_SLOT_SIZE = 0)
    (place : Place) :
    Sound (place.apply ctx).1 (used ++ place.regions (place.apply ctx).2) ∧
      (place.apply ctx).1.offset % EROFS_INODE_SLOT_SIZE = 0 ∧ place.Aligned (place.apply ctx).2 := by
  cases place with
  | dir node dSize =>
    rcases placed : node.v6SetDirOffset ctx dSize with ⟨ctx₁, placement⟩
    obtain ⟨sound₁, aligned⟩ := sound.of_v6SetOffsetWithTail slot placed
    simp only [Place.apply, placed]
    exact ⟨sound₁.alignOffset (by decide), alignOffset_slot ctx₁, aligned⟩
  | child node v6HardlinkOffset =>
    rcases placed : node.v6SetOffset ctx v6HardlinkOffset with ⟨ctx₁, placement⟩
    obtain ⟨sound₁, aligned⟩ := sound.of_v6SetOffset slot node v6HardlinkOffset placed
    simp only [Place.apply, placed]
    exact ⟨sound₁.alignOffset (by decide), alignOffset_slot ctx₁, aligned⟩

end BootstrapContext

/-! ## Whole builds -/

/-- The regions of all placements of a layout so far. -/
def Layout.regions (layout : Layout) : List Regions.Region :=
  layout.placed.flatMap fun entry => entry.1.regions entry.2

/-- The invariant of a layout: its context keeps its promise with the regions of its
placements as used, its bump pointer is on a slot boundary, and every placement keeps its own
promises. -/
structure Layout.Sound (layout : Layout) : Prop where
  ctx : BootstrapContext.Sound layout.ctx layout.regions
  slot : layout.ctx.offset % EROFS_INODE_SLOT_SIZE = 0
  aligned : ∀ entry ∈ layout.placed, entry.1.Aligned entry.2

theorem Layout.Sound.step {layout : Layout} (sound : layout.Sound) (place : Place) :
    (layout.step place).Sound := by
  obtain ⟨ctx', slot', aligned'⟩ := sound.ctx.of_apply sound.slot place
  rcases applied : place.apply layout.ctx with ⟨ctx₁, placement⟩
  rw [applied] at ctx' slot' aligned'
  refine ⟨?_, ?_, ?_⟩
  · simpa [Layout.step, Layout.regions, applied] using ctx'
  · simpa [Layout.step, applied] using slot'
  · intro entry mem
    simp only [Layout.step, applied, List.mem_append, List.mem_singleton] at mem
    rcases mem with mem | rfl
    · exact sound.aligned entry mem
    · exact aligned'

/-- The invariant holds after every build: by induction on the placements, one step at a
time. -/
theorem layoutRafs_sound (places : List Place) : (layoutRafs places).Sound :=
  Run.invariant_always (fun layout place sound => sound.step place)
    ⟨by simpa [Layout.regions] using BootstrapContext.sound_new, by decide, by simp⟩

theorem layoutRafs_regions_disjoint (places : List Place) :
    (layoutRafs places).regions.Pairwise (fun r s => Disjoint (Set.Ico r.1 r.2) (Set.Ico s.1 s.2)) ∧
      ∀ r ∈ (layoutRafs places).regions,
        EROFS_BLOCK_SIZE ≤ r.1 ∧ r.2 ≤ (layoutRafs places).ctx.offset := by
  have sound := (layoutRafs_sound places).ctx
  have apart := (List.pairwise_append.1 sound.apart).2.1
  exact ⟨apart.imp apart_iff_disjoint.1, sound.within⟩

theorem layoutRafs_aligned (places : List Place) :
    (∀ entry ∈ (layoutRafs places).placed, entry.1.Aligned entry.2) ∧
      (layoutRafs places).ctx.offset % EROFS_INODE_SLOT_SIZE = 0 :=
  ⟨(layoutRafs_sound places).aligned, (layoutRafs_sound places).slot⟩

theorem layoutRafs_free_room (places : List Place) :
    (∀ idx, ∀ block ∈ (layoutRafs places).ctx.v6AvailableBlocks.getD idx [],
      Listed (layoutRafs places).ctx.offset block) ∧
    ∀ idx, ∀ block ∈ (layoutRafs places).ctx.v6AvailableBlocks.getD idx [],
      ∀ r ∈ (layoutRafs places).regions,
        Disjoint (Set.Ico (freeTail idx block).1 (freeTail idx block).2) (Set.Ico r.1 r.2) := by
  have sound := (layoutRafs_sound places).ctx
  refine ⟨sound.listed, fun idx block mem r used => apart_iff_disjoint.1 ?_⟩
  have free : freeTail (0 + idx) block ∈ freeTails 0 _ := freeTail_mem_freeTails mem
  rw [Nat.zero_add] at free
  exact (List.pairwise_append.1 sound.apart).2.2 _ free r used

end Nydus
