import Mathlib
import Nydus.Lib.Run
import Nydus.Lib.ByteBitmap
import Nydus.Builder.V6Dir

/-!
# The persistent chunk map

`PersistMap` (`storage/src/cache/state/persist_map.rs`) keeps one bit per chunk of a blob
in a file shared by every cache that opens it, after a 4096-byte header. Each opened
instance counts its chunks not ready yet in its own atomic `not_ready_count`, set at
`open` from the bits then in the file, and lowered by one for each bit the instance
itself turns from clear to set. `set_chunk_ready` loops: it reads the byte of the index
and, while the bit is clear, tries a compare-and-swap of the byte with the bit set; a
failed swap means another thread changed the byte, and the loop reads it again.

The file, its instances and the threads in `set_chunk_ready` are a `World`, stepped by an
`Action` taken as one atomic step. From a file whose bits tell the truth (no bit set past
the chunks, the all-ready mark only on a full bitmap), and instances all opened with the
blob's chunk count, every instance's count stays at least the number of clear bits plus
its owed decrements (`World.Inv`), so it never wraps and reads zero only when every chunk
is ready (`persistMap_counts`). A bit set past the chunks breaks it at once: `open`
counts the ones of whole bytes, and a file with padding bits set is taken as ready, and
its count wraps on the next `set_chunk_ready` (`persistMap_padding_miscount`).
-/

namespace Nydus

open ByteBitmap

/-- `MAGIC1`, `MAGIC2` and `MAGIC_ALL_READY` of the chunk map file header. -/
def MAGIC1 : UInt32 := 0x424D_4150
def MAGIC2 : UInt32 := 0x434D_4150
def MAGIC_ALL_READY : UInt32 := 0x4D4D_4150

/-- The header of a chunk map file. Its reserved bytes are not modelled. -/
structure Header where
  magic : UInt32
  version : UInt32
  magic2 : UInt32
  allReady : UInt32
deriving DecidableEq, Repr

/-- A chunk map file of non-zero size: its header and the bitmap after the header. -/
structure ChunkMapFile where
  header : Header
  bitmap : List UInt8
deriving DecidableEq, Repr

/-- Why `PersistMap::open` fails: a zero chunk count, no usable file (`enoent!`), a file of
the wrong size, or a broken header (`einval!`). -/
inductive OpenError where
  | zeroCount
  | notFound
  | invalidSize
  | invalidHeader
  /-- `mmap` of the file `PROT_READ | PROT_WRITE`, `MAP_SHARED`, when `open` opened it
  read-only (`create` false): `EACCES`. -/
  | mapFailed
deriving DecidableEq, Repr

/-- `PersistMap`: the chunk count and the atomic `not_ready_count`. Its file map is the
shared file of the `World`. -/
structure PersistMap where
  count : UInt32
  notReadyCount : UInt32
deriving DecidableEq, Repr

namespace PersistMap

/-- The header `write_header` writes. -/
def newHeader : Header := ⟨MAGIC1, 1, MAGIC2, 0⟩

/-- The file `open` goes on with, and whether its content is new: `write_header` writes a
header to an empty file, and again to a file whose magic is wrong when all its content is
zero. Without `create` the file is opened read-only, and `FileMapState::new` then maps it
writable, which fails on every file that gets that far. -/
def openFile (file : Option ChunkMapFile) (bitmapSize : Nat) (create : Bool) :
    Except OpenError (ChunkMapFile × Bool) :=
  match file with
  -- an empty file gets its header, and then has the right magic
  | none => if create then .ok (⟨newHeader, List.replicate bitmapSize 0⟩, true) else .error .notFound
  | some f =>
    if f.bitmap.length ≠ bitmapSize then .error .invalidSize
    else if !create then .error .mapFailed
    else if f.header.magic = MAGIC1 then .ok (f, false)
    else if f.header = ⟨0, 0, 0, 0⟩ ∧ f.bitmap.all (· == 0) then
      .ok ({ f with header := newHeader }, true)
    else .error .invalidHeader

/-- The loop of `open` adding up `count_ones` of every byte of the bitmap, in `u32`. -/
def readyCount (bitmap : List UInt8) : UInt32 :=
  bitmap.foldl (fun acc b => acc + (countOnes b).toUInt32) 0

/-- What `open` settles on for a file of version 1: no chunk left when the header says all
are ready; all of them for new content; otherwise the chunk count less the ones of the
bitmap, writing the all-ready mark when the ones reach the chunk count. -/
def settle (f : ChunkMapFile) (chunkCount : UInt32) (newContent : Bool) :
    ChunkMapFile × PersistMap :=
  if f.header.allReady = MAGIC_ALL_READY then (f, ⟨chunkCount, 0⟩)
  else if newContent then (f, ⟨chunkCount, chunkCount⟩)
  else
    let ready := readyCount f.bitmap
    if ready ≥ chunkCount then
      ({ f with header := { f.header with allReady := MAGIC_ALL_READY } }, ⟨chunkCount, 0⟩)
    else (f, ⟨chunkCount, chunkCount - ready⟩)

/-- `PersistMap::open` on the shared file, kept after opening: the file as `open` leaves it,
and the instance. -/
def openMap (file : Option ChunkMapFile) (chunkCount : UInt32) (create : Bool) :
    Except OpenError (ChunkMapFile × PersistMap) :=
  if chunkCount = 0 then .error .zeroCount
  else do
    let (f, newContent) ← openFile file (divRoundUp chunkCount.toNat 8) create
    if f.header.version ≥ 1 then
      if f.header.magic2 ≠ MAGIC2 then .error .invalidHeader
      else .ok (settle f chunkCount newContent)
    else .ok (f, ⟨chunkCount, chunkCount⟩)

/-- `validate_index`. -/
def validateIndex (self : PersistMap) (idx : UInt32) : Bool := idx < self.count

/-- `index_to_mask`: the most significant bit of a byte is its first index. -/
def indexToMask (index : UInt32) : UInt8 :=
  1 <<< (8 - ((index &&& 0b111) + 1)).toUInt8

/-- `read_u8`: the byte of index `idx`. The source unwraps the byte's reference; `0` stands
in for a byte past the map, which no valid index reaches. -/
def readU8 (bitmap : List UInt8) (idx : UInt32) : UInt8 := bitmap[idx.toNat >>> 3]?.getD 0

/-- `is_chunk_ready`: whether the bit of `index` is set, and the byte read. -/
def isChunkReady (bitmap : List UInt8) (index : UInt32) : Bool × UInt8 :=
  let mask := indexToMask index
  let current := readU8 bitmap index
  (current &&& mask == mask, current)

/-- `write_u8`: a compare-and-swap of the byte of `idx` from `current` to `current` with
the bit of `idx` set; the bitmap after the swap, when it took place. -/
def writeU8 (bitmap : List UInt8) (idx : UInt32) (current : UInt8) : Option (List UInt8) :=
  let mask := indexToMask idx
  let expected := current ||| mask
  let start := idx.toNat >>> 3
  if bitmap[start]? = some current then some (bitmap.set start expected) else none

/-- `is_range_all_ready`. -/
def isRangeAllReady (self : PersistMap) : Bool := self.notReadyCount == 0

end PersistMap

open PersistMap

/-! ## Threads and the world -/

/-- Where a thread is in `set_chunk_ready`: at the read at the head of its loop, holding
the byte it read, owing the decrement of `not_ready_count` after its swap, or returned
(`Ok` or, for an index past the chunks, `Err`). -/
inductive Pc where
  | load
  | loaded (current : UInt8)
  | decrement
  | done
  | failed
deriving DecidableEq, Repr

/-- A thread in `set_chunk_ready(index)` on instance `map`. -/
structure Thread where
  map : Nat
  index : UInt32
  pc : Pc
deriving DecidableEq, Repr

/-- The shared file (`none` while it is empty), the instances opened on it and the threads. -/
structure World where
  file : Option ChunkMapFile
  maps : List PersistMap
  threads : List Thread
deriving DecidableEq, Repr

/-- What happens next: an instance is opened, a thread calls `set_chunk_ready` on an
instance, or a thread takes its next atomic step. -/
inductive Action where
  | openMap (chunkCount : UInt32) (create : Bool)
  | setChunkReady (map : Nat) (index : UInt32)
  | step (thread : Nat)
deriving DecidableEq, Repr

/-- One atomic step of a thread of `set_chunk_ready`, on the bitmap and the thread's
instance: the read of the byte, the swap, or the `fetch_sub` of `not_ready_count`. -/
def threadStep (bitmap : List UInt8) (map : PersistMap) (th : Thread) :
    List UInt8 × PersistMap × Pc :=
  match th.pc with
  | .load =>
    let (ready, current) := isChunkReady bitmap th.index
    (bitmap, map, if ready then .done else .loaded current)
  | .loaded current =>
    match writeU8 bitmap th.index current with
    | some bitmap' => (bitmap', map, .decrement)
    | none => (bitmap, map, .load)
  -- when `fetch_sub` returns 1, `mark_all_ready` only syncs the file
  | .decrement => (bitmap, { map with notReadyCount := map.notReadyCount - 1 }, .done)
  | .done => (bitmap, map, .done)
  | .failed => (bitmap, map, .failed)

namespace World

/-- The bitmap of the shared file. -/
def bitmap (w : World) : List UInt8 := (w.file.map (·.bitmap)).getD []

/-- Whether chunk `i` is ready in the shared file. -/
def isReady (w : World) (i : Nat) : Bool := test w.bitmap i

/-- The world after one action. A failed `open` changes nothing. -/
def step (w : World) : Action → World
  | .openMap chunkCount create =>
    match PersistMap.openMap w.file chunkCount create with
    | .ok (f, map) => { w with file := some f, maps := w.maps ++ [map] }
    | .error _ => w
  | .setChunkReady m index =>
    match w.maps[m]? with
    | some map =>
      { w with threads := w.threads ++ [⟨m, index, if map.validateIndex index then .load else .failed⟩] }
    | none => w
  | .step t =>
    match w.threads[t]?, w.file with
    | some th, some f =>
      match w.maps[th.map]? with
      | some map =>
        let (bitmap, map', pc) := threadStep f.bitmap map th
        ⟨some { f with bitmap }, w.maps.set th.map map', w.threads.set t { th with pc }⟩
      | none => w
    | _, _ => w

end World

/-! ## Bytes and bits

The source's byte and mask arithmetic is the library's bitmap: the byte of index `i` is
byte `i / 8`, its mask is bit `7 - i % 8`, and a swap from a byte with the bit clear sets
the bit and no other. -/

/-- `index_to_mask` is bit `7 - index % 8`. -/
theorem indexToMask_eq (index : UInt32) :
    indexToMask index = (2 ^ (7 - index.toNat % 8) : Nat).toUInt8 := by
  have low : (index &&& 0b111).toNat = index.toNat % 8 := by
    rw [UInt32.toNat_and]
    exact Nat.and_two_pow_sub_one_eq_mod index.toNat 3
  have lt : index.toNat % 8 < 8 := Nat.mod_lt _ (by decide)
  have bits : index &&& 0b111 = (index.toNat % 8).toUInt32 := by
    apply UInt32.toNat_inj.mp
    rw [low, Nat.toUInt32, UInt32.toNat_ofNat', Nat.mod_eq_of_lt (show index.toNat % 8 < 2 ^ 32 by omega)]
  unfold indexToMask
  rw [bits]
  generalize index.toNat % 8 = r at lt
  interval_cases r <;> rfl

/-- A byte holds the bit of a mask exactly when its bit at the mask's position is set. -/
theorem and_bitMask_eq {b : UInt8} {p : Nat} (lt : p < 8) :
    (b &&& (2 ^ p : Nat).toUInt8 == (2 ^ p : Nat).toUInt8) = b.toNat.testBit p := by
  have mask : ((2 ^ p : Nat).toUInt8).toNat = 2 ^ p := by
    rw [Nat.toUInt8, UInt8.toNat_ofNat']
    exact Nat.mod_eq_of_lt (Nat.pow_lt_pow_right (by decide) lt)
  have anded : (b &&& (2 ^ p : Nat).toUInt8).toNat = (b.toNat.testBit p).toNat * 2 ^ p := by
    rw [UInt8.toNat_and, mask, Nat.and_two_pow]
  cases bit : b.toNat.testBit p with
  | true =>
    rw [bit] at anded
    simp only [beq_iff_eq]
    exact UInt8.toNat_inj.mp (by rw [anded, mask]; simp)
  | false =>
    rw [bit] at anded
    simp only [beq_eq_false_iff_ne, ne_eq]
    intro same
    rw [same, mask] at anded
    simp at anded

theorem byte_index (idx : UInt32) : idx.toNat >>> 3 = idx.toNat / 8 := by
  rw [Nat.shiftRight_eq_div_pow]

/-- `is_chunk_ready` reads the bitmap's bit of the index. -/
theorem isChunkReady_fst {bitmap : List UInt8} {index : UInt32}
    (inRange : index.toNat / 8 < bitmap.length) :
    (isChunkReady bitmap index).1 = test bitmap index.toNat := by
  have found : bitmap[index.toNat / 8]? = some bitmap[index.toNat / 8] :=
    List.getElem?_eq_getElem inRange
  simp only [isChunkReady, readU8, byte_index, found, Option.getD_some, indexToMask_eq, test]
  exact and_bitMask_eq (by omega)

/-- A byte read with the bit of the index clear has that bit clear. -/
theorem isChunkReady_snd_clear {bitmap : List UInt8} {index : UInt32}
    (inRange : index.toNat / 8 < bitmap.length) (notReady : (isChunkReady bitmap index).1 = false) :
    (isChunkReady bitmap index).2.toNat.testBit (7 - index.toNat % 8) = false := by
  have found : bitmap[index.toNat / 8]? = some bitmap[index.toNat / 8] :=
    List.getElem?_eq_getElem inRange
  have bit := isChunkReady_fst inRange
  rw [notReady] at bit
  simpa only [test, found, isChunkReady, readU8, byte_index, Option.getD_some] using bit.symm

/-- A swap takes place only on the byte read, and sets the bit of the index. -/
theorem writeU8_eq_some {bitmap bitmap' : List UInt8} {idx : UInt32} {current : UInt8}
    (h : writeU8 bitmap idx current = some bitmap') :
    bitmap[idx.toNat / 8]? = some current ∧ bitmap' = set bitmap idx.toNat := by
  unfold writeU8 at h
  dsimp only at h
  rw [byte_index] at h
  split at h
  · next same =>
    cases h
    refine ⟨same, ?_⟩
    rw [ByteBitmap.set, List.set_eq_modify, indexToMask_eq]
    apply List.ext_getElem?
    intro j
    rw [List.getElem?_modify, List.getElem?_modify]
    by_cases at_byte : idx.toNat / 8 = j
    · subst at_byte
      simp [same]
    · simp [at_byte]
  · cases h

/-! ## Opening

`open` keeps the bits of an existing file and gives its instance at least as many chunks
not ready as the file has clear bits; from a truthful file it leaves a truthful one. -/

namespace ChunkMapFile

/-- A file whose bits tell the truth for `n` chunks: no bit past the chunks is set, and
the all-ready mark stands only on a bitmap with every chunk's bit set. -/
structure Truthful (n : Nat) (f : ChunkMapFile) : Prop where
  padding : ∀ i, n ≤ i → i < 8 * f.bitmap.length → test f.bitmap i = false
  allReady : f.header.allReady = MAGIC_ALL_READY → ∀ i < n, test f.bitmap i = true

end ChunkMapFile

theorem test_of_all_zero {bitmap : List UInt8} (zero : bitmap.all (· == 0) = true) (i : Nat) :
    test bitmap i = false := by
  unfold test
  cases found : bitmap[i / 8]? with
  | none => rfl
  | some b =>
    have isZero : b = 0 := by
      have mem := List.mem_of_getElem? found
      simpa using List.all_eq_true.mp zero b mem
    subst isZero
    simp

theorem readyCount_toNat (bitmap : List UInt8) :
    (readyCount bitmap).toNat = (bitmap.map countOnes).sum % 2 ^ 32 := by
  -- the loop adds to an accumulator; its value is the accumulator plus the ones, in `u32`
  have loop : ∀ (bytes : List UInt8) (acc : UInt32),
      (bytes.foldl (fun acc b => acc + (countOnes b).toUInt32) acc).toNat =
        (acc.toNat + (bytes.map countOnes).sum) % 2 ^ 32 := by
    intro bytes
    induction bytes with
    | nil =>
      intro acc
      simp [Nat.mod_eq_of_lt (UInt32.toNat_lt acc)]
    | cons b bytes ih =>
      intro acc
      rw [List.foldl_cons, ih, UInt32.toNat_add, Nat.toUInt32, UInt32.toNat_ofNat']
      simp only [List.map_cons, List.sum_cons]
      omega
  unfold readyCount
  rw [loop]
  simp

/-- What `openFile` goes on with: the file as it was, or a new header over clear bits. -/
theorem openFile_spec {file : Option ChunkMapFile} {size : Nat} {create : Bool}
    {f : ChunkMapFile} {newContent : Bool} (h : openFile file size create = .ok (f, newContent)) :
    f.bitmap.length = size ∧ (∀ g, file = some g → f.bitmap = g.bitmap) ∧
      ((file = some f ∧ newContent = false) ∨
        (f.header = newHeader ∧ newContent = true ∧ ∀ i, test f.bitmap i = false)) := by
  unfold openFile at h
  split at h
  · split at h
    · cases h
      refine ⟨List.length_replicate, ?_, Or.inr ⟨rfl, rfl, ?_⟩⟩
      · intro g empty
        cases empty
      · intro i
        exact test_of_all_zero (by simp) i
    · cases h
  · next g =>
    split at h
    · cases h
    · next sized =>
      have sized : g.bitmap.length = size := by simpa using sized
      split at h
      · cases h
      · split at h
        · cases h
          exact ⟨sized, fun g' same => by cases same; rfl, .inl ⟨rfl, rfl⟩⟩
        · split at h
          · next zero =>
            cases h
            exact ⟨sized, fun g' same => by cases same; rfl, .inr ⟨rfl, rfl, test_of_all_zero zero.2⟩⟩
          · cases h

variable {n : Nat}

/-- The ones `open` counts in a truthful file of the right size are its set bits below `n`. -/
theorem readyCount_truthful {f : ChunkMapFile} (truthful : f.Truthful n)
    (sized : f.bitmap.length = divRoundUp n 8) :
    (readyCount f.bitmap).toNat = (List.range n).countP (test f.bitmap) ∨ 2 ^ 32 ≤ n := by
  have room : n ≤ 8 * f.bitmap.length := by
    rw [sized, divRoundUp]
    omega
  rw [readyCount_toNat, sum_countOnes, countP_test_of_clear_above room truthful.padding]
  by_cases big : 2 ^ 32 ≤ n
  · exact .inr big
  · have below : (List.range n).countP (test f.bitmap) ≤ n := by
      simpa using List.countP_le_length (l := List.range n)
    exact .inl (Nat.mod_eq_of_lt (by omega))

/-- `settle` leaves a truthful file and an instance counting at least the clear bits. -/
theorem settle_spec {f : ChunkMapFile} {c : UInt32} {newContent : Bool}
    (truthful : f.Truthful c.toNat) (sized : f.bitmap.length = divRoundUp c.toNat 8) :
    (settle f c newContent).1.Truthful c.toNat ∧ (settle f c newContent).1.bitmap = f.bitmap ∧
      (settle f c newContent).2.count = c ∧
      clearCount (settle f c newContent).1.bitmap c.toNat ≤ (settle f c newContent).2.notReadyCount.toNat := by
  have total := clearCount_add_countP f.bitmap c.toNat
  unfold settle
  split
  · next marked =>
    -- the mark tells the truth: no chunk is clear
    have none : clearCount f.bitmap c.toNat = 0 := by
      rw [clearCount, List.countP_eq_zero]
      intro i mem
      simp [truthful.allReady marked i (List.mem_range.mp mem)]
    exact ⟨truthful, rfl, rfl, by simp [none]⟩
  · split
    · exact ⟨truthful, rfl, rfl, by simp only; omega⟩
    · dsimp only
      have lt32 : c.toNat < 2 ^ 32 := UInt32.toNat_lt c
      have ones : (readyCount f.bitmap).toNat = (List.range c.toNat).countP (test f.bitmap) := by
        rcases readyCount_truthful truthful sized with ones | big
        · exact ones
        · omega
      split
      · next reached =>
        have reached : c.toNat ≤ (readyCount f.bitmap).toNat := reached
        have none : clearCount f.bitmap c.toNat = 0 := by omega
        refine ⟨⟨truthful.padding, fun _ i lt => test_of_clearCount_eq_zero none lt⟩, rfl, rfl, ?_⟩
        simp [none]
      · next short =>
        have short : (readyCount f.bitmap).toNat < c.toNat := by
          simpa [UInt32.le_iff_toNat_le] using short
        refine ⟨truthful, rfl, rfl, ?_⟩
        simp only
        rw [UInt32.toNat_sub_of_le _ _ (UInt32.le_iff_toNat_le.mpr (by omega))]
        omega

/-- What `open` does to the shared file and the instance it returns. -/
theorem openMap_spec {file : Option ChunkMapFile} {c : UInt32} {create : Bool}
    {f : ChunkMapFile} {m : PersistMap} (truthful : ∀ g, file = some g → g.Truthful c.toNat)
    (h : PersistMap.openMap file c create = .ok (f, m)) :
    f.Truthful c.toNat ∧ f.bitmap.length = divRoundUp c.toNat 8 ∧
      (∀ g, file = some g → f.bitmap = g.bitmap) ∧ m.count = c ∧
      clearCount f.bitmap c.toNat ≤ m.notReadyCount.toNat := by
  unfold PersistMap.openMap at h
  split at h
  · cases h
  · obtain ⟨⟨f₁, newContent⟩, opened, h⟩ := Except.bind_eq_ok.mp h
    obtain ⟨sized, kept, origin⟩ := openFile_spec opened
    -- the file `open` goes on with tells the truth
    have truthful₁ : f₁.Truthful c.toNat := by
      rcases origin with ⟨same, -⟩ | ⟨header, -, clear⟩
      · exact truthful f₁ same
      · refine ⟨fun i _ _ => clear i, fun marked => ?_⟩
        rw [header] at marked
        exact absurd marked (by decide)
    dsimp only at h
    split at h
    · split at h
      · cases h
      · injection h with settled
        obtain ⟨truthful', bits, count, counted⟩ := settle_spec truthful₁ sized
        rw [settled] at truthful' bits count counted
        refine ⟨truthful', by rw [bits]; exact sized, fun g same => by rw [bits]; exact kept g same,
          count, counted⟩
    · cases h
      refine ⟨truthful₁, sized, kept, rfl, ?_⟩
      have le : clearCount f.bitmap c.toNat ≤ (List.range c.toNat).length := List.countP_le_length
      simpa using le

/-! ## The invariant over every interleaving -/

/-- The threads of instance `k` that have swapped their bit and owe its decrement. -/
def owedBy (threads : List Thread) (k : Nat) : Nat :=
  threads.countP fun th => th.map == k && th.pc == .decrement

/-- What a thread of an instance for `n` chunks knows: a valid index until it returns, the
bit clear in the byte it holds, and the bit set once it has swapped. -/
def Thread.Ok (n : Nat) (bitmap : List UInt8) (th : Thread) : Prop :=
  match th.pc with
  | .load => th.index.toNat < n
  | .loaded current => th.index.toNat < n ∧ current.toNat.testBit (7 - th.index.toNat % 8) = false
  | .decrement => th.index.toNat < n ∧ test bitmap th.index.toNat = true
  | .done => test bitmap th.index.toNat = true
  | .failed => n ≤ th.index.toNat

/-- What holds of a world whose instances are all opened for `n` chunks: the file tells
the truth; every instance counts at least the clear bits and the decrements owed to it;
every thread knows what `Thread.Ok` says. -/
structure World.Inv (n : Nat) (w : World) : Prop where
  truthful : ∀ f, w.file = some f → f.Truthful n
  opened : w.maps ≠ [] → ∃ f, w.file = some f ∧ f.bitmap.length = divRoundUp n 8
  counts : ∀ k m, w.maps[k]? = some m →
    m.count.toNat = n ∧ clearCount w.bitmap n + owedBy w.threads k ≤ m.notReadyCount.toNat
  threads : ∀ th ∈ w.threads, th.map < w.maps.length ∧ th.Ok n w.bitmap

/-- An action that opens an instance opens it for `n` chunks. -/
def Action.OpensFor (n : Nat) : Action → Prop
  | .openMap chunkCount _ => chunkCount.toNat = n
  | _ => True

theorem Thread.Ok.mono {n : Nat} {b b' : List UInt8} {th : Thread}
    (grows : ∀ i, test b i = true → test b' i = true) (ok : th.Ok n b) : th.Ok n b' := by
  obtain ⟨map, index, pc⟩ := th
  cases pc with
  | load => exact ok
  | loaded current => exact ok
  | decrement =>
    obtain ⟨lt, set⟩ := ok
    exact ⟨lt, grows _ set⟩
  | done => exact grows _ ok
  | failed => exact ok

/-- Changing one thread's step changes its instance's owed decrements by what it owes. -/
theorem owedBy_set {threads : List Thread} {t : Nat} (lt : t < threads.length) (th' : Thread)
    (k : Nat) :
    owedBy (threads.set t th') k + (if threads[t].map == k && threads[t].pc == .decrement then 1 else 0) =
      owedBy threads k + (if th'.map == k && th'.pc == .decrement then 1 else 0) := by
  unfold owedBy
  rw [List.countP_set lt]
  by_cases owes : (threads[t].map == k && threads[t].pc == .decrement) = true
  · have pos : 0 < threads.countP fun th => th.map == k && th.pc == .decrement :=
      List.countP_pos_iff.mpr ⟨threads[t], List.getElem_mem lt, owes⟩
    rw [if_pos owes]
    omega
  · rw [if_neg owes]
    omega

theorem owedBy_append_fresh (threads : List Thread) (th : Thread) (fresh : th.pc ≠ .decrement)
    (k : Nat) : owedBy (threads ++ [th]) k = owedBy threads k := by
  simp [owedBy, List.countP_append, fresh]

/-- A thread's bit is in the bitmap of an opened file. -/
theorem byte_lt_length {n i : Nat} {bitmap : List UInt8} (sized : bitmap.length = divRoundUp n 8)
    (lt : i < n) : i / 8 < bitmap.length := by
  rw [sized, divRoundUp]
  omega

/-- Setting the bit of a chunk keeps a file truthful. -/
theorem ChunkMapFile.Truthful.set {n i : Nat} {f : ChunkMapFile} (truthful : f.Truthful n) (lt : i < n)
    (inRange : i / 8 < f.bitmap.length) : ({ f with bitmap := set f.bitmap i }).Truthful n := by
  constructor
  · intro j above inMap
    rw [length_set] at inMap
    have ne : j ≠ i := by omega
    simp [test_set inRange, ne, truthful.padding j above inMap]
  · intro marked j below
    simp [test_set inRange, truthful.allReady marked j below]

variable {n : Nat}

/-- Opening an instance for `n` chunks keeps the invariant. -/
theorem World.Inv.openMap {w : World} {c : UInt32} {create : Bool} (inv : w.Inv n) (count : c.toNat = n) :
    (w.step (.openMap c create)).Inv n := by
  simp only [World.step]
  split
  · next f m opened =>
    subst count
    obtain ⟨truthful, sized, kept, counted, atLeast⟩ := openMap_spec inv.truthful opened
    -- the bits of the file are those before; threads and instances before see no change
    have bits : ∀ th ∈ w.threads, th.Ok c.toNat f.bitmap := by
      intro th mem
      obtain ⟨hasMap, ok⟩ := inv.threads th mem
      obtain ⟨g, isG, -⟩ := inv.opened (List.ne_nil_of_length_pos (by omega))
      simpa [World.bitmap, isG, kept g isG] using ok
    constructor
    · intro g same
      cases same
      exact truthful
    · exact fun _ => ⟨f, rfl, sized⟩
    · intro k m' found
      rw [List.getElem?_append] at found
      split at found
      · next old =>
        obtain ⟨g, isG, -⟩ := inv.opened (List.ne_nil_of_length_pos (by omega))
        obtain ⟨mCount, bound⟩ := inv.counts k m' found
        refine ⟨mCount, ?_⟩
        simpa [World.bitmap, isG, kept g isG] using bound
      · next new =>
        rw [List.getElem?_singleton] at found
        split at found
        · next atEnd =>
          cases found
          -- no thread knows the new instance yet
          have none : owedBy w.threads k = 0 := by
            rw [owedBy, List.countP_eq_zero]
            intro th mem
            have := (inv.threads th mem).1
            simp only [Bool.and_eq_true, beq_iff_eq, not_and]
            omega
          refine ⟨congrArg UInt32.toNat counted, ?_⟩
          simpa [World.bitmap, none] using atLeast
        · cases found
    · intro th mem
      obtain ⟨hasMap, -⟩ := inv.threads th mem
      refine ⟨by simp; omega, ?_⟩
      simpa [World.bitmap] using bits th mem
  · exact inv

/-- A call of `set_chunk_ready` keeps the invariant. -/
theorem World.Inv.setChunkReady {w : World} {k : Nat} {index : UInt32} (inv : w.Inv n) :
    (w.step (.setChunkReady k index)).Inv n := by
  simp only [World.step]
  split
  · next m found =>
    obtain ⟨mCount, -⟩ := inv.counts k m found
    have hasMap : k < w.maps.length := (List.getElem?_eq_some_iff.mp found).1
    -- the new thread starts at the read, or has returned with an invalid index
    have fresh : (if m.validateIndex index then Pc.load else Pc.failed) ≠ .decrement := by
      split <;> simp
    refine ⟨inv.truthful, inv.opened, ?_, ?_⟩
    · intro k' m' found'
      obtain ⟨count, bound⟩ := inv.counts k' m' found'
      exact ⟨count, by rwa [owedBy_append_fresh _ _ fresh]⟩
    · intro th mem
      rcases List.mem_append.mp mem with old | new
      · exact inv.threads th old
      · rw [List.mem_singleton] at new
        subst new
        refine ⟨hasMap, ?_⟩
        by_cases valid : m.validateIndex index = true
        · have lt : index.toNat < m.count.toNat := by
            simpa [PersistMap.validateIndex, UInt32.lt_iff_toNat_lt] using valid
          simp only [Thread.Ok, valid, if_true]
          omega
        · have le : m.count.toNat ≤ index.toNat := by
            simpa [PersistMap.validateIndex, UInt32.lt_iff_toNat_lt] using valid
          simp only [Thread.Ok, valid, if_false, Bool.false_eq_true]
          omega
  · exact inv

/-- The world after a thread's step. -/
theorem step_thread {w : World} {t : Nat} {th : Thread} {f : ChunkMapFile} {m : PersistMap}
    (hth : w.threads[t]? = some th) (hf : w.file = some f) (hm : w.maps[th.map]? = some m) :
    w.step (.step t) = ⟨some { f with bitmap := (threadStep f.bitmap m th).1 },
      w.maps.set th.map (threadStep f.bitmap m th).2.1,
      w.threads.set t { th with pc := (threadStep f.bitmap m th).2.2 }⟩ := by
  simp [World.step, hth, hf, hm]

/-- The bookkeeping of one thread's step: the invariant holds after it when the bitmap only
grows and stays truthful, its clear bits do not grow, and the thread's instance loses no
more of its count than the clear bits and the owed decrements lose together. -/
theorem World.Inv.update {w : World} {t : Nat} {th : Thread} {f : ChunkMapFile} {m m' : PersistMap}
    {b' : List UInt8} {pc' : Pc} (inv : w.Inv n) (hth : w.threads[t]? = some th)
    (hf : w.file = some f) (hm : w.maps[th.map]? = some m)
    (truthful : ({ f with bitmap := b' }).Truthful n) (sized : b'.length = f.bitmap.length)
    (grows : ∀ i, test f.bitmap i = true → test b' i = true)
    (fewer : clearCount b' n ≤ clearCount f.bitmap n) (count : m'.count = m.count)
    (balance : clearCount b' n + (if pc' == .decrement then 1 else 0) + m.notReadyCount.toNat ≤
      clearCount f.bitmap n + (if th.pc == .decrement then 1 else 0) + m'.notReadyCount.toNat)
    (ok : Thread.Ok n b' { th with pc := pc' }) :
    World.Inv n ⟨some { f with bitmap := b' }, w.maps.set th.map m',
      w.threads.set t { th with pc := pc' }⟩ := by
  obtain ⟨lt, isTh⟩ := List.getElem?_eq_some_iff.mp hth
  have hasMap : th.map < w.maps.length := (List.getElem?_eq_some_iff.mp hm).1
  have bitmap : w.bitmap = f.bitmap := by simp [World.bitmap, hf]
  constructor
  · intro g same
    cases same
    exact truthful
  · intro _
    obtain ⟨g, isG, sizedG⟩ := inv.opened (List.ne_nil_of_length_pos (by omega))
    rw [hf] at isG
    cases isG
    exact ⟨_, rfl, by rw [sized, sizedG]⟩
  · intro k mk found
    -- the owed decrements of `k` change only by what the stepping thread owes
    have owed := owedBy_set lt { th with pc := pc' } k
    rw [isTh] at owed
    rw [List.getElem?_set] at found
    simp only [World.bitmap, Option.map_some, Option.getD_some]
    by_cases same : th.map = k
    · subst same
      simp only [hasMap, if_true, Option.some.injEq] at found
      subst found
      obtain ⟨mCount, bound⟩ := inv.counts th.map m hm
      rw [bitmap] at bound
      simp only [beq_self_eq_true, Bool.true_and] at owed
      refine ⟨by rw [count]; exact mCount, ?_⟩
      omega
    · simp only [same, if_false] at found
      obtain ⟨kCount, bound⟩ := inv.counts k mk found
      rw [bitmap] at bound
      have notK : (th.map == k) = false := by simpa using same
      simp only [notK, Bool.false_and] at owed
      exact ⟨kCount, by omega⟩
  · intro th' mem
    obtain ⟨i, iLt, at_i⟩ := List.getElem_of_mem mem
    rw [List.length_set] at iLt
    rw [List.getElem_set] at at_i
    simp only [World.bitmap, Option.map_some, Option.getD_some, List.length_set]
    split at at_i
    · subst at_i
      exact ⟨hasMap, ok⟩
    · obtain ⟨hasMap', ok'⟩ := inv.threads th' (at_i ▸ List.getElem_mem iLt)
      rw [bitmap] at ok'
      exact ⟨hasMap', ok'.mono grows⟩

/-- A thread's step keeps the invariant. -/
theorem World.Inv.step {w : World} {t : Nat} (inv : w.Inv n) : (w.step (.step t)).Inv n := by
  cases hth : w.threads[t]? with
  | none => simpa [World.step, hth] using inv
  | some th =>
    cases hf : w.file with
    | none => simpa [World.step, hth, hf] using inv
    | some f =>
      cases hm : w.maps[th.map]? with
      | none => simpa [World.step, hth, hf, hm] using inv
      | some m =>
        rw [step_thread hth hf hm]
        have mem : th ∈ w.threads := List.mem_of_getElem? hth
        obtain ⟨hasMap, ok⟩ := inv.threads th mem
        obtain ⟨mCount, bound⟩ := inv.counts th.map m hm
        obtain ⟨g, isG, sized⟩ := inv.opened (List.ne_nil_of_length_pos (by omega))
        rw [hf] at isG
        cases isG
        have truthful : f.Truthful n := inv.truthful f hf
        have bitmap : w.bitmap = f.bitmap := by simp [World.bitmap, hf]
        rw [bitmap] at ok bound
        cases hpc : th.pc with
        | load =>
          -- the read: the bit decides between returning and holding the byte
          have lt : th.index.toNat < n := by simpa [Thread.Ok, hpc] using ok
          have inRange := byte_lt_length sized lt
          have stepped : threadStep f.bitmap m th = (f.bitmap, m,
              if (isChunkReady f.bitmap th.index).1 then .done
              else .loaded (isChunkReady f.bitmap th.index).2) := by
            simp [threadStep, hpc]
          rw [stepped]
          apply inv.update hth hf hm truthful rfl (fun _ h => h) le_rfl rfl
            (by split <;> simp [hpc])
          by_cases ready : (isChunkReady f.bitmap th.index).1 = true
          · rw [isChunkReady_fst inRange] at ready
            simp [isChunkReady_fst inRange, ready, Thread.Ok]
          · have notReady : (isChunkReady f.bitmap th.index).1 = false := by simpa using ready
            simp only [notReady, Bool.false_eq_true, if_false, Thread.Ok]
            exact ⟨lt, isChunkReady_snd_clear inRange notReady⟩
        | loaded current =>
          obtain ⟨lt, clearIn⟩ : th.index.toNat < n ∧
              current.toNat.testBit (7 - th.index.toNat % 8) = false := by
            simpa [Thread.Ok, hpc] using ok
          have inRange := byte_lt_length sized lt
          cases swap : writeU8 f.bitmap th.index current with
          | some b' =>
            -- the swap sets the clear bit of the index, and the thread owes a decrement
            obtain ⟨byte, rfl⟩ := writeU8_eq_some swap
            have clear : test f.bitmap th.index.toNat = false := by
              simpa [test, byte] using clearIn
            have taken := clearCount_set inRange clear lt
            apply inv.update hth hf hm
            · simpa [threadStep, hpc, swap] using truthful.set lt inRange
            · simp [threadStep, hpc, swap, length_set]
            · intro i set
              simp [threadStep, hpc, swap, test_set inRange, set]
            · simp only [threadStep, hpc, swap]
              omega
            · simp [threadStep, hpc, swap]
            · simp only [threadStep, hpc, swap]
              simp
              omega
            · simp only [threadStep, hpc, swap, Thread.Ok]
              exact ⟨lt, by simp [test_set inRange]⟩
          | none =>
            apply inv.update hth hf hm
            · simpa [threadStep, hpc, swap] using truthful
            · simp [threadStep, hpc, swap]
            · simp [threadStep, hpc, swap]
            · simp [threadStep, hpc, swap]
            · simp [threadStep, hpc, swap]
            · simp [threadStep, hpc, swap]
            · simpa [threadStep, hpc, swap, Thread.Ok] using lt
        | decrement =>
          -- the decrement finds the count above zero: the thread's own swap is in it
          obtain ⟨lt, set⟩ : th.index.toNat < n ∧ test f.bitmap th.index.toNat = true := by
            simpa [Thread.Ok, hpc] using ok
          have owes : 1 ≤ owedBy w.threads th.map :=
            List.countP_pos_iff.mpr ⟨th, mem, by simp [hpc]⟩
          have pos : 1 ≤ m.notReadyCount.toNat := by omega
          have lowered : (m.notReadyCount - 1).toNat = m.notReadyCount.toNat - 1 :=
            UInt32.toNat_sub_of_le _ _ (UInt32.le_iff_toNat_le.mpr (by simpa using pos))
          apply inv.update hth hf hm
          · simpa [threadStep, hpc] using truthful
          · simp [threadStep, hpc]
          · simp [threadStep, hpc]
          · simp [threadStep, hpc]
          · simp [threadStep, hpc]
          · simp only [threadStep, hpc, lowered]
            simp
            omega
          · simpa [threadStep, hpc, Thread.Ok] using set
        | done =>
          apply inv.update hth hf hm
          · simpa [threadStep, hpc] using truthful
          all_goals simp [threadStep, hpc]
          simpa [Thread.Ok, hpc] using ok
        | failed =>
          apply inv.update hth hf hm
          · simpa [threadStep, hpc] using truthful
          all_goals simp [threadStep, hpc]
          simpa [Thread.Ok, hpc] using ok

/-- The invariant holds after every interleaving whose opens are for `n` chunks. -/
theorem World.Inv.run {w : World} {trace : List Action} (inv : w.Inv n)
    (opens : ∀ a ∈ trace, a.OpensFor n) : (Run.run World.step w trace).Inv n := by
  apply Run.invariant _ inv opens
  intro w a inv opensFor
  cases a with
  | openMap c create => exact inv.openMap opensFor
  | setChunkReady k index => exact inv.setChunkReady
  | step t => exact inv.step

/-- A world with a truthful file and nothing opened yet. -/
theorem World.Inv.initial {f₀ : Option ChunkMapFile} (truthful : ∀ f, f₀ = some f → f.Truthful n) :
    World.Inv n ⟨f₀, [], []⟩ :=
  ⟨truthful, fun empty => (empty rfl).elim, fun _ _ found => (nomatch found),
    fun _ mem => (nomatch mem)⟩

theorem persistMap_counts {f₀ : Option ChunkMapFile} (truthful : ∀ f, f₀ = some f → f.Truthful n)
    {trace : List Action} (opens : ∀ a ∈ trace, a.OpensFor n) :
    let w := Run.run World.step ⟨f₀, [], []⟩ trace
    (∀ m ∈ w.maps, clearCount w.bitmap n ≤ m.notReadyCount.toNat ∧
        (m.isRangeAllReady = true → ∀ i < n, w.isReady i = true)) ∧
      (∀ th ∈ w.threads, th.pc = .decrement →
        ∃ m, w.maps[th.map]? = some m ∧ 1 ≤ m.notReadyCount.toNat) ∧
      (∀ th ∈ w.threads, th.pc = .done → w.isReady th.index.toNat = true) := by
  intro w
  have inv : w.Inv n := (World.Inv.initial truthful).run opens
  refine ⟨?_, ?_, ?_⟩
  · intro m mem
    obtain ⟨k, kLt, at_k⟩ := List.getElem_of_mem mem
    obtain ⟨-, bound⟩ := inv.counts k m (by rw [← at_k]; exact List.getElem?_eq_getElem kLt)
    refine ⟨by omega, fun allReady i lt => ?_⟩
    -- a zero count leaves no clear bit
    have zero : m.notReadyCount.toNat = 0 := by
      simpa [PersistMap.isRangeAllReady] using congrArg UInt32.toNat (beq_iff_eq.mp allReady)
    exact test_of_clearCount_eq_zero (by omega) lt
  · intro th mem owing
    obtain ⟨hasMap, -⟩ := inv.threads th mem
    obtain ⟨m, found⟩ : ∃ m, w.maps[th.map]? = some m :=
      ⟨_, List.getElem?_eq_getElem hasMap⟩
    obtain ⟨-, bound⟩ := inv.counts th.map m found
    have owes : 1 ≤ owedBy w.threads th.map :=
      List.countP_pos_iff.mpr ⟨th, mem, by simp [owing]⟩
    exact ⟨m, found, by omega⟩
  · intro th mem finished
    obtain ⟨-, ok⟩ := inv.threads th mem
    simpa [Thread.Ok, finished, World.isReady] using ok

/-- An interleaving on a new file: one instance for one chunk, and a call that runs to its
end. -/
def oneChunkTrace : List Action :=
  [.openMap 1 true, .setChunkReady 0 0, .step 0, .step 0, .step 0]

theorem persistMap_counts_oneChunk :
    (∀ f, (none : Option ChunkMapFile) = some f → f.Truthful 1) ∧
      (∀ a ∈ oneChunkTrace, a.OpensFor 1) ∧
      let w := Run.run World.step ⟨none, [], []⟩ oneChunkTrace
      (∀ m ∈ w.maps, clearCount w.bitmap 1 ≤ m.notReadyCount.toNat ∧
          (m.isRangeAllReady = true → ∀ i < 1, w.isReady i = true)) ∧
        (∀ th ∈ w.threads, th.pc = .decrement →
          ∃ m, w.maps[th.map]? = some m ∧ 1 ≤ m.notReadyCount.toNat) ∧
        (∀ th ∈ w.threads, th.pc = .done → w.isReady th.index.toNat = true) :=
  have truthful : ∀ f, (none : Option ChunkMapFile) = some f → f.Truthful 1 :=
    fun _ none => nomatch none
  have opens : ∀ a ∈ oneChunkTrace, a.OpensFor 1 := by simp [oneChunkTrace, Action.OpensFor]
  ⟨truthful, opens, persistMap_counts truthful opens⟩

/-! ## Padding bits

The bitmap has a whole byte for the last chunks, and `open` counts the ones of every
byte. -/

/-- A file for one chunk, version 1, whose byte has the chunk's bit clear and the seven
padding bits after it set. -/
def paddedFile : ChunkMapFile := ⟨⟨MAGIC1, 1, MAGIC2, 0⟩, [0x7f]⟩

/-- Opened on `paddedFile` (with `create`, as only then does the mapping succeed), an
instance reads all ready while its chunk is not, and the chunk's `set_chunk_ready` wraps its
count to `u32::MAX`. -/
theorem persistMap_padding_miscount :
    let opened := Run.run World.step ⟨some paddedFile, [], []⟩ [.openMap 1 true]
    (opened.maps.map PersistMap.isRangeAllReady = [true] ∧ opened.isReady 0 = false) ∧
      (Run.run World.step ⟨some paddedFile, [], []⟩
        [.openMap 1 true, .setChunkReady 0 0, .step 0, .step 0, .step 0]).maps =
        [⟨1, 0xFFFF_FFFF⟩] := by
  decide

end Nydus
