import Mathlib
import Nydus.Cache.PersistMap
import Nydus.Storage.MetaHeader

/-!
# The range map of a blob cache

`BlobRangeMap` (`storage/src/cache/state/range_map.rs`) tracks the cached data of a blob in
blocks of `2 ^ shift` bytes, one bit per block in a `PersistMap`. `get_range` turns a byte
range into the range of the blocks it touches, checked against the map's block count, and the
queries of `RangeMap` walk those blocks.

For a non-empty byte range within `u64`, `get_range` succeeds exactly when every block the range
touches is in the map, and returns exactly those blocks (`getRange_ok_iff`,
`mem_getRange_iff`); `is_range_ready` then says whether all of them are set
(`isRangeReady_iff`). An empty range is another matter. Its last byte is taken as `end - 1`,
which underflows at `start = 0`, and which otherwise lies before `start`: an empty range at an
unaligned start covers the block of its start.

`IndexedChunkMap` (`indexed_chunk_map.rs`) is the range map of a chunk cache, one bit per
chunk, and answers the same queries by chunk index with two loops of its own. Inside the map
they read the same bits (`rangeQueries_of_within`). Only `is_range_ready` validates the indexes,
though: across the end of the map `check_range_ready_and_mark_pending` reads the padding bits
of the last byte, and then past the bitmap, where it panics.
-/

namespace Nydus

open PersistMap Storage

/-- The errors of the range queries: `einval!` for a range past `u64` or past the `u32`
indexes, the error of `validate_index`, the panic of a debug build on `end - 1`, and the panic
of a read past the mapped bitmap. -/
inductive RangeError where
  | invalidRange
  /-- `"chunk index {} exceeds chunk count {}"`. -/
  | indexExceeds (index count : Nat)
  /-- `attempt to subtract with overflow`. -/
  | overflow
  /-- `called Result::unwrap() on an Err value`: a byte read past the mapped file. -/
  | unwrapPanic
deriving DecidableEq, Repr

/-- A `u64` subtraction: a debug build panics below zero, a release build wraps. -/
def sub64 (build : Build) (a b : Nat) : Except RangeError Nat :=
  if b ≤ a then .ok (a - b)
  else match build with
    | .debug => .error .overflow
    | .release => .ok (a + U64_LIMIT - b)

/-- `BlobRangeMap`: the block shift, below 64 as `new` and `open` assert, and the map. -/
structure BlobRangeMap where
  shift : Nat
  shiftLt : shift < 64
  map : PersistMap

/-- Some byte of `[start, start + len)` lies in block `i` of `2 ^ shift` bytes. -/
def Touches (shift start len i : Nat) : Prop :=
  ∃ b, start ≤ b ∧ b < start + len ∧ b >>> shift = i

/-- An index below the chunk count passes `validate_index`. -/
theorem PersistMap.validateIndex_ofNat {m : PersistMap} {idx : Nat} (lt : idx < m.count.toNat) :
    m.validateIndex (UInt32.ofNat idx) = true := by
  have exact : (UInt32.ofNat idx).toNat = idx :=
    UInt32.toNat_ofNat_of_lt' (lt_trans lt m.count.toNat_lt)
  exact decide_eq_true (UInt32.lt_iff_toNat_lt.mpr (by rw [exact]; exact lt))

namespace BlobRangeMap

/-- `validate_index` on a block index that fits `u32`. -/
def validateIndex (m : BlobRangeMap) (idx : Nat) : Except RangeError Unit :=
  if m.map.validateIndex (UInt32.ofNat idx) then .ok () else .error (.indexExceeds idx m.map.count.toNat)

/-- `get_range`: the first and one past the last block of `[start, start + count)`. -/
def getRange (build : Build) (m : BlobRangeMap) (start count : UInt64) :
    Except RangeError (UInt32 × UInt32) :=
  match checkedAdd start.toNat count.toNat with
  | none => .error .invalidRange
  | some end_ => do
    let last ← sub64 build end_ 1
    let startIndex := start.toNat >>> m.shift
    let endIndex := last >>> m.shift
    if startIndex > 0xffff_ffff ∨ endIndex > 0xffff_ffff then .error .invalidRange
    else do
      m.validateIndex startIndex
      m.validateIndex endIndex
      .ok (UInt32.ofNat startIndex, UInt32.ofNat endIndex + 1)

/-- `is_range_ready` over the bitmap of the map's file: every block of the range set, unless
the map counts no block left to fetch. -/
def isRangeReady (build : Build) (m : BlobRangeMap) (bitmap : List UInt8) (start count : UInt64) :
    Except RangeError Bool :=
  if !m.map.isRangeAllReady then do
    let (s, e) ← m.getRange build start count
    .ok ((List.range' s.toNat (e.toNat - s.toNat)).all fun i => (isChunkReady bitmap (UInt32.ofNat i)).1)
  else .ok true

/-! ## Blocks of a non-empty range -/

/-- The blocks a non-empty range touches run from the block of its first byte to the block of
its last. -/
theorem touches_iff {shift start len i : Nat} (pos : 0 < len) :
    Touches shift start len i ↔ start >>> shift ≤ i ∧ i ≤ (start + len - 1) >>> shift := by
  have block := Nat.two_pow_pos shift
  simp only [Touches, Nat.shiftRight_eq_div_pow]
  constructor
  · rintro ⟨b, lo, hi, rfl⟩
    exact ⟨Nat.div_le_div_right lo, Nat.div_le_div_right (by omega)⟩
  -- the first byte of the range in the block: its start, or the block's own start
  · rintro ⟨lo, hi⟩
    rw [Nat.le_div_iff_mul_le block] at hi
    have startBelow : start < (i + 1) * 2 ^ shift := by
      rw [← Nat.div_lt_iff_lt_mul block]
      omega
    refine ⟨max start (i * 2 ^ shift), le_max_left _ _, by omega, ?_⟩
    apply Nat.div_eq_of_lt_le
    · exact le_max_right _ _
    · have expand : (i + 1) * 2 ^ shift = i * 2 ^ shift + 2 ^ shift := Nat.add_one_mul _ _
      omega

variable {build : Build} {m : BlobRangeMap} {start count : UInt64}

theorem validateIndex_of_lt {idx : Nat} (lt : idx < m.map.count.toNat) : m.validateIndex idx = .ok () := by
  rw [validateIndex, if_pos (PersistMap.validateIndex_ofNat lt)]

theorem lt_of_validateIndex {idx : Nat} (small : idx ≤ 0xffff_ffff) (valid : m.validateIndex idx = .ok ()) :
    idx < m.map.count.toNat := by
  have exact : (UInt32.ofNat idx).toNat = idx :=
    UInt32.toNat_ofNat_of_lt' (lt_of_le_of_lt small (by decide))
  unfold validateIndex at valid
  split at valid
  · next checked =>
    simpa [PersistMap.validateIndex, UInt32.lt_iff_toNat_lt, exact] using checked
  · cases valid

/-- A non-empty range within `u64` whose last block is in the map: its first block and one
past its last. -/
theorem getRange_of_within (pos : 0 < count.toNat) (fits : start.toNat + count.toNat < U64_LIMIT)
    (inMap : (start.toNat + count.toNat - 1) >>> m.shift < m.map.count.toNat) :
    m.getRange build start count = .ok (UInt32.ofNat (start.toNat >>> m.shift),
      UInt32.ofNat ((start.toNat + count.toNat - 1) >>> m.shift) + 1) := by
  have first : start.toNat >>> m.shift ≤ (start.toNat + count.toNat - 1) >>> m.shift := by
    simp only [Nat.shiftRight_eq_div_pow]
    exact Nat.div_le_div_right (by omega)
  have countSmall := m.map.count.toNat_lt
  unfold getRange
  rw [checkedAdd, if_pos fits]
  simp only [sub64, if_pos (show 1 ≤ start.toNat + count.toNat by omega), Except.ok_bind]
  rw [if_neg (by omega), validateIndex_of_lt (by omega), validateIndex_of_lt inMap]
  rfl

/-- What a `get_range` that succeeds on a non-empty range says: the range is within `u64`
and its last block in the map. -/
theorem getRange_ok_cases (pos : 0 < count.toNat) {s e : UInt32}
    (ok : m.getRange build start count = .ok (s, e)) :
    start.toNat + count.toNat < U64_LIMIT ∧
      (start.toNat + count.toNat - 1) >>> m.shift < m.map.count.toNat := by
  unfold getRange at ok
  by_cases fits : start.toNat + count.toNat < U64_LIMIT
  · refine ⟨fits, ?_⟩
    rw [checkedAdd, if_pos fits] at ok
    simp only [sub64, if_pos (show 1 ≤ start.toNat + count.toNat by omega), Except.ok_bind] at ok
    split at ok
    · cases ok
    -- both indexes fit `u32`, and the last passed `validate_index`
    · next small =>
      obtain ⟨_, -, rest⟩ := Except.bind_eq_ok.mp ok
      obtain ⟨_, valid, -⟩ := Except.bind_eq_ok.mp rest
      exact lt_of_validateIndex (by omega) valid
  · rw [checkedAdd, if_neg fits] at ok
    cases ok

/-- The last block of a non-empty range is one it touches. -/
theorem touches_last {shift start len : Nat} (pos : 0 < len) :
    Touches shift start len ((start + len - 1) >>> shift) := by
  rw [touches_iff pos]
  refine ⟨?_, le_refl _⟩
  simp only [Nat.shiftRight_eq_div_pow]
  exact Nat.div_le_div_right (by omega)

/-- `get_range` succeeds on a non-empty range exactly when the range is within `u64` and every
block it touches is in the map. -/
theorem getRange_ok_iff (pos : 0 < count.toNat) :
    (∃ s e, m.getRange build start count = .ok (s, e)) ↔
      start.toNat + count.toNat < U64_LIMIT ∧
        ∀ i, Touches m.shift start.toNat count.toNat i → i < m.map.count.toNat := by
  constructor
  · rintro ⟨s, e, ok⟩
    obtain ⟨fits, inMap⟩ := getRange_ok_cases pos ok
    refine ⟨fits, fun i touched => ?_⟩
    have within := (touches_iff pos).mp touched
    omega
  · rintro ⟨fits, inMap⟩
    exact ⟨_, _, getRange_of_within pos fits (inMap _ (touches_last pos))⟩

/-- The blocks `get_range` returns for a non-empty range are exactly those the range
touches. -/
theorem mem_getRange_iff (pos : 0 < count.toNat) {s e : UInt32}
    (ok : m.getRange build start count = .ok (s, e)) (i : Nat) :
    (s.toNat ≤ i ∧ i < e.toNat) ↔ Touches m.shift start.toNat count.toNat i := by
  obtain ⟨fits, inMap⟩ := getRange_ok_cases pos ok
  have first := (touches_iff pos).mp (@touches_last m.shift start.toNat _ pos)
  have countSmall := m.map.count.toNat_lt
  rw [getRange_of_within pos fits inMap, Except.ok.injEq, Prod.mk.injEq] at ok
  obtain ⟨rfl, rfl⟩ := ok
  have last : (UInt32.ofNat ((start.toNat + count.toNat - 1) >>> m.shift)).toNat =
      (start.toNat + count.toNat - 1) >>> m.shift := UInt32.toNat_ofNat_of_lt' (by simp only [UInt32.size]; omega)
  have firstNat : (UInt32.ofNat (start.toNat >>> m.shift)).toNat = start.toNat >>> m.shift :=
    UInt32.toNat_ofNat_of_lt' (by simp only [UInt32.size]; omega)
  rw [UInt32.toNat_add, last, firstNat, UInt32.toNat_one, Nat.mod_eq_of_lt (by omega), touches_iff pos]
  omega

/-- `is_range_ready` on a non-empty range `get_range` accepts, with blocks still to fetch: true
exactly when the bit of every block the range touches is set. -/
theorem isRangeReady_iff (pos : 0 < count.toNat) (fetching : m.map.isRangeAllReady = false)
    {bitmap : List UInt8} {s e : UInt32} (ok : m.getRange build start count = .ok (s, e)) :
    m.isRangeReady build bitmap start count = .ok true ↔
      ∀ i, Touches m.shift start.toNat count.toNat i → (isChunkReady bitmap (UInt32.ofNat i)).1 = true := by
  simp only [isRangeReady, fetching, Bool.not_false, if_true, ok, Except.ok_bind, Except.ok.injEq,
    List.all_eq_true, List.mem_range'_1]
  constructor
  · intro all i touched
    have inRange := (mem_getRange_iff pos ok i).mpr touched
    exact all i ⟨inRange.1, by omega⟩
  · intro all i inRange
    exact all i ((mem_getRange_iff pos ok i).mp ⟨inRange.1, by omega⟩)

/-! ## Empty ranges -/

/-- Eight blocks of 4 KiB, none fetched yet. -/
def freshRangeMap : BlobRangeMap := ⟨12, by decide, ⟨8, 8⟩⟩

/-- A read of `0x2000` bytes at `0x1800` of that map touches blocks 1 to 3, and is ready when
their bits are. -/
theorem getRange_fresh :
    freshRangeMap.getRange .debug 0x1800 0x2000 = .ok (1, 4) ∧
    ((∃ s e, freshRangeMap.getRange .debug 0x1800 0x2000 = .ok (s, e)) ↔
      0x1800 + 0x2000 < U64_LIMIT ∧ ∀ i, Touches 12 0x1800 0x2000 i → i < 8) ∧
    (∀ i, (1 ≤ i ∧ i < 4) ↔ Touches 12 0x1800 0x2000 i) ∧
    (freshRangeMap.isRangeReady .debug [0x0e] 0x1800 0x2000 = .ok true ↔
      ∀ i, Touches 12 0x1800 0x2000 i → (isChunkReady [0x0e] (UInt32.ofNat i)).1 = true) :=
  have ok : freshRangeMap.getRange .debug 0x1800 0x2000 = .ok (1, 4) := by decide
  ⟨ok, getRange_ok_iff (by decide), mem_getRange_iff (by decide) ok,
    isRangeReady_iff (by decide) (by decide) ok⟩

theorem getRange_empty_range :
    freshRangeMap.getRange .debug 0 0 = .error .overflow ∧
    freshRangeMap.getRange .release 1 0 = .ok (0, 1) ∧
    (¬∃ i, Touches 12 1 0 i) ∧
    freshRangeMap.isRangeReady .release [0] 1 0 = .ok false := by
  refine ⟨by decide, by decide, ?_, by decide⟩
  rintro ⟨i, b, lo, hi, -⟩
  omega

end BlobRangeMap

/-! ## The chunk map as a range map -/

namespace IndexedChunkMap

/-- The loop of `is_range_ready`: for each offset into the range, `checked_add` on `u32`, then
`validate_index`, then the bit of the chunk. -/
def isRangeReadyLoop (m : PersistMap) (bitmap : List UInt8) (startIndex : Nat) :
    List Nat → Except RangeError Bool
  | [] => .ok true
  | idx :: rest =>
    let index := startIndex + idx
    if index > 0xffff_ffff then .error .invalidRange
    else if !m.validateIndex (UInt32.ofNat index) then .error (.indexExceeds index m.count.toNat)
    else if !(isChunkReady bitmap (UInt32.ofNat index)).1 then .ok false
    else isRangeReadyLoop m bitmap startIndex rest

/-- `is_range_ready` of `IndexedChunkMap`. -/
def isRangeReady (m : PersistMap) (bitmap : List UInt8) (startIndex count : UInt32) :
    Except RangeError Bool :=
  if !m.isRangeAllReady then isRangeReadyLoop m bitmap startIndex.toNat (List.range count.toNat)
  else .ok true

/-- `is_chunk_ready` on the mapped file, with no `validate_index`: the byte must lie in the
file, or `get_ref(..).unwrap()` panics. -/
def readReady (bitmap : List UInt8) (index : Nat) : Except RangeError Bool :=
  if index / 8 < bitmap.length then .ok (isChunkReady bitmap (UInt32.ofNat index)).1
  else .error .unwrapPanic

/-- The loop of `check_range_ready_and_mark_pending`: the indexes not ready, in order. -/
def pendingLoop (bitmap : List UInt8) : List Nat → Except RangeError (List UInt32)
  | [] => .ok []
  | index :: rest => do
    let ready ← readReady bitmap index
    let later ← pendingLoop bitmap rest
    .ok (if ready then later else UInt32.ofNat index :: later)

/-- `check_range_ready_and_mark_pending` of `IndexedChunkMap`: the count clamped so that the
range ends by `u32::MAX`, and no index validated. -/
def checkRangeReadyAndMarkPending (m : PersistMap) (bitmap : List UInt8) (startIndex count : UInt32) :
    Except RangeError (Option (List UInt32)) :=
  if m.isRangeAllReady then .ok none
  else
    let count := min count (0xffff_ffff - startIndex)
    let end_ := startIndex + count
    do
      let pending ← pendingLoop bitmap (List.range' startIndex.toNat (end_.toNat - startIndex.toNat))
      .ok (if pending.isEmpty then none else some pending)

/-- Whether chunk `index` is ready in the bitmap. -/
def chunkReady (bitmap : List UInt8) (index : Nat) : Bool := (isChunkReady bitmap (UInt32.ofNat index)).1

variable {m : PersistMap} {bitmap : List UInt8}

/-- Inside the map, `is_range_ready` reads the bit of every index in turn. -/
theorem isRangeReadyLoop_of_within {startIndex : Nat} :
    ∀ idxs : List Nat, (∀ idx ∈ idxs, startIndex + idx < m.count.toNat) →
      isRangeReadyLoop m bitmap startIndex idxs = .ok (idxs.all fun idx => chunkReady bitmap (startIndex + idx))
  | [], _ => rfl
  | idx :: rest, within => by
    have inMap := within idx List.mem_cons_self
    have small : startIndex + idx < 2 ^ 32 := lt_trans inMap m.count.toNat_lt
    have valid := PersistMap.validateIndex_ofNat inMap
    have later := isRangeReadyLoop_of_within rest fun idx' mem => within idx' (List.mem_cons_of_mem _ mem)
    simp only [isRangeReadyLoop, valid, Bool.not_true, List.all_cons]
    rw [if_neg (by omega)]
    cases ready : chunkReady bitmap (startIndex + idx)
    · simp [chunkReady] at ready
      simp [ready]
    · simp [chunkReady] at ready
      simp [ready, later]

/-- Inside the bitmap, the loop of `check_range_ready_and_mark_pending` keeps the indexes whose
bit is clear. -/
theorem pendingLoop_of_within :
    ∀ indexes : List Nat, (∀ i ∈ indexes, i / 8 < bitmap.length) →
      pendingLoop bitmap indexes = .ok ((indexes.filter fun i => !chunkReady bitmap i).map UInt32.ofNat)
  | [], _ => rfl
  | i :: rest, within => by
    have later := pendingLoop_of_within rest fun i' mem => within i' (List.mem_cons_of_mem _ mem)
    simp only [pendingLoop, readReady, if_pos (within i List.mem_cons_self), Except.ok_bind, later]
    cases ready : chunkReady bitmap i
    · simp only [chunkReady] at ready
      simp [ready, chunkReady]
    · simp only [chunkReady] at ready
      simp [ready, chunkReady]

/-- Inside the map, the clamp of `check_range_ready_and_mark_pending` keeps the count. -/
theorem clamped_end {startIndex count : UInt32} (within : startIndex.toNat + count.toNat ≤ m.count.toNat) :
    (startIndex + min count (0xffff_ffff - startIndex)).toNat - startIndex.toNat = count.toNat := by
  have countSmall := m.count.toNat_lt
  have startSmall := startIndex.toNat_lt
  have room : (0xffff_ffff - startIndex).toNat = 0xffff_ffff - startIndex.toNat := by
    rw [UInt32.toNat_sub_of_le _ _ (UInt32.le_iff_toNat_le.mpr (by simp; omega))]
    rfl
  -- The minimum of `UInt32` is the one of its order: an `if` on the comparison.
  have kept : min count (0xffff_ffff - startIndex) = count :=
    if_pos (UInt32.le_iff_toNat_le.mpr (by rw [room]; omega))
  rw [kept, UInt32.toNat_add, Nat.mod_eq_of_lt (by omega)]
  omega

/-- On a range inside the map, the two queries read the same bits: `is_range_ready` says
whether every chunk of the range is ready, and `check_range_ready_and_mark_pending` lists those
that are not. -/
theorem rangeQueries_of_within {startIndex count : UInt32} (fetching : m.isRangeAllReady = false)
    (within : startIndex.toNat + count.toNat ≤ m.count.toNat)
    (sized : bitmap.length = divRoundUp m.count.toNat 8) :
    let pending := ((List.range' startIndex.toNat count.toNat).filter
      fun i => !chunkReady bitmap i).map UInt32.ofNat
    isRangeReady m bitmap startIndex count = .ok pending.isEmpty ∧
      checkRangeReadyAndMarkPending m bitmap startIndex count =
        .ok (if pending.isEmpty then none else some pending) := by
  intro pending
  have inMap : ∀ idx ∈ List.range count.toNat, startIndex.toNat + idx < m.count.toNat := by
    intro idx mem
    rw [List.mem_range] at mem
    omega
  have inBitmap : ∀ i ∈ List.range' startIndex.toNat count.toNat, i / 8 < bitmap.length := by
    intro i mem
    rw [List.mem_range'_1] at mem
    rw [sized, divRoundUp]
    omega
  constructor
  · rw [isRangeReady, fetching, Bool.not_false, if_pos rfl, isRangeReadyLoop_of_within _ inMap]
    congr 1
    rw [Bool.eq_iff_iff]
    simp [pending, List.range'_eq_map_range, List.all_eq_true, List.filter_eq_nil_iff]
  · rw [checkRangeReadyAndMarkPending, if_neg (by simp [fetching])]
    simp only [clamped_end within, pendingLoop_of_within _ inBitmap, Except.ok_bind]
    rfl

/-- Chunks 1 and 2 of a map of three chunks of which only chunk 2 is ready: both queries find
chunk 1 pending. -/
theorem rangeQueries_within_three :
    isRangeReady ⟨3, 2⟩ [0x20] 1 2 = .ok false ∧
      checkRangeReadyAndMarkPending ⟨3, 2⟩ [0x20] 1 2 = .ok (some [1]) :=
  rangeQueries_of_within (by decide) (by decide) (by decide)

/-- Across the end of the map the two queries part. A map of three chunks of which only chunk
2 is ready: on chunks 2 and 3, `is_range_ready` refuses index 3 while
`check_range_ready_and_mark_pending` reads the padding bit of index 3 and lists it as pending;
on chunks 0 to 8 the one finds chunk 0 not ready while the other reads past the one byte of the
bitmap and panics; and at index `u32::MAX` the clamp leaves no range at all, so the one refuses
the index while the other finds nothing pending. -/
theorem rangeQueries_unvalidated :
    isRangeReady ⟨3, 2⟩ [0x20] 2 2 = .error (.indexExceeds 3 3) ∧
      checkRangeReadyAndMarkPending ⟨3, 2⟩ [0x20] 2 2 = .ok (some [3]) ∧
    isRangeReady ⟨3, 2⟩ [0x20] 0 9 = .ok false ∧
      checkRangeReadyAndMarkPending ⟨3, 2⟩ [0x20] 0 9 = .error .unwrapPanic ∧
    isRangeReady ⟨3, 2⟩ [0x20] 0xffff_ffff 1 = .error (.indexExceeds 0xffff_ffff 3) ∧
      checkRangeReadyAndMarkPending ⟨3, 2⟩ [0x20] 0xffff_ffff 1 = .ok none := by
  decide

end IndexedChunkMap

end Nydus
