import Mathlib
import Nydus.Lib.BitField
import Nydus.Lib.SetBits
import Nydus.Lib.SortedMap
/-!
# The inode bitmap

`InodeBitmap` (`utils/src/inode_bitmap.rs`) keeps a set of `u64` inode numbers as 64-bit words
in a `BTreeMap`: inode `ino` is bit `ino & 0x3f` of the word under `ino >> 6`. `set`, `clear`
and `clear_all` change the words and `is_set` reads one bit. `bitmap_to_vec` walks the words in
the order of the map and the set bits of each word lowest first, and writes the inodes it meets
as runs, `[first, last]`, or `[ino]` for a run of one.

Read through `is_set`, `set` adds its inode to the set, `clear` takes it out and `clear_all`
empties the set (`isSet_set`, `isSet_clear`, `isSet_clearAll`). The map is shared under a
`RwLock` and its words are atomics; this model is of the operations one after another. What
`bitmap_to_vec` returns is the subject of `Nydus.Utils.InodeBitmapWalk`.
-/

namespace Nydus

/-- `InodeBitmap`'s map: the word under each index, in ascending order of indexes as the
`BTreeMap` keeps them. An index is `ino >> 6` of some `u64` inode, so it is below `2 ^ 58`. -/
structure InodeBitmap where
  map : SortedMap UInt64 UInt64
  indexes_lt : ∀ e ∈ map.entries, e.1.toNat < 2 ^ 58

namespace InodeBitmap

/-- `get_index_and_mask`: the index of the word of `ino` and the mask of its bit. -/
def getIndexAndMask (ino : UInt64) : UInt64 × UInt64 := (ino >>> 6, 1 <<< (ino &&& 0x3f))

/-- `range_to_vec`. -/
def rangeToVec (start last : UInt64) : List UInt64 := if start = last then [start] else [start, last]

theorem toNat_index (ino : UInt64) : (getIndexAndMask ino).1.toNat = ino.toNat / 64 := by
  rw [getIndexAndMask, UInt64.toNat_shiftRight, Nat.shiftRight_eq_div_pow]
  rfl

theorem toNat_index_lt (ino : UInt64) : (getIndexAndMask ino).1.toNat < 2 ^ 58 := by
  have := ino.toNat_lt
  rw [toNat_index]
  omega

theorem toNat_bit (ino : UInt64) : (ino &&& 0x3f).toNat = ino.toNat % 64 := by
  rw [UInt64.toNat_and, show (0x3f : UInt64).toNat = 2 ^ 6 - 1 from rfl,
    Nat.and_two_pow_sub_one_eq_mod]

theorem toNat_mask (ino : UInt64) :
    (getIndexAndMask ino).2.toNat = BitField.mask (ino.toNat % 64) 1 := by
  have inWord : ino.toNat % 64 < 64 := Nat.mod_lt _ (by decide)
  have one : (1 : UInt64).toNat < 2 ^ (64 - ino.toNat % 64) := by
    rw [UInt64.toNat_one]
    exact Nat.one_lt_two_pow (by omega)
  rw [getIndexAndMask, BitField.toNat_shiftLeft_of_lt (toNat_bit ino) inWord one, BitField.mask]
  rfl

/-- Two inodes are one when they have the same word and the same bit in it. -/
theorem eq_iff_index_and_bit {i ino : UInt64} :
    i = ino ↔ (getIndexAndMask i).1 = (getIndexAndMask ino).1 ∧ i.toNat % 64 = ino.toNat % 64 := by
  rw [← UInt64.toNat_inj, ← UInt64.toNat_inj, toNat_index, toNat_index]
  omega

/-! ## The word of an inode -/

theorem testBit_or_mask (v ino : UInt64) (j : Nat) :
    (v ||| (getIndexAndMask ino).2).toNat.testBit j = (v.toNat.testBit j || j == ino.toNat % 64) := by
  rw [BitField.toNat_or_mask (toNat_mask ino), BitField.testBit_setBits]
  by_cases at_bit : j = ino.toNat % 64
  · rw [if_pos (by omega)]
    simp [at_bit]
  · rw [if_neg (by omega)]
    simp [at_bit]

theorem testBit_and_not_mask (v ino : UInt64) (j : Nat) :
    (v &&& ~~~(getIndexAndMask ino).2).toNat.testBit j =
      (v.toNat.testBit j && j != ino.toNat % 64) := by
  have inWord : ino.toNat % 64 + 1 ≤ 64 := Nat.mod_lt _ (by decide)
  rw [BitField.toNat_and_not inWord (toNat_mask ino), BitField.testBit_setBits]
  by_cases at_bit : j = ino.toNat % 64
  · rw [if_pos (by omega)]
    simp [at_bit]
  · rw [if_neg (by omega)]
    simp [at_bit]

theorem and_mask_ne_zero (v ino : UInt64) :
    (v &&& (getIndexAndMask ino).2 != 0) = v.toNat.testBit (ino.toNat % 64) :=
  BitField.and_mask_ne_zero (toNat_mask ino)

/-! ## The operations -/

theorem indexes_lt_of_keys {m m' : SortedMap UInt64 UInt64}
    (keys : m'.entries.map Prod.fst = m.entries.map Prod.fst)
    (small : ∀ e ∈ m.entries, e.1.toNat < 2 ^ 58) : ∀ e ∈ m'.entries, e.1.toNat < 2 ^ 58 := by
  intro e mem
  have : e.1 ∈ m.entries.map Prod.fst := keys ▸ List.mem_map_of_mem mem
  obtain ⟨e', mem', same⟩ := List.mem_map.mp this
  rw [← same]
  exact small e' mem'

theorem indexes_lt_upsert {m : SortedMap UInt64 UInt64} {k d : UInt64} {f : UInt64 → UInt64}
    (newSmall : k.toNat < 2 ^ 58) (small : ∀ e ∈ m.entries, e.1.toNat < 2 ^ 58) :
    ∀ e ∈ (m.upsert k d f).entries, e.1.toNat < 2 ^ 58 := by
  intro e mem
  rcases SortedMap.mem_keys_upsert.mp (List.mem_map_of_mem mem) with atK | earlier
  · rw [atK]
    exact newSmall
  · obtain ⟨e', mem', same⟩ := List.mem_map.mp earlier
    rw [← same]
    exact small e' mem'

/-- `InodeBitmap::new`. -/
def new : InodeBitmap := ⟨SortedMap.empty, fun _ mem => absurd mem List.not_mem_nil⟩

/-- `set`: or the mask into the word of `ino`, which is made, zero, when there is none yet. -/
def set (bm : InodeBitmap) (ino : UInt64) : InodeBitmap :=
  let index := (getIndexAndMask ino).1
  let mask := (getIndexAndMask ino).2
  match bm.map.get? index with
  -- `v.fetch_or(mask)` under the read lock
  | some _ => ⟨bm.map.modify index (· ||| mask),
      indexes_lt_of_keys (bm.map.keys_modify _ _) bm.indexes_lt⟩
  -- `m.entry(index).or_insert_with(|| AtomicU64::new(0)).fetch_or(mask)` under the write lock
  | none => ⟨bm.map.upsert index 0 (· ||| mask), indexes_lt_upsert (toNat_index_lt ino) bm.indexes_lt⟩

/-- `is_set`. -/
def isSet (bm : InodeBitmap) (ino : UInt64) : Bool :=
  let index := (getIndexAndMask ino).1
  let mask := (getIndexAndMask ino).2
  match bm.map.get? index with
  | some v => v &&& mask != 0
  | none => false

/-- `clear`: and the complement of the mask into the word of `ino`, if there is one. -/
def clear (bm : InodeBitmap) (ino : UInt64) : InodeBitmap :=
  let index := (getIndexAndMask ino).1
  let mask := (getIndexAndMask ino).2
  match bm.map.get? index with
  | some _ => ⟨bm.map.modify index (· &&& ~~~mask),
      indexes_lt_of_keys (bm.map.keys_modify _ _) bm.indexes_lt⟩
  | none => bm

/-- `clear_all`: every word stored zero; the words stay in the map. -/
def clearAll (bm : InodeBitmap) : InodeBitmap :=
  ⟨bm.map.mapValues fun _ => 0, indexes_lt_of_keys (bm.map.keys_mapValues _) bm.indexes_lt⟩

/-! ## `bitmap_to_vec` -/

/-- The locals of `bitmap_to_vec`'s loops: the runs written so far, the start of the run being
built, and the last inode met (`0` before the first). -/
structure WalkState where
  ret : List (List UInt64)
  start : Option UInt64
  last : UInt64

/-- The inner loop's body from `start = match start { .. }` on, for the inode `ino`: it extends
the run being built, or, when `ino` does not follow the last inode, writes that run and starts
another. -/
def WalkState.visit (st : WalkState) (ino : UInt64) : WalkState :=
  match st.start with
  | none => { st with start := some ino, last := ino }
  | some s =>
    if ino ≠ st.last + 1 then ⟨st.ret ++ [rangeToVec s st.last], some ino, ino⟩
    else { st with start := some s, last := ino }

/-- After the loops: the run still being built is written. -/
def WalkState.finish (st : WalkState) : List (List UInt64) :=
  match st.start with
  | some s => st.ret ++ [rangeToVec s st.last]
  | none => st.ret

/-- The loops of `bitmap_to_vec`: the words in the order of the map, each as `load` reads it,
and in each word `while v != 0`, the inode `base + v.trailing_zeros()` of its lowest set bit. -/
def walk (entries : List (UInt64 × UInt64)) (load : UInt64 → UInt64 × UInt64) (st : WalkState) :
    WalkState :=
  entries.foldl (fun (st : WalkState) (it : UInt64 × UInt64) =>
    let base : UInt64 := it.1 <<< 6
    SetBits.forEachSetBit (fun st tz => st.visit (base + tz.toUInt64)) (load it.2).1 st) st

/-- `bitmap_to_vec`. `load` gives the word it reads and the word it leaves in the map. -/
def bitmapToVec (bm : InodeBitmap) (load : UInt64 → UInt64 × UInt64) :
    List (List UInt64) × InodeBitmap :=
  ((walk bm.map.entries load ⟨[], none, 0⟩).finish,
    ⟨bm.map.mapValues fun v => (load v).2,
      indexes_lt_of_keys (bm.map.keys_mapValues _) bm.indexes_lt⟩)

/-- `bitmap_to_array`: each word read with `load`, which leaves it. -/
def bitmapToArray (bm : InodeBitmap) : List (List UInt64) := (bm.bitmapToVec fun v => (v, v)).1

/-- `bitmap_to_array_and_clear`: each word read with `fetch_and(0)`, which returns it and
leaves `v & 0`. -/
def bitmapToArrayAndClear (bm : InodeBitmap) : List (List UInt64) × InodeBitmap :=
  bm.bitmapToVec fun v => (v, v &&& 0)

/-! ## What each operation does to the map -/

section Steps

variable {bm : InodeBitmap} {ino v : UInt64}

theorem map_set_of_some (found : bm.map.get? (getIndexAndMask ino).1 = some v) :
    (bm.set ino).map = bm.map.modify (getIndexAndMask ino).1 (· ||| (getIndexAndMask ino).2) := by
  unfold set
  dsimp only
  rw [found]

theorem map_set_of_none (found : bm.map.get? (getIndexAndMask ino).1 = none) :
    (bm.set ino).map = bm.map.upsert (getIndexAndMask ino).1 0 (· ||| (getIndexAndMask ino).2) := by
  unfold set
  dsimp only
  rw [found]

theorem map_clear_of_some (found : bm.map.get? (getIndexAndMask ino).1 = some v) :
    (bm.clear ino).map = bm.map.modify (getIndexAndMask ino).1 (· &&& ~~~(getIndexAndMask ino).2) := by
  unfold clear
  dsimp only
  rw [found]

theorem clear_of_none (found : bm.map.get? (getIndexAndMask ino).1 = none) : bm.clear ino = bm := by
  unfold clear
  dsimp only
  rw [found]

end Steps

/-! ## The set read through `is_set` -/

theorem isSet_eq (bm : InodeBitmap) (ino : UInt64) :
    bm.isSet ino = match bm.map.get? (getIndexAndMask ino).1 with
      | some v => v.toNat.testBit (ino.toNat % 64)
      | none => false := by
  unfold isSet
  dsimp only
  cases bm.map.get? (getIndexAndMask ino).1 with
  | none => rfl
  | some v => exact and_mask_ne_zero v ino

theorem isSet_new (i : UInt64) : new.isSet i = false := rfl

theorem isSet_set (bm : InodeBitmap) (ino i : UInt64) :
    (bm.set ino).isSet i = (i == ino || bm.isSet i) := by
  rw [isSet_eq, isSet_eq]
  by_cases sameWord : (getIndexAndMask i).1 = (getIndexAndMask ino).1
  · -- the word of `i` is the one `set` changes: its other bits stay
    have same : (i == ino) = (i.toNat % 64 == ino.toNat % 64) := by
      rw [Bool.eq_iff_iff, beq_iff_eq, beq_iff_eq, eq_iff_index_and_bit]
      exact and_iff_right sameWord
    cases found : bm.map.get? (getIndexAndMask ino).1 with
    | some v =>
      rw [map_set_of_some found, SortedMap.get?_modify, if_pos sameWord, sameWord, found]
      simp only [Option.map_some, testBit_or_mask, same]
      exact Bool.or_comm _ _
    | none =>
      rw [map_set_of_none found, SortedMap.get?_upsert, if_pos sameWord, sameWord, found]
      simp only [Option.getD_none, testBit_or_mask, same, UInt64.toNat_zero, Nat.zero_testBit,
        Bool.false_or, Bool.or_false]
  · have other : (i == ino) = false := by
      simp only [beq_eq_false_iff_ne, ne_eq, eq_iff_index_and_bit, sameWord, false_and,
        not_false_eq_true]
    cases found : bm.map.get? (getIndexAndMask ino).1 with
    | some v => rw [map_set_of_some found, SortedMap.get?_modify, if_neg sameWord, other, Bool.false_or]
    | none => rw [map_set_of_none found, SortedMap.get?_upsert, if_neg sameWord, other, Bool.false_or]

theorem isSet_clear (bm : InodeBitmap) (ino i : UInt64) :
    (bm.clear ino).isSet i = (i != ino && bm.isSet i) := by
  by_cases sameWord : (getIndexAndMask i).1 = (getIndexAndMask ino).1
  · have same : (i != ino) = (i.toNat % 64 != ino.toNat % 64) := by
      rw [Bool.eq_iff_iff, bne_iff_ne, bne_iff_ne, ne_eq, ne_eq, eq_iff_index_and_bit,
        and_iff_right sameWord]
    cases found : bm.map.get? (getIndexAndMask ino).1 with
    | some v =>
      rw [isSet_eq, isSet_eq, map_clear_of_some found, SortedMap.get?_modify, if_pos sameWord,
        sameWord, found]
      simp only [Option.map_some, testBit_and_not_mask, same]
      exact Bool.and_comm _ _
    | none =>
      -- no word, no bit: nothing to clear, and `i` was not set
      rw [clear_of_none found, isSet_eq, sameWord, found, Bool.and_false]
  · have other : (i != ino) = true := by
      simp only [bne_iff_ne, ne_eq, eq_iff_index_and_bit, sameWord, false_and, not_false_eq_true]
    cases found : bm.map.get? (getIndexAndMask ino).1 with
    | some v =>
      rw [isSet_eq, isSet_eq, map_clear_of_some found, SortedMap.get?_modify, if_neg sameWord,
        other, Bool.true_and]
    | none => rw [clear_of_none found, other, Bool.true_and]

theorem isSet_clearAll (bm : InodeBitmap) (i : UInt64) : bm.clearAll.isSet i = false := by
  rw [isSet_eq]
  unfold clearAll
  rw [SortedMap.get?_mapValues]
  cases bm.map.get? (getIndexAndMask i).1 with
  | none => rfl
  | some v => simp

end InodeBitmap

end Nydus
