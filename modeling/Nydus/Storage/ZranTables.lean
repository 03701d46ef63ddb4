import Mathlib
import Nydus.Lib.LittleEndian
import Nydus.Lib.Store
import Nydus.Storage.MetaHeader

/-!
# The ZRan context tables

A ZRan blob keeps, after its chunk information array, a table of inflate contexts and a
table of the dictionaries they start from (`storage/src/meta/zran.rs`). The builder's
`ZranContextGenerator::store` writes one packed 40-byte entry per record of the generator,
each naming its dictionary by its offset in the dictionary table and its size, and then the
non-empty dictionaries one after another. `BlobMetaInfo::new` maps the two tables back out of
the blob meta file, and `BlobMetaState::get_zran_context` reads a record back: the entry's
fields and the slice of the dictionary table it names.

What `store` writes reads back: every record comes back with its dictionary, no index past
the records names one, and the returned total is the size of the two tables
(`store_getZranContext`).
-/

namespace Nydus

open LittleEndian

/-- `ZRAN_DICT_WIN_SIZE`: the inflate window a dictionary is copied out of. -/
def ZRAN_DICT_WIN_SIZE : Nat := 1 <<< 15

/-- `ZRAN_MAX_CI_ENTRIES`. -/
def ZRAN_MAX_CI_ENTRIES : Nat := 1 <<< 24

/-- `ZranContext` (`utils/src/compress/zlib_random.rs`): a record of the generator, the
inflate state at the start of a slice of the compressed stream. -/
structure ZranContext where
  inOffset : UInt64
  outOffset : UInt64
  inLen : UInt32
  outLen : UInt32
  ctxByte : UInt8
  ctxBits : UInt8
  dict : List UInt8
deriving DecidableEq, Repr

/-- What the generator guarantees of the records it has produced: `begin_read` refuses a
record index past `ZRAN_MAX_CI_ENTRIES`, and every dictionary is copied out of the inflate
window of `ZRAN_DICT_WIN_SIZE` bytes. -/
structure ZranContext.Generated (records : List ZranContext) : Prop where
  count : records.length ≤ ZRAN_MAX_CI_ENTRIES + 1
  dicts : ∀ r ∈ records, r.dict.length ≤ ZRAN_DICT_WIN_SIZE

namespace ZranInflateContext

/-- `ZranInflateContext::as_slice`: the packed fields in order, each little-endian, and the
two reserved bytes. -/
def asSlice (ctx : ZranInflateContext) : List UInt8 :=
  encode 8 ctx.inOffset ++ encode 8 ctx.outOffset ++ encode 8 ctx.dictOffset ++
    encode 4 ctx.inLen ++ encode 4 ctx.outLen ++ encode 4 ctx.dictSize ++
    encode 1 ctx.ctxByte ++ encode 1 ctx.ctxBits ++ [0, 0]

/-- The entry the mapped context table holds where `bytes` start: the packed fields in
order, each little-endian. -/
def ofSlice (bytes : List UInt8) : ZranInflateContext :=
  let b₁ := bytes.drop 8
  let b₂ := b₁.drop 8
  let b₃ := b₂.drop 8
  let b₄ := b₃.drop 4
  let b₅ := b₄.drop 4
  let b₆ := b₅.drop 4
  let b₇ := b₆.drop 1
  ⟨decode (bytes.take 8), decode (b₁.take 8), decode (b₂.take 8), decode (b₃.take 4),
    decode (b₄.take 4), decode (b₅.take 4), decode (b₆.take 1), decode (b₇.take 1)⟩

/-- The fields hold values of their widths on disk. -/
structure Fits (ctx : ZranInflateContext) : Prop where
  inOffset : ctx.inOffset < 256 ^ 8
  outOffset : ctx.outOffset < 256 ^ 8
  dictOffset : ctx.dictOffset < 256 ^ 8
  inLen : ctx.inLen < 256 ^ 4
  outLen : ctx.outLen < 256 ^ 4
  dictSize : ctx.dictSize < 256 ^ 4
  ctxByte : ctx.ctxByte < 256 ^ 1
  ctxBits : ctx.ctxBits < 256 ^ 1

@[simp] theorem length_asSlice (ctx : ZranInflateContext) :
    ctx.asSlice.length = Storage.ZRAN_CONTEXT_SIZE := by
  simp [asSlice, Storage.ZRAN_CONTEXT_SIZE]

/-- An entry whose fields fit their widths reads back from its bytes, whatever follows. -/
theorem ofSlice_asSlice {ctx : ZranInflateContext} (fits : ctx.Fits) (rest : List UInt8) :
    ofSlice (ctx.asSlice ++ rest) = ctx := by
  simp only [ofSlice, asSlice, List.append_assoc, take_encode_append, drop_encode_append,
    decode_encode_of_lt fits.inOffset, decode_encode_of_lt fits.outOffset,
    decode_encode_of_lt fits.dictOffset, decode_encode_of_lt fits.inLen,
    decode_encode_of_lt fits.outLen, decode_encode_of_lt fits.dictSize,
    decode_encode_of_lt fits.ctxByte, decode_encode_of_lt fits.ctxBits]

/-- The entry `store` writes for the record `info` whose dictionary starts `dictOff` bytes
into the dictionary table; `info.dict.len() as u32` keeps the low 32 bits of the size. -/
def ofRecord (info : ZranContext) (dictOff : Nat) : ZranInflateContext :=
  ⟨info.inOffset.toNat, info.outOffset.toNat, dictOff, info.inLen.toNat, info.outLen.toNat,
    info.dict.length % 2 ^ 32, info.ctxByte.toNat, info.ctxBits.toNat⟩

theorem ofRecord_fits (info : ZranContext) {dictOff : Nat} (small : dictOff < 256 ^ 8) :
    (ofRecord info dictOff).Fits where
  inOffset := info.inOffset.toNat_lt
  outOffset := info.outOffset.toNat_lt
  dictOffset := small
  inLen := info.inLen.toNat_lt
  outLen := info.outLen.toNat_lt
  dictSize := Nat.mod_lt _ (by decide)
  ctxByte := info.ctxByte.toNat_lt
  ctxBits := info.ctxBits.toNat_lt

end ZranInflateContext

/-- `From<&ZranInflateContext> for ZranContext`: the entry's fields, with no dictionary. -/
def ZranContext.ofInflateContext (ctx : ZranInflateContext) : ZranContext :=
  ⟨UInt64.ofNat ctx.inOffset, UInt64.ofNat ctx.outOffset, UInt32.ofNat ctx.inLen,
    UInt32.ofNat ctx.outLen, UInt8.ofNat ctx.ctxByte, UInt8.ofNat ctx.ctxBits, []⟩

/-- An entry written for a record gives back the record's fields. -/
theorem ZranContext.ofInflateContext_ofRecord (info : ZranContext) (dictOff : Nat) :
    ofInflateContext (ZranInflateContext.ofRecord info dictOff) = { info with dict := [] } := by
  simp [ofInflateContext, ZranInflateContext.ofRecord]

namespace ZranContextGenerator

/-- The first loop of `store`: an entry per record, whose `dict_offset` is the total length
of the dictionaries of the records before it. -/
def storeEntries : List ZranContext → Nat → List UInt8
  | [], _ => []
  | info :: rest, dictOff =>
    (ZranInflateContext.ofRecord info dictOff).asSlice ++ storeEntries rest (dictOff + info.dict.length)

/-- The second loop of `store`: the non-empty dictionaries written after what is written
already, each added to the total. -/
def storeDicts : List ZranContext → List UInt8 → Nat → List UInt8 × Nat
  | [], written, total => (written, total)
  | info :: rest, written, total =>
    if info.dict.isEmpty then storeDicts rest written total
    else storeDicts rest (written ++ info.dict) (total + info.dict.length)

/-- `ZranContextGenerator::store`: the bytes it writes, and the total and the record count
(as `u32`) it returns. -/
def store (records : List ZranContext) : List UInt8 × Nat × UInt32 :=
  let written := storeDicts records (storeEntries records 0)
    (records.length * Storage.ZRAN_CONTEXT_SIZE)
  (written.1, written.2, UInt32.ofNat records.length)

end ZranContextGenerator

/-- The errors of mapping the ZRan tables in `BlobMetaInfo::new`. -/
inductive ZranMapError where
  /-- `"invalid range"`: `FileMapState::validate_range` found a range past the file. -/
  | invalidRange
  /-- `attempt to subtract with overflow`: the size of the dictionary table,
  `meta_ci_zran_size() as usize - zran_size`, below zero in a debug build. -/
  | underflow
deriving DecidableEq, Repr

/-- The ZRan tables `BlobMetaInfo::new` maps out of the blob meta file `file`: `zranCount`
entries at `zranOffset`, then the dictionary table up to `zranOffset + zranSize`. -/
def mapZranTables (file : List UInt8) (zranOffset zranCount zranSize : Nat) :
    Except ZranMapError (List ZranInflateContext × List UInt8) :=
  let size := zranCount * Storage.ZRAN_CONTEXT_SIZE
  if file.length < zranOffset + size then .error .invalidRange
  else
    let array := (List.range zranCount).map fun i =>
      ZranInflateContext.ofSlice (file.drop (zranOffset + i * Storage.ZRAN_CONTEXT_SIZE))
    if zranSize < size then .error .underflow
    else
      let dictSize := zranSize - size
      if file.length < zranOffset + size + dictSize then .error .invalidRange
      else .ok (array, (file.drop (zranOffset + size)).take dictSize)

/-- `BlobMetaState::get_zran_context` with the dictionary table `table` the state maps:
the context of the entry and the dictionary it names. -/
def BlobMetaState.getZranContextDict (state : BlobMetaState) (table : List UInt8)
    (zranIndex : Nat) : Option (ZranContext × List UInt8) :=
  (state.getZranContext zranIndex).map fun entry =>
    (ZranContext.ofInflateContext entry, (table.drop entry.dictOffset).take entry.dictSize)

/-! ## Reading back what `store` writes -/

namespace ZranContextGenerator

/-- Where the dictionary of record `i` starts in the dictionary table: the total length of
the dictionaries before it. -/
def dictOffsetOf (records : List ZranContext) (i : Nat) : Nat :=
  ((records.take i).map fun r => r.dict.length).sum

/-- The total length of the dictionaries. -/
def dictsLength (records : List ZranContext) : Nat := (records.map fun r => r.dict.length).sum

theorem length_storeEntries : ∀ (records : List ZranContext) (dictOff : Nat),
    (storeEntries records dictOff).length = records.length * Storage.ZRAN_CONTEXT_SIZE
  | [], _ => by simp [storeEntries]
  | info :: rest, dictOff => by
    rw [storeEntries, List.length_append, length_storeEntries rest, ZranInflateContext.length_asSlice,
      List.length_cons, Nat.succ_mul, Nat.add_comm]

/-- Entry `i` of the written table reads back as the entry written for record `i`. The
induction is on the records, with the running dictionary offset generalised. -/
theorem ofSlice_drop_storeEntries (rest : List UInt8) : ∀ {records : List ZranContext}
    {dictOff i : Nat}, dictOff + dictsLength records < 256 ^ 8 → (h : i < records.length) →
    ZranInflateContext.ofSlice
        ((storeEntries records dictOff ++ rest).drop (i * Storage.ZRAN_CONTEXT_SIZE)) =
      ZranInflateContext.ofRecord records[i] (dictOff + dictOffsetOf records i)
  | info :: records, dictOff, 0, small, _ => by
    have first : dictOff < 256 ^ 8 := by
      unfold dictsLength at small
      omega
    have fits := ZranInflateContext.ofRecord_fits info first
    simp only [Nat.zero_mul, List.drop_zero, storeEntries, List.append_assoc,
      ZranInflateContext.ofSlice_asSlice fits, dictOffsetOf, List.take_zero, List.map_nil,
      List.sum_nil, Nat.add_zero, List.getElem_cons_zero]
  | info :: records, dictOff, i + 1, small, h => by
    have small' : dictOff + info.dict.length + dictsLength records < 256 ^ 8 := by
      simp only [dictsLength, List.map_cons, List.sum_cons] at small
      unfold dictsLength
      omega
    have later := ofSlice_drop_storeEntries rest small' (Nat.lt_of_succ_lt_succ h)
    have skip : (i + 1) * Storage.ZRAN_CONTEXT_SIZE =
        (ZranInflateContext.ofRecord info dictOff).asSlice.length + i * Storage.ZRAN_CONTEXT_SIZE := by
      rw [ZranInflateContext.length_asSlice, Nat.succ_mul, Nat.add_comm]
    rw [storeEntries, List.append_assoc, skip, List.drop_length_add_append, later]
    simp [dictOffsetOf, Nat.add_assoc]

theorem storeDicts_eq : ∀ (records : List ZranContext) (written : List UInt8) (total : Nat),
    storeDicts records written total =
      (written ++ (records.map fun r => r.dict).flatten, total + dictsLength records)
  | [], written, total => by simp [storeDicts, dictsLength]
  | info :: records, written, total => by
    by_cases empty : info.dict.isEmpty = true
    · have none : info.dict = [] := List.isEmpty_iff.mp empty
      rw [storeDicts, if_pos empty, storeDicts_eq records]
      simp [dictsLength, none]
    · rw [storeDicts, if_neg empty, storeDicts_eq records]
      simp [dictsLength, Nat.add_assoc]

/-- What `store` writes: the entries, then the dictionaries. -/
theorem store_eq (records : List ZranContext) :
    store records = (storeEntries records 0 ++ (records.map fun r => r.dict).flatten,
      records.length * Storage.ZRAN_CONTEXT_SIZE + dictsLength records,
      UInt32.ofNat records.length) := by
  simp only [store, storeDicts_eq]

/-- Every dictionary of generated records is at most a window long. -/
theorem dictsLength_le {records : List ZranContext} (generated : ZranContext.Generated records) :
    dictsLength records ≤ records.length * ZRAN_DICT_WIN_SIZE := by
  have each : ∀ n ∈ records.map fun r => r.dict.length, n ≤ ZRAN_DICT_WIN_SIZE := by
    intro n mem
    obtain ⟨r, inRecords, rfl⟩ := List.mem_map.mp mem
    exact generated.dicts r inRecords
  have bounded := List.sum_le_card_nsmul _ _ each
  rwa [List.length_map, smul_eq_mul] at bounded

/-- The dictionaries of generated records are within `u64`, however many there are. -/
theorem dictsLength_lt {records : List ZranContext} (generated : ZranContext.Generated records) :
    dictsLength records < 256 ^ 8 := by
  have count := generated.count
  unfold ZRAN_MAX_CI_ENTRIES at count
  calc _ ≤ records.length * ZRAN_DICT_WIN_SIZE := dictsLength_le generated
    _ ≤ ((1 <<< 24) + 1) * ZRAN_DICT_WIN_SIZE := Nat.mul_le_mul_right _ count
    _ < 256 ^ 8 := by decide

/-- The dictionaries of the first `i + 1` records end within all of them. -/
theorem dictOffsetOf_add_le {records : List ZranContext} {i : Nat} (h : i < records.length) :
    dictOffsetOf records i + records[i].dict.length ≤ dictsLength records := by
  have step := List.sum_take_succ (records.map fun r => r.dict.length) i (by simpa using h)
  have split := List.sum_take_add_sum_drop (records.map fun r => r.dict.length) (i + 1)
  simp only [List.getElem_map] at step
  unfold dictOffsetOf dictsLength
  rw [List.map_take, ← split, step]
  exact Nat.le_add_right _ _

end ZranContextGenerator

open ZranContextGenerator in
/-- Mapping the written tables out of a file that holds them after `before`: the entries
read back as written, and the dictionary table is the dictionaries, one after another. -/
theorem mapZranTables_store {records : List ZranContext} (generated : ZranContext.Generated records)
    (before after : List UInt8) :
    ∃ array, mapZranTables (before ++ (store records).1 ++ after) before.length
        (store records).2.2.toNat (store records).2.1 =
        .ok (array, (records.map fun r => r.dict).flatten) ∧
      array.length = records.length ∧
      ∀ i (h : i < records.length),
        array[i]? = some (ZranInflateContext.ofRecord records[i] (dictOffsetOf records i)) := by
  have count : (UInt32.ofNat records.length).toNat = records.length := by
    have small := generated.count
    unfold ZRAN_MAX_CI_ENTRIES at small
    rw [UInt32.toNat_ofNat']
    exact Nat.mod_eq_of_lt (by omega)
  have entries := length_storeEntries records 0
  have dicts : ((records.map fun r => r.dict).flatten).length = dictsLength records := by
    simp [dictsLength, List.length_flatten, List.map_map, Function.comp_def]
  rw [store_eq, count]
  simp only [mapZranTables]
  have fitsTables : ¬ (before ++ (storeEntries records 0 ++ (records.map fun r => r.dict).flatten) ++
      after).length < before.length + records.length * Storage.ZRAN_CONTEXT_SIZE := by
    simp only [List.length_append]
    omega
  have sized : ¬ records.length * Storage.ZRAN_CONTEXT_SIZE + dictsLength records <
      records.length * Storage.ZRAN_CONTEXT_SIZE := by omega
  have fitsDicts : ¬ (before ++ (storeEntries records 0 ++ (records.map fun r => r.dict).flatten) ++
      after).length < before.length + records.length * Storage.ZRAN_CONTEXT_SIZE +
        (records.length * Storage.ZRAN_CONTEXT_SIZE + dictsLength records -
          records.length * Storage.ZRAN_CONTEXT_SIZE) := by
    simp only [List.length_append]
    omega
  rw [if_neg fitsTables, if_neg sized, if_neg fitsDicts, Nat.add_sub_cancel_left]
  -- the file from the tables on is the entries, the dictionaries and what follows
  have tables : ∀ k, (before ++ (storeEntries records 0 ++ (records.map fun r => r.dict).flatten) ++
      after).drop (before.length + k) =
      (storeEntries records 0 ++ ((records.map fun r => r.dict).flatten ++ after)).drop k := by
    intro k
    rw [List.append_assoc, List.drop_length_add_append, List.append_assoc]
  have table : ((before ++ (storeEntries records 0 ++ (records.map fun r => r.dict).flatten) ++
      after).drop (before.length + records.length * Storage.ZRAN_CONTEXT_SIZE)).take
        (dictsLength records) = (records.map fun r => r.dict).flatten := by
    rw [tables, ← entries, List.drop_left, ← dicts, List.take_left]
  rw [table]
  refine ⟨_, rfl, by simp, fun i h => ?_⟩
  · rw [List.getElem?_map, List.getElem?_range h, Option.map_some, tables,
      ofSlice_drop_storeEntries _ (by simpa using dictsLength_lt generated) h, Nat.zero_add]

open ZranContextGenerator in
/-- What `ZranContextGenerator::store` writes for the records of the generator, mapped by
`BlobMetaInfo::new` from the blob meta file it lies in (with the ZRan offset, count and
size the builder records for it: where it starts, the count and the total `store`
returns), makes `get_zran_context` return every record, with its dictionary, and nothing
for an index past the records; the total is the size of the entries and the
dictionaries. -/
theorem store_getZranContext {records : List ZranContext}
    (generated : ZranContext.Generated records) (before after : List UInt8) :
    (store records).2.1 = records.length * Storage.ZRAN_CONTEXT_SIZE +
        (records.map fun r => r.dict.length).sum ∧
      ∃ array table, mapZranTables (before ++ (store records).1 ++ after) before.length
          (store records).2.2.toNat (store records).2.1 = .ok (array, table) ∧
        ∀ state : BlobMetaState, state.zranInfoArray = array →
          state.zranDictTableLen = table.length →
          ∀ i, state.getZranContextDict table i =
            records[i]?.map fun r => ({ r with dict := [] }, r.dict) := by
  obtain ⟨array, mapped, length, entry⟩ := mapZranTables_store generated before after
  refine ⟨by rw [store_eq]; rfl, array, _, mapped, fun state infoArray tableLen i => ?_⟩
  unfold BlobMetaState.getZranContextDict BlobMetaState.getZranContext
  rw [infoArray]
  by_cases inRecords : i < records.length
  · -- the entry names its record's dictionary, which lies within the table
    rw [entry i inRecords, List.getElem?_eq_getElem inRecords]
    have small : records[i].dict.length % 2 ^ 32 = records[i].dict.length := by
      have window := generated.dicts records[i] (List.getElem_mem inRecords)
      unfold ZRAN_DICT_WIN_SIZE at window
      exact Nat.mod_eq_of_lt (by omega)
    have within := dictOffsetOf_add_le inRecords
    have total := dictsLength_lt generated
    have dicts : ((records.map fun r => r.dict).flatten).length = dictsLength records := by
      simp [dictsLength, List.length_flatten, List.map_map, Function.comp_def]
    have checked : ¬ (checkedAdd (dictOffsetOf records i) records[i].dict.length = none ∨
        dictOffsetOf records i + records[i].dict.length > state.zranDictTableLen) := by
      rw [tableLen, dicts, checkedAdd, if_pos (by unfold U64_LIMIT; omega)]
      simp only [reduceCtorEq, false_or, gt_iff_lt, not_lt]
      exact within
    have offsetIs : (ZranInflateContext.ofRecord records[i] (dictOffsetOf records i)).dictOffset =
        dictOffsetOf records i := rfl
    have sizeIs : (ZranInflateContext.ofRecord records[i] (dictOffsetOf records i)).dictSize =
        records[i].dict.length := small
    dsimp only
    rw [offsetIs, sizeIs, if_neg checked, Option.map_some, Option.map_some]
    congr 1
    refine Prod.ext ?_ ?_
    · exact ZranContext.ofInflateContext_ofRecord records[i] _
    · dsimp only
      rw [offsetIs, sizeIs]
      exact Store.take_drop_flatten_map (fun r => r.dict) inRecords
  · have past : array.length ≤ i := by omega
    rw [List.getElem?_eq_none past, List.getElem?_eq_none (by omega)]
    rfl

/-- Two records of the generator, the second with an empty dictionary. -/
def twoRecords : List ZranContext :=
  [⟨0x10, 0, 0x200, 0x8000, 0, 0, [1, 2, 3]⟩, ⟨0x210, 0x8000, 0x100, 0x4000, 0x5a, 3, []⟩]

theorem store_getZranContext_twoRecords :
    ZranContext.Generated twoRecords ∧
      ((ZranContextGenerator.store twoRecords).2.1 = twoRecords.length * Storage.ZRAN_CONTEXT_SIZE +
          (twoRecords.map fun r => r.dict.length).sum ∧
        ∃ array table, mapZranTables ([0xaa] ++ (ZranContextGenerator.store twoRecords).1 ++ [])
            [0xaa].length (ZranContextGenerator.store twoRecords).2.2.toNat
            (ZranContextGenerator.store twoRecords).2.1 = .ok (array, table) ∧
          ∀ state : BlobMetaState, state.zranInfoArray = array →
            state.zranDictTableLen = table.length →
            ∀ i, state.getZranContextDict table i =
              twoRecords[i]?.map fun r => ({ r with dict := [] }, r.dict)) :=
  have generated : ZranContext.Generated twoRecords := ⟨by decide, by decide⟩
  ⟨generated, store_getZranContext generated [0xaa] []⟩

end Nydus

