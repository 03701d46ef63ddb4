import Mathlib
import Nydus.Lib.Run
import Nydus.Lib.Runs
import Nydus.Utils.InodeBitmap
/-!
# What `bitmap_to_vec` returns

The loops of `bitmap_to_vec` meet the inodes of the set bits one by one (`walk_eq`): in the
order of the map's indexes and, in each word, lowest bit first, which is increasing order
(`inodes_pairwise`), and they meet exactly the inodes that are set (`mem_inodes_iff_isSet`).
The run encoder keeps one invariant, `Encodes`: the runs written and the run being built are
the maximal runs of the inodes met so far (`Encodes.visit`). So `bitmap_to_array` returns the
maximal runs of the set (`bitmapToArray_runs`), and `bitmap_to_array_and_clear` returns the same
and leaves the set empty. Over a sequence of `set`, `clear` and `clear_all` from a new bitmap,
the bitmap is the set those operations build.
-/

namespace Nydus

namespace InodeBitmap

open Runs

/-! ## The inodes the loops meet -/

/-- The inodes the loops of `bitmap_to_vec` meet, in the order they meet them. -/
def inodes (entries : List (UInt64 × UInt64)) (load : UInt64 → UInt64 × UInt64) : List UInt64 :=
  entries.flatMap fun (it : UInt64 × UInt64) =>
    (SetBits.setBits (load it.2).1).map fun tz => (it.1 <<< 6 : UInt64) + tz.toUInt64

/-- The loops are the encoder's step folded over the inodes they meet. -/
theorem walk_eq (entries : List (UInt64 × UInt64)) (load : UInt64 → UInt64 × UInt64)
    (st : WalkState) : walk entries load st = (inodes entries load).foldl WalkState.visit st := by
  unfold walk inodes
  -- each word's loop is the fold over its set bits
  simp only [SetBits.forEachSetBit_eq]
  induction entries generalizing st with
  | nil => rfl
  | cons it entries ih =>
    simp only [List.foldl_cons, ih, List.flatMap_cons, List.foldl_append, List.foldl_map]

/-- The inode of bit `tz` of the word under `index`. -/
theorem toNat_inode {index : UInt64} {tz : Nat} (small : index.toNat < 2 ^ 58) (inWord : tz < 64) :
    ((index <<< 6) + tz.toUInt64).toNat = index.toNat * 64 + tz := by
  have base : (index <<< 6).toNat = index.toNat * 64 := by
    rw [BitField.toNat_shiftLeft_of_lt rfl (by decide) small, Nat.shiftLeft_eq]
    rfl
  have bit : tz.toUInt64.toNat = tz := by
    rw [show tz.toUInt64 = UInt64.ofNat tz from rfl, UInt64.toNat_ofNat']
    omega
  rw [UInt64.toNat_add, base, bit]
  omega

theorem inodes_pairwise {m : SortedMap UInt64 UInt64} (small : ∀ e ∈ m.entries, e.1.toNat < 2 ^ 58)
    (load : UInt64 → UInt64 × UInt64) :
    (inodes m.entries load).Pairwise fun i j => i.toNat < j.toNat := by
  unfold inodes
  rw [List.pairwise_flatMap]
  constructor
  · -- within a word: the bits are met lowest first
    intro it mem
    rw [List.pairwise_map]
    refine (SetBits.setBits_pairwise _).imp_of_mem fun tzMem tzMem' lt => ?_
    rw [toNat_inode (small it mem) (SetBits.mem_setBits.mp tzMem).1,
      toNat_inode (small it mem) (SetBits.mem_setBits.mp tzMem').1]
    omega
  · -- across words: every inode of a lower index is below every inode of a higher one
    refine m.sorted.imp_of_mem fun {it it'} mem mem' lt => ?_
    intro i iMem j jMem
    obtain ⟨tz, tzMem, rfl⟩ := List.mem_map.mp iMem
    obtain ⟨tz', tzMem', rfl⟩ := List.mem_map.mp jMem
    rw [toNat_inode (small it mem) (SetBits.mem_setBits.mp tzMem).1,
      toNat_inode (small it' mem') (SetBits.mem_setBits.mp tzMem').1]
    have lower := UInt64.lt_iff_toNat_lt.mp lt
    have := (SetBits.mem_setBits.mp tzMem).1
    omega

/-- The loops meet the inodes whose bit is set in their word, when `load` reads each word as it
is. -/
theorem mem_inodes {m : SortedMap UInt64 UInt64} (small : ∀ e ∈ m.entries, e.1.toNat < 2 ^ 58)
    {load : UInt64 → UInt64 × UInt64} (reads : ∀ v, (load v).1 = v) (i : UInt64) :
    i ∈ inodes m.entries load ↔
      ∃ v, m.get? (getIndexAndMask i).1 = some v ∧ v.toNat.testBit (i.toNat % 64) := by
  unfold inodes
  simp only [List.mem_flatMap, List.mem_map, reads]
  constructor
  · rintro ⟨it, mem, tz, tzMem, rfl⟩
    have inWord := SetBits.mem_setBits.mp tzMem
    have value := toNat_inode (small it mem) inWord.1
    have index : (getIndexAndMask ((it.1 <<< 6) + tz.toUInt64)).1 = it.1 := by
      rw [← UInt64.toNat_inj, toNat_index, value]
      omega
    refine ⟨it.2, ?_, ?_⟩
    · rw [index]
      exact SortedMap.get?_eq_some_iff.mpr mem
    · rw [value, show (it.1.toNat * 64 + tz) % 64 = tz by omega]
      exact inWord.2
  · rintro ⟨v, found, bit⟩
    have mem := SortedMap.get?_eq_some_iff.mp found
    refine ⟨_, mem, i.toNat % 64, SetBits.mem_setBits.mpr ⟨Nat.mod_lt _ (by decide), bit⟩, ?_⟩
    rw [← UInt64.toNat_inj, toNat_inode (small _ mem) (Nat.mod_lt _ (by decide)), toNat_index]
    omega

theorem mem_inodes_iff_isSet (bm : InodeBitmap) {load : UInt64 → UInt64 × UInt64}
    (reads : ∀ v, (load v).1 = v) (i : UInt64) :
    i ∈ inodes bm.map.entries load ↔ bm.isSet i = true := by
  rw [mem_inodes bm.indexes_lt reads, isSet_eq]
  cases bm.map.get? (getIndexAndMask i).1 with
  | none => simp
  | some v => simp

/-! ## The run encoder -/

/-- A run as the pair of its first and last inode numbers. -/
def runBounds (r : UInt64 × UInt64) : Nat × Nat := (r.1.toNat, r.2.toNat)

/-- What the encoder holds after meeting the inodes `seen`: nothing before the first; after it,
the runs written and the run being built, from `start` to the last inode met, are the maximal
runs of `seen`. -/
inductive Encodes : List UInt64 → WalkState → Prop
  | empty (last : UInt64) : Encodes [] ⟨[], none, last⟩
  | building {seen : List UInt64} {rs : List (UInt64 × UInt64)} {start last : UInt64} :
      seen.getLast? = some last →
      IsMaximalRuns (· ∈ seen.map UInt64.toNat) ((rs ++ [(start, last)]).map runBounds) →
      Encodes seen ⟨rs.map fun r => rangeToVec r.1 r.2, some start, last⟩

theorem mem_map_append_singleton {seen : List UInt64} {ino : UInt64} (n : Nat) :
    n ∈ (seen ++ [ino]).map UInt64.toNat ↔ n ∈ seen.map UInt64.toNat ∨ n = ino.toNat := by
  rw [List.map_append, List.mem_append, List.map_singleton, List.mem_singleton]

/-- One step of the encoder, on an inode past all those met, keeps the invariant. -/
theorem Encodes.visit {seen : List UInt64} {st : WalkState} {ino : UInt64} (encodes : Encodes seen st)
    (above : ∀ i ∈ seen, i.toNat < ino.toNat) : Encodes (seen ++ [ino]) (st.visit ino) := by
  cases encodes with
  | empty last =>
    -- the first inode opens the first run
    have runs : IsMaximalRuns (· ∈ ([] ++ [ino]).map UInt64.toNat) (([] ++ [(ino, ino)]).map runBounds) :=
      (IsMaximalRuns.single ino.toNat).of_iff fun n => by
        rw [List.nil_append, List.map_singleton, List.mem_singleton]
    exact @Encodes.building _ [] ino ino rfl runs
  | @building seen rs start last lastSeen runs =>
    have lastBelow : last.toNat < ino.toNat := above last (List.mem_of_getLast? lastSeen)
    have next : (last + 1).toNat = last.toNat + 1 := by
      rw [UInt64.toNat_add, UInt64.toNat_one]
      have := ino.toNat_lt
      omega
    have lastNow : (seen ++ [ino]).getLast? = some ino := by
      rw [List.getLast?_append, List.getLast?_singleton, Option.some_or]
    have before : IsMaximalRuns (· ∈ seen.map UInt64.toNat)
        (rs.map runBounds ++ [(start.toNat, last.toNat)]) := by
      rwa [List.map_append, List.map_singleton] at runs
    unfold WalkState.visit
    dsimp only
    split
    · next gap =>
      -- a gap: the run is written and `ino` opens the next
      have apart : last.toNat + 1 < ino.toNat := by
        have : ino.toNat ≠ (last + 1).toNat := fun same => gap (UInt64.toNat_inj.mp same)
        omega
      have pushed : IsMaximalRuns (· ∈ (seen ++ [ino]).map UInt64.toNat)
          (rs.map runBounds ++ [(start.toNat, last.toNat), (ino.toNat, ino.toNat)]) :=
        (before.push apart).of_iff fun n => (mem_map_append_singleton n).symm
      have written : rs.map (fun r => rangeToVec r.1 r.2) ++ [rangeToVec start last] =
          (rs ++ [(start, last)]).map fun r => rangeToVec r.1 r.2 := by
        rw [List.map_append, List.map_singleton]
      rw [written]
      refine .building lastNow ?_
      rw [List.map_append, List.map_append, List.map_singleton, List.map_singleton]
      simpa [runBounds] using pushed
    · next follows =>
      -- `ino` follows the last inode: the run grows by one
      have succ : ino.toNat = last.toNat + 1 := by
        rw [Decidable.not_not.mp follows, next]
      have extended : IsMaximalRuns (· ∈ (seen ++ [ino]).map UInt64.toNat)
          (rs.map runBounds ++ [(start.toNat, ino.toNat)]) := by
        rw [succ]
        exact before.extend.of_iff fun n => by rw [mem_map_append_singleton, succ]
      have listed : (rs ++ [(start, ino)]).map runBounds =
          rs.map runBounds ++ [(start.toNat, ino.toNat)] := by
        rw [List.map_append, List.map_singleton]
        rfl
      refine .building lastNow ?_
      rw [listed]
      exact extended

/-- The encoder's steps over inodes met in increasing order keep the invariant. -/
theorem Encodes.foldl_visit {seen : List UInt64} {st : WalkState} (encodes : Encodes seen st) :
    ∀ {later : List UInt64}, (seen ++ later).Pairwise (fun i j => i.toNat < j.toNat) →
      Encodes (seen ++ later) (later.foldl WalkState.visit st)
  | [], _ => by rwa [List.append_nil]
  | ino :: later, increasing => by
    have above : ∀ i ∈ seen, i.toNat < ino.toNat := fun i mem =>
      (List.pairwise_append.mp increasing).2.2 i mem ino List.mem_cons_self
    have step := encodes.visit above
    rw [List.foldl_cons]
    rw [show seen ++ ino :: later = (seen ++ [ino]) ++ later by simp] at increasing ⊢
    exact step.foldl_visit increasing

/-- What the encoder writes at the end is the maximal runs of what it met. -/
theorem Encodes.finish {seen : List UInt64} {st : WalkState} (encodes : Encodes seen st) :
    ∃ rs : List (UInt64 × UInt64), st.finish = rs.map (fun r => rangeToVec r.1 r.2) ∧
      IsMaximalRuns (· ∈ seen.map UInt64.toNat) (rs.map runBounds) := by
  cases encodes with
  | empty last => exact ⟨[], rfl, IsMaximalRuns.nil.of_iff fun n => by simp⟩
  | @building seen rs start last _ runs =>
    refine ⟨rs ++ [(start, last)], ?_, runs⟩
    rw [WalkState.finish, List.map_append, List.map_singleton]

/-! ## `bitmap_to_array` and `bitmap_to_array_and_clear` -/

/-- `bitmap_to_vec`, with a `load` that returns each word as it is, writes the maximal runs of
the inodes that are set. -/
theorem bitmapToVec_runs (bm : InodeBitmap) {load : UInt64 → UInt64 × UInt64}
    (reads : ∀ v, (load v).1 = v) :
    ∃ rs : List (UInt64 × UInt64), (bm.bitmapToVec load).1 = rs.map (fun r => rangeToVec r.1 r.2) ∧
      IsMaximalRuns (fun n => ∃ i, bm.isSet i = true ∧ i.toNat = n) (rs.map runBounds) := by
  have walked := @Encodes.foldl_visit [] _ (Encodes.empty 0) (inodes bm.map.entries load)
    (by rw [List.nil_append]; exact inodes_pairwise bm.indexes_lt load)
  rw [List.nil_append] at walked
  obtain ⟨rs, written, runs⟩ := walked.finish
  refine ⟨rs, ?_, runs.of_iff fun n => ?_⟩
  · rw [bitmapToVec, walk_eq]
    exact written
  · rw [List.mem_map]
    constructor
    · rintro ⟨i, mem, rfl⟩
      exact ⟨i, (mem_inodes_iff_isSet bm reads i).mp mem, rfl⟩
    · rintro ⟨i, set, rfl⟩
      exact ⟨i, (mem_inodes_iff_isSet bm reads i).mpr set, rfl⟩

theorem bitmapToArray_runs (bm : InodeBitmap) :
    ∃ rs : List (UInt64 × UInt64), bm.bitmapToArray = rs.map (fun r => rangeToVec r.1 r.2) ∧
      IsMaximalRuns (fun n => ∃ i, bm.isSet i = true ∧ i.toNat = n) (rs.map runBounds) :=
  bm.bitmapToVec_runs fun _ => rfl

/-- The walk reads each word through the first half of `load` only. -/
theorem walk_congr (entries : List (UInt64 × UInt64)) {load load' : UInt64 → UInt64 × UInt64}
    (same : ∀ v, (load v).1 = (load' v).1) (st : WalkState) :
    walk entries load st = walk entries load' st := by
  unfold walk
  simp only [same]

theorem bitmapToArrayAndClear_fst (bm : InodeBitmap) :
    bm.bitmapToArrayAndClear.1 = bm.bitmapToArray := by
  unfold bitmapToArrayAndClear bitmapToArray bitmapToVec
  rw [@walk_congr bm.map.entries (fun v => (v, v &&& 0)) (fun v => (v, v)) (fun _ => rfl)]

theorem isSet_bitmapToArrayAndClear (bm : InodeBitmap) (i : UInt64) :
    bm.bitmapToArrayAndClear.2.isSet i = false := by
  rw [isSet_eq]
  unfold bitmapToArrayAndClear bitmapToVec
  dsimp only
  rw [SortedMap.get?_mapValues]
  cases bm.map.get? (getIndexAndMask i).1 with
  | none => rfl
  | some v => simp

/-! ## Runs of operations -/

/-- The operations that change an `InodeBitmap`. -/
inductive Op where
  | set (ino : UInt64)
  | clear (ino : UInt64)
  | clearAll
deriving DecidableEq, Repr

/-- One operation on the bitmap. -/
def apply (bm : InodeBitmap) : Op → InodeBitmap
  | .set ino => bm.set ino
  | .clear ino => bm.clear ino
  | .clearAll => bm.clearAll

/-- The same operation on the set of inodes it stands for. -/
def applyToSet (S : Finset UInt64) : Op → Finset UInt64
  | .set ino => insert ino S
  | .clear ino => S.erase ino
  | .clearAll => ∅

/-- Read through `is_set`, the bitmap is the set `S`. -/
def Represents (bm : InodeBitmap) (S : Finset UInt64) : Prop := ∀ i, bm.isSet i = true ↔ i ∈ S

theorem Represents.apply {bm : InodeBitmap} {S : Finset UInt64} (holds : Represents bm S) (op : Op) :
    Represents (bm.apply op) (applyToSet S op) := by
  intro i
  cases op with
  | set ino =>
    rw [InodeBitmap.apply, applyToSet, isSet_set, Finset.mem_insert, Bool.or_eq_true, beq_iff_eq,
      holds i]
  | clear ino =>
    rw [InodeBitmap.apply, applyToSet, isSet_clear, Finset.mem_erase, Bool.and_eq_true, bne_iff_ne,
      holds i]
  | clearAll =>
    rw [InodeBitmap.apply, applyToSet, isSet_clearAll]
    simp

theorem represents_run (ops : List Op) : Represents (Run.run apply new ops) (Run.run applyToSet ∅ ops) :=
  Run.simulation (fun _ _ op holds => holds.apply op) fun i => by simp [isSet_new]

theorem inodeBitmap_ops_runs (ops : List Op) :
    (∀ i, (Run.run apply new ops).isSet i = true ↔ i ∈ Run.run applyToSet ∅ ops) ∧
    (∃ rs : List (UInt64 × UInt64),
      (Run.run apply new ops).bitmapToArray = rs.map (fun r => rangeToVec r.1 r.2) ∧
      IsMaximalRuns (fun n => ∃ i ∈ Run.run applyToSet ∅ ops, i.toNat = n) (rs.map runBounds)) ∧
    (Run.run apply new ops).bitmapToArrayAndClear.1 = (Run.run apply new ops).bitmapToArray ∧
    ∀ i, (Run.run apply new ops).bitmapToArrayAndClear.2.isSet i = false := by
  have holds := represents_run ops
  obtain ⟨rs, array, runs⟩ := bitmapToArray_runs (Run.run apply new ops)
  refine ⟨holds, ⟨rs, array, runs.of_iff fun n => ?_⟩, bitmapToArrayAndClear_fst _,
    isSet_bitmapToArrayAndClear _⟩
  constructor
  · rintro ⟨i, set, rfl⟩
    exact ⟨i, (holds i).mp set, rfl⟩
  · rintro ⟨i, mem, rfl⟩
    exact ⟨i, (holds i).mpr mem, rfl⟩

end InodeBitmap

end Nydus
