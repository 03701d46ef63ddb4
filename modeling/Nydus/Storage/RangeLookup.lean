import Nydus.Storage.GetChunks

/-!
# What the non-ZRan lookups return

On the layout the builder produces for a non-ZRan blob (valid entries, each starting
where the one before ends, after 4 KiB alignment in the uncompressed address space),
both non-ZRan scans of `storage/src/meta/mod.rs` are one abstract scan `scanBy` over
the chunk ends (`uncompressedScan_iff_scanBy`, `compressedScan_iff_scanBy`). The
properties of the lookups are proved once on it:

1. `lookupBy_ok_iff`: the scan succeeds exactly when the last chunk reaches the batch
   end.
2. `lookupBy_shape`: a result is a run of consecutive indexes from the chunk holding
   the start, ending at a chunk that reaches the end of the range, and a chunk is
   taken after the range is covered only when it stays within the batch end.
3. `getChunksUncompressed_law` and `getChunksCompressed_law` put these together
   with the range checks of `BlobMetaInfo`.
-/

namespace Nydus

open BlobMetaChunkInfo

/-! ## 1. The abstract scan -/

section Abstract

variable (endAt : Nat → Nat) (len end_ batchEnd : Nat)

/-- A forward scan over entries `0 .. len - 1` whose ends are `endAt`: from the entry
after `index`, take entries until one reaches `batchEnd`, but stop before an entry
that would overshoot `batchEnd` once the range up to `end_` is covered. -/
def scanBy : Nat → Nat → List Nat → Option (List Nat)
  | 0, _, _ => none
  | fuel + 1, index, vec =>
    if index + 1 < len then
      if end_ ≤ endAt index ∧ batchEnd < endAt (index + 1) then some vec
      else if batchEnd ≤ endAt (index + 1) then some (vec ++ [index + 1])
      else scanBy fuel (index + 1) (vec ++ [index + 1])
    else none

/-- A lookup that took the entry `i` holding the start: done if it reaches the batch
end, else scan on. -/
def lookupBy (i : Nat) : Option (List Nat) :=
  if batchEnd ≤ endAt i then some [i] else scanBy endAt len end_ batchEnd len i [i]

end Abstract

/-- The ends do not decrease from one entry to the next. -/
def StepMonotone (endAt : Nat → Nat) (len : Nat) : Prop :=
  ∀ k, k + 1 < len → endAt k ≤ endAt (k + 1)

theorem StepMonotone.le {endAt : Nat → Nat} {len : Nat} (mono : StepMonotone endAt len)
    {i j : Nat} (le : i ≤ j) (lt : j < len) : endAt i ≤ endAt j := by
  induction j with
  | zero =>
    exact Nat.le_of_eq (congrArg endAt (Nat.le_zero.mp le))
  | succ j ih =>
    rcases Nat.lt_or_eq_of_le le with before | same
    · exact Nat.le_trans (ih (Nat.le_of_lt_succ before) (by omega)) (mono j lt)
    · exact Nat.le_of_eq (congrArg endAt same)

section AbstractLemmas

variable {endAt : Nat → Nat} {len end_ batchEnd : Nat}

/-- The scan succeeds exactly when the last entry reaches the batch end. -/
theorem scanBy_ok_iff (mono : StepMonotone endAt len) :
    ∀ fuel index vec, index < len → endAt index < batchEnd → len - (index + 1) ≤ fuel →
      ((∃ v, scanBy endAt len end_ batchEnd fuel index vec = some v) ↔
        batchEnd ≤ endAt (len - 1)) := by
  intro fuel
  induction fuel with
  | zero =>
    intro index vec bound below fuelEnough
    have last : index = len - 1 := by omega
    subst last
    simp only [scanBy, reduceCtorEq, exists_false, false_iff, Nat.not_le]
    exact below
  | succ fuel ih =>
    intro index vec bound below fuelEnough
    simp only [scanBy]
    split
    · next more =>
      have reach := mono.le (Nat.le_refl (index + 1)) more
      have toLast := mono.le (show index + 1 ≤ len - 1 by omega) (by omega)
      split
      · next stop => exact ⟨fun _ => by omega, fun _ => ⟨_, rfl⟩⟩
      · split
        · next reached => exact ⟨fun _ => by omega, fun _ => ⟨_, rfl⟩⟩
        · next notReached => exact ih (index + 1) _ more (by omega) (by omega)
    · next last =>
      have : index = len - 1 := by omega
      subst this
      simp only [reduceCtorEq, exists_false, false_iff, Nat.not_le]
      exact below

/-- The shape of a scan result: the entries after `index` up to some `j`, where `j`
reaches the end of the range. Every entry before `j` is below the batch end, and an
entry is taken after a covering one only if it stays within the batch end. -/
theorem scanBy_shape (cover : end_ ≤ batchEnd) :
    ∀ fuel index vec v, endAt index < batchEnd →
      scanBy endAt len end_ batchEnd fuel index vec = some v →
      ∃ j, index ≤ j ∧ j < len ∧ v = vec ++ List.range' (index + 1) (j - index) ∧
        end_ ≤ endAt j ∧
        ∀ k, index ≤ k → k < j →
          endAt k < batchEnd ∧ (end_ ≤ endAt k → endAt (k + 1) ≤ batchEnd) := by
  intro fuel
  induction fuel with
  | zero => intro index vec v _ found; cases found
  | succ fuel ih =>
    intro index vec v below found
    simp only [scanBy] at found
    split at found
    · next more =>
      split at found
      · -- Early stop: the last entry taken already covers the range.
        next stop =>
        cases found
        exact ⟨index, (Nat.le_refl _), by omega, by simp, stop.1, fun k lo hi => by omega⟩
      · next notStop =>
        split at found
        · -- The next entry reaches the batch end.
          next reached =>
          cases found
          refine ⟨index + 1, by omega, more, by simp, by omega, fun k lo hi => ?_⟩
          have : k = index := by omega
          subst this
          exact ⟨below, fun covered => by omega⟩
        · next notReached =>
          obtain ⟨j, lo, hi, rfl, covers, before⟩ :=
            ih (index + 1) (vec ++ [index + 1]) v (by omega) found
          refine ⟨j, by omega, hi, ?_, covers, fun k klo khi => ?_⟩
          · rw [List.append_assoc]
            congr 1
            have split : j - index = 1 + (j - (index + 1)) := by omega
            rw [split, ← List.range'_append_1]
            simp
          · rcases Nat.lt_or_eq_of_le klo with after | same
            · exact before k after khi
            · subst same
              exact ⟨below, fun covered => by omega⟩
    · cases found

theorem lookupBy_ok_iff (mono : StepMonotone endAt len) {i : Nat} (bound : i < len) :
    (∃ v, lookupBy endAt len end_ batchEnd i = some v) ↔ batchEnd ≤ endAt (len - 1) := by
  unfold lookupBy
  split
  · next reached =>
    exact ⟨fun _ => Nat.le_trans reached (mono.le (by omega) (by omega)), fun _ => ⟨_, rfl⟩⟩
  · next below =>
    exact scanBy_ok_iff mono len i [i] bound (by omega) (by omega)

/-- A lookup result is the run `i, i + 1, ..., j`. -/
theorem lookupBy_shape (cover : end_ ≤ batchEnd) {i : Nat} (bound : i < len) {v : List Nat}
    (found : lookupBy endAt len end_ batchEnd i = some v) :
    ∃ j, i ≤ j ∧ j < len ∧ v = List.range' i (j - i + 1) ∧ end_ ≤ endAt j ∧
      ∀ k, i ≤ k → k < j →
        endAt k < batchEnd ∧ (end_ ≤ endAt k → endAt (k + 1) ≤ batchEnd) := by
  unfold lookupBy at found
  split at found
  · next reached =>
    cases found
    exact ⟨i, (Nat.le_refl _), bound, by simp, by omega, fun k lo hi => by omega⟩
  · next below =>
    obtain ⟨j, lo, hi, rfl, covers, before⟩ :=
      scanBy_shape cover len i [i] v (by omega) found
    refine ⟨j, lo, hi, ?_, covers, before⟩
    rw [Nat.add_comm (j - i) 1, ← List.range'_append_1]
    simp

end AbstractLemmas

/-! ## 2. The builder's layouts -/

section Layout

variable {α : Type}

/-- The value of `f` at the entry `k`, zero past the end of the array. -/
def endAtBy (f : α → Nat) (chunks : List α) (k : Nat) : Nat := ((chunks[k]?).map f).getD 0

theorem endAtBy_of_getElem? {f : α → Nat} {chunks : List α} {k : Nat} {e : α}
    (h : chunks[k]? = some e) : endAtBy f chunks k = f e := by
  simp [endAtBy, h]

/-- An entry present at `k + 1` has one at `k`. -/
theorem exists_getElem?_of_succ {chunks : List α} {k : Nat} {e' : α}
    (h : chunks[k + 1]? = some e') : ∃ e, chunks[k]? = some e := by
  have bound := (List.getElem?_eq_some_iff.mp h).1
  exact ⟨_, List.getElem?_eq_getElem (by omega)⟩

variable [BlobMetaChunkInfo α]

/-- The uncompressed layout of a non-ZRan blob: every entry passes `validate`, none
is ZRan, and each entry starts at the aligned end of the one before. -/
structure UncompressedLayout (state : BlobMetaState) (chunks : List α) : Prop where
  valid : ∀ e ∈ chunks, validate e state = .ok ()
  noZran : ∀ e ∈ chunks, isZran e = false
  contiguous : ∀ i e e', chunks[i]? = some e → chunks[i + 1]? = some e' →
    uncompressedOffset e' = alignedUncompressedEnd e

/-- The compressed layout of a non-ZRan blob: as `UncompressedLayout`, with each
entry starting at the compressed end of the one before. -/
structure CompressedLayout (state : BlobMetaState) (chunks : List α) : Prop where
  valid : ∀ e ∈ chunks, validate e state = .ok ()
  noZran : ∀ e ∈ chunks, isZran e = false
  contiguous : ∀ i e e', chunks[i]? = some e → chunks[i + 1]? = some e' →
    compressedOffset e' = compressedEnd e

variable {state : BlobMetaState} {chunks : List α}

theorem getChunkEntry_of_valid (valid : ∀ e ∈ chunks, validate e state = .ok ()) {k : Nat}
    {e : α} (h : chunks[k]? = some e) : getChunkEntry state chunks k = .ok e := by
  have member : e ∈ chunks := List.mem_of_getElem? h
  simp [getChunkEntry, h, valid e member, bind, Except.bind, pure, Except.pure]

theorem UncompressedLayout.sortedIn (layout : UncompressedLayout state chunks) :
    SortedIn chunks false := by
  intro i e e' he he'
  simp only [rangeEnd, rangeStart, Bool.false_eq_true, if_false]
  rw [layout.contiguous i e e' he he']
  exact uncompressedEnd_le_aligned e

theorem CompressedLayout.sortedIn (layout : CompressedLayout state chunks) :
    SortedIn chunks true := by
  intro i e e' he he'
  simp only [rangeEnd, rangeStart, if_true]
  exact Nat.le_of_eq (layout.contiguous i e e' he he').symm

theorem UncompressedLayout.stepMonotone (layout : UncompressedLayout state chunks) :
    StepMonotone (endAtBy alignedUncompressedEnd chunks) chunks.length := by
  intro k more
  obtain ⟨e', he'⟩ : ∃ e', chunks[k + 1]? = some e' := ⟨_, List.getElem?_eq_getElem more⟩
  obtain ⟨e, he⟩ := exists_getElem?_of_succ he'
  rw [endAtBy_of_getElem? he, endAtBy_of_getElem? he', ← layout.contiguous k e e' he he']
  calc uncompressedOffset e' ≤ uncompressedEnd e' := Nat.le_add_right _ _
    _ ≤ alignedUncompressedEnd e' := uncompressedEnd_le_aligned e'

theorem CompressedLayout.stepMonotone (layout : CompressedLayout state chunks) :
    StepMonotone (endAtBy compressedEnd chunks) chunks.length := by
  intro k more
  obtain ⟨e', he'⟩ : ∃ e', chunks[k + 1]? = some e' := ⟨_, List.getElem?_eq_getElem more⟩
  obtain ⟨e, he⟩ := exists_getElem?_of_succ he'
  rw [endAtBy_of_getElem? he, endAtBy_of_getElem? he', ← layout.contiguous k e e' he he']
  exact Nat.le_add_right _ _

/-- On the uncompressed layout the check that the next entry starts at the last end
never fires, and the uncompressed scan is `scanBy` over the aligned ends. -/
theorem uncompressedScan_iff_scanBy (layout : UncompressedLayout state chunks)
    {end_ batchEnd : Nat} :
    ∀ fuel index (e : α) vec v, chunks[index]? = some e →
      (uncompressedScan state chunks end_ batchEnd fuel index (alignedUncompressedEnd e) vec = .ok v ↔
        scanBy (endAtBy alignedUncompressedEnd chunks) chunks.length end_ batchEnd fuel index vec =
          some v) := by
  intro fuel
  induction fuel with
  | zero => intro index e vec v _; simp [uncompressedScan, scanBy]
  | succ fuel ih =>
    intro index e vec v he
    simp only [uncompressedScan, scanBy]
    split
    · next more =>
      obtain ⟨e', he'⟩ : ∃ e', chunks[index + 1]? = some e' :=
        ⟨_, List.getElem?_eq_getElem more⟩
      have starts := layout.contiguous index e e' he he'
      simp only [getChunkEntry_of_valid layout.valid he', starts, ne_eq, not_true_eq_false,
        if_false, endAtBy_of_getElem? he, endAtBy_of_getElem? he', ge_iff_le, gt_iff_lt]
      split
      · simp
      · split
        · simp
        · exact ih (index + 1) e' _ v he'
    · simp

/-- On the compressed layout the compressed scan is `scanBy` over the compressed
ends. -/
theorem compressedScan_iff_scanBy (layout : CompressedLayout state chunks)
    {end_ batchEnd : Nat} :
    ∀ fuel index (e : α) vec v, chunks[index]? = some e →
      (compressedScan state chunks end_ batchEnd fuel index (compressedEnd e) vec = .ok v ↔
        scanBy (endAtBy compressedEnd chunks) chunks.length end_ batchEnd fuel index vec =
          some v) := by
  intro fuel
  induction fuel with
  | zero => intro index e vec v _; simp [compressedScan, scanBy]
  | succ fuel ih =>
    intro index e vec v he
    simp only [compressedScan, scanBy]
    split
    · next more =>
      obtain ⟨e', he'⟩ : ∃ e', chunks[index + 1]? = some e' :=
        ⟨_, List.getElem?_eq_getElem more⟩
      simp only [getChunkEntry_of_valid layout.valid he', endAtBy_of_getElem? he,
        endAtBy_of_getElem? he', ge_iff_le, gt_iff_lt]
      split
      · simp
      · split
        · simp
        · exact ih (index + 1) e' _ v he'
    · simp

end Layout

/-! ## 3. The laws of the lookups -/

section Laws

theorem checkedAdd_of_lt {a b : Nat} (h : a + b < U64_LIMIT) : checkedAdd a b = some (a + b) := by
  simp [checkedAdd, h]

theorem checkedAdd_of_not_lt {a b : Nat} (h : ¬ a + b < U64_LIMIT) : checkedAdd a b = none := by
  simp [checkedAdd, h]

/-- The batch end never falls short of the range. -/
theorem le_batchEndOf {start size batchSize limit : Nat} (within : start + size ≤ limit) :
    start + size ≤ batchEndOf start size batchSize (start + size) limit := by
  unfold batchEndOf
  split
  · exact (Nat.le_refl _)
  · by_cases fits : start + batchSize < U64_LIMIT
    · simp only [checkedAdd_of_lt fits, Option.getD_some]
      omega
    · simp only [checkedAdd_of_not_lt fits, Option.getD_none]
      omega

/-- The batch end is the end of the range, or `start + batch_size` capped at the limit
for a batch larger than the range. -/
theorem batchEndOf_cases {start size batchSize limit : Nat} (within : start + size ≤ limit) :
    batchEndOf start size batchSize (start + size) limit = start + size ∨
      (size < batchSize ∧
        batchEndOf start size batchSize (start + size) limit = min (start + batchSize) limit) := by
  unfold batchEndOf
  split
  · exact .inl rfl
  · next larger =>
    by_cases fits : start + batchSize < U64_LIMIT
    · rw [checkedAdd_of_lt fits, Option.getD_some]
      exact .inr ⟨by omega, rfl⟩
    · -- The overflow falls back to the end of the range, which the cap leaves alone.
      rw [checkedAdd_of_not_lt fits, Option.getD_none]
      exact .inl (Nat.min_eq_left within)

variable {α : Type} [BlobMetaChunkInfo α] {state : BlobMetaState} {chunks : List α}

/-- `_get_chunks_uncompressed` on the uncompressed layout: the lookup from the chunk
holding the start. -/
theorem _getChunksUncompressed_ok_iff (layout : UncompressedLayout state chunks)
    (start end_ batchEnd batchSize : Nat) (v : List Nat) :
    _getChunksUncompressed state chunks start end_ batchEnd batchSize = .ok v ↔
      ∃ i, Contains chunks false start i ∧
        lookupBy (endAtBy alignedUncompressedEnd chunks) chunks.length end_ batchEnd i = some v := by
  rcases getChunkIndexNocheck_cases chunks start false with ⟨i, search, holds⟩ | ⟨s, e, search⟩
  · obtain ⟨e, he, _⟩ := holds
    have notZran := layout.noZran e (List.mem_of_getElem? he)
    have unique : ∀ j, Contains chunks false start j ↔ j = i := fun j =>
      ⟨fun hj => layout.sortedIn.contains_unique hj ⟨e, he, by assumption⟩,
        fun same => same ▸ ⟨e, he, by assumption⟩⟩
    simp only [_getChunksUncompressed, search, Except.ok_bind, getChunkEntry_of_valid layout.valid he,
      notZran, Bool.false_eq_true, if_false, unique, exists_eq_left, lookupBy,
      endAtBy_of_getElem? he, ge_iff_le]
    split
    · simp
    · exact uncompressedScan_iff_scanBy layout _ i e [i] v he
  · simp only [_getChunksUncompressed, search, Except.error_bind, reduceCtorEq, false_iff,
      not_exists, not_and]
    intro i holds
    have := (getChunkIndexNocheck_ok_iff layout.sortedIn start i).mpr holds
    rw [search] at this
    cases this

/-- `_get_chunks_compressed` on the compressed layout: the lookup from the chunk
holding the start. -/
theorem _getChunksCompressed_ok_iff (layout : CompressedLayout state chunks)
    (start end_ batchEnd batchSize : Nat) (v : List Nat) :
    _getChunksCompressed state chunks start end_ batchEnd batchSize = .ok v ↔
      ∃ i, Contains chunks true start i ∧
        lookupBy (endAtBy compressedEnd chunks) chunks.length end_ batchEnd i = some v := by
  rcases getChunkIndexNocheck_cases chunks start true with ⟨i, search, holds⟩ | ⟨s, e, search⟩
  · obtain ⟨e, he, _⟩ := holds
    have notZran := layout.noZran e (List.mem_of_getElem? he)
    have unique : ∀ j, Contains chunks true start j ↔ j = i := fun j =>
      ⟨fun hj => layout.sortedIn.contains_unique hj ⟨e, he, by assumption⟩,
        fun same => same ▸ ⟨e, he, by assumption⟩⟩
    simp only [_getChunksCompressed, search, Except.ok_bind, getChunkEntry_of_valid layout.valid he,
      notZran, Bool.false_eq_true, if_false, unique, exists_eq_left, lookupBy,
      endAtBy_of_getElem? he, ge_iff_le]
    split
    · simp
    · exact compressedScan_iff_scanBy layout _ i e [i] v he
  · simp only [_getChunksCompressed, search, Except.error_bind, reduceCtorEq, false_iff,
      not_exists, not_and]
    intro i holds
    have := (getChunkIndexNocheck_ok_iff layout.sortedIn start i).mpr holds
    rw [search] at this
    cases this

/-- What a successful lookup returns, over the ends `endAt` of the chosen address
space: the run `i .. j` from the entry `i` holding the start, whose last entry reaches
the end of the range, and in which every entry taken after one that reaches the end of
the range stays within `cap`. -/
def CoveringRun (chunks : List α) (compressed : Bool) (endAt : Nat → Nat)
    (start end_ cap : Nat) (v : List Nat) : Prop :=
  ∃ i j, Contains chunks compressed start i ∧ i ≤ j ∧ j < chunks.length ∧
    v = List.range' i (j - i + 1) ∧ end_ ≤ endAt j ∧
    ∀ m k, i ≤ m → m < k → k ≤ j → end_ ≤ endAt m → endAt k ≤ cap

/-- A lookup result is a covering run capped by `min (start + batch_size) limit`: with
a batch no larger than the range the scan stops at the first entry reaching the end,
so nothing comes after it. -/
theorem coveringRun_of_lookupBy {compressed : Bool} {endAt : Nat → Nat}
    (mono : StepMonotone endAt chunks.length) {start size batchSize limit i : Nat}
    {v : List Nat} (within : start + size ≤ limit) (holds : Contains chunks compressed start i)
    (found : lookupBy endAt chunks.length (start + size)
      (batchEndOf start size batchSize (start + size) limit) i = some v) :
    CoveringRun chunks compressed endAt start (start + size) (min (start + batchSize) limit) v := by
  have bound : i < chunks.length := by
    obtain ⟨e, he, _⟩ := holds
    exact (List.getElem?_eq_some_iff.mp he).1
  obtain ⟨j, lo, hi, rfl, covers, before⟩ := lookupBy_shape (le_batchEndOf within) bound found
  refine ⟨i, j, holds, lo, hi, rfl, covers, fun m k hm hmk hkj covered => ?_⟩
  obtain ⟨k, rfl⟩ : ∃ k', k = k' + 1 := ⟨k - 1, by omega⟩
  obtain ⟨belowBatch, capped⟩ := before k (by omega) (by omega)
  have grows : endAt m ≤ endAt k := mono.le (by omega) (by omega)
  rcases @batchEndOf_cases start size batchSize limit within with stops | ⟨_, larger⟩
  · -- The batch end is the end of the range: the scan would have stopped at `m`.
    rw [stops] at belowBatch
    omega
  · rw [← larger]
    exact capped (Nat.le_trans covered grows)

/-- `get_chunks_uncompressed` on the uncompressed layout: the range checks, then the
lookup from the chunk holding the start. -/
theorem getChunksUncompressed_ok_iff (info : BlobMetaInfo α)
    (layout : UncompressedLayout info.state info.chunkInfoArray) (start size batchSize : Nat)
    (v : List Nat) :
    info.getChunksUncompressed start size batchSize = .ok v ↔
      start + size < U64_LIMIT ∧ start + size ≤ info.state.uncompressedSize ∧
      ∃ i, Contains info.chunkInfoArray false start i ∧
        lookupBy (endAtBy alignedUncompressedEnd info.chunkInfoArray) info.chunkInfoArray.length
          (start + size) (batchEndOf start size batchSize (start + size) info.state.uncompressedSize)
          i = some v := by
  unfold BlobMetaInfo.getChunksUncompressed
  by_cases fits : start + size < U64_LIMIT
  · rw [checkedAdd_of_lt fits]
    dsimp only
    split
    · next tooFar =>
      simp only [reduceCtorEq, false_iff, not_and, not_exists]
      intro _ within
      omega
    · next within =>
      rw [_getChunksUncompressed_ok_iff layout]
      simp only [fits, true_and]
      exact ⟨fun found => ⟨by omega, found⟩, fun found => found.2⟩
  · rw [checkedAdd_of_not_lt fits]
    simp [fits]

/-- `get_chunks_compressed` on the compressed layout. -/
theorem getChunksCompressed_ok_iff (info : BlobMetaInfo α)
    (layout : CompressedLayout info.state info.chunkInfoArray) (start size batchSize : Nat)
    (v : List Nat) :
    info.getChunksCompressed start size batchSize = .ok v ↔
      start + size < U64_LIMIT ∧ start + size ≤ info.state.compressedSize ∧
      ∃ i, Contains info.chunkInfoArray true start i ∧
        lookupBy (endAtBy compressedEnd info.chunkInfoArray) info.chunkInfoArray.length
          (start + size) (batchEndOf start size batchSize (start + size) info.state.compressedSize)
          i = some v := by
  unfold BlobMetaInfo.getChunksCompressed
  by_cases fits : start + size < U64_LIMIT
  · rw [checkedAdd_of_lt fits]
    dsimp only
    split
    · next tooFar =>
      simp only [reduceCtorEq, false_iff, not_and, not_exists]
      intro _ within
      omega
    · next within =>
      rw [_getChunksCompressed_ok_iff layout]
      simp only [fits, true_and]
      exact ⟨fun found => ⟨by omega, found⟩, fun found => found.2⟩
  · rw [checkedAdd_of_not_lt fits]
    simp [fits]

/-- The law of `get_chunks_uncompressed` on the uncompressed layout. It succeeds
exactly when the range is well formed and within the blob, its start lies in a chunk,
and the last chunk reaches the batch end; the bytes after the start may lie in the
4 KiB padding after a chunk. A result is a covering run capped by the batch end. -/
theorem getChunksUncompressed_law (info : BlobMetaInfo α)
    (layout : UncompressedLayout info.state info.chunkInfoArray) (start size batchSize : Nat) :
    ((∃ v, info.getChunksUncompressed start size batchSize = .ok v) ↔
      start + size < U64_LIMIT ∧ start + size ≤ info.state.uncompressedSize ∧
      (∃ i, Contains info.chunkInfoArray false start i) ∧
      batchEndOf start size batchSize (start + size) info.state.uncompressedSize ≤
        endAtBy alignedUncompressedEnd info.chunkInfoArray (info.chunkInfoArray.length - 1)) ∧
    ∀ v, info.getChunksUncompressed start size batchSize = .ok v →
      CoveringRun info.chunkInfoArray false (endAtBy alignedUncompressedEnd info.chunkInfoArray)
        start (start + size) (min (start + batchSize) info.state.uncompressedSize) v := by
  simp only [getChunksUncompressed_ok_iff info layout]
  constructor
  · constructor
    · rintro ⟨v, fits, within, i, holds, found⟩
      obtain ⟨e, he, _⟩ := holds
      have bound := (List.getElem?_eq_some_iff.mp he).1
      exact ⟨fits, within, ⟨i, e, he, by assumption⟩,
        (lookupBy_ok_iff layout.stepMonotone bound).mp ⟨v, found⟩⟩
    · rintro ⟨fits, within, ⟨i, holds⟩, reaches⟩
      obtain ⟨e, he, _⟩ := holds
      have bound := (List.getElem?_eq_some_iff.mp he).1
      obtain ⟨v, found⟩ := (lookupBy_ok_iff layout.stepMonotone bound).mpr reaches
      exact ⟨v, fits, within, i, ⟨e, he, by assumption⟩, found⟩
  · rintro v ⟨_, within, i, holds, found⟩
    exact coveringRun_of_lookupBy layout.stepMonotone within holds found

/-- The law of `get_chunks_compressed` on the compressed layout. -/
theorem getChunksCompressed_law (info : BlobMetaInfo α)
    (layout : CompressedLayout info.state info.chunkInfoArray) (start size batchSize : Nat) :
    ((∃ v, info.getChunksCompressed start size batchSize = .ok v) ↔
      start + size < U64_LIMIT ∧ start + size ≤ info.state.compressedSize ∧
      (∃ i, Contains info.chunkInfoArray true start i) ∧
      batchEndOf start size batchSize (start + size) info.state.compressedSize ≤
        endAtBy compressedEnd info.chunkInfoArray (info.chunkInfoArray.length - 1)) ∧
    ∀ v, info.getChunksCompressed start size batchSize = .ok v →
      CoveringRun info.chunkInfoArray true (endAtBy compressedEnd info.chunkInfoArray)
        start (start + size) (min (start + batchSize) info.state.compressedSize) v := by
  simp only [getChunksCompressed_ok_iff info layout]
  constructor
  · constructor
    · rintro ⟨v, fits, within, i, holds, found⟩
      obtain ⟨e, he, _⟩ := holds
      have bound := (List.getElem?_eq_some_iff.mp he).1
      exact ⟨fits, within, ⟨i, e, he, by assumption⟩,
        (lookupBy_ok_iff layout.stepMonotone bound).mp ⟨v, found⟩⟩
    · rintro ⟨fits, within, ⟨i, holds⟩, reaches⟩
      obtain ⟨e, he, _⟩ := holds
      have bound := (List.getElem?_eq_some_iff.mp he).1
      obtain ⟨v, found⟩ := (lookupBy_ok_iff layout.stepMonotone bound).mpr reaches
      exact ⟨v, fits, within, i, ⟨e, he, by assumption⟩, found⟩
  · rintro v ⟨_, within, i, holds, found⟩
    exact coveringRun_of_lookupBy layout.stepMonotone within holds found

/-- `get_chunks_uncompressed` on the uncompressed layout and `get_chunks_compressed` on
the compressed layout of non-ZRan blobs: each succeeds exactly when the range is well
formed and inside the blob, its start lies in a chunk and the last chunk reaches the
batch end; a result is a covering run whose entries follow each other, capped by the
batch end after the range is covered. -/
theorem getChunks_law (info : BlobMetaInfo α) (start size batchSize : Nat) :
    (UncompressedLayout info.state info.chunkInfoArray →
      ((∃ v, info.getChunksUncompressed start size batchSize = .ok v) ↔
        start + size < U64_LIMIT ∧ start + size ≤ info.state.uncompressedSize ∧
        (∃ i, Contains info.chunkInfoArray false start i) ∧
        batchEndOf start size batchSize (start + size) info.state.uncompressedSize ≤
          endAtBy alignedUncompressedEnd info.chunkInfoArray (info.chunkInfoArray.length - 1)) ∧
      ∀ v, info.getChunksUncompressed start size batchSize = .ok v →
        CoveringRun info.chunkInfoArray false (endAtBy alignedUncompressedEnd info.chunkInfoArray)
          start (start + size) (min (start + batchSize) info.state.uncompressedSize) v ∧
        ∀ k e e', k + 1 ∈ v → info.chunkInfoArray[k]? = some e →
          info.chunkInfoArray[k + 1]? = some e' → uncompressedOffset e' = alignedUncompressedEnd e) ∧
    (CompressedLayout info.state info.chunkInfoArray →
      ((∃ v, info.getChunksCompressed start size batchSize = .ok v) ↔
        start + size < U64_LIMIT ∧ start + size ≤ info.state.compressedSize ∧
        (∃ i, Contains info.chunkInfoArray true start i) ∧
        batchEndOf start size batchSize (start + size) info.state.compressedSize ≤
          endAtBy compressedEnd info.chunkInfoArray (info.chunkInfoArray.length - 1)) ∧
      ∀ v, info.getChunksCompressed start size batchSize = .ok v →
        CoveringRun info.chunkInfoArray true (endAtBy compressedEnd info.chunkInfoArray)
          start (start + size) (min (start + batchSize) info.state.compressedSize) v ∧
        ∀ k e e', k + 1 ∈ v → info.chunkInfoArray[k]? = some e →
          info.chunkInfoArray[k + 1]? = some e' → compressedOffset e' = compressedEnd e) := by
  constructor
  · intro layout
    obtain ⟨okIff, run⟩ := getChunksUncompressed_law info layout start size batchSize
    exact ⟨okIff, fun v found =>
      ⟨run v found, fun k e e' _ he he' => layout.contiguous k e e' he he'⟩⟩
  · intro layout
    obtain ⟨okIff, run⟩ := getChunksCompressed_law info layout start size batchSize
    exact ⟨okIff, fun v found =>
      ⟨run v found, fun k e e' _ he he' => layout.contiguous k e e' he he'⟩⟩

end Laws

/-! ## 4. Runs of chunks, and a range ending in the alignment padding -/

/-- A V1 blob with one chunk of `0x1001` bytes, padded to `0x2000`. -/
def gapInfo : BlobMetaInfo BlobChunkInfoV1Ondisk :=
  ⟨⟨0, 0, 0x1000, 0x2000, [], 0⟩, [⟨0x0100_0000_0000_0000, 0x00ff_f000_0000_0000⟩]⟩

theorem gapInfo_layout : UncompressedLayout gapInfo.state gapInfo.chunkInfoArray where
  valid := by decide
  noZran := by decide
  contiguous := by
    intro i e e' _ he'
    simp [gapInfo] at he'

/-- Three chunks, each starting where the one before ends in both layouts: the first holds
`0x1001` bytes padded to `0x2000`, and the compressed ones are `0x800`, `0x400` and `0x200`
bytes long. -/
def runInfo : BlobMetaInfo BlobChunkInfoV1Ondisk :=
  ⟨⟨0, 0, 0xe00, 0x3800, [], 0⟩,
    [⟨0x0100_0000_0000_0000, 0x007f_f000_0000_0000⟩, ⟨0x00ff_f000_0000_2000, 0x003f_f000_0000_0800⟩,
      ⟨0x007f_f000_0000_3000, 0x001f_f000_0000_0c00⟩]⟩

theorem runInfo_layouts : UncompressedLayout runInfo.state runInfo.chunkInfoArray ∧
    CompressedLayout runInfo.state runInfo.chunkInfoArray := by
  -- The entries are read off one neighbour pair at a time.
  have pairs : ∀ i e e', runInfo.chunkInfoArray[i]? = some e →
      runInfo.chunkInfoArray[i + 1]? = some e' →
      uncompressedOffset e' = alignedUncompressedEnd e ∧ compressedOffset e' = compressedEnd e := by
    intro i e e' he he'
    rcases i with _ | _ | i <;> simp [runInfo] at he he' <;> subst he he' <;> decide
  exact ⟨⟨by decide, by decide, fun i e e' he he' => (pairs i e e' he he').1⟩,
    ⟨by decide, by decide, fun i e e' he he' => (pairs i e e' he he').2⟩⟩

/-- A range from the first chunk into the second, past the first one's padding, and a
compressed range over all three chunks. -/
theorem getChunks_law_across_chunks :
    UncompressedLayout runInfo.state runInfo.chunkInfoArray ∧
      CompressedLayout runInfo.state runInfo.chunkInfoArray ∧
      CoveringRun runInfo.chunkInfoArray false (endAtBy alignedUncompressedEnd runInfo.chunkInfoArray)
        0x800 (0x800 + 0x2000) (min (0x800 + 0) runInfo.state.uncompressedSize) [0, 1] ∧
      CoveringRun runInfo.chunkInfoArray true (endAtBy compressedEnd runInfo.chunkInfoArray)
        0x400 (0x400 + 0x900) (min (0x400 + 0) runInfo.state.compressedSize) [0, 1, 2] :=
  ⟨runInfo_layouts.1, runInfo_layouts.2,
    (((getChunks_law runInfo 0x800 0x2000 0).1 runInfo_layouts.1).2 [0, 1] (by decide)).1,
    (((getChunks_law runInfo 0x400 0x900 0).2 runInfo_layouts.2).2 [0, 1, 2] (by decide)).1⟩

/-- The lookup of `[0x1000, 0x1800)` succeeds although the bytes from `0x1001` on lie
in no chunk: they are the alignment padding of the only chunk. -/
theorem getChunksUncompressed_alignment_gap :
    UncompressedLayout gapInfo.state gapInfo.chunkInfoArray ∧
      gapInfo.getChunksUncompressed 0x1000 0x800 0 = .ok [0] ∧
      ¬ ∀ b, 0x1000 ≤ b → b < 0x1000 + 0x800 → ∃ i, Contains gapInfo.chunkInfoArray false b i := by
  refine ⟨gapInfo_layout, by decide, fun covered => ?_⟩
  obtain ⟨i, e, he, _, below⟩ := covered 0x1001 (by decide) (by decide)
  have first : i = 0 := by
    have := (List.getElem?_eq_some_iff.mp he).1
    simp [gapInfo] at this
    exact this
  subst first
  simp only [gapInfo, List.getElem?_cons_zero, Option.some.injEq] at he
  subst he
  revert below
  decide

end Nydus
