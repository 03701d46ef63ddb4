import Nydus.Storage.RangeLookup
import Nydus.Storage.MoreChunks

/-!
# Whole ZRan contexts

The entries of a ZRan blob are grouped by the inflate context that decompresses them,
and a reader must fetch whole contexts: the decompressor cannot start in the middle of
one. The builder writes the entries of each context as one run, with non-decreasing
context indexes (`ZranOrdered`).

All three ZRan branches of `storage/src/meta/mod.rs` walk back to the header chunk of a
context and scan forward, stopping only where the context changes, so each takes the
entries of a run of whole contexts `[h, k)`. `_add_more_chunks` returns exactly those
indexes (`addMoreChunks_zran_whole`). The two lookups take the same run but push the
header's index `h` for every entry, so they return `h` repeated `k - h` times
(`getChunksUncompressed_zran_replicate`, `getChunksCompressed_zran_replicate`).
-/

namespace Nydus

/-! ## Runs of equal labels -/

section Runs

variable (label : Nat → Nat) (len : Nat)

/-- `h` starts a run of equal labels. -/
def RunStart (h : Nat) : Prop := h = 0 ∨ label (h - 1) ≠ label h

/-- `k` ends a run of equal labels within `[0, len)`. -/
def RunEnd (k : Nat) : Prop := k = len ∨ label (k - 1) ≠ label k

/-- Every label that occurs on `v` occurs on no index of `[0, len)` outside `v`. -/
def WholeRuns (v : List Nat) : Prop := ∀ i ∈ v, ∀ j < len, label j = label i → j ∈ v

variable {label len}

/-- Under a non-decreasing labelling the indexes of one label lie between any run start
and run end around one of them. -/
theorem StepMonotone.bounds_of_label_eq (mono : StepMonotone label len) {h k i j : Nat}
    (start : RunStart label h) (stop : RunEnd label len k) (within : k ≤ len)
    (hi : h ≤ i) (ik : i < k) (hj : j < len) (same : label j = label i) : h ≤ j ∧ j < k := by
  constructor
  · -- An index before `h` has a label at most that of `h - 1`, which is below `label h`.
    by_contra before
    rcases start with zero | differs
    · omega
    · have h1 : label j ≤ label (h - 1) := mono.le (by omega) (by omega)
      have h2 : label (h - 1) ≤ label h := mono.le (by omega) (by omega)
      have h3 : label h ≤ label i := mono.le hi (by omega)
      omega
  · -- An index from `k` on has a label at least that of `k`, which is above `label (k - 1)`.
    by_contra after
    rcases stop with atLen | differs
    · omega
    · have h1 : label i ≤ label (k - 1) := mono.le (by omega) (by omega)
      have h2 : label (k - 1) ≤ label k := mono.le (by omega) (by omega)
      have h3 : label k ≤ label j := mono.le (by omega) hj
      omega

/-- The indexes from a run start to a run end make up whole runs. -/
theorem wholeRuns_range' (mono : StepMonotone label len) {h k : Nat}
    (start : RunStart label h) (stop : RunEnd label len k) (within : k ≤ len) :
    WholeRuns label len (List.range' h (k - h)) := by
  intro i member j hj same
  obtain ⟨hi, ik⟩ : h ≤ i ∧ i < k := by
    have := List.mem_range'_1.mp member
    omega
  have bounds := mono.bounds_of_label_eq start stop within hi ik hj same
  exact List.mem_range'_1.mpr (by omega)

end Runs

/-! ## The ZRan context of each entry -/

open BlobMetaChunkInfo

variable {α : Type} [BlobMetaChunkInfo α]

/-- The context indexes never decrease along the array, so the entries of each context
form one run. -/
def ZranOrdered (chunks : List α) : Prop :=
  StepMonotone (endAtBy getZranIndex chunks) chunks.length

theorem drop_eq_cons {β : Type} {l rest : List β} {i : Nat} {x : β}
    (h : l.drop i = x :: rest) : l[i]? = some x ∧ l.drop (i + 1) = rest := by
  have bound : i < l.length := by
    by_contra outside
    rw [List.drop_eq_nil_of_le (by omega)] at h
    cases h
  rw [List.drop_eq_getElem_cons bound, List.cons.injEq] at h
  exact ⟨by rw [List.getElem?_eq_getElem bound, h.1], h.2⟩

theorem getChunkEntry_eq_ok {state : BlobMetaState} {chunks : List α} {k : Nat} {e : α}
    (h : getChunkEntry state chunks k = .ok e) : chunks[k]? = some e := by
  unfold getChunkEntry at h
  split at h
  · cases h
  · next entry found =>
    obtain ⟨_, -, pure⟩ := Except.bind_eq_ok.mp h
    cases pure
    exact found

/-! ## The walk back -/

section WalkBack

variable {err : MetaError} {state : BlobMetaState} {chunks : List α} {zranIndex : Nat}

/-- The walk back from `index` ends at the first entry of the run of entries of context
`zranIndex` that ends at `index`: every entry from there up to `index` is of that
context and the one before is not. -/
theorem zranWalkBack_spec : ∀ {index h : Nat},
    zranWalkBack err state chunks zranIndex index = .ok h →
    h ≤ index ∧ (∀ j, h ≤ j → j < index → endAtBy getZranIndex chunks j = zranIndex) ∧
      (h = 0 ∨ endAtBy getZranIndex chunks (h - 1) ≠ zranIndex) := by
  intro index
  induction index with
  | zero =>
    intro h walked
    rw [zranWalkBack, Except.ok.injEq] at walked
    subst walked
    exact ⟨Nat.le_refl 0, fun j _ lt => absurd lt (Nat.not_lt_zero j), .inl rfl⟩
  | succ index ih =>
    intro h walked
    rw [zranWalkBack] at walked
    obtain ⟨entry, got, walked⟩ := Except.bind_eq_ok.mp walked
    have label : endAtBy getZranIndex chunks index = getZranIndex entry :=
      endAtBy_of_getElem? (getChunkEntry_eq_ok got)
    split at walked
    · cases walked
    · split at walked
      · -- The entry before is of another context: `index + 1` is the header.
        next _ other =>
        cases walked
        refine ⟨Nat.le_refl _, fun j lo hi => absurd hi (by omega), .inr ?_⟩
        rw [Nat.add_sub_cancel, label]
        exact other
      · next _ same =>
        obtain ⟨le, inside, start⟩ := ih walked
        refine ⟨Nat.le_succ_of_le le, fun j lo hi => ?_, start⟩
        rcases Nat.lt_succ_iff_lt_or_eq.mp hi with lt | eq
        · exact inside j lo lt
        · rw [eq, label]
          exact Decidable.not_not.mp same

/-- The walk back from an entry of context `zranIndex` ends at the start of its run. -/
theorem zranWalkBack_runStart {index h : Nat}
    (walked : zranWalkBack err state chunks zranIndex index = .ok h)
    (labelled : endAtBy getZranIndex chunks index = zranIndex) :
    h ≤ index ∧ (∀ j, h ≤ j → j ≤ index → endAtBy getZranIndex chunks j = zranIndex) ∧
      RunStart (endAtBy getZranIndex chunks) h := by
  obtain ⟨le, inside, start⟩ := zranWalkBack_spec walked
  have upTo : ∀ j, h ≤ j → j ≤ index → endAtBy getZranIndex chunks j = zranIndex := by
    intro j lo hi
    rcases Nat.lt_or_eq_of_le hi with lt | eq
    · exact inside j lo lt
    · rw [eq]
      exact labelled
  refine ⟨le, upTo, ?_⟩
  rcases start with zero | other
  · exact .inl zero
  · exact .inr (by rw [upTo h (Nat.le_refl h) le]; exact other)

end WalkBack

/-! ## The forward loop of the lookups -/

section LookupScan

/-- Where the shared ZRan loop started at `index` with context `last` can stop: at the
end of the array, before the first entry if that one is of another context, or where
the context changes. -/
def ScanStop (label : Nat → Nat) (len index last k : Nat) : Prop :=
  k = len ∨ (k = index ∧ label k ≠ last) ∨ (index < k ∧ label (k - 1) ≠ label k)

variable {label : Nat → Nat} {len : Nat}

/-- A stop of the loop resumed after an entry of context `z` is a stop of the loop
started at that entry. -/
theorem ScanStop.of_succ {index last z k : Nat} (hz : label index = z)
    (stop : ScanStop label len (index + 1) z k) : ScanStop label len index last k := by
  rcases stop with atLen | ⟨next, other⟩ | ⟨lt, changes⟩
  · exact .inl atLen
  · subst next
    refine .inr (.inr ⟨by omega, ?_⟩)
    rw [Nat.add_sub_cancel, hz]
    exact Ne.symm other
  · exact .inr (.inr ⟨by omega, changes⟩)

/-- Started at an entry of context `last`, the loop takes that entry and stops at the
end of a run. -/
theorem ScanStop.runEnd {index last k : Nat} (hz : label index = last) (bound : index < len)
    (stop : ScanStop label len index last k) : index < k ∧ RunEnd label len k := by
  rcases stop with atLen | ⟨here, other⟩ | ⟨lt, changes⟩
  · exact ⟨by omega, .inl atLen⟩
  · rw [here] at other
    exact absurd hz other
  · exact ⟨lt, .inr changes⟩

theorem append_replicate_succ {vec : List Nat} {x index k : Nat} (lt : index < k) :
    vec ++ [x] ++ List.replicate (k - (index + 1)) x = vec ++ List.replicate (k - index) x := by
  obtain ⟨n, rfl⟩ : ∃ n, k = index + 1 + n := ⟨k - (index + 1), by omega⟩
  rw [show index + 1 + n - index = n + 1 by omega, show index + 1 + n - (index + 1) = n by omega,
    List.replicate_succ, List.append_assoc, List.singleton_append]

variable {state : BlobMetaState} {header : Nat} {stop : Nat → ZranInflateContext → α → Bool}
  {next : Nat → ZranInflateContext → Nat} {chunks : List α}

/-- The shared ZRan loop started at `index` pushes the header index once for each
entry up to a stop. The induction is on the entries left, from `index` on. -/
theorem zranScan_spec : ∀ {entries : List α} {index acc zranLast : Nat} {vec v : List Nat},
    chunks.drop index = entries → index ≤ chunks.length →
    zranScan state header stop next entries acc zranLast vec = .ok v →
    ∃ k, index ≤ k ∧ k ≤ chunks.length ∧ v = vec ++ List.replicate (k - index) header ∧
      ScanStop (endAtBy getZranIndex chunks) chunks.length index zranLast k := by
  intro entries
  induction entries with
  | nil =>
    intro index acc zranLast vec v dropped within scanned
    have atEnd : index = chunks.length := by
      have := List.drop_eq_nil_iff.mp dropped
      omega
    rw [zranScan, Except.ok.injEq] at scanned
    refine ⟨index, Nat.le_refl _, within, ?_, .inl atEnd⟩
    rw [← scanned, Nat.sub_self, List.replicate_zero, List.append_nil]
  | cons entry rest ih =>
    intro index acc zranLast vec v dropped within scanned
    obtain ⟨found, dropped'⟩ := drop_eq_cons dropped
    have label : endAtBy getZranIndex chunks index = getZranIndex entry :=
      endAtBy_of_getElem? found
    have bound : index < chunks.length := (List.getElem?_eq_some_iff.mp found).1
    -- The loop resumed at `index + 1` after taking this entry.
    have resumed : ∀ {acc' : Nat} {v' : List Nat},
        zranScan state header stop next rest acc' (getZranIndex entry) (vec ++ [header]) = .ok v' →
        v' = v → ∃ k, index ≤ k ∧ k ≤ chunks.length ∧
          v = vec ++ List.replicate (k - index) header ∧
          ScanStop (endAtBy getZranIndex chunks) chunks.length index zranLast k := by
      intro acc' v' scanned' same
      obtain ⟨k, lo, hi, result, stopped⟩ := ih dropped' bound scanned'
      refine ⟨k, by omega, hi, ?_, stopped.of_succ label⟩
      rw [← same, result, append_replicate_succ (by omega)]
    rw [zranScan] at scanned
    obtain ⟨_, -, scanned⟩ := Except.bind_eq_ok.mp scanned
    split at scanned
    · cases scanned
    · split at scanned
      · -- The first entry of a new context: the loop stops before it or takes it.
        next _ other =>
        obtain ⟨ctx, -, scanned⟩ := Except.bind_eq_ok.mp scanned
        split at scanned
        · cases scanned
          refine ⟨index, Nat.le_refl _, Nat.le_of_lt bound, ?_, .inr (.inl ⟨rfl, ?_⟩)⟩
          · rw [Nat.sub_self, List.replicate_zero, List.append_nil]
          · rw [label]
            exact other
        · exact resumed scanned rfl
      · next _ same =>
        have last : zranLast = getZranIndex entry := (Decidable.not_not.mp same).symm
        rw [last] at scanned
        exact resumed scanned rfl

end LookupScan

/-! ## The ZRan branches of the lookups -/

section Lookups

variable {state : BlobMetaState} {chunks : List α}

/-- The walk back and the forward loop of a lookup's ZRan branch, from the entry `i`
holding the start: the loop covers a run of whole contexts `[h, k)` around `i`, but
names every entry of it by the header `h`. -/
theorem zranBranch_spec (ordered : ZranOrdered chunks) {err : MetaError} {header : Nat}
    {stop : Nat → ZranInflateContext → α → Bool} {next : Nat → ZranInflateContext → Nat}
    {i h acc : Nat} {v : List Nat} (bound : i < chunks.length)
    (walked : zranWalkBack err state chunks (endAtBy getZranIndex chunks i) i = .ok h)
    (scanned : zranScan state header stop next (chunks.drop h) acc
      (endAtBy getZranIndex chunks i) [] = .ok v) :
    ∃ k, h ≤ i ∧ i < k ∧ v = List.replicate (k - h) header ∧
      WholeRuns (endAtBy getZranIndex chunks) chunks.length (List.range' h (k - h)) := by
  obtain ⟨hi, same, start⟩ := zranWalkBack_runStart walked rfl
  obtain ⟨k, _, within, result, stopped⟩ := zranScan_spec rfl (by omega) scanned
  obtain ⟨hk, ends⟩ := stopped.runEnd (same h (Nat.le_refl h) hi) (by omega)
  -- The run cannot end at or before `i`: all of `[h, i]` is of one context.
  have ik : i < k := by
    by_contra before
    rcases ends with atLen | changes
    · omega
    · exact changes (by rw [same (k - 1) (by omega) (by omega), same k (by omega) (by omega)])
  refine ⟨k, hi, ik, ?_, wholeRuns_range' ordered start ends within⟩
  rw [result, List.nil_append]

/-- The ZRan branch of `_get_chunks_uncompressed` returns the header index of a run of
whole contexts once for each entry of the run. -/
theorem _getChunksUncompressed_zran (ordered : ZranOrdered chunks)
    (zran : ∀ e ∈ chunks, isZran e = true) {start end_ batchEnd batchSize : Nat} {v : List Nat}
    (ok : _getChunksUncompressed state chunks start end_ batchEnd batchSize = .ok v) :
    ∃ i h k, Contains chunks false start i ∧ h ≤ i ∧ i < k ∧ v = List.replicate (k - h) h ∧
      WholeRuns (endAtBy getZranIndex chunks) chunks.length (List.range' h (k - h)) := by
  obtain ⟨i, found, ok⟩ := Except.bind_eq_ok.mp ok
  obtain ⟨entry, got, ok⟩ := Except.bind_eq_ok.mp ok
  have atI := getChunkEntry_eq_ok got
  have label : endAtBy getZranIndex chunks i = getZranIndex entry := endAtBy_of_getElem? atI
  rw [if_pos (zran entry (List.mem_of_getElem? atI))] at ok
  obtain ⟨_, -, ok⟩ := Except.bind_eq_ok.mp ok
  obtain ⟨h, walked, scanned⟩ := Except.bind_eq_ok.mp ok
  rw [← label] at walked scanned
  obtain ⟨k, run⟩ := zranBranch_spec ordered (List.getElem?_eq_some_iff.mp atI).1 walked scanned
  exact ⟨i, h, k, contains_of_getChunkIndexNocheck found, run⟩

/-- The ZRan branch of `_get_chunks_compressed`, likewise. -/
theorem _getChunksCompressed_zran (ordered : ZranOrdered chunks)
    (zran : ∀ e ∈ chunks, isZran e = true) {start end_ batchEnd batchSize : Nat} {v : List Nat}
    (ok : _getChunksCompressed state chunks start end_ batchEnd batchSize = .ok v) :
    ∃ i h k, Contains chunks true start i ∧ h ≤ i ∧ i < k ∧ v = List.replicate (k - h) h ∧
      WholeRuns (endAtBy getZranIndex chunks) chunks.length (List.range' h (k - h)) := by
  obtain ⟨i, found, ok⟩ := Except.bind_eq_ok.mp ok
  obtain ⟨entry, got, ok⟩ := Except.bind_eq_ok.mp ok
  have atI := getChunkEntry_eq_ok got
  have label : endAtBy getZranIndex chunks i = getZranIndex entry := endAtBy_of_getElem? atI
  rw [if_pos (zran entry (List.mem_of_getElem? atI))] at ok
  obtain ⟨ctx, -, ok⟩ := Except.bind_eq_ok.mp ok
  obtain ⟨h, walked, scanned⟩ := Except.bind_eq_ok.mp ok
  rw [← label] at walked scanned
  obtain ⟨k, run⟩ := zranBranch_spec ordered (List.getElem?_eq_some_iff.mp atI).1 walked scanned
  exact ⟨i, h, k, contains_of_getChunkIndexNocheck found, run⟩

theorem getChunksUncompressed_zran_replicate (info : BlobMetaInfo α)
    (ordered : ZranOrdered info.chunkInfoArray) (zran : ∀ e ∈ info.chunkInfoArray, isZran e = true)
    {start size batchSize : Nat} {v : List Nat}
    (ok : info.getChunksUncompressed start size batchSize = .ok v) :
    ∃ i h k, Contains info.chunkInfoArray false start i ∧ h ≤ i ∧ i < k ∧
      v = List.replicate (k - h) h ∧
      WholeRuns (endAtBy getZranIndex info.chunkInfoArray) info.chunkInfoArray.length
        (List.range' h (k - h)) := by
  unfold BlobMetaInfo.getChunksUncompressed at ok
  split at ok
  · cases ok
  · split at ok
    · cases ok
    · exact _getChunksUncompressed_zran ordered zran ok

theorem getChunksCompressed_zran_replicate (info : BlobMetaInfo α)
    (ordered : ZranOrdered info.chunkInfoArray) (zran : ∀ e ∈ info.chunkInfoArray, isZran e = true)
    {start size batchSize : Nat} {v : List Nat}
    (ok : info.getChunksCompressed start size batchSize = .ok v) :
    ∃ i h k, Contains info.chunkInfoArray true start i ∧ h ≤ i ∧ i < k ∧
      v = List.replicate (k - h) h ∧
      WholeRuns (endAtBy getZranIndex info.chunkInfoArray) info.chunkInfoArray.length
        (List.range' h (k - h)) := by
  unfold BlobMetaInfo.getChunksCompressed at ok
  split at ok
  · cases ok
  · split at ok
    · cases ok
    · exact _getChunksCompressed_zran ordered zran ok

end Lookups

/-! ## The ZRan branch of `_add_more_chunks` -/

section AddMore

variable {state : BlobMetaState} {batchEnd : Nat} {chunks : List α}

theorem append_range'_succ {vec : List Nat} {index k : Nat} (lt : index < k) :
    vec ++ [index] ++ List.range' (index + 1) (k - (index + 1)) =
      vec ++ List.range' index (k - index) := by
  obtain ⟨n, rfl⟩ : ∃ n, k = index + 1 + n := ⟨k - (index + 1), by omega⟩
  rw [show index + 1 + n - index = n + 1 by omega, show index + 1 + n - (index + 1) = n by omega,
    List.range'_succ, List.append_assoc, List.singleton_append]

/-- The ZRan loop of `_add_more_chunks` started at `index` takes the entries `[index, k)`
in order. All of them are of contexts up to the last context `m` it took, and it stops
at the end of the array or before an entry of a later context. The induction is on the
entries left, from `index` on. -/
theorem addMoreZranScan_spec : ∀ {entries : List α} {index last : Nat} {vec v : List Nat},
    chunks.drop index = entries → index ≤ chunks.length →
    addMoreZranScan state batchEnd entries index last vec = .ok v →
    ∃ k m, index ≤ k ∧ k ≤ chunks.length ∧ v = vec ++ List.range' index (k - index) ∧
      last ≤ m ∧ (∀ j, index ≤ j → j < k → endAtBy getZranIndex chunks j ≤ m) ∧
      (k = chunks.length ∨ m < endAtBy getZranIndex chunks k) := by
  intro entries
  induction entries with
  | nil =>
    intro index last vec v dropped within scanned
    have atEnd : index = chunks.length := by
      have := List.drop_eq_nil_iff.mp dropped
      omega
    rw [addMoreZranScan, Except.ok.injEq] at scanned
    refine ⟨index, last, Nat.le_refl _, within, ?_, Nat.le_refl _,
      fun j lo hi => absurd hi (by omega), .inl atEnd⟩
    rw [← scanned, Nat.sub_self, List.range'_zero, List.append_nil]
  | cons entry rest ih =>
    intro index last vec v dropped within scanned
    obtain ⟨found, dropped'⟩ := drop_eq_cons dropped
    have label : endAtBy getZranIndex chunks index = getZranIndex entry :=
      endAtBy_of_getElem? found
    have bound : index < chunks.length := (List.getElem?_eq_some_iff.mp found).1
    -- The loop resumed at `index + 1` with context `last'` after taking this entry.
    have resumed : ∀ {last' : Nat}, last ≤ last' → getZranIndex entry ≤ last' →
        addMoreZranScan state batchEnd rest (index + 1) last' (vec ++ [index]) = .ok v →
        ∃ k m, index ≤ k ∧ k ≤ chunks.length ∧ v = vec ++ List.range' index (k - index) ∧
          last ≤ m ∧ (∀ j, index ≤ j → j < k → endAtBy getZranIndex chunks j ≤ m) ∧
          (k = chunks.length ∨ m < endAtBy getZranIndex chunks k) := by
      intro last' grows takes scanned'
      obtain ⟨k, m, lo, hi, result, le, below, stopped⟩ := ih dropped' bound scanned'
      refine ⟨k, m, by omega, hi, ?_, by omega, fun j lo' hi' => ?_, stopped⟩
      · rw [result, append_range'_succ (by omega)]
      · rcases Nat.lt_or_eq_of_le lo' with lt | eq
        · exact below j lt hi'
        · rw [← eq, label]
          omega
    rw [addMoreZranScan] at scanned
    split at scanned
    · cases scanned
    · split at scanned
      · -- An entry of a later context: it is taken if its context is the next one and fits.
        next _ later =>
        split at scanned
        · next fits => exact resumed (by omega) (Nat.le_of_eq fits.2) scanned
        · cases scanned
          refine ⟨index, last, Nat.le_refl _, Nat.le_of_lt bound, ?_, Nat.le_refl _,
            fun j lo hi => absurd hi (by omega), .inr ?_⟩
          · rw [Nat.sub_self, List.range'_zero, List.append_nil]
          · rw [label]
            exact later
      · next _ earlier => exact resumed (Nat.le_refl _) (by omega) scanned

end AddMore

/-- The ZRan branch of `add_more_chunks` returns the indexes of a run of whole
contexts, from the header chunk of the first requested chunk's context on. -/
theorem addMoreChunks_zran_whole (info : BlobMetaInfo α)
    (ordered : ZranOrdered info.chunkInfoArray) (zran : ∀ e ∈ info.chunkInfoArray, isZran e = true)
    {chunks : List BlobChunkRef} {maxSize : Nat} {v : List Nat}
    (ok : info.addMoreChunks chunks maxSize = .ok v) :
    ∃ first h k, chunks.head? = some first ∧ h ≤ first.id ∧ v = List.range' h (k - h) ∧
      RunStart (endAtBy getZranIndex info.chunkInfoArray) h ∧
      (∀ j, h ≤ j → j ≤ first.id →
        endAtBy getZranIndex info.chunkInfoArray j = endAtBy getZranIndex info.chunkInfoArray first.id) ∧
      WholeRuns (endAtBy getZranIndex info.chunkInfoArray) info.chunkInfoArray.length v := by
  unfold BlobMetaInfo.addMoreChunks _addMoreChunks at ok
  split at ok
  · next first last hfirst _ =>
    obtain ⟨batchEnd, -, ok⟩ := Except.bind_eq_ok.mp ok
    obtain ⟨firstEntry, gotFirst, ok⟩ := Except.bind_eq_ok.mp ok
    obtain ⟨lastEntry, gotLast, ok⟩ := Except.bind_eq_ok.mp ok
    have atLast := getChunkEntry_eq_ok gotLast
    rw [if_pos (zran lastEntry (List.mem_of_getElem? atLast))] at ok
    obtain ⟨h, walked, scanned⟩ := Except.bind_eq_ok.mp ok
    have atFirst := getChunkEntry_eq_ok gotFirst
    have label : endAtBy getZranIndex info.chunkInfoArray first.id = getZranIndex firstEntry :=
      endAtBy_of_getElem? atFirst
    have bound := (List.getElem?_eq_some_iff.mp atFirst).1
    obtain ⟨hi, same, start⟩ := zranWalkBack_runStart walked label
    obtain ⟨k, m, _, within, result, _, below, stopped⟩ :=
      addMoreZranScan_spec rfl (by omega) scanned
    rw [List.nil_append] at result
    refine ⟨first, h, k, hfirst, hi, result, start, fun j lo hi' => ?_, ?_⟩
    · rw [same j lo hi', label]
    -- An empty result is whole; otherwise the loop stopped at the end of a run.
    · rcases Nat.lt_or_ge h k with taken | empty
      · rw [result]
        refine wholeRuns_range' ordered start ?_ within
        rcases stopped with atLen | later
        · exact .inl atLen
        · have := below (k - 1) (by omega) (by omega)
          exact .inr (by omega)
      · rw [result, Nat.sub_eq_zero_of_le empty, List.range'_zero]
        intro i member
        cases member
  · cases ok

/-- A ZRan blob of one inflate context that decompresses to 8 KiB, split into two 4 KiB
chunks. -/
def zranPairInfo : BlobMetaInfo BlobChunkInfoV2Ondisk :=
  ⟨⟨0, BLOB_META_FEATURE_ZRAN, 0x1000, 0x2000, [⟨0, 0, 0, 0x1000, 0x2000, 0, 0, 0⟩], 0⟩,
    [⟨0x0300_0fff_0000_0000, 0x0010_0000_0000_0000, 0⟩,
      ⟨0x0300_0fff_0000_0001, 0x0010_0000_0000_0000, 0x1000⟩]⟩

/-- The two entries of that blob are ZRan entries of one context, in order: each lookup of
its first byte and `add_more_chunks` on chunk 0 keep to the context's whole run. -/
theorem zranPairInfo_whole_runs :
    (∃ i h k, Contains zranPairInfo.chunkInfoArray false 0 i ∧ h ≤ i ∧ i < k ∧
        [0, 0] = List.replicate (k - h) h ∧
        WholeRuns (endAtBy getZranIndex zranPairInfo.chunkInfoArray)
          zranPairInfo.chunkInfoArray.length (List.range' h (k - h))) ∧
      (∃ i h k, Contains zranPairInfo.chunkInfoArray true 0 i ∧ h ≤ i ∧ i < k ∧
        [0, 0] = List.replicate (k - h) h ∧
        WholeRuns (endAtBy getZranIndex zranPairInfo.chunkInfoArray)
          zranPairInfo.chunkInfoArray.length (List.range' h (k - h))) ∧
      ∃ first h k, [(⟨0, 0, 0x1000⟩ : BlobChunkRef)].head? = some first ∧ h ≤ first.id ∧
        [0, 1] = List.range' h (k - h) ∧
        RunStart (endAtBy getZranIndex zranPairInfo.chunkInfoArray) h ∧
        (∀ j, h ≤ j → j ≤ first.id → endAtBy getZranIndex zranPairInfo.chunkInfoArray j =
          endAtBy getZranIndex zranPairInfo.chunkInfoArray first.id) ∧
        WholeRuns (endAtBy getZranIndex zranPairInfo.chunkInfoArray)
          zranPairInfo.chunkInfoArray.length [0, 1] := by
  have ordered : ZranOrdered zranPairInfo.chunkInfoArray := by
    intro k next
    obtain rfl : k = 0 := by
      change k + 1 < 2 at next
      omega
    decide
  have zran : ∀ e ∈ zranPairInfo.chunkInfoArray, isZran e = true := by decide
  exact ⟨getChunksUncompressed_zran_replicate _ ordered zran
      (show zranPairInfo.getChunksUncompressed 0 1 0x30000 = .ok [0, 0] by decide),
    getChunksCompressed_zran_replicate _ ordered zran
      (show zranPairInfo.getChunksCompressed 0 1 0x30000 = .ok [0, 0] by decide),
    addMoreChunks_zran_whole _ ordered zran
      (show zranPairInfo.addMoreChunks [⟨0, 0, 0x1000⟩] 0x30000 = .ok [0, 1] by decide)⟩

/-- On that blob both lookups of the first byte return chunk 0 twice and never chunk 1,
while `add_more_chunks` on chunk 0 returns both chunks. -/
theorem getChunks_zranPair_repeats_header :
    zranPairInfo.getChunksUncompressed 0 1 0x30000 = .ok [0, 0] ∧
    zranPairInfo.getChunksCompressed 0 1 0x30000 = .ok [0, 0] ∧
    zranPairInfo.addMoreChunks [⟨0, 0, 0x1000⟩] 0x30000 = .ok [0, 1] := by
  decide

end Nydus
