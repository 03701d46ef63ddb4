import Nydus.Storage.ChunkInfo

/-!
# Locating the chunk that holds an address

`BlobMetaChunkArray::_get_chunk_index_nocheck` binary searches the chunk information
array for the entry whose compressed or uncompressed range holds an address. On an
array whose entries are sorted and disjoint in that address space it returns exactly
the index of the entry holding the address, and an error when there is none
(`getChunkIndexNocheck_ok_iff`, `getChunkIndexNocheck_error_of_none`).

On any array, each round reads an entry of the window `[left, right)`, so the search never
indexes past the array (`getChunkIndexLoop_cases`), and shrinks the window, so it ends
within `len` rounds: more fuel changes nothing (`getChunkIndexLoop_fuel_le`).
-/

namespace Nydus

open BlobMetaChunkInfo

variable {α : Type} [BlobMetaChunkInfo α]

/-- The start of an entry in the compressed or the uncompressed address space. -/
def rangeStart (entry : α) (compressed : Bool) : Nat :=
  if compressed then compressedOffset entry else uncompressedOffset entry

/-- The end of an entry in the compressed or the uncompressed address space. -/
def rangeEnd (entry : α) (compressed : Bool) : Nat :=
  if compressed then compressedEnd entry else uncompressedEnd entry

theorem rangeStart_le_rangeEnd (entry : α) (compressed : Bool) :
    rangeStart entry compressed ≤ rangeEnd entry compressed := by
  cases compressed <;> simp [rangeStart, rangeEnd, compressedEnd, uncompressedEnd]

/-- The loop of `_get_chunk_index_nocheck`. The arguments after the fuel are the
source's loop variables `left`, `right`, `size`, `start` and `end`; `start` and `end`
only feed the error message. `chunks[mid]` panics past the end of the array. -/
def getChunkIndexLoop (chunks : List α) (addr : Nat) (compressed : Bool) :
    Nat → Nat → Nat → Nat → Nat → Nat → Except MetaError Nat
  | 0, _, _, _, start, end_ => .error (.addrNotFound start end_ addr)
  | fuel + 1, left, right, size, start, end_ =>
    if left < right then
      let mid := left + size / 2
      match chunks[mid]? with
      | none => .error (.outOfBounds mid chunks.length)
      | some entry =>
        if rangeStart entry compressed > addr then
          getChunkIndexLoop chunks addr compressed fuel left mid (mid - left)
            (rangeStart entry compressed) (rangeEnd entry compressed)
        else if rangeEnd entry compressed ≤ addr then
          getChunkIndexLoop chunks addr compressed fuel (mid + 1) right (right - (mid + 1))
            (rangeStart entry compressed) (rangeEnd entry compressed)
        else .ok mid
    else .error (.addrNotFound start end_ addr)

/-- `_get_chunk_index_nocheck`. Each round shrinks `right - left`, so `len` rounds are
enough. -/
def _getChunkIndexNocheck (chunks : List α) (addr : Nat) (compressed : Bool) :
    Except MetaError Nat :=
  getChunkIndexLoop chunks addr compressed chunks.length 0 chunks.length chunks.length 0 0

/-- The entry at index `i` holds `addr` in the chosen address space. -/
def Contains (chunks : List α) (compressed : Bool) (addr i : Nat) : Prop :=
  ∃ entry, chunks[i]? = some entry ∧ rangeStart entry compressed ≤ addr ∧
    addr < rangeEnd entry compressed

/-- Each entry ends at or before the next one starts in the chosen address space. -/
def SortedIn (chunks : List α) (compressed : Bool) : Prop :=
  ∀ i e e', chunks[i]? = some e → chunks[i + 1]? = some e' →
    rangeEnd e compressed ≤ rangeStart e' compressed

section Sorted

variable {chunks : List α} {compressed : Bool}

/-- Adjacent order extends to any two entries. -/
theorem SortedIn.end_le_start (sorted : SortedIn chunks compressed) {i j : Nat} {e e' : α}
    (lt : i < j) (hi : chunks[i]? = some e) (hj : chunks[j]? = some e') :
    rangeEnd e compressed ≤ rangeStart e' compressed := by
  induction j generalizing e' with
  | zero => omega
  | succ j ih =>
    have hj' : j < chunks.length := by
      have := (List.getElem?_eq_some_iff.mp hj).1
      omega
    obtain ⟨mid, hmid⟩ : ∃ mid, chunks[j]? = some mid := ⟨_, List.getElem?_eq_getElem hj'⟩
    have step := sorted j mid e' hmid hj
    rcases Nat.lt_succ_iff_lt_or_eq.mp lt with before | same
    · have := ih before hmid
      have := rangeStart_le_rangeEnd mid compressed
      omega
    · subst same
      simp only [hi, Option.some.injEq] at hmid
      subst hmid
      exact step

/-- At most one entry holds an address. -/
theorem SortedIn.contains_unique (sorted : SortedIn chunks compressed) {addr i j : Nat}
    (hi : Contains chunks compressed addr i) (hj : Contains chunks compressed addr j) :
    i = j := by
  obtain ⟨e, he, _, hlt⟩ := hi
  obtain ⟨e', he', _, hlt'⟩ := hj
  rcases Nat.lt_trichotomy i j with lt | eq | gt
  · have := sorted.end_le_start lt he he'
    omega
  · exact eq
  · have := sorted.end_le_start gt he' he
    omega

/-- Order on adjacent entries is a chain, so that it can be decided on a given array. -/
theorem sortedIn_iff_isChain :
    SortedIn chunks compressed ↔
      List.IsChain (fun e e' => rangeEnd e compressed ≤ rangeStart e' compressed) chunks := by
  rw [List.isChain_iff_getElem]
  constructor
  · intro sorted i next
    exact sorted i _ _ (List.getElem?_eq_getElem (by omega)) (List.getElem?_eq_getElem next)
  · intro chain i e e' here there
    obtain ⟨_, rfl⟩ := List.getElem?_eq_some_iff.mp here
    obtain ⟨next, rfl⟩ := List.getElem?_eq_some_iff.mp there
    exact chain i next

end Sorted

omit [BlobMetaChunkInfo α] in
/-- A round of the loop on a window inside the array reads an entry: `mid` lies in
`[left, right)`. -/
theorem exists_mid_entry {chunks : List α} {left right : Nat} (inWindow : left < right)
    (inArray : right ≤ chunks.length) :
    ∃ m, chunks[left + (right - left) / 2]? = some m :=
  ⟨_, List.getElem?_eq_getElem (by omega)⟩

/-- What the loop can return on a window inside the array, with `size` its width as the
source keeps it: the index of an entry holding the address, or the "not found" error. It never
indexes past the array. -/
theorem getChunkIndexLoop_cases (chunks : List α) (addr : Nat) (compressed : Bool) :
    ∀ fuel left right start end_, right ≤ chunks.length →
      (∃ i, getChunkIndexLoop chunks addr compressed fuel left right (right - left) start end_ =
          .ok i ∧ Contains chunks compressed addr i) ∨
      (∃ s e, getChunkIndexLoop chunks addr compressed fuel left right (right - left) start end_ =
        .error (.addrNotFound s e addr)) := by
  intro fuel
  induction fuel with
  | zero => intro _ _ start end_ _; exact .inr ⟨start, end_, rfl⟩
  | succ fuel ih =>
    intro left right start end_ inArray
    by_cases inWindow : left < right
    · obtain ⟨m, hm⟩ := exists_mid_entry inWindow inArray
      simp only [getChunkIndexLoop, inWindow, if_true, hm]
      split
      · exact ih _ _ _ _ (by omega)
      · split
        · exact ih _ _ _ _ inArray
        · exact .inl ⟨_, rfl, m, hm, by omega, by omega⟩
    · simp only [getChunkIndexLoop, inWindow, if_false]
      exact .inr ⟨start, end_, rfl⟩

/-- The search from the whole array returns the index of an entry holding the address, or
the "not found" error. -/
theorem getChunkIndexNocheck_cases (chunks : List α) (addr : Nat) (compressed : Bool) :
    (∃ i, _getChunkIndexNocheck chunks addr compressed = .ok i ∧ Contains chunks compressed addr i) ∨
    (∃ s e, _getChunkIndexNocheck chunks addr compressed = .error (.addrNotFound s e addr)) :=
  getChunkIndexLoop_cases chunks addr compressed chunks.length 0 chunks.length 0 0 (Nat.le_refl _)

/-- One more round of fuel changes nothing once the fuel covers the window: each round
shrinks `right - left`, so the loop leaves through `left < right` failing, or returns, before
the fuel runs out. -/
theorem getChunkIndexLoop_succ_fuel (chunks : List α) (addr : Nat) (compressed : Bool) :
    ∀ fuel left right start end_, right ≤ chunks.length → right - left ≤ fuel →
      getChunkIndexLoop chunks addr compressed (fuel + 1) left right (right - left) start end_ =
        getChunkIndexLoop chunks addr compressed fuel left right (right - left) start end_ := by
  intro fuel
  induction fuel with
  | zero =>
    intro left right start end_ _ empty
    simp only [getChunkIndexLoop, show ¬left < right by omega, if_false]
  | succ fuel ih =>
    intro left right start end_ inArray covered
    by_cases inWindow : left < right
    · obtain ⟨m, hm⟩ := exists_mid_entry inWindow inArray
      -- both sides take the same round, and recurse on the same smaller window
      simp only [getChunkIndexLoop, inWindow, if_true, hm]
      by_cases above : rangeStart m compressed > addr
      · simp only [above, if_true]
        exact ih _ _ _ _ (by omega) (by omega)
      · by_cases below : rangeEnd m compressed ≤ addr
        · simp only [above, below, if_true, if_false]
          exact ih _ _ _ _ inArray (by omega)
        · simp only [above, below, if_false]
    · simp only [getChunkIndexLoop, inWindow, if_false]

/-- Any fuel from the window's width on gives the same result. -/
theorem getChunkIndexLoop_fuel_le {chunks : List α} {addr : Nat} {compressed : Bool}
    {fuel left right start end_ : Nat} (inArray : right ≤ chunks.length)
    (covered : right - left ≤ fuel) :
    ∀ more, fuel ≤ more →
      getChunkIndexLoop chunks addr compressed more left right (right - left) start end_ =
        getChunkIndexLoop chunks addr compressed fuel left right (right - left) start end_ := by
  intro more enough
  obtain ⟨extra, rfl⟩ := Nat.exists_eq_add_of_le enough
  -- add the extra fuel one round at a time
  induction extra with
  | zero => rfl
  | succ extra ih =>
    rw [← Nat.add_assoc, getChunkIndexLoop_succ_fuel chunks addr compressed (fuel + extra) left right
      start end_ inArray (by omega), ih (by omega)]

/-- With enough fuel the loop finds the entry holding the address, as long as that
entry lies in `[left, right)` and `size` is the width of that window. -/
theorem getChunkIndexLoop_complete {chunks : List α} {compressed : Bool}
    (sorted : SortedIn chunks compressed) {addr i : Nat} (holds : Contains chunks compressed addr i) :
    ∀ fuel left right start end_, left ≤ i → i < right → right ≤ chunks.length →
      right - left ≤ fuel →
      getChunkIndexLoop chunks addr compressed fuel left right (right - left) start end_ = .ok i := by
  intro fuel
  induction fuel with
  | zero => intro left right _ _ hl hr _ hf; omega
  | succ fuel ih =>
    intro left right start end_ hl hr hlen hf
    obtain ⟨e, he, hstart, hend⟩ := holds
    obtain ⟨m, hm⟩ := exists_mid_entry (show left < right by omega) hlen
    simp only [getChunkIndexLoop, show left < right by omega, if_true, hm]
    split
    · -- The middle entry starts after the address: the holder is to its left.
      next above =>
      have before : i < left + (right - left) / 2 := by
        by_contra after
        rcases Nat.lt_or_eq_of_le (Nat.not_lt.mp after) with lt | eq
        · have := sorted.end_le_start lt hm he
          have := rangeStart_le_rangeEnd m compressed
          omega
        · rw [eq, he, Option.some.injEq] at hm
          subst hm
          omega
      exact ih _ _ _ _ hl before (by omega) (by omega)
    · split
      · -- The middle entry ends at or before the address: the holder is to its right.
        next _ below =>
        have after : left + (right - left) / 2 < i := by
          by_contra before
          rcases Nat.lt_or_eq_of_le (Nat.not_lt.mp before) with lt | eq
          · have := sorted.end_le_start lt he hm
            omega
          · rw [← eq, he, Option.some.injEq] at hm
            subst hm
            omega
        exact ih _ _ _ _ after hr hlen (by omega)
      · next notAbove notBelow =>
        have middle : Contains chunks compressed addr (left + (right - left) / 2) :=
          ⟨m, hm, by omega, by omega⟩
        rw [sorted.contains_unique middle ⟨e, he, hstart, hend⟩]

/-- On any array, an index that `_get_chunk_index_nocheck` returns is that of an entry
holding the address. -/
theorem contains_of_getChunkIndexNocheck {chunks : List α} {compressed : Bool} {addr i : Nat}
    (found : _getChunkIndexNocheck chunks addr compressed = .ok i) :
    Contains chunks compressed addr i := by
  rcases getChunkIndexNocheck_cases chunks addr compressed with ⟨j, hj, holds⟩ | ⟨s, e, he⟩
  · rw [hj] at found
    cases found
    exact holds
  · rw [he] at found
    cases found

/-- On a sorted array `_get_chunk_index_nocheck` returns exactly the index of the
entry holding the address. -/
theorem getChunkIndexNocheck_ok_iff {chunks : List α} {compressed : Bool}
    (sorted : SortedIn chunks compressed) (addr i : Nat) :
    _getChunkIndexNocheck chunks addr compressed = .ok i ↔ Contains chunks compressed addr i := by
  constructor
  · exact contains_of_getChunkIndexNocheck
  · intro holds
    have bound : i < chunks.length := by
      obtain ⟨e, he, _⟩ := holds
      exact (List.getElem?_eq_some_iff.mp he).1
    have := getChunkIndexLoop_complete sorted holds chunks.length 0 chunks.length 0 0
      (Nat.zero_le i) bound (Nat.le_refl _) (by omega)
    simpa [_getChunkIndexNocheck] using this

/-- When no entry holds the address, the search reports it. -/
theorem getChunkIndexNocheck_error_of_none (chunks : List α) (compressed : Bool) (addr : Nat)
    (none : ∀ i, ¬ Contains chunks compressed addr i) :
    ∃ s e, _getChunkIndexNocheck chunks addr compressed = .error (.addrNotFound s e addr) := by
  rcases getChunkIndexNocheck_cases chunks addr compressed with ⟨j, _, holds⟩ | found
  · exact absurd holds (none j)
  · exact found

theorem getChunkIndexNocheck_exact {chunks : List α} {compressed : Bool}
    (sorted : SortedIn chunks compressed) (addr : Nat) :
    (∀ i, _getChunkIndexNocheck chunks addr compressed = .ok i ↔ Contains chunks compressed addr i) ∧
    ((∀ i, ¬Contains chunks compressed addr i) →
      ∃ s e, _getChunkIndexNocheck chunks addr compressed = .error (.addrNotFound s e addr)) ∧
    (∀ index len, _getChunkIndexNocheck chunks addr compressed ≠ .error (.outOfBounds index len)) ∧
    (∀ fuel, chunks.length ≤ fuel →
      getChunkIndexLoop chunks addr compressed fuel 0 chunks.length chunks.length 0 0 =
        _getChunkIndexNocheck chunks addr compressed) := by
  refine ⟨getChunkIndexNocheck_ok_iff sorted addr, getChunkIndexNocheck_error_of_none chunks compressed addr,
    ?_, fun fuel enough => getChunkIndexLoop_fuel_le (Nat.le_refl _) (Nat.le_refl _) fuel enough⟩
  intro index len
  rcases getChunkIndexNocheck_cases chunks addr compressed with ⟨i, found, -⟩ | ⟨s, e, missing⟩
  · rw [found]
    intro same
    cases same
  · rw [missing]
    intro same
    cases same

/-- The array of the source's `test_get_chunk_index_with_hole`: two V1 chunks of 8 KiB at
uncompressed offsets 0 and 1 MiB. -/
def holeChunks : List BlobChunkInfoV1Ondisk :=
  [⟨0x01ff_f000_0000_0000, 0x00ff_f000_0000_0000⟩, ⟨0x01ff_f000_0010_0000, 0x00ff_f000_0010_0000⟩]

theorem getChunkIndexNocheck_exact_hole :
    SortedIn holeChunks false ∧
      (_getChunkIndexNocheck holeChunks 0x1fff false = .ok 0 ↔ Contains holeChunks false 0x1fff 0) := by
  have sorted : SortedIn holeChunks false := by
    intro i e e' here next
    match i with
    | 0 =>
      simp only [holeChunks, List.getElem?_cons_zero, List.getElem?_cons_succ, Option.some.injEq]
        at here next
      subst here next
      decide
    | n + 1 => simp [holeChunks] at next
  exact ⟨sorted, (getChunkIndexNocheck_exact sorted 0x1fff).1 0⟩

end Nydus
