import Mathlib
import Nydus.Storage.MoreChunks

/-!
# Blob IO descriptors and their merging

A read of a RAFS file is turned into one `BlobIoDesc` for each chunk it touches: the
chunk, the range of the chunk's uncompressed data to return and whether a user asked
for it (`storage/src/device.rs`). `BlobIoMergeState::merge_and_issue`
(`storage/src/cache/mod.rs`) groups descriptors whose compressed ranges follow each
other with small gaps into `BlobIoRange`s, each read from the backend in one request.

The grouping only cuts the descriptor list: the chunks and tags of the ranges, in
order, are those of the descriptors (`mergeAndIssue_partition`). The model follows a debug
build, in which a failed `assert!` and an addition past the width of its type both stop
the read. `is_continuous` lets a legacy stargz descriptor follow its predecessor after a
gap of up to `8 * max_gap`, but `BlobIoRange::merge` asserts a gap of at most `max_gap`,
and `push` keeps the pending size in a `u32` (`mergeAndIssue_asserts`). Where the gaps the
predicate accepts are within `max_gap` and the sizes fit, every range covers its run of
descriptors from the first chunk's start to the last chunk's end, and a range ends only
where the next descriptor is not continuous or the range has reached `max_comp_size`
(`mergeAndIssue_ranges`).
-/

namespace Nydus

/-- What the cache reads of a chunk, a `BlobChunkInfo` trait object. -/
structure BlobChunkInfo where
  id : Nat
  blobIndex : Nat
  compressedOffset : Nat
  compressedSize : Nat
  uncompressedOffset : Nat
  uncompressedSize : Nat
deriving DecidableEq, Repr

namespace BlobChunkInfo

/-- `compressed_end`. -/
def compressedEnd (c : BlobChunkInfo) : Nat := c.compressedOffset + c.compressedSize

/-- `uncompressed_end`. -/
def uncompressedEnd (c : BlobChunkInfo) : Nat := c.uncompressedOffset + c.uncompressedSize

/-- The part of the chunk `_add_more_chunks` reads. -/
def toRef (c : BlobChunkInfo) : BlobChunkRef := ⟨c.id, c.compressedOffset, c.compressedSize⟩

end BlobChunkInfo

/-- `BlobIoSegment`: the range `[offset, offset + len)` of uncompressed data to return. -/
structure BlobIoSegment where
  offset : Nat
  len : Nat
deriving DecidableEq, Repr

namespace BlobIoSegment

/-- `is_empty`. -/
def isEmpty (s : BlobIoSegment) : Bool := s.offset == 0 && s.len == 0

end BlobIoSegment

/-- `BlobIoTag`: the segment a user asked for, or an internal read. -/
inductive BlobIoTag where
  | user (seg : BlobIoSegment)
  | internal
deriving DecidableEq, Repr

/-- `BlobIoTag::is_user_io`. -/
def BlobIoTag.isUserIo : BlobIoTag → Bool
  | .user _ => true
  | .internal => false

/-- `BlobIoDesc`. Of the blob it reads only whether it is a legacy stargz blob. -/
structure BlobIoDesc where
  isLegacyStargz : Bool
  chunkinfo : BlobChunkInfo
  offset : Nat
  size : Nat
  userIo : Bool
deriving DecidableEq, Repr

/-- `BlobIoDesc::is_continuous`: `next` is in the same blob and starts at most
`max_gap` (eight times that for legacy stargz) after this one ends. -/
def BlobIoDesc.isContinuous (self next : BlobIoDesc) (maxGap : Nat) : Bool :=
  let prevEnd := self.chunkinfo.compressedEnd
  let nextOffset := next.chunkinfo.compressedOffset
  if self.chunkinfo.blobIndex == next.chunkinfo.blobIndex && nextOffset ≥ prevEnd then
    if next.isLegacyStargz then nextOffset - prevEnd ≤ maxGap * 8
    else nextOffset - prevEnd ≤ maxGap
  else false

/-- `BlobIoRange`: the compressed range `[blob_offset, blob_offset + blob_size)` of one
backend request, with its chunks and their tags. -/
structure BlobIoRange where
  blobOffset : Nat
  blobSize : Nat
  chunks : List BlobChunkInfo
  tags : List BlobIoTag
deriving DecidableEq, Repr

/-- `u32::MAX`. -/
def U32_MAX : Nat := 0xFFFF_FFFF

/-- Whether the `u64` arithmetic of `is_continuous` overflows, which a debug build does not
survive: the end of this chunk, and `max_gap * 8` where it is computed. -/
def BlobIoDesc.continuousOverflows (self next : BlobIoDesc) (maxGap : Nat) : Bool :=
  decide (U64_LIMIT ≤ self.chunkinfo.compressedEnd) ||
    (self.chunkinfo.blobIndex == next.chunkinfo.blobIndex &&
      decide (next.chunkinfo.compressedOffset ≥ self.chunkinfo.compressedEnd) &&
      next.isLegacyStargz && decide (U64_LIMIT ≤ maxGap * 8))

/-- What stops a merge, as a debug build runs it: a failed assertion, or an addition past
the width of its type. -/
inductive MergeError where
  /-- `assert!((offset > end && offset - end <= max_gap))` of `BlobIoRange::merge`. -/
  | gapTooLarge (end_ offset maxGap : Nat)
  /-- A `u64` addition past `u64::MAX`, or a failed `checked_add(..).is_some()` assertion on
  `u64`. -/
  | offsetOverflow
  /-- `assert!(prev <= start)` of `BlobIoMergeState::push`. -/
  | pushBeforeEnd (prev start : Nat)
  /-- `assert!(start - prev < u32::MAX as u64)` of `BlobIoMergeState::push`. -/
  | pushGapTooLong (prev start : Nat)
  /-- A `u32` addition of `push` past `u32::MAX`, or its failed `checked_add` assertion. -/
  | sizeOverflow
deriving DecidableEq, Repr

namespace BlobIoRange

/-- `tag_from_desc`. -/
def tagFromDesc (bio : BlobIoDesc) : BlobIoTag :=
  if bio.userIo then .user ⟨bio.offset, bio.size⟩ else .internal

/-- `BlobIoRange::new`, which asserts that the chunk ends within `u64`. -/
def new (bio : BlobIoDesc) : Except MergeError BlobIoRange :=
  if bio.chunkinfo.compressedOffset + bio.chunkinfo.compressedSize < U64_LIMIT then
    .ok ⟨bio.chunkinfo.compressedOffset, bio.chunkinfo.compressedSize, [bio.chunkinfo],
      [tagFromDesc bio]⟩
  else .error .offsetOverflow

/-- `BlobIoRange::merge`: the range grows to the end of the next chunk, gap included. -/
def merge (self : BlobIoRange) (bio : BlobIoDesc) (maxGap : Nat) :
    Except MergeError BlobIoRange :=
  let end_ := self.blobOffset + self.blobSize
  let offset := bio.chunkinfo.compressedOffset
  let size := bio.chunkinfo.compressedSize
  if end_ = offset then
    if offset + size < U64_LIMIT then
      .ok ⟨self.blobOffset, self.blobSize + size, self.chunks ++ [bio.chunkinfo],
        self.tags ++ [tagFromDesc bio]⟩
    else .error .offsetOverflow
  else if offset > end_ ∧ offset - end_ ≤ maxGap then
    if end_ + (size + (offset - end_)) < U64_LIMIT then
      .ok ⟨self.blobOffset, self.blobSize + (size + (offset - end_)),
        self.chunks ++ [bio.chunkinfo], self.tags ++ [tagFromDesc bio]⟩
    else .error .offsetOverflow
  else .error (.gapTooLarge end_ offset maxGap)

end BlobIoRange

/-- `BlobIoMergeState`: the pending descriptors and their compressed size, gaps
included. The callback `cb` is the list of ranges issued so far. -/
structure BlobIoMergeState where
  size : Nat
  bios : List BlobIoDesc
deriving DecidableEq, Repr

namespace BlobIoMergeState

/-- The size `push` adds to the pending size: the chunk, and the gap after the last
pending descriptor, with the assertions and the `u32` addition that compute it. -/
def pushSize (self : BlobIoMergeState) (bio : BlobIoDesc) : Except MergeError Nat :=
  match self.bios.getLast? with
  | some last =>
    let prev := last.chunkinfo.compressedEnd
    let start := bio.chunkinfo.compressedOffset
    if U64_LIMIT ≤ prev then .error .offsetOverflow
    else if start < prev then .error (.pushBeforeEnd prev start)
    else if U32_MAX ≤ start - prev then .error (.pushGapTooLong prev start)
    else if U32_MAX < start - prev + bio.chunkinfo.compressedSize then .error .sizeOverflow
    else .ok (start - prev + bio.chunkinfo.compressedSize)
  | none => .ok bio.chunkinfo.compressedSize

/-- `BlobIoMergeState::push`, which asserts that the pending size stays within `u32`. -/
def push (self : BlobIoMergeState) (bio : BlobIoDesc) : Except MergeError BlobIoMergeState :=
  self.pushSize bio >>= fun size =>
    if U32_MAX < self.size + size then .error .sizeOverflow
    else .ok ⟨self.size + size, self.bios ++ [bio]⟩

/-- The loop `for bio in self.bios[1..] { mr.merge(bio, max_gap) }` of `issue`. -/
def mergeAll (maxGap : Nat) : BlobIoRange → List BlobIoDesc → Except MergeError BlobIoRange
  | mr, [] => .ok mr
  | mr, bio :: rest => do
    let mr ← mr.merge bio maxGap
    mergeAll maxGap mr rest

/-- `BlobIoMergeState::issue`: the pending descriptors, if any, become one range. -/
def issue (self : BlobIoMergeState) (maxGap : Nat) (issued : List BlobIoRange) :
    Except MergeError (BlobIoMergeState × List BlobIoRange) :=
  match self.bios with
  | [] => .ok (self, issued)
  | first :: rest => do
    let mr ← BlobIoRange.new first
    let mr ← mergeAll maxGap mr rest
    pure (⟨0, []⟩, issued ++ [mr])

/-- The loop of `merge_and_issue` over `bios[1..]`; `prev` is `bios[index - 1]`. -/
def mergeLoop (maxCompSize maxGap : Nat) :
    BlobIoDesc → List BlobIoDesc → BlobIoMergeState → List BlobIoRange →
      Except MergeError (List BlobIoRange)
  | _, [], state, issued => state.issue maxGap issued >>= fun done => .ok done.2
  | prev, cur :: rest, state, issued =>
    if prev.continuousOverflows cur maxGap then .error .offsetOverflow
    else
      (if !prev.isContinuous cur maxGap || decide (state.size ≥ maxCompSize) then
        state.issue maxGap issued
      else .ok (state, issued)) >>= fun pending =>
      pending.1.push cur >>= fun state =>
      mergeLoop maxCompSize maxGap cur rest state pending.2

/-- `BlobIoMergeState::merge_and_issue`: the ranges, in the order the callback
receives them. -/
def mergeAndIssue (bios : List BlobIoDesc) (maxCompSize maxGap : Nat) :
    Except MergeError (List BlobIoRange) :=
  match bios with
  | [] => .ok []
  | first :: rest =>
    mergeLoop maxCompSize maxGap first rest ⟨first.chunkinfo.compressedSize, [first]⟩ []

end BlobIoMergeState

/-- `r` is the range of the non-empty run of descriptors `group`. -/
def RangeOf (r : BlobIoRange) (group : List BlobIoDesc) : Prop :=
  group ≠ [] ∧ r.chunks = group.map (·.chunkinfo) ∧ r.tags = group.map BlobIoRange.tagFromDesc

/-! ## Steps of the merge -/

variable {maxCompSize maxGap : Nat}

namespace BlobIoDesc

/-- `next` joins a run after `prev`: `is_continuous` accepts it, and it starts at most
`max_gap` after `prev` ends, as `BlobIoRange::merge` asserts. -/
def Joins (maxGap : Nat) (prev next : BlobIoDesc) : Prop :=
  prev.isContinuous next maxGap = true ∧
    next.chunkinfo.compressedOffset - prev.chunkinfo.compressedEnd ≤ maxGap

/-- Every gap `is_continuous` accepts between `prev` and `next` is within `max_gap`. -/
def GapWithin (maxGap : Nat) (prev next : BlobIoDesc) : Prop :=
  prev.isContinuous next maxGap = true →
    next.chunkinfo.compressedOffset - prev.chunkinfo.compressedEnd ≤ maxGap

/-- A continuous descriptor starts where its predecessor ends or later. -/
theorem end_le_of_isContinuous {prev next : BlobIoDesc} (h : prev.isContinuous next maxGap = true) :
    prev.chunkinfo.compressedEnd ≤ next.chunkinfo.compressedOffset := by
  unfold isContinuous at h
  dsimp only at h
  split at h
  · next same =>
    simp only [Bool.and_eq_true, beq_iff_eq, decide_eq_true_eq] at same
    exact same.2
  · cases h

/-- Only a legacy stargz descriptor is continuous after a gap larger than `max_gap`. -/
theorem gapWithin_of_plain {prev next : BlobIoDesc} (plain : next.isLegacyStargz = false) :
    prev.GapWithin maxGap next := by
  intro h
  unfold isContinuous at h
  dsimp only at h
  split at h
  · simpa [plain] using h
  · cases h

/-- In a list of descriptors none of which is a legacy stargz one, every accepted gap is
within `max_gap`. -/
theorem isChain_gapWithin_of_plain {bios : List BlobIoDesc}
    (plain : ∀ bio ∈ bios, bio.isLegacyStargz = false) : bios.IsChain (GapWithin maxGap) := by
  induction bios with
  | nil => exact .nil
  | cons bio rest ih =>
    refine List.IsChain.cons (ih fun b mem => plain b (List.mem_cons_of_mem bio mem)) ?_
    intro next mem
    exact gapWithin_of_plain (plain next (List.mem_cons_of_mem bio (List.mem_of_mem_head? mem)))

/-- Within `u64` and with `max_gap * 8` within `u64`, `is_continuous` does not overflow. -/
theorem continuousOverflows_eq_false {prev next : BlobIoDesc}
    (inBlob : prev.chunkinfo.compressedEnd < U64_LIMIT) (small : maxGap < U32_MAX) :
    prev.continuousOverflows next maxGap = false := by
  have wide : ¬ U64_LIMIT ≤ maxGap * 8 := by
    unfold U64_LIMIT
    unfold U32_MAX at small
    omega
  simp [continuousOverflows, Nat.not_le.mpr inBlob, wide]

end BlobIoDesc

namespace BlobIoRange

theorem new_eq_ok {bio : BlobIoDesc} {mr : BlobIoRange} (h : new bio = .ok mr) :
    mr = ⟨bio.chunkinfo.compressedOffset, bio.chunkinfo.compressedSize, [bio.chunkinfo],
      [tagFromDesc bio]⟩ := by
  unfold new at h
  split at h
  · cases h
    rfl
  · cases h

theorem new_of_inBlob {bio : BlobIoDesc} (inBlob : bio.chunkinfo.compressedEnd < U64_LIMIT) :
    new bio = .ok ⟨bio.chunkinfo.compressedOffset, bio.chunkinfo.compressedSize,
      [bio.chunkinfo], [tagFromDesc bio]⟩ :=
  if_pos inBlob

/-- What a successful merge does: the range keeps its start, now ends where the chunk ends,
and holds the chunk and its tag last. -/
theorem merge_eq_ok {mr mr' : BlobIoRange} {bio : BlobIoDesc} (h : mr.merge bio maxGap = .ok mr') :
    mr'.blobOffset = mr.blobOffset ∧ mr'.blobOffset + mr'.blobSize = bio.chunkinfo.compressedEnd ∧
      mr'.chunks = mr.chunks ++ [bio.chunkinfo] ∧ mr'.tags = mr.tags ++ [tagFromDesc bio] := by
  unfold merge at h
  dsimp only at h
  split at h
  · next joined =>
    split at h
    · cases h
      refine ⟨rfl, ?_, rfl, rfl⟩
      rw [← Nat.add_assoc, joined]
      rfl
    · cases h
  · split at h
    · next gap =>
      split at h
      · cases h
        refine ⟨rfl, ?_, rfl, rfl⟩
        show mr.blobOffset + (mr.blobSize + _) = bio.chunkinfo.compressedOffset + _
        omega
      · cases h
    · cases h

/-- A chunk within `u64` that starts at most `max_gap` after the range ends merges. -/
theorem merge_of_gap {mr : BlobIoRange} {bio : BlobIoDesc}
    (after : mr.blobOffset + mr.blobSize ≤ bio.chunkinfo.compressedOffset)
    (gap : bio.chunkinfo.compressedOffset - (mr.blobOffset + mr.blobSize) ≤ maxGap)
    (inBlob : bio.chunkinfo.compressedEnd < U64_LIMIT) :
    ∃ mr', mr.merge bio maxGap = .ok mr' := by
  unfold merge
  dsimp only
  unfold BlobChunkInfo.compressedEnd at inBlob
  by_cases joined : mr.blobOffset + mr.blobSize = bio.chunkinfo.compressedOffset
  · rw [if_pos joined, if_pos inBlob]
    exact ⟨_, rfl⟩
  · have within : bio.chunkinfo.compressedOffset > mr.blobOffset + mr.blobSize ∧
        bio.chunkinfo.compressedOffset - (mr.blobOffset + mr.blobSize) ≤ maxGap :=
      ⟨Nat.lt_of_le_of_ne after joined, gap⟩
    have fits : mr.blobOffset + mr.blobSize + (bio.chunkinfo.compressedSize +
        (bio.chunkinfo.compressedOffset - (mr.blobOffset + mr.blobSize))) < U64_LIMIT := by
      omega
    rw [if_neg joined, if_pos within, if_pos fits]
    exact ⟨_, rfl⟩

end BlobIoRange

namespace BlobIoMergeState

theorem mergeAll_eq_ok : ∀ {mr : BlobIoRange} {rest : List BlobIoDesc} {r : BlobIoRange},
    mergeAll maxGap mr rest = .ok r →
    r.chunks = mr.chunks ++ rest.map (·.chunkinfo) ∧
      r.tags = mr.tags ++ rest.map BlobIoRange.tagFromDesc := by
  intro mr rest
  induction rest generalizing mr with
  | nil =>
    intro r merged
    cases merged
    simp
  | cons bio rest ih =>
    intro r merged
    obtain ⟨mr', step, merged⟩ := Except.bind_eq_ok.mp merged
    obtain ⟨-, -, grownChunks, grownTags⟩ := BlobIoRange.merge_eq_ok step
    obtain ⟨chunks, tags⟩ := ih merged
    rw [chunks, tags, grownChunks, grownTags]
    simp

/-- Merging a run that joins up succeeds: the range keeps its start and ends where the
run's last chunk ends. The induction is on the run, with the range that has reached
`prev`'s end generalised. -/
theorem mergeAll_of_joins : ∀ {rest : List BlobIoDesc} {prev : BlobIoDesc} {mr : BlobIoRange},
    mr.blobOffset + mr.blobSize = prev.chunkinfo.compressedEnd →
    (prev :: rest).IsChain (BlobIoDesc.Joins maxGap) →
    (∀ bio ∈ rest, bio.chunkinfo.compressedEnd < U64_LIMIT) →
    ∃ r, mergeAll maxGap mr rest = .ok r ∧ r.blobOffset = mr.blobOffset ∧
      ∀ last ∈ (prev :: rest).getLast?, r.blobOffset + r.blobSize = last.chunkinfo.compressedEnd := by
  intro rest
  induction rest with
  | nil =>
    intro prev mr ends _ _
    refine ⟨mr, rfl, rfl, ?_⟩
    simpa using ends
  | cons bio rest ih =>
    intro prev mr ends joins inBlob
    obtain ⟨⟨continuous, gap⟩, joins'⟩ := List.isChain_cons_cons.mp joins
    have after : mr.blobOffset + mr.blobSize ≤ bio.chunkinfo.compressedOffset := by
      rw [ends]
      exact BlobIoDesc.end_le_of_isContinuous continuous
    have within : bio.chunkinfo.compressedOffset - (mr.blobOffset + mr.blobSize) ≤ maxGap := by
      rw [ends]
      exact gap
    obtain ⟨mr', merged⟩ := BlobIoRange.merge_of_gap after within (inBlob bio List.mem_cons_self)
    obtain ⟨start', ends', -, -⟩ := BlobIoRange.merge_eq_ok merged
    obtain ⟨r, all, start, last⟩ :=
      ih ends' joins' fun b mem => inBlob b (List.mem_cons_of_mem bio mem)
    refine ⟨r, ?_, start.trans start', ?_⟩
    · simp only [mergeAll, merged, Except.ok_bind, all]
    · simpa using last

/-- `issue` turns the pending descriptors, when there are any, into one range. -/
theorem issue_eq_ok {state state' : BlobIoMergeState} {issued issued' : List BlobIoRange}
    (h : state.issue maxGap issued = .ok (state', issued')) :
    (state.bios = [] ∧ issued' = issued) ∨
      (state'.bios = [] ∧ ∃ r, RangeOf r state.bios ∧ issued' = issued ++ [r]) := by
  unfold issue at h
  split at h
  · next empty =>
    cases h
    exact .inl ⟨empty, rfl⟩
  · next first rest pending =>
    obtain ⟨mr₀, created, h⟩ := Except.bind_eq_ok.mp h
    obtain ⟨mr, merged, h⟩ := Except.bind_eq_ok.mp h
    cases h
    obtain ⟨chunks, tags⟩ := mergeAll_eq_ok merged
    rw [BlobIoRange.new_eq_ok created] at chunks tags
    refine .inr ⟨rfl, mr, ⟨by simp [pending], ?_, ?_⟩, rfl⟩
    · rw [chunks, pending]
      rfl
    · rw [tags, pending]
      rfl

theorem push_eq_ok {state state' : BlobIoMergeState} {bio : BlobIoDesc}
    (h : state.push bio = .ok state') : state'.bios = state.bios ++ [bio] := by
  obtain ⟨size, -, h⟩ := Except.bind_eq_ok.mp h
  split at h
  · cases h
  · cases h
    rfl

/-- `push` after the last pending descriptor, within `u64`, and with a gap and chunk that
fit in `u32`. -/
theorem pushSize_of_last {state : BlobIoMergeState} {last bio : BlobIoDesc}
    (found : state.bios.getLast? = some last) (inBlob : last.chunkinfo.compressedEnd < U64_LIMIT)
    (after : last.chunkinfo.compressedEnd ≤ bio.chunkinfo.compressedOffset)
    (fits : bio.chunkinfo.compressedOffset - last.chunkinfo.compressedEnd +
      bio.chunkinfo.compressedSize < U32_MAX) :
    state.pushSize bio = .ok (bio.chunkinfo.compressedOffset - last.chunkinfo.compressedEnd +
      bio.chunkinfo.compressedSize) := by
  unfold pushSize
  rw [found]
  dsimp only
  rw [if_neg (Nat.not_le.mpr inBlob), if_neg (Nat.not_lt.mpr after), if_neg (by omega),
    if_neg (by omega)]

/-- One turn of the loop of `merge_and_issue`. -/
theorem mergeLoop_cons (prev cur : BlobIoDesc) (rest : List BlobIoDesc) (state : BlobIoMergeState)
    (issued : List BlobIoRange) :
    mergeLoop maxCompSize maxGap prev (cur :: rest) state issued =
      if prev.continuousOverflows cur maxGap then .error .offsetOverflow
      else
        (if !prev.isContinuous cur maxGap || decide (state.size ≥ maxCompSize) then
          state.issue maxGap issued
        else .ok (state, issued)) >>= fun pending =>
        pending.1.push cur >>= fun state =>
        mergeLoop maxCompSize maxGap cur rest state pending.2 := rfl

/-! ## The ranges partition the descriptors -/

/-- The loop of `merge_and_issue` keeps the issued ranges and the pending descriptors a
partition of the descriptors seen so far. -/
theorem mergeLoop_partition : ∀ {rest : List BlobIoDesc} {prev : BlobIoDesc}
    {state : BlobIoMergeState} {issued ranges : List BlobIoRange} {groups : List (List BlobIoDesc)},
    List.Forall₂ RangeOf issued groups → state.bios ≠ [] →
    mergeLoop maxCompSize maxGap prev rest state issued = .ok ranges →
    ∃ groups', List.Forall₂ RangeOf ranges groups' ∧
      groups'.flatten = groups.flatten ++ state.bios ++ rest := by
  intro rest
  induction rest with
  | nil =>
    intro prev state issued ranges groups partition pending looped
    obtain ⟨⟨state', issued'⟩, issuedOk, looped⟩ := Except.bind_eq_ok.mp looped
    cases looped
    rcases issue_eq_ok issuedOk with ⟨empty, -⟩ | ⟨-, r, range, rfl⟩
    · exact absurd empty pending
    · refine ⟨groups ++ [state.bios], List.rel_append partition (.cons range .nil), ?_⟩
      simp
  | cons cur rest ih =>
    intro prev state issued ranges groups partition pending looped
    rw [mergeLoop_cons] at looped
    split at looped
    · cases looped
    obtain ⟨⟨state₁, issued₁⟩, stepped, pushedOn⟩ := Except.bind_eq_ok.mp looped
    obtain ⟨state₂, pushed, next⟩ := Except.bind_eq_ok.mp pushedOn
    -- Before `cur` is pushed, the pending descriptors are either issued or kept.
    have kept : (state₁.bios = [] ∧ ∃ r, RangeOf r state.bios ∧ issued₁ = issued ++ [r]) ∨
        (state₁ = state ∧ issued₁ = issued) := by
      split at stepped
      · rcases issue_eq_ok stepped with ⟨empty, -⟩ | ⟨cleared, r, range, rfl⟩
        · exact absurd empty pending
        · exact .inl ⟨cleared, r, range, rfl⟩
      · cases stepped
        exact .inr ⟨rfl, rfl⟩
    have grown := push_eq_ok pushed
    rcases kept with ⟨cleared, r, range, rfl⟩ | ⟨rfl, rfl⟩
    · obtain ⟨groups', partition', cover⟩ :=
        ih (List.rel_append partition (.cons range .nil)) (by simp [grown]) next
      refine ⟨groups', partition', ?_⟩
      rw [cover, grown, cleared]
      simp
    · obtain ⟨groups', partition', cover⟩ := ih partition (by simp [grown]) next
      refine ⟨groups', partition', ?_⟩
      rw [cover, grown]
      simp

/-- The ranges of `merge_and_issue` are made of consecutive runs of the descriptors,
which together are all of them, in order. -/
theorem mergeAndIssue_partition {bios : List BlobIoDesc} {ranges : List BlobIoRange}
    (h : mergeAndIssue bios maxCompSize maxGap = .ok ranges) :
    ∃ groups, List.Forall₂ RangeOf ranges groups ∧ groups.flatten = bios := by
  unfold mergeAndIssue at h
  split at h
  · cases h
    exact ⟨[], .nil, rfl⟩
  · next first rest =>
    obtain ⟨groups, partition, cover⟩ := mergeLoop_partition .nil (by simp) h
    exact ⟨groups, partition, by simpa using cover⟩

/-- A user descriptor of the whole chunk `id` of a blob whose `0x10`-byte chunks lie
`0x20 * id` bytes in, `0x10` bytes apart. -/
def spacedDesc (isLegacyStargz : Bool) (id : Nat) : BlobIoDesc :=
  ⟨isLegacyStargz, ⟨id, 0, 0x20 * id, 0x10, 0x10 * id, 0x10⟩, 0, 0x10, true⟩

/-- Three spaced chunks under a size limit of `0x30`: the first two make one range, the third
another. -/
theorem mergeAndIssue_partition_spaced :
    mergeAndIssue [spacedDesc false 0, spacedDesc false 1, spacedDesc false 2] 0x30 0x10 =
        .ok [⟨0, 0x30, [(spacedDesc false 0).chunkinfo, (spacedDesc false 1).chunkinfo],
          [.user ⟨0, 0x10⟩, .user ⟨0, 0x10⟩]⟩, ⟨0x40, 0x10, [(spacedDesc false 2).chunkinfo],
          [.user ⟨0, 0x10⟩]⟩] ∧
      ∃ groups, List.Forall₂ RangeOf
          [⟨0, 0x30, [(spacedDesc false 0).chunkinfo, (spacedDesc false 1).chunkinfo],
            [.user ⟨0, 0x10⟩, .user ⟨0, 0x10⟩]⟩, ⟨0x40, 0x10, [(spacedDesc false 2).chunkinfo],
            [.user ⟨0, 0x10⟩]⟩] groups ∧
        groups.flatten = [spacedDesc false 0, spacedDesc false 1, spacedDesc false 2] :=
  have merged : mergeAndIssue [spacedDesc false 0, spacedDesc false 1, spacedDesc false 2] 0x30 0x10 =
      .ok [⟨0, 0x30, [(spacedDesc false 0).chunkinfo, (spacedDesc false 1).chunkinfo],
        [.user ⟨0, 0x10⟩, .user ⟨0, 0x10⟩]⟩, ⟨0x40, 0x10, [(spacedDesc false 2).chunkinfo],
        [.user ⟨0, 0x10⟩]⟩] := by decide
  ⟨merged, mergeAndIssue_partition merged⟩

/-! ## The ranges and where they are cut -/

/-- What `merge_and_issue` promises of a range and its run of descriptors: the range holds
the run's chunks and tags, covers the compressed data from the run's first chunk's start
to its last chunk's end, and each descriptor of the run is continuous with the one
before. -/
structure IssuedRange (maxGap : Nat) (r : BlobIoRange) (group : List BlobIoDesc) : Prop where
  rangeOf : RangeOf r group
  start : ∀ first ∈ group.head?, r.blobOffset = first.chunkinfo.compressedOffset
  stop : ∀ last ∈ group.getLast?, r.blobOffset + r.blobSize = last.chunkinfo.compressedEnd
  continuous : group.IsChain fun a b => a.isContinuous b maxGap = true

/-- A range `p.1` of the run `p.2` ends before the run `next` only where the first
descriptor of `next` is not continuous with the last of `p.2`, or the range's compressed
size, gaps included, has reached `max_comp_size`. -/
def CutBefore (maxCompSize maxGap : Nat) (p : BlobIoRange × List BlobIoDesc)
    (next : List BlobIoDesc) : Prop :=
  ∀ last ∈ p.2.getLast?, ∀ first ∈ next.head?,
    last.isContinuous first maxGap = false ∨ maxCompSize ≤ p.1.blobSize

/-- The cut between two consecutive ranges and their runs. -/
def Cut (maxCompSize maxGap : Nat) (p q : BlobIoRange × List BlobIoDesc) : Prop :=
  CutBefore maxCompSize maxGap p q.2

/-- The pending descriptors as the loop keeps them: a non-empty run ending with `prev`,
each joining the one before, within `u64`, whose size, gaps included, spans from the first
chunk's start to `prev`'s end. -/
structure Pending (maxGap : Nat) (state : BlobIoMergeState) (prev : BlobIoDesc) : Prop where
  last : state.bios.getLast? = some prev
  joins : state.bios.IsChain (BlobIoDesc.Joins maxGap)
  span : ∀ first ∈ state.bios.head?,
    first.chunkinfo.compressedOffset + state.size = prev.chunkinfo.compressedEnd
  inBlob : ∀ bio ∈ state.bios, bio.chunkinfo.compressedEnd < U64_LIMIT

theorem Pending.ne_nil {state : BlobIoMergeState} {prev : BlobIoDesc}
    (pending : Pending maxGap state prev) : state.bios ≠ [] := by
  intro empty
  have last := pending.last
  rw [empty] at last
  cases last

/-- One descriptor within `u64` is a pending run. -/
theorem Pending.single {bio : BlobIoDesc} (inBlob : bio.chunkinfo.compressedEnd < U64_LIMIT) :
    Pending maxGap ⟨bio.chunkinfo.compressedSize, [bio]⟩ bio :=
  ⟨rfl, .singleton bio, by simp [BlobChunkInfo.compressedEnd], by simpa using inBlob⟩

/-- `issue` makes a pending run into one range that covers it, of the run's size. -/
theorem issue_of_pending {state : BlobIoMergeState} {prev : BlobIoDesc}
    (pending : Pending maxGap state prev) (issued : List BlobIoRange) :
    ∃ r, state.issue maxGap issued = .ok (⟨0, []⟩, issued ++ [r]) ∧
      IssuedRange maxGap r state.bios ∧ r.blobSize = state.size := by
  obtain ⟨last, joins, span, inBlob⟩ := pending
  cases hb : state.bios with
  | nil => simp [hb] at last
  | cons first rest =>
    rw [hb] at last joins span inBlob
    have created := BlobIoRange.new_of_inBlob (inBlob first List.mem_cons_self)
    obtain ⟨r, merged, start, stop⟩ := @mergeAll_of_joins maxGap rest first
      ⟨first.chunkinfo.compressedOffset, first.chunkinfo.compressedSize, [first.chunkinfo],
        [BlobIoRange.tagFromDesc first]⟩ rfl joins
      fun bio mem => inBlob bio (List.mem_cons_of_mem first mem)
    have stopAtPrev : r.blobOffset + r.blobSize = prev.chunkinfo.compressedEnd :=
      stop prev last
    have spanned := span first rfl
    refine ⟨r, ?_, ⟨?_, fun f mem => ?_, fun l mem => ?_, ?_⟩, ?_⟩
    · simp only [issue, hb, created, Except.ok_bind, merged]
      rfl
    · obtain ⟨chunks, tags⟩ := mergeAll_eq_ok merged
      exact ⟨by simp, by simpa using chunks, by simpa using tags⟩
    · cases mem
      exact start
    · rw [last] at mem
      cases mem
      exact stopAtPrev
    · exact joins.imp fun a b joined => joined.1
    · dsimp only at start
      omega

/-- A descriptor that joins a pending run whose size is below `max_comp_size`, and whose
size with `max_comp_size` and `max_gap` fits in `u32`, is pushed onto the run. -/
theorem push_of_pending {state : BlobIoMergeState} {prev cur : BlobIoDesc}
    (pending : Pending maxGap state prev) (joins : prev.Joins maxGap cur)
    (below : state.size < maxCompSize) (inBlob : cur.chunkinfo.compressedEnd < U64_LIMIT)
    (fits : maxCompSize + maxGap + cur.chunkinfo.compressedSize < U32_MAX) :
    ∃ state', state.push cur = .ok state' ∧ Pending maxGap state' cur := by
  have after := BlobIoDesc.end_le_of_isContinuous joins.1
  have prevInBlob := pending.inBlob prev (List.mem_of_getLast? pending.last)
  have sized := pushSize_of_last pending.last prevInBlob after (by have := joins.2; omega)
  have small : ¬ U32_MAX < state.size + (cur.chunkinfo.compressedOffset -
      prev.chunkinfo.compressedEnd + cur.chunkinfo.compressedSize) := by
    have := joins.2
    omega
  refine ⟨_, by rw [push, sized, Except.ok_bind, if_neg small], ?_⟩
  have nonempty := pending.ne_nil
  refine ⟨by simp, ?_, fun first mem => ?_, fun bio mem => ?_⟩
  · refine List.IsChain.append pending.joins (.singleton cur) ?_
    intro x lastX y firstY
    rw [pending.last] at lastX
    cases lastX
    cases firstY
    exact joins
  · rw [List.head?_append_of_ne_nil _ nonempty] at mem
    have spanned := pending.span first mem
    show first.chunkinfo.compressedOffset + (state.size + _) = _
    unfold BlobChunkInfo.compressedEnd at spanned after ⊢
    omega
  · rcases List.mem_append.mp mem with old | new
    · exact pending.inBlob bio old
    · rw [List.mem_singleton.mp new]
      exact inBlob

/-- The loop of `merge_and_issue` issues runs that join up as ranges covering them, cut
only where `merge_and_issue` cuts. The induction is on the descriptors still to come,
with the pending run, the issued ranges and their runs generalised; the pending run is cut
off from the last issued range the way `Cut` says. -/
theorem mergeLoop_ranges : ∀ {rest : List BlobIoDesc} {prev : BlobIoDesc}
    {state : BlobIoMergeState} {issued : List BlobIoRange} {groups : List (List BlobIoDesc)},
    Pending maxGap state prev →
    List.Forall₂ (IssuedRange maxGap) issued groups →
    (issued.zip groups).IsChain (Cut maxCompSize maxGap) →
    (∀ p ∈ (issued.zip groups).getLast?, CutBefore maxCompSize maxGap p state.bios) →
    (prev :: rest).IsChain (BlobIoDesc.GapWithin maxGap) →
    (∀ bio ∈ rest, bio.chunkinfo.compressedEnd < U64_LIMIT ∧
      maxCompSize + maxGap + bio.chunkinfo.compressedSize < U32_MAX) →
    ∃ ranges groups', mergeLoop maxCompSize maxGap prev rest state issued = .ok ranges ∧
      List.Forall₂ (IssuedRange maxGap) ranges groups' ∧
      groups'.flatten = groups.flatten ++ state.bios ++ rest ∧
      (ranges.zip groups').IsChain (Cut maxCompSize maxGap) := by
  intro rest
  induction rest with
  | nil =>
    intro prev state issued groups pending issuedRanges cuts pendingCut _ _
    obtain ⟨r, issuedOk, range, -⟩ := issue_of_pending pending issued
    refine ⟨issued ++ [r], groups ++ [state.bios], ?_, List.rel_append issuedRanges (.cons range .nil),
      by simp, ?_⟩
    · simp only [mergeLoop, issuedOk, Except.ok_bind]
    · rw [List.zip_append issuedRanges.length_eq]
      exact cuts.append (.singleton _) fun p lastP q firstQ => by
        cases firstQ
        exact pendingCut p lastP
  | cons cur rest ih =>
    intro prev state issued groups pending issuedRanges cuts pendingCut gaps bounded
    obtain ⟨gap, gaps'⟩ := List.isChain_cons_cons.mp gaps
    obtain ⟨inBlob, fits⟩ := bounded cur List.mem_cons_self
    have bounded' := fun bio mem => bounded bio (List.mem_cons_of_mem cur mem)
    have noOverflow : prev.continuousOverflows cur maxGap = false :=
      BlobIoDesc.continuousOverflows_eq_false (pending.inBlob prev (List.mem_of_getLast? pending.last))
        (by omega)
    by_cases cut : prev.isContinuous cur maxGap = false ∨ maxCompSize ≤ state.size
    · -- The pending run is issued, and `cur` starts the next one.
      obtain ⟨r, issuedOk, range, sized⟩ := issue_of_pending pending issued
      have pushed : (⟨0, []⟩ : BlobIoMergeState).push cur =
          .ok ⟨cur.chunkinfo.compressedSize, [cur]⟩ := by
        have fitsSize : ¬ U32_MAX < 0 + cur.chunkinfo.compressedSize := by omega
        rw [push, pushSize, List.getLast?_nil, Except.ok_bind, if_neg fitsSize, Nat.zero_add]
        rfl
      have issuedCut : CutBefore maxCompSize maxGap (r, state.bios) [cur] := by
        intro last lastMem first firstMem
        rw [pending.last] at lastMem
        cases lastMem
        cases firstMem
        rw [sized]
        exact cut
      have zipped : (issued ++ [r]).zip (groups ++ [state.bios]) =
          issued.zip groups ++ [(r, state.bios)] := by
        rw [List.zip_append issuedRanges.length_eq]
        rfl
      obtain ⟨ranges, groups', looped, ranged, cover, cuts'⟩ :=
        ih (Pending.single inBlob) (List.rel_append issuedRanges (.cons range .nil))
          (by
            rw [zipped]
            exact cuts.append (.singleton _) fun p lastP q firstQ => by
              cases firstQ
              exact pendingCut p lastP)
          (by
            intro p lastP
            rw [zipped, List.getLast?_concat] at lastP
            cases lastP
            exact issuedCut)
          gaps' bounded'
      have issuing : (!prev.isContinuous cur maxGap || decide (state.size ≥ maxCompSize)) = true := by
        rcases cut with notContinuous | reached
        · simp [notContinuous]
        · simp [reached]
      refine ⟨ranges, groups', ?_, ranged, ?_, cuts'⟩
      · rw [mergeLoop_cons, if_neg (by simp [noOverflow]), if_pos issuing, issuedOk, Except.ok_bind]
        simpa [pushed] using looped
      · rw [cover]
        simp
    · -- `cur` joins the pending run.
      have continuous : prev.isContinuous cur maxGap = true := by
        simpa using (not_or.mp cut).1
      have below : state.size < maxCompSize := Nat.not_le.mp (not_or.mp cut).2
      obtain ⟨state', pushed, pending'⟩ :=
        push_of_pending pending ⟨continuous, gap continuous⟩ below inBlob fits
      have grown := push_eq_ok pushed
      have nonempty := pending.ne_nil
      obtain ⟨ranges, groups', looped, ranged, cover, cuts'⟩ :=
        ih pending' issuedRanges cuts
          (by
            intro p lastP
            rw [grown]
            intro last lastMem first firstMem
            rw [List.head?_append_of_ne_nil _ nonempty] at firstMem
            exact pendingCut p lastP last lastMem first firstMem)
          gaps' bounded'
      have keeping : (!prev.isContinuous cur maxGap || decide (state.size ≥ maxCompSize)) = false := by
        simp [continuous, below]
      refine ⟨ranges, groups', ?_, ranged, ?_, cuts'⟩
      · rw [mergeLoop_cons, if_neg (by simp [noOverflow]), if_neg (by simp [keeping]), Except.ok_bind]
        simpa [pushed] using looped
      · rw [cover, grown]
        simp

/-- Where every gap `is_continuous` accepts is within `max_gap` (in particular where no
descriptor is of a legacy stargz blob), every chunk ends within `u64` and every chunk's
size with `max_comp_size` and `max_gap` fits in `u32`, `merge_and_issue` fails no
assertion and issues ranges of consecutive runs that together are the descriptors, each
range covering its run from the first chunk's start to the last chunk's end with every
descriptor continuous with the one before, and cut only where the next descriptor is not
continuous or the range has reached `max_comp_size`. -/
theorem mergeAndIssue_ranges {bios : List BlobIoDesc}
    (gaps : bios.IsChain (BlobIoDesc.GapWithin maxGap))
    (inBlob : ∀ bio ∈ bios, bio.chunkinfo.compressedEnd < U64_LIMIT)
    (fits : ∀ bio ∈ bios, maxCompSize + maxGap + bio.chunkinfo.compressedSize < U32_MAX) :
    ∃ ranges groups, mergeAndIssue bios maxCompSize maxGap = .ok ranges ∧
      List.Forall₂ (IssuedRange maxGap) ranges groups ∧ groups.flatten = bios ∧
      (ranges.zip groups).IsChain (Cut maxCompSize maxGap) := by
  cases bios with
  | nil => exact ⟨[], [], rfl, .nil, rfl, .nil⟩
  | cons first rest =>
    obtain ⟨ranges, groups, looped, ranged, cover, cuts⟩ :=
      mergeLoop_ranges (Pending.single (inBlob first List.mem_cons_self)) .nil .nil
        (by simp) gaps
        fun bio mem => ⟨inBlob bio (List.mem_cons_of_mem first mem),
          fits bio (List.mem_cons_of_mem first mem)⟩
    exact ⟨ranges, groups, looped, ranged, by simpa using cover, cuts⟩

theorem mergeAndIssue_ranges_spaced :
    let bios := [spacedDesc false 0, spacedDesc false 1]
    (bios.IsChain (BlobIoDesc.GapWithin 0x10) ∧
      (∀ bio ∈ bios, bio.chunkinfo.compressedEnd < U64_LIMIT) ∧
      ∀ bio ∈ bios, 0x1000 + 0x10 + bio.chunkinfo.compressedSize < U32_MAX) ∧
    ∃ ranges groups, mergeAndIssue bios 0x1000 0x10 = .ok ranges ∧
      List.Forall₂ (IssuedRange 0x10) ranges groups ∧ groups.flatten = bios ∧
      (ranges.zip groups).IsChain (Cut 0x1000 0x10) :=
  have gaps := BlobIoDesc.isChain_gapWithin_of_plain (by decide)
  have inBlob : ∀ bio ∈ [spacedDesc false 0, spacedDesc false 1],
      bio.chunkinfo.compressedEnd < U64_LIMIT := by decide
  have fits : ∀ bio ∈ [spacedDesc false 0, spacedDesc false 1],
      0x1000 + 0x10 + bio.chunkinfo.compressedSize < U32_MAX := by decide
  ⟨⟨gaps, inBlob, fits⟩, mergeAndIssue_ranges gaps inBlob fits⟩

/-- `merge_and_issue` panics where `is_continuous` and `BlobIoRange::merge` disagree: a
legacy stargz descriptor that `is_continuous` accepts after a gap of `0x10`, within
`8 * max_gap`, fails `merge`'s assertion that the gap is at most `max_gap`. Past `u32` it
panics too: a gap of `u32::MAX`, accepted under that `max_gap`, fails `push`'s assertion,
and two chunks of `2^31` bytes under a `max_comp_size` past `u32` overflow the pending
size. -/
theorem mergeAndIssue_asserts :
    mergeAndIssue [spacedDesc true 0, spacedDesc true 1] 0x1000 8 =
        .error (.gapTooLarge 0x10 0x20 8) ∧
      mergeAndIssue [spacedDesc false 0,
          ⟨false, ⟨1, 0, 0x10 + U32_MAX, 0x10, 0x10, 0x10⟩, 0, 0x10, true⟩] 0x1000 U32_MAX =
        .error (.pushGapTooLong 0x10 (0x10 + U32_MAX)) ∧
      mergeAndIssue [⟨false, ⟨0, 0, 0, 0x8000_0000, 0, 0x10⟩, 0, 0x10, true⟩,
          ⟨false, ⟨1, 0, 0x8000_0000, 0x8000_0000, 0x10, 0x10⟩, 0, 0x10, true⟩]
          0x2_0000_0000 0 =
        .error .sizeOverflow := by
  decide

end BlobIoMergeState

end Nydus
