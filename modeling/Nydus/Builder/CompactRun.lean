import Nydus.Builder.Compact

/-!
# What a compaction run does

`load_and_dedup_chunks` dedups a chunk only when its blob is a `ChunkDict` blob, and
the branch that gives a blob its `Original` chunk set sits inside that test, where the
blob is never unstated. So no pass gives a blob outside the chunk dict a state:
`delete_unused_blobs` deletes it, nothing rebuilds or keeps it, and its chunks are left
pointing at it (`runCompactor_keeps_deleted_refs`). The kept blobs are taken out of the
original table with `Vec::remove` at their original index, so the `j`-th kept blob gets
the context of original blob `i_j + j` (`dumpLoop_takes`).
-/

namespace Nydus

/-- The chunk at position `(node, chunk)`. -/
def chunkAt (nodes : List (List ChunkWrapper)) (pos : Nat × Nat) : Option ChunkWrapper :=
  nodes[pos.1]? >>= (·[pos.2]?)

/-- States as the compaction leaves them when only the chunk dict gave states: every blob
is `ChunkDict` or `Delete`. -/
def Settled (states : List (Option State)) : Prop :=
  ∀ s ∈ states, s = some .chunkDict ∨ s = some .delete

/-- States as `load_chunk_dict_blobs` leaves them: every blob is `ChunkDict` or has no
state. -/
def DictOnly (states : List (Option State)) : Prop :=
  ∀ s ∈ states, s = none ∨ s = some .chunkDict

/-! ## The helpers of the model -/

@[simp] theorem getIdx_eq_ok {β : Type} {v : List β} {i : Nat} {b : β} :
    getIdx v i = .ok b ↔ v[i]? = some b := by
  unfold getIdx
  split <;> simp_all

@[simp] theorem unwrapOpt_eq_ok {β : Type} {o : Option β} {b : β} :
    unwrapOpt o = .ok b ↔ o = some b := by
  cases o <;> simp [unwrapOpt]

@[simp] theorem unwrapRes_eq_ok {β : Type} {r : Except CompactError β} {b : β} :
    unwrapRes r = .ok b ↔ r = .ok b := by
  cases r <;> simp [unwrapRes]

theorem getChunkAt_eq_ok {nodes : List (List ChunkWrapper)} {pos : Nat × Nat} {c : ChunkWrapper} :
    getChunkAt nodes pos = .ok c ↔ chunkAt nodes pos = some c := by
  simp only [getChunkAt, chunkAt, Except.bind_eq_ok, getIdx_eq_ok, Option.bind_eq_bind,
    Option.bind_eq_some_iff]

/-- Setting a chunk leaves every other position as it was. -/
theorem chunkAt_setChunkAt_of_ne {nodes : List (List ChunkWrapper)} {pos other : Nat × Nat}
    {c : ChunkWrapper} (ne : pos ≠ other) :
    chunkAt (setChunkAt nodes pos c) other = chunkAt nodes other := by
  obtain ⟨n, k⟩ := pos
  obtain ⟨n', k'⟩ := other
  simp only [chunkAt, setChunkAt, List.getElem?_modify]
  by_cases sameNode : n = n'
  · subst sameNode
    have : k ≠ k' := fun same => ne (by rw [same])
    cases nodes[n]? <;> simp [List.getElem?_set_ne this]
  · simp [sameNode]

/-! ## The dedup pass -/

section Dedup

variable {dict : ChunkDict}

/-- One chunk of `load_and_dedup_chunks`: the states never change, the chunk's blob is
in the table, and a chunk whose blob is not a `ChunkDict` blob is passed through. -/
theorem dedupChunk_eq_ok {st st' : DedupState} {chunk chunk' : ChunkWrapper}
    (dedup : dedupChunk dict st chunk = .ok (st', chunk')) :
    st'.states = st.states ∧ chunk.blobIndex < st.states.length ∧
      (st.states[chunk.blobIndex]? ≠ some (some .chunkDict) → st' = st ∧ chunk' = chunk) := by
  unfold dedupChunk at dedup
  obtain ⟨blobState, found, step⟩ := Except.bind_eq_ok.mp dedup
  rw [getIdx_eq_ok] at found
  have inTable : chunk.blobIndex < st.states.length := (List.getElem?_eq_some_iff.mp found).1
  split at step
  · -- a `ChunkDict` blob: its state is there, so the `Original` branch changes nothing
    refine ⟨?_, inTable, fun notDict => absurd found notDict⟩
    split at step
    · obtain ⟨_, _, step⟩ := Except.bind_eq_ok.mp step
      cases step
      rfl
    · split at step
      · obtain ⟨_, _, step⟩ := Except.bind_eq_ok.mp step
        cases step
        rfl
      · cases step
        simp [found]
  · cases step
    exact ⟨rfl, inTable, fun _ => ⟨rfl, rfl⟩⟩

/-- The chunks of one node: the states never change, every chunk's blob is in the table,
and the chunks of blobs other than `ChunkDict` ones are passed through. -/
theorem dedupChunks_eq_ok (nodeIdx : Nat) :
    ∀ (chunks : List ChunkWrapper) (chunkIdx : Nat) (st st' : DedupState) (chunks' : List ChunkWrapper),
      dedupChunks dict nodeIdx chunks chunkIdx st = .ok (st', chunks') →
      st'.states = st.states ∧ (∀ c ∈ chunks, c.blobIndex < st.states.length) ∧
        ∀ (j : Nat) (c : ChunkWrapper), chunks[j]? = some c →
          st.states[c.blobIndex]? ≠ some (some .chunkDict) →
          chunks'[j]? = some c
  | [], _, _, _, _, dedup => by
    cases dedup
    exact ⟨rfl, by simp, by simp⟩
  | chunk :: rest, chunkIdx, st, st', chunks', dedup => by
    obtain ⟨⟨mid, chunk₁⟩, first, dedup⟩ := Except.bind_eq_ok.mp dedup
    obtain ⟨⟨last, rest'⟩, more, dedup⟩ := Except.bind_eq_ok.mp dedup
    cases dedup
    obtain ⟨midStates, inTable, passed⟩ := dedupChunk_eq_ok first
    obtain ⟨lastStates, restInTable, restPassed⟩ :=
      dedupChunks_eq_ok nodeIdx rest (chunkIdx + 1) _ _ _ more
    refine ⟨lastStates.trans midStates, ?_, ?_⟩
    · intro c mem
      rcases List.mem_cons.mp mem with rfl | inRest
      · exact inTable
      · simpa [midStates] using restInTable c inRest
    · intro j c at_ notDict
      cases j with
      | zero =>
        cases at_
        simp [(passed notDict).2]
      | succ j =>
        exact restPassed j c at_ (by simpa [midStates] using notDict)

/-- All nodes: the same, position by position. -/
theorem dedupNodes_eq_ok :
    ∀ (nodes : List (List ChunkWrapper)) (nodeIdx : Nat) (st st' : DedupState)
      (nodes' : List (List ChunkWrapper)),
      dedupNodes dict nodes nodeIdx st = .ok (st', nodes') →
      st'.states = st.states ∧
        ∀ pos c, chunkAt nodes pos = some c →
          c.blobIndex < st.states.length ∧
            (st.states[c.blobIndex]? ≠ some (some .chunkDict) → chunkAt nodes' pos = some c)
  | [], _, _, _, _, dedup => by
    cases dedup
    exact ⟨rfl, by simp [chunkAt]⟩
  | node :: rest, nodeIdx, st, st', nodes', dedup => by
    obtain ⟨⟨mid, node'⟩, first, dedup⟩ := Except.bind_eq_ok.mp dedup
    obtain ⟨⟨last, rest'⟩, more, dedup⟩ := Except.bind_eq_ok.mp dedup
    cases dedup
    obtain ⟨midStates, inTable, passed⟩ := dedupChunks_eq_ok nodeIdx node 0 _ _ _ first
    obtain ⟨lastStates, restSpec⟩ := dedupNodes_eq_ok rest (nodeIdx + 1) _ _ _ more
    refine ⟨lastStates.trans midStates, ?_⟩
    rintro ⟨n, k⟩ c at_
    cases n with
    | zero =>
      simp only [chunkAt, List.getElem?_cons_zero, Option.bind_eq_bind, Option.bind_some] at at_ ⊢
      exact ⟨inTable c (List.mem_of_getElem? at_), passed k c at_⟩
    | succ n =>
      have := restSpec (n, k) c (by simpa [chunkAt] using at_)
      rw [midStates] at this
      simpa [chunkAt] using this

end Dedup

/-! ## The chunk dict blobs -/

theorem markChunkDictBlob_eq_ok {dict : ChunkDict} {states states' : List (Option State)} {i : Nat}
    (mark : markChunkDictBlob dict states i = .ok states') :
    states'.length = states.length ∧
      ∀ b, dict.getRealBlobIdx i ≠ some b → states'[b]? = states[b]? := by
  unfold markChunkDictBlob at mark
  split at mark
  · next realBlobIdx real =>
    split at mark
    · cases mark
      refine ⟨List.length_set .., fun b notReal => ?_⟩
      have : realBlobIdx ≠ b := fun same => notReal (same ▸ real)
      exact List.getElem?_set_ne this
    · cases mark
  · cases mark
    exact ⟨rfl, fun _ _ => rfl⟩

/-- `load_chunk_dict_blobs` marks only the blobs of the chunk dict. -/
theorem foldlM_markChunkDictBlob {dict : ChunkDict} :
    ∀ (is : List Nat) (states states' : List (Option State)),
      is.foldlM (markChunkDictBlob dict) states = .ok states' →
      states'.length = states.length ∧
        ∀ b, (∀ i ∈ is, dict.getRealBlobIdx i ≠ some b) → states'[b]? = states[b]?
  | [], _, _, marked => by
    cases marked
    exact ⟨rfl, fun _ _ => rfl⟩
  | i :: is, states, states', marked => by
    rw [List.foldlM_cons] at marked
    obtain ⟨mid, first, rest⟩ := Except.bind_eq_ok.mp marked
    obtain ⟨midLength, midKeeps⟩ := markChunkDictBlob_eq_ok first
    obtain ⟨restLength, restKeeps⟩ := foldlM_markChunkDictBlob is mid states' rest
    refine ⟨restLength.trans midLength, fun b notReal => ?_⟩
    rw [restKeeps b (fun j mem => notReal j (List.mem_cons_of_mem i mem)),
      midKeeps b (notReal i (List.mem_cons_self ..))]

theorem markChunkDictBlob_dictOnly {dict : ChunkDict} {states states' : List (Option State)} {i : Nat}
    (only : DictOnly states) (mark : markChunkDictBlob dict states i = .ok states') :
    DictOnly states' := by
  unfold markChunkDictBlob at mark
  split at mark
  · split at mark
    · cases mark
      intro s mem
      rcases List.mem_or_eq_of_mem_set mem with inOld | rfl
      · exact only s inOld
      · exact .inr rfl
    · cases mark
  · cases mark
    exact only

theorem loadChunkDictBlobs_dictOnly {dict : ChunkDict} :
    ∀ (is : List Nat) (states states' : List (Option State)), DictOnly states →
      is.foldlM (markChunkDictBlob dict) states = .ok states' → DictOnly states'
  | [], _, _, only, marked => by
    cases marked
    exact only
  | i :: is, states, states', only, marked => by
    rw [List.foldlM_cons] at marked
    obtain ⟨mid, first, rest⟩ := Except.bind_eq_ok.mp marked
    exact loadChunkDictBlobs_dictOnly is mid states' (markChunkDictBlob_dictOnly only first) rest

/-! ## `compact` on the states the chunk dict gave -/

theorem settled_deleteUnusedBlobs {c : BlobCompactor} (only : DictOnly c.states) :
    Settled c.deleteUnusedBlobs.states := by
  intro s mem
  obtain ⟨s₀, mem₀, rfl⟩ := List.mem_map.mp mem
  rcases only s₀ mem₀ with rfl | rfl
  · exact .inr rfl
  · exact .inl rfl

theorem usedRatio_of_settled {backend : String → List UInt8} {blobInfo : BlobContext} {s : State}
    (settled : some s = some .chunkDict ∨ some s = some .delete) :
    usedRatio backend blobInfo s = .ok 100 := by
  rcases settled with same | same <;> cases same <;> rfl

/-- `prepare_to_rebuild` refuses a `ChunkDict` or `Delete` blob. -/
theorem prepareToRebuild_of_settled {states : List (Option State)} {idx : Nat} {s : State}
    (found : states[idx]? = some (some s)) (settled : some s = some .chunkDict ∨ some s = some .delete) :
    prepareToRebuild states idx = .error .invalidState := by
  rcases settled with same | same <;> cases same <;> simp [prepareToRebuild, getIdx, found, unwrapOpt,
    State.isRebuild]

/-- With only `ChunkDict` and `Delete` blobs, the rebuild pass changes nothing, or fails. -/
theorem tryRebuildLoop_of_settled {backend : String → List UInt8} {ratio : UInt8}
    {states : List (Option State)} (settled : Settled states) :
    ∀ (blobs : List BlobContext) (idx : Nat) (states' : List (Option State)),
      tryRebuildLoop backend ratio blobs idx states = .ok states' → states' = states
  | [], _, _, rebuilt => by
    cases rebuilt
    rfl
  | blobInfo :: rest, idx, states', rebuilt => by
    obtain ⟨s?, found, unwrapping⟩ := Except.bind_eq_ok.mp rebuilt
    obtain ⟨s, unwrapped, step⟩ := Except.bind_eq_ok.mp unwrapping
    rw [unwrapOpt_eq_ok] at unwrapped
    rw [getIdx_eq_ok, unwrapped] at found
    have stateSettled := settled _ (List.mem_of_getElem? found)
    rw [usedRatio_of_settled stateSettled, Except.ok_bind] at step
    dsimp only at step
    split at step
    · -- a ratio above 100 sends the blob to `prepare_to_rebuild`, which refuses it
      simp [prepareToRebuild_of_settled found stateSettled, unwrapRes] at step
    · rw [pure_bind] at step
      exact tryRebuildLoop_of_settled settled rest (idx + 1) states' step

theorem needMergeBlobs_of_settled {blobs : List BlobContext} {low : Nat} :
    ∀ (states : List (Option State)) (idx : Nat) (need : List (Nat × Nat)), Settled states →
      needMergeBlobs blobs low states idx = .ok need → need = []
  | [], _, _, _, found => by
    cases found
    rfl
  | s? :: rest, idx, need, settled, found => by
    obtain ⟨_, _, unwrapping⟩ := Except.bind_eq_ok.mp found
    obtain ⟨s, unwrapped, step⟩ := Except.bind_eq_ok.mp unwrapping
    rw [unwrapOpt_eq_ok] at unwrapped
    subst unwrapped
    dsimp only at step
    obtain ⟨more, moreFound, step⟩ := Except.bind_eq_ok.mp step
    cases step
    have noMore := needMergeBlobs_of_settled rest (idx + 1) more
      (fun s mem => settled s (List.mem_cons_of_mem _ mem)) moreFound
    rcases settled _ (List.mem_cons_self ..) with same | same <;> cases same <;> simp [noMore]

theorem tryMergeBlobs_of_settled {blobs : List BlobContext} {states states' : List (Option State)}
    {low max : Nat} (settled : Settled states) (merged : tryMergeBlobs blobs states low max = .ok states') :
    states' = states := by
  obtain ⟨need, found, merged⟩ := Except.bind_eq_ok.mp merged
  rw [needMergeBlobs_of_settled states 0 need settled found] at merged
  cases merged
  rfl

/-- `compact` on the states `load_chunk_dict_blobs` leaves: only `delete_unused_blobs` has
an effect. -/
theorem compact_of_dictOnly {c c' : BlobCompactor} {cfg : Config} (only : DictOnly c.states)
    (compacted : c.compact cfg = .ok c') : c' = c.deleteUnusedBlobs := by
  have settled := settled_deleteUnusedBlobs only
  obtain ⟨rebuilt, rebuild, compacted⟩ := Except.bind_eq_ok.mp compacted
  obtain ⟨merged, merge, compacted⟩ := Except.bind_eq_ok.mp compacted
  cases compacted
  rw [tryRebuildLoop_of_settled settled _ 0 rebuilt rebuild] at merge
  rw [tryMergeBlobs_of_settled settled merge]

/-- A `min_used_ratio` above 100 makes `try_rebuild_blobs` unwrap the refusal of
`prepare_to_rebuild`: the compaction panics on every image with a blob. -/
theorem compact_panics_of_ratio {c : BlobCompactor} {cfg : Config} (only : DictOnly c.states)
    (lengths : c.states.length = c.oriBlobMgr.blobs.length) (nonempty : c.oriBlobMgr.blobs ≠ [])
    (ratio : 100 < cfg.minUsedRatio.toNat) :
    c.compact cfg = .error (.unwrapErr .invalidState) := by
  obtain ⟨blobInfo, rest, blobs⟩ := List.exists_cons_of_ne_nil nonempty
  obtain ⟨s?, states, statesEq⟩ : ∃ s? states, c.states = s? :: states := by
    cases h : c.states with
    | nil => simp [h, blobs] at lengths
    | cons s? states => exact ⟨s?, states, rfl⟩
  have settled := settled_deleteUnusedBlobs only
  have first : c.deleteUnusedBlobs.states[0]? = some (some (s?.getD .delete)) := by
    simp [BlobCompactor.deleteUnusedBlobs, statesEq]
  have firstSettled := settled _ (List.mem_of_getElem? first)
  simp only [BlobCompactor.compact, BlobCompactor.deleteUnusedBlobs] at first ⊢
  rw [blobs, tryRebuildLoop]
  simp only [getIdx, first, Except.ok_bind, unwrapOpt, usedRatio_of_settled firstSettled,
    if_pos ratio, prepareToRebuild_of_settled first firstSettled, unwrapRes, Except.error_bind]

/-! ## `dump_new_blobs` -/

/-- The original indexes of the blobs `dump_new_blobs` keeps, from blob `idx` on. -/
def keptIndices : List (Option State) → Nat → List Nat
  | [], _ => []
  | some (.original _) :: rest, idx => idx :: keptIndices rest (idx + 1)
  | some .chunkDict :: rest, idx => idx :: keptIndices rest (idx + 1)
  | _ :: rest, idx => keptIndices rest (idx + 1)

theorem drop_eraseIdx_succ {β : Type} (l : List β) (i : Nat) :
    (l.eraseIdx i).drop (i + 1) = l.drop (i + 2) := by
  apply List.ext_getElem?
  intro n
  rw [List.getElem?_drop, List.getElem?_drop, List.getElem?_eraseIdx, if_neg (by omega)]
  congr 1
  omega

theorem applyBlobMove_eq_ok {c c' : BlobCompactor} {from_ to_ : Nat}
    (moved : c.applyBlobMove from_ to_ = .ok c') :
    ∃ nodes, BlobCompactor.blobMoveLoop from_ to_ (c.b2nodes from_) c.nodes = .ok nodes ∧
      c' = { c with nodes } := by
  obtain ⟨nodes, loop, moved⟩ := Except.bind_eq_ok.mp moved
  cases moved
  exact ⟨nodes, loop, rfl⟩

/-- `apply_blob_move` changes only chunks of the blob it moves: it checks each one. -/
theorem blobMoveLoop_keeps {from_ to_ : Nat} {pos : Nat × Nat} {chunk : ChunkWrapper}
    (other : chunk.blobIndex ≠ from_) :
    ∀ (ps : List (Nat × Nat)) (nodes nodes' : List (List ChunkWrapper)), chunkAt nodes pos = some chunk →
      BlobCompactor.blobMoveLoop from_ to_ ps nodes = .ok nodes' → chunkAt nodes' pos = some chunk
  | [], _, _, at_, moved => by
    cases moved
    exact at_
  | p :: ps, nodes, nodes', at_, moved => by
    obtain ⟨c, found, moved⟩ := Except.bind_eq_ok.mp moved
    rw [getChunkAt_eq_ok] at found
    split at moved
    · cases moved
    · next isFrom =>
      have elsewhere : p ≠ pos := by
        rintro rfl
        rw [at_, Option.some.injEq] at found
        subst found
        exact isFrom other
      exact blobMoveLoop_keeps other ps _ nodes'
        (by rw [chunkAt_setChunkAt_of_ne elsewhere]; exact at_) moved

/-- A blob `dump_new_blobs` keeps: it is taken out of the original table, gets the next
index of the new one, and its chunks move there when that index is another. -/
theorem dumpBlob_kept_eq_ok {ids : List String} {aligned : Bool} {c c' : BlobCompactor} {idx : Nat}
    {s : State} (isKept : s = .chunkDict ∨ ∃ cs, s = .original cs)
    (dumped : c.dumpBlob ids aligned idx s = .ok c') :
    ∃ ctx mgr blobIdx nodes, c.oriBlobMgr.takeBlob idx = .ok (ctx, mgr) ∧
      c.newBlobMgr.allocIndex = .ok blobIdx ∧
      (if blobIdx ≠ idx then BlobCompactor.blobMoveLoop idx blobIdx (c.b2nodes idx) c.nodes = .ok nodes
        else nodes = c.nodes) ∧
      c' = { c with oriBlobMgr := mgr, nodes, newBlobMgr := c.newBlobMgr.add ctx } := by
  have step : c.keepBlob idx = .ok c' := by
    rcases isKept with rfl | ⟨cs, rfl⟩ <;> exact dumped
  unfold BlobCompactor.keepBlob at step
  obtain ⟨⟨ctx, mgr⟩, taken, step⟩ := Except.bind_eq_ok.mp step
  obtain ⟨blobIdx, alloc, step⟩ := Except.bind_eq_ok.mp step
  refine ⟨ctx, mgr, blobIdx, ?_⟩
  dsimp only at step
  split at step
  · next moves =>
    obtain ⟨moved, move, step⟩ := Except.bind_eq_ok.mp step
    obtain ⟨nodes, loop, rfl⟩ := applyBlobMove_eq_ok move
    cases step
    exact ⟨nodes, taken, alloc, by rw [if_pos moves]; exact loop, rfl⟩
  · next stays =>
    cases step
    exact ⟨c.nodes, taken, alloc, by rw [if_neg stays], rfl⟩

/-- `dump_new_blobs` does not change the states. -/
theorem dumpLoop_states {ids : List String} {aligned : Bool} :
    ∀ (rest : List (Option State)) (idx : Nat) (c c' : BlobCompactor), Settled rest →
      BlobCompactor.dumpLoop ids aligned rest idx c = .ok c' → c'.states = c.states
  | [], _, c, c', _, dumped => by
    cases dumped
    rfl
  | s? :: rest, idx, c, c', settled, dumped => by
    obtain ⟨s, unwrapped, step⟩ := Except.bind_eq_ok.mp dumped
    rw [unwrapOpt_eq_ok] at unwrapped
    obtain ⟨mid, midStep, restStep⟩ := Except.bind_eq_ok.mp step
    have midStates : mid.states = c.states := by
      rcases settled s? (List.mem_cons_self ..) with isDict | isDelete
      · rw [isDict, Option.some.injEq] at unwrapped
        subst unwrapped
        obtain ⟨_, _, _, _, _, _, _, rfl⟩ := dumpBlob_kept_eq_ok (.inl rfl) midStep
        rfl
      · rw [isDelete, Option.some.injEq] at unwrapped
        subst unwrapped
        cases midStep
        rfl
    rw [dumpLoop_states rest (idx + 1) mid c' (fun s mem => settled s (List.mem_cons_of_mem _ mem))
      restStep, midStates]

/-- A chunk of a blob that `dump_new_blobs` does not keep is left as it is. -/
theorem dumpLoop_keeps {ids : List String} {aligned : Bool} {pos : Nat × Nat} {chunk : ChunkWrapper} :
    ∀ (rest : List (Option State)) (idx : Nat) (c c' : BlobCompactor), Settled rest →
      (∀ j, rest[j]? = some (some .chunkDict) → idx + j ≠ chunk.blobIndex) →
      chunkAt c.nodes pos = some chunk →
      BlobCompactor.dumpLoop ids aligned rest idx c = .ok c' →
      chunkAt c'.nodes pos = some chunk
  | [], _, c, c', _, _, at_, dumped => by
    cases dumped
    exact at_
  | s? :: rest, idx, c, c', settled, notKept, at_, dumped => by
    obtain ⟨s, unwrapped, step⟩ := Except.bind_eq_ok.mp dumped
    rw [unwrapOpt_eq_ok] at unwrapped
    obtain ⟨mid, midStep, restStep⟩ := Except.bind_eq_ok.mp step
    have restNotKept : ∀ j, rest[j]? = some (some .chunkDict) → idx + 1 + j ≠ chunk.blobIndex := by
      intro j kept
      have := notKept (j + 1) (by simpa using kept)
      omega
    -- the blob at `idx` is kept or deleted; a kept one moves only its own chunks
    have midKeeps : chunkAt mid.nodes pos = some chunk := by
      rcases settled s? (List.mem_cons_self ..) with isDict | isDelete
      · rw [isDict, Option.some.injEq] at unwrapped
        subst unwrapped
        obtain ⟨_, _, blobIdx, nodes, _, _, moved, rfl⟩ := dumpBlob_kept_eq_ok (.inl rfl) midStep
        split at moved
        · have own : chunk.blobIndex ≠ idx := fun same => notKept 0 (by simp [isDict]) (by omega)
          exact blobMoveLoop_keeps own _ _ _ at_ moved
        · rw [moved]
          exact at_
      · rw [isDelete, Option.some.injEq] at unwrapped
        subst unwrapped
        cases midStep
        exact at_
    exact dumpLoop_keeps rest (idx + 1) mid c' (fun s mem => settled s (List.mem_cons_of_mem _ mem))
      restNotKept midKeeps restStep

/-- `dump_new_blobs` takes the kept blobs out of the original table with `Vec::remove`
at their original index, after the earlier kept ones were removed: while the loop is at
blob `idx` with `k` blobs taken, the table from `idx` on is the original one from
`idx + k` on, and the `j`-th kept blob gets the context at `i_j + j`. -/
theorem dumpLoop_takes {ids : List String} {aligned : Bool} (ori : List BlobContext) :
    ∀ (rest : List (Option State)) (idx k : Nat) (c c' : BlobCompactor),
      (∀ s ∈ rest, ∀ cs, s ≠ some (.rebuild cs)) →
      c.oriBlobMgr.blobs.drop idx = ori.drop (idx + k) →
      BlobCompactor.dumpLoop ids aligned rest idx c = .ok c' →
      c'.newBlobMgr.blobs.map some =
        c.newBlobMgr.blobs.map some ++ ((keptIndices rest idx).zipIdx k).map fun p => ori[p.1 + p.2]?
  | [], _, _, c, c', _, _, dumped => by
    cases dumped
    simp [keptIndices]
  | s? :: rest, idx, k, c, c', noRebuild, shifted, dumped => by
    obtain ⟨s, unwrapped, step⟩ := Except.bind_eq_ok.mp dumped
    rw [unwrapOpt_eq_ok] at unwrapped
    subst unwrapped
    obtain ⟨mid, midStep, restStep⟩ := Except.bind_eq_ok.mp step
    have restNoRebuild : ∀ s ∈ rest, ∀ cs, s ≠ some (.rebuild cs) :=
      fun s mem => noRebuild s (List.mem_cons_of_mem _ mem)
    have shiftedOn : c.oriBlobMgr.blobs.drop (idx + 1) = ori.drop (idx + 1 + k) := by
      rw [← List.drop_drop, shifted, List.drop_drop]
      congr 1
      omega
    -- a kept blob: `Vec::remove` at `idx` takes the original blob `idx + k`
    have kept (mid : BlobCompactor) (cs : ChunkSet)
        (midStep : BlobCompactor.dumpBlob ids aligned c idx (.original cs) = .ok mid)
        (restStep : BlobCompactor.dumpLoop ids aligned rest (idx + 1) mid = .ok c') :
        c'.newBlobMgr.blobs.map some =
          c.newBlobMgr.blobs.map some ++ ori[idx + k]? ::
            ((keptIndices rest (idx + 1)).zipIdx (k + 1)).map fun p => ori[p.1 + p.2]? := by
      have isKept : State.original cs = .chunkDict ∨ ∃ cs', State.original cs = .original cs' := .inr ⟨cs, rfl⟩
      obtain ⟨ctx, mgr, blobIdx, nodes, taken, _, _, rfl⟩ := dumpBlob_kept_eq_ok isKept midStep
      unfold BlobManager.takeBlob at taken
      split at taken
      · next found =>
        cases taken
        have sameBlob : ori[idx + k]? = some ctx := by
          have heads := congrArg (·[0]?) shifted
          simp only [List.getElem?_drop, Nat.add_zero] at heads
          rw [← heads, found]
        have restShifted : (c.oriBlobMgr.blobs.eraseIdx idx).drop (idx + 1) = ori.drop (idx + 1 + (k + 1)) := by
          rw [drop_eraseIdx_succ, ← List.drop_drop, shifted, List.drop_drop]
          congr 1
          omega
        rw [dumpLoop_takes ori rest (idx + 1) (k + 1) _ c' restNoRebuild restShifted restStep]
        simp [BlobManager.add, sameBlob]
      · cases taken
    cases s with
    | original cs =>
      rw [kept mid cs midStep restStep, keptIndices, List.zipIdx_cons, List.map_cons]
    | chunkDict =>
      rw [kept mid .new midStep restStep, keptIndices, List.zipIdx_cons, List.map_cons]
    | delete =>
      cases midStep
      -- a deleted blob is skipped: nothing is taken and `k` stays
      exact dumpLoop_takes ori rest (idx + 1) k _ c' restNoRebuild shiftedOn restStep
    | rebuild cs =>
      exact absurd rfl (noRebuild _ (List.mem_cons_self ..) cs)

/-! ## A whole run -/

/-- What `BlobCompactor::new` and `compact` leave for `dump_new_blobs`: the states of
`load_chunk_dict_blobs` with the rest deleted, the original blob table, an empty new
one, and the chunks of blobs outside the chunk dict as they were. -/
theorem new_compact_eq_ok {version : RafsVersion} {mgr : BlobManager}
    {nodes : List (List ChunkWrapper)} {backend : String → List UInt8} {cfg : Config}
    {c₁ c₂ : BlobCompactor} (created : BlobCompactor.new version mgr nodes backend = .ok c₁)
    (compacted : c₁.compact cfg = .ok c₂) :
    ∃ states, loadChunkDictBlobs mgr.globalChunkDict (List.replicate mgr.blobs.length none) = .ok states ∧
      DictOnly states ∧ c₂.states = states.map (fun s => some (s.getD .delete)) ∧ c₂.oriBlobMgr = mgr ∧
      c₂.newBlobMgr = .new ∧
      ∀ pos chunk, chunkAt nodes pos = some chunk →
        chunk.blobIndex < states.length ∧
          (states[chunk.blobIndex]? ≠ some (some .chunkDict) → chunkAt c₂.nodes pos = some chunk) := by
  obtain ⟨states, marked, deduped⟩ := Except.bind_eq_ok.mp created
  obtain ⟨⟨st, nodes₁⟩, dedup, loaded⟩ := Except.bind_eq_ok.mp deduped
  cases loaded
  have unstated : DictOnly (List.replicate mgr.blobs.length none) := fun s mem =>
    .inl (List.eq_of_mem_replicate mem)
  have only : DictOnly states := loadChunkDictBlobs_dictOnly _ _ _ unstated marked
  obtain ⟨dedupStates, dedupSpec⟩ := dedupNodes_eq_ok _ _ _ _ _ dedup
  have onlyAfter : DictOnly st.states := by
    rw [dedupStates]
    exact only
  rw [compact_of_dictOnly onlyAfter compacted]
  refine ⟨states, marked, only, ?_, rfl, rfl, dedupSpec⟩
  simp only [BlobCompactor.deleteUnusedBlobs, dedupStates]

/-- After a compaction run, a chunk of a blob outside the chunk dict still points at the
index of that blob, which is deleted: `load_and_dedup_chunks` dedups only the chunks of
`ChunkDict` blobs, so no other blob is kept or rebuilt. -/
theorem runCompactor_keeps_deleted_refs {version : RafsVersion} {mgr : BlobManager}
    {nodes : List (List ChunkWrapper)} {backend : String → List UInt8} {cfg : Config} {aligned : Bool}
    {c : BlobCompactor} {pos : Nat × Nat} {chunk : ChunkWrapper}
    (run : runCompactor version mgr nodes backend cfg aligned = .ok c)
    (inNode : chunkAt nodes pos = some chunk)
    (notDict : ∀ i < mgr.globalChunkDict.getBlobs.length,
      mgr.globalChunkDict.getRealBlobIdx i ≠ some chunk.blobIndex) :
    chunkAt c.nodes pos = some chunk ∧ c.states[chunk.blobIndex]? = some (some .delete) := by
  obtain ⟨c₁, created, step⟩ := Except.bind_eq_ok.mp run
  obtain ⟨c₂, compacted, dumped⟩ := Except.bind_eq_ok.mp step
  obtain ⟨states, marked, only, states₂, _, _, spec⟩ := new_compact_eq_ok created compacted
  obtain ⟨inTable, passed⟩ := spec pos chunk inNode
  obtain ⟨markedLength, markedKeeps⟩ := foldlM_markChunkDictBlob _ _ _ marked
  -- the blob has no state after `load_chunk_dict_blobs`, and is deleted by `compact`
  have unstated : states[chunk.blobIndex]? = some none := by
    rw [markedKeeps _ fun i mem => notDict i (List.mem_range.mp mem)]
    rw [markedLength, List.length_replicate] at inTable
    simp [inTable]
  have deleted : c₂.states[chunk.blobIndex]? = some (some .delete) := by
    simp [states₂, unstated]
  have settled : Settled c₂.states := by
    rw [states₂]
    intro s mem
    obtain ⟨s₀, mem₀, rfl⟩ := List.mem_map.mp mem
    rcases only s₀ mem₀ with rfl | rfl
    · exact .inr rfl
    · exact .inl rfl
  unfold BlobCompactor.dumpNewBlobs at dumped
  split at dumped
  · cases dumped
  · have notKept : ∀ j, c₂.states[j]? = some (some .chunkDict) → 0 + j ≠ chunk.blobIndex := by
      intro j kept same
      rw [Nat.zero_add] at same
      rw [same, deleted] at kept
      cases kept
    refine ⟨dumpLoop_keeps _ 0 c₂ c settled notKept (passed (by simp [unstated])) dumped, ?_⟩
    rw [dumpLoop_states _ 0 c₂ c settled dumped, deleted]

/-- After a compaction run, every blob is `ChunkDict` or `Delete`, and the `j`-th kept
blob, of original index `i_j`, holds the context of original blob `i_j + j`. -/
theorem runCompactor_takes {version : RafsVersion} {mgr : BlobManager}
    {nodes : List (List ChunkWrapper)} {backend : String → List UInt8} {cfg : Config} {aligned : Bool}
    {c : BlobCompactor} (run : runCompactor version mgr nodes backend cfg aligned = .ok c) :
    Settled c.states ∧
      c.newBlobMgr.blobs.map some = ((keptIndices c.states 0).zipIdx).map fun p => mgr.blobs[p.1 + p.2]? := by
  obtain ⟨c₁, created, step⟩ := Except.bind_eq_ok.mp run
  obtain ⟨c₂, compacted, dumped⟩ := Except.bind_eq_ok.mp step
  obtain ⟨states, _, only, states₂, oriMgr, newMgr, _⟩ := new_compact_eq_ok created compacted
  have settled : Settled c₂.states := by
    rw [states₂]
    intro s mem
    obtain ⟨s₀, mem₀, rfl⟩ := List.mem_map.mp mem
    rcases only s₀ mem₀ with rfl | rfl
    · exact .inr rfl
    · exact .inl rfl
  have noRebuild : ∀ s ∈ c₂.states, ∀ cs, s ≠ some (.rebuild cs) := by
    intro s mem cs isRebuild
    rcases settled s mem with same | same <;> rw [same] at isRebuild <;> cases isRebuild
  unfold BlobCompactor.dumpNewBlobs at dumped
  split at dumped
  · cases dumped
  · have statesEq := dumpLoop_states _ 0 c₂ c settled dumped
    have shifted : c₂.oriBlobMgr.blobs.drop 0 = mgr.blobs.drop (0 + 0) := by rw [oriMgr]
    refine ⟨statesEq ▸ settled, ?_⟩
    rw [dumpLoop_takes mgr.blobs _ 0 0 c₂ c noRebuild shifted dumped, newMgr, statesEq]
    simp [BlobManager.new]

/-! ## An image with a blob of its own and a chunk dict blob -/

/-- The bytes a chunk designates in a blob table: `compressed_size` bytes at
`compressed_offset` of the blob at its `blob_index`. -/
def chunkData (blobs : List BlobContext) (backend : String → List UInt8) (chunk : ChunkWrapper) :
    Option (List UInt8) :=
  blobs[chunk.blobIndex]?.map fun ctx => readAt (backend ctx.blobId) chunk.compressedOffset chunk.compressedSize

/-- The image's own blob and the blob it shares with the chunk dict, where the dict's
table has it at index 0. -/
def ownBlob : BlobInfo := ⟨0, "own", 0x10, 0x10⟩
def sharedBlob : BlobInfo := ⟨1, "dict", 0x10, 0x10⟩
def sharedDict : ChunkDict := .hash [] [⟨0, "dict", 0x10, 0x10⟩] []

/-- A v6 chunk in each blob, and the bytes of the blobs. -/
def ownChunk : ChunkWrapper := ⟨.v6, 1, 0, 0, 0, 0x10, 0, 0x10, 0, false⟩
def sharedChunk : ChunkWrapper := ⟨.v6, 2, 1, 0, 0, 0x10, 0, 0x10, 0, false⟩
def blobBytes (id : String) : List UInt8 :=
  if id = "own" then List.replicate 0x10 0xaa else List.replicate 0x10 0xbb

/-- Two blobs the chunk dict shares with the image. -/
def pairBlob (i : Nat) : BlobInfo := ⟨i, if i = 0 then "d0" else "d1", 0x10, 0x10⟩
def pairDict : ChunkDict := .hash [] [pairBlob 0, pairBlob 1] []

/-- The blob manager `do_compact` builds for the image with its own blob and the chunk dict:
the dict's blob is the image's second. -/
def sharedMgr : BlobManager :=
  ⟨[BlobContext.from ownBlob, BlobContext.from sharedBlob], none,
    .hash [] [⟨0, "dict", 0x10, 0x10⟩] [(0, 1)], .hash [] [] []⟩

/-- On that image the compactor runs: the own blob is deleted and the own chunk still names
it; the dict blob is kept and taken into the new table. -/
theorem runCompactor_own_and_dict :
    oriBlobManager [ownBlob, sharedBlob] (some sharedDict) = .ok sharedMgr ∧
    ∃ c, runCompactor .v6 sharedMgr [[ownChunk, sharedChunk]] blobBytes .default false = .ok c ∧
      (chunkAt c.nodes (0, 0) = some ownChunk ∧ c.states[ownChunk.blobIndex]? = some (some .delete)) ∧
      (Settled c.states ∧ c.newBlobMgr.blobs.map some =
        ((keptIndices c.states 0).zipIdx).map fun p => sharedMgr.blobs[p.1 + p.2]?) := by
  have built : oriBlobManager [ownBlob, sharedBlob] (some sharedDict) = .ok sharedMgr := by decide
  have ran : (runCompactor .v6 sharedMgr [[ownChunk, sharedChunk]] blobBytes .default false).isOk =
      true := by decide
  refine ⟨built, ?_⟩
  match run : runCompactor .v6 sharedMgr [[ownChunk, sharedChunk]] blobBytes .default false with
  | .ok c =>
    have notDict : ∀ i < sharedMgr.globalChunkDict.getBlobs.length,
        sharedMgr.globalChunkDict.getRealBlobIdx i ≠ some ownChunk.blobIndex := by decide
    exact ⟨c, rfl, runCompactor_keeps_deleted_refs run
      (show chunkAt [[ownChunk, sharedChunk]] (0, 0) = some ownChunk from rfl) notDict,
      runCompactor_takes run⟩
  | .error _ =>
    rw [run] at ran
    cases ran

/-- A compactor of the image's own blob alone, before `compact`. -/
def ownCompactor : BlobCompactor :=
  ⟨.v6, [none], BlobManager.new.fromBlobTable [ownBlob], .new, [[ownChunk]], fun _ => [],
    fun _ => [], blobBytes, []⟩

/-- With a `min_used_ratio` of 101, its `compact` panics. -/
theorem compact_panics_of_ratio_own :
    ownCompactor.compact { Config.default with minUsedRatio := 101 } =
      .error (.unwrapErr .invalidState) :=
  compact_panics_of_ratio (by unfold DictOnly; decide) rfl (by decide) (by decide)

/-- The compaction of an image with its own blob and a chunk dict blob deletes its own
blob and keeps the dict blob at index 0, where the own chunk, left at index 0, now reads
the dict blob's bytes. An image with two chunk dict blobs panics in `Vec::remove`, and a
`min_used_ratio` of 101 panics on any image. -/
theorem compact_leaves_chunk_on_deleted_blob :
    (doCompact .v6 [ownBlob, sharedBlob] (some sharedDict) [[ownChunk, sharedChunk]] blobBytes
        .default false).map (fun r => r.map fun c => (c.states, c.newBlobMgr.blobs.map (·.blobId), c.nodes)) =
      .ok (some ([some .delete, some .chunkDict], ["dict"], [[ownChunk, { sharedChunk with blobIndex := 0 }]])) ∧
    (doCompact .v6 [ownBlob, sharedBlob] (some sharedDict) [[ownChunk, sharedChunk]] blobBytes
        .default false).map (fun r => r.bind fun c => chunkData c.newBlobMgr.blobs c.backend ownChunk) =
      .ok (some (List.replicate 0x10 0xbb)) ∧
    chunkData ([ownBlob, sharedBlob].map BlobContext.from) blobBytes ownChunk = some (List.replicate 0x10 0xaa) ∧
    (doCompact .v6 [pairBlob 0, pairBlob 1] (some pairDict) [] blobBytes .default false).map
      (·.isSome) = .error .removalIndexOutOfBounds ∧
    (doCompact .v6 [ownBlob] none [[ownChunk]] blobBytes { Config.default with minUsedRatio := 101 }
        false).map (·.isSome) = .error (.unwrapErr .invalidState) := by
  refine ⟨?_, ?_, ?_, ?_, ?_⟩ <;> decide

end Nydus
