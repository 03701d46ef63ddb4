import Mathlib
import Nydus.Rafs.V6DirReader

/-!
# What the v6 directory reader sees

The reader visits a directory block by block: `entries_count` reads the number of entries of
a block from its first dirent, and each entry is read as a nid and a name. Once each block the
reader covers is known to read as a list of names with nids, the block's *view*, the walk
returns the views one after the other, and `get_child_by_name`, a binary search over the blocks
by their first and last names followed by one over the entries of a block, depends on the views
alone. On views whose names ascend it finds exactly the names they hold, and a name below the
first one underflows the block search.
-/

namespace Nydus

/-! ## Byte strings compared -/

/-- `compare` on names, which `get_child_by_name` uses, agrees with their order. -/
theorem compare_eq_lt_iff : ∀ {a b : List UInt8}, compare a b = .lt ↔ a < b
  | [], [] => by simp [List.lt_irrefl]
  | [], _ :: _ => by simp [List.nil_lt_cons]
  | _ :: _, [] => by simp [List.not_lt_nil]
  | x :: xs, y :: ys => by
    rw [List.compare_cons_cons, List.cons_lt_cons_iff, ← compare_eq_lt_iff]
    cases order : compare x y with
    | lt =>
      have less : x < y := Std.compare_eq_lt.mp order
      simp [Ordering.then, less]
    | eq =>
      have same : x = y := Std.compare_eq_iff_eq.mp order
      simp [Ordering.then, same]
    | gt =>
      have more : y < x := Std.compare_eq_gt.mp order
      have notLess : ¬x < y := fun less => absurd (UInt8.lt_trans less more) (UInt8.lt_irrefl x)
      have other : x ≠ y := fun same => by simp [same] at more
      simp [Ordering.then, notLess, other]

theorem compare_eq_gt_iff {a b : List UInt8} : compare a b = .gt ↔ b < a := by
  rw [Std.OrientedOrd.eq_swap, Ordering.swap_eq_gt, compare_eq_lt_iff]

/-! ## Blocks that read as views -/

namespace OndiskDir

variable (d : OndiskDir)

/-- Entry `j` of block `b`, of `count` entries, reads as `entry`: its dirent holds the nid
and its name reads as the name. -/
def ReadsEntry (b count j : Nat) (entry : List UInt8 × Nat) : Prop :=
  (∃ de, d.getEntry b j = .ok de ∧ de.eNid = entry.2) ∧ d.entryName b j count = .ok entry.1

/-- Block `b` reads as `view`: it counts as many entries as the view has, and each reads as
the view has it. -/
structure ReadsBlock (b : Nat) (view : List (List UInt8 × Nat)) : Prop where
  count : d.entriesCount b = .ok view.length
  entry : ∀ j (lt : j < view.length), d.ReadsEntry b view.length j view[j]

variable {d}

theorem blockEntries_of_readsEntry {b count : Nat} {view : Nat → List UInt8 × Nat} :
    ∀ {js : List Nat}, (∀ j ∈ js, d.ReadsEntry b count j (view j)) →
      d.blockEntries b count js = .ok (js.map view)
  | [], _ => rfl
  | j :: js, reads => by
    obtain ⟨⟨de, got, nid⟩, named⟩ := reads j List.mem_cons_self
    have rest := blockEntries_of_readsEntry fun j' mem => reads j' (List.mem_cons_of_mem j mem)
    rw [blockEntries, got, Except.ok_bind, named, Except.ok_bind, rest, Except.ok_bind, nid]
    rfl

theorem map_getD_range {α : Type} (l : List α) (x : α) :
    (List.range l.length).map (l.getD · x) = l := by
  apply List.ext_getElem (by simp)
  intro i inMap inList
  rw [List.getElem_map, List.getElem_range, List.getD_eq_getElem _ _ inList]

/-- A block that reads as a view lists the view. -/
theorem ReadsBlock.blockEntries {b : Nat} {view : List (List UInt8 × Nat)}
    (reads : d.ReadsBlock b view) :
    d.blockEntries b view.length (List.range view.length) = .ok view := by
  have each : ∀ j ∈ List.range view.length,
      d.ReadsEntry b view.length j (view.getD j ([], 0)) := by
    intro j mem
    have lt := List.mem_range.mp mem
    rw [List.getD_eq_getElem _ _ lt]
    exact reads.entry j lt
  rw [blockEntries_of_readsEntry each, map_getD_range]

/-- The entries of a block are listed up to the first one whose name does not read, and
that failure is the listing's. The induction is on the entries before it. -/
theorem blockEntries_of_error {b count k : Nat} {view : Nat → List UInt8 × Nat} {e : DirError}
    (entryOk : ∃ de, d.getEntry b k = .ok de) (fails : d.entryName b k count = .error e)
    (rest : List Nat) :
    ∀ {js : List Nat}, (∀ j ∈ js, d.ReadsEntry b count j (view j)) →
      d.blockEntries b count (js ++ k :: rest) = .error e
  | [], _ => by
    obtain ⟨de, got⟩ := entryOk
    rw [List.nil_append, blockEntries, got, Except.ok_bind, fails, Except.error_bind]
  | j :: js, reads => by
    obtain ⟨⟨de, got, -⟩, named⟩ := reads j List.mem_cons_self
    have more := blockEntries_of_error entryOk fails rest
      fun j' mem => reads j' (List.mem_cons_of_mem j mem)
    rw [List.cons_append, blockEntries, got, Except.ok_bind, named, Except.ok_bind, more,
      Except.error_bind]

theorem range_eq_append_cons {k count : Nat} (lt : k < count) :
    List.range count = List.range k ++ k :: List.range' (k + 1) (count - k - 1) := by
  have split : count = k + (count - k - 1 + 1) := by omega
  conv_lhs => rw [split]
  rw [List.range_eq_range', List.range_eq_range', ← List.range'_succ, ← List.range'_append]
  simp

/-- A block whose first entries read as `view` and whose next entry's name does not read
fails to list. -/
theorem blockEntries_range_of_error {b count : Nat} {view : List (List UInt8 × Nat)} {e : DirError}
    (short : view.length < count)
    (reads : ∀ j (lt : j < view.length), d.ReadsEntry b count j view[j])
    (entryOk : ∃ de, d.getEntry b view.length = .ok de)
    (fails : d.entryName b view.length count = .error e) :
    d.blockEntries b count (List.range count) = .error e := by
  have each : ∀ j ∈ List.range view.length,
      d.ReadsEntry b count j (view.getD j ([], 0)) := by
    intro j mem
    have lt := List.mem_range.mp mem
    rw [List.getD_eq_getElem _ _ lt]
    exact reads j lt
  rw [range_eq_append_cons short]
  exact blockEntries_of_error entryOk fails _ each

/-! ## The walk -/

/-- One round of the walk appends the view of a block that reads as one. -/
theorem walkRound_of_readsBlock {b : Nat} {view : List (List UInt8 × Nat)}
    (block : d.ReadsBlock b view) (acc : List (List UInt8 × Nat)) :
    (do
      let count ← d.entriesCount b
      let entries ← d.blockEntries b count (List.range count)
      pure (acc ++ entries) : Except DirError _) = .ok (acc ++ view) := by
  simp only [block.count, block.blockEntries, Except.ok_bind]
  rfl

/-- The walk of a directory whose blocks read as views returns the views in block order. -/
theorem walkChildrenInodes_of_readsBlock {views : List (List (List UInt8 × Nat))}
    (nonzero : d.size ≠ 0) (covers : views.length = d.blocksCount)
    (reads : ∀ b (lt : b < views.length), d.ReadsBlock b views[b]) :
    d.walkChildrenInodes = .ok views.flatten := by
  rw [walkChildrenInodes, if_neg nonzero, ← covers,
    Except.foldlM_eq_ok_append (g := (views.getD · [])), List.nil_append, List.flatMap_def,
    map_getD_range]
  intro acc i mem
  have lt := List.mem_range.mp mem
  rw [List.getD_eq_getElem _ _ lt]
  exact walkRound_of_readsBlock (reads i lt) acc

/-- The walk stops at the first block that does not list: the blocks before it read as
views, and its failure is the walk's. -/
theorem walkChildrenInodes_of_error {views : List (List (List UInt8 × Nat))} {count : Nat}
    {e : DirError} (nonzero : d.size ≠ 0) (within : views.length < d.blocksCount)
    (reads : ∀ b (lt : b < views.length), d.ReadsBlock b views[b])
    (counted : d.entriesCount views.length = .ok count)
    (fails : d.blockEntries views.length count (List.range count) = .error e) :
    d.walkChildrenInodes = .error e := by
  have before : ∀ acc, ∀ i ∈ List.range views.length,
      (do
        let count ← d.entriesCount i
        let entries ← d.blockEntries i count (List.range count)
        pure (acc ++ entries) : Except DirError _) = .ok (acc ++ views.getD i []) := by
    intro acc i mem
    have lt := List.mem_range.mp mem
    rw [List.getD_eq_getElem _ _ lt]
    exact walkRound_of_readsBlock (reads i lt) acc
  rw [walkChildrenInodes, if_neg nonzero, range_eq_append_cons within, List.foldlM_append,
    Except.foldlM_eq_ok_append before, Except.ok_bind, List.foldlM_cons]
  simp only [counted, fails, Except.ok_bind, Except.error_bind]

end OndiskDir

/-! ## Ascending views -/

theorem checkedSub_of_le {a b : Nat} (le : b ≤ a) : checkedSub a b = .ok (a - b) := if_pos le

theorem checkedSub_of_lt {a b : Nat} (lt : a < b) : checkedSub a b = .error .underflow :=
  if_neg (Nat.not_le.mpr lt)

theorem name_lt_of_lt_of_le {a b c : List UInt8} (lt : a < b) (le : b ≤ c) : a < c := by
  rcases List.le_iff_lt_or_eq.mp le with lt' | same
  · exact List.lt_trans lt lt'
  · exact same ▸ lt

/-- The first and the last name of a view: those the block search compares a name with. -/
def firstName (view : List (List UInt8 × Nat)) : List UInt8 := (view.headD ([], 0)).1

def lastName (view : List (List UInt8 × Nat)) : List UInt8 := (view.getLastD ([], 0)).1

theorem firstName_eq {view : List (List UInt8 × Nat)} (pos : 0 < view.length) :
    firstName view = view[0].1 := by
  simp [firstName, List.head?_eq_getElem?, List.getElem?_eq_getElem pos]

theorem lastName_eq {view : List (List UInt8 × Nat)} (pos : 0 < view.length) :
    lastName view = view[view.length - 1].1 := by
  simp [lastName, List.getLastD_eq_getLast?, List.getLast?_eq_getElem?,
    List.getElem?_eq_getElem (Nat.sub_lt pos Nat.one_pos)]

/-- Views a binary search can use: no block is empty, and the names ascend strictly across
the blocks in order. -/
structure Ascending (views : List (List (List UInt8 × Nat))) : Prop where
  nonempty : ∀ view ∈ views, view ≠ []
  ascending : views.flatten.Pairwise fun a b => a.1 < b.1

namespace Ascending

variable {views : List (List (List UInt8 × Nat))} (asc : Ascending views)
include asc

theorem lt_of_blocks {i j : Nat} (lt : i < j) (hj : j < views.length) {x y : List UInt8 × Nat}
    (inI : x ∈ views[i]) (inJ : y ∈ views[j]) : x.1 < y.1 :=
  List.pairwise_iff_getElem.mp (List.pairwise_flatten.mp asc.ascending).2 i j (by omega) hj lt
    x inI y inJ

theorem lt_within {i : Nat} (hi : i < views.length) {p q : Nat} (lt : p < q)
    (hq : q < views[i].length) : views[i][p].1 < views[i][q].1 :=
  List.pairwise_iff_getElem.mp
    ((List.pairwise_flatten.mp asc.ascending).1 views[i] (List.getElem_mem hi)) p q (by omega) hq lt

theorem length_pos {i : Nat} (hi : i < views.length) : 0 < views[i].length :=
  List.length_pos_of_ne_nil (asc.nonempty _ (List.getElem_mem hi))

theorem firstName_le {i : Nat} (hi : i < views.length) {p : Nat} (hp : p < views[i].length) :
    firstName views[i] ≤ views[i][p].1 := by
  rw [firstName_eq (asc.length_pos hi)]
  rcases Nat.eq_zero_or_pos p with zero | pos
  · subst zero
    exact List.le_refl _
  · exact List.le_of_lt (asc.lt_within hi pos hp)

theorem le_lastName {i : Nat} (hi : i < views.length) {p : Nat} (hp : p < views[i].length) :
    views[i][p].1 ≤ lastName views[i] := by
  rw [lastName_eq (asc.length_pos hi)]
  rcases Nat.lt_or_ge p (views[i].length - 1) with lt | last
  · exact List.le_of_lt (asc.lt_within hi lt (by omega))
  · have same : p = views[i].length - 1 := by omega
    subst same
    exact List.le_refl _

theorem lastName_lt_firstName {i j : Nat} (lt : i < j) (hj : j < views.length) :
    lastName views[i] < firstName views[j] := by
  have hi : i < views.length := by omega
  rw [lastName_eq (asc.length_pos hi), firstName_eq (asc.length_pos hj)]
  exact asc.lt_of_blocks lt hj (List.getElem_mem _) (List.getElem_mem _)

theorem firstName_le_lastName {i : Nat} (hi : i < views.length) :
    firstName views[i] ≤ lastName views[i] := by
  rw [firstName_eq (asc.length_pos hi)]
  exact asc.le_lastName hi (asc.length_pos hi)

theorem firstName_mono {i j : Nat} (le : i ≤ j) (hj : j < views.length) :
    firstName views[i] ≤ firstName views[j] := by
  have hi : i < views.length := by omega
  rcases Nat.lt_or_eq_of_le le with lt | same
  · exact List.le_of_lt (List.lt_of_le_of_lt (asc.firstName_le_lastName hi)
      (asc.lastName_lt_firstName lt hj))
  · subst same
    exact List.le_refl _

theorem lastName_mono {i j : Nat} (le : i ≤ j) (hj : j < views.length) :
    lastName views[i] ≤ lastName views[j] := by
  rcases Nat.lt_or_eq_of_le le with lt | same
  · exact List.le_of_lt (name_lt_of_lt_of_le (asc.lastName_lt_firstName lt hj)
      (asc.firstName_le_lastName hj))
  · subst same
    exact List.le_refl _

/-- At most one block brackets a name. -/
theorem bracket_unique {name : List UInt8} {i j : Nat} (hi : i < views.length)
    (hj : j < views.length) (inI : firstName views[i] ≤ name ∧ name ≤ lastName views[i])
    (inJ : firstName views[j] ≤ name ∧ name ≤ lastName views[j]) : i = j := by
  rcases Nat.lt_trichotomy i j with lt | same | gt
  · have below := List.lt_of_le_of_lt inI.2 (asc.lastName_lt_firstName lt hj)
    exact absurd (name_lt_of_lt_of_le below inJ.1) (List.lt_irrefl name)
  · exact same
  · have below := List.lt_of_le_of_lt inJ.2 (asc.lastName_lt_firstName gt hi)
    exact absurd (name_lt_of_lt_of_le below inI.1) (List.lt_irrefl name)

end Ascending



/-! ## The lookup -/

namespace OndiskDir

variable {d : OndiskDir} {views : List (List (List UInt8 × Nat))}

theorem blocksCount_pos (nonzero : d.size ≠ 0) : 0 < d.blocksCount := by
  unfold blocksCount divRoundUp EROFS_BLOCK_SIZE
  omega

theorem findTargetBlock_eq_loop (nonzero : d.size ≠ 0) (name : List UInt8) :
    d.findTargetBlock name = d.findTargetBlockLoop name (d.blocksCount + 1) 0 (d.blocksCount - 1) := by
  rw [findTargetBlock, if_neg nonzero, checkedSub_of_le (blocksCount_pos nonzero), Except.ok_bind]

theorem ReadsBlock.entryName_first {b : Nat} {view : List (List UInt8 × Nat)}
    (block : d.ReadsBlock b view) (pos : 0 < view.length) :
    d.entryName b 0 view.length = .ok (firstName view) := by
  rw [firstName_eq pos]
  exact (block.entry 0 pos).2

theorem ReadsBlock.entryName_last {b : Nat} {view : List (List UInt8 × Nat)}
    (block : d.ReadsBlock b view) (pos : 0 < view.length) :
    d.entryName b (view.length - 1) view.length = .ok (lastName view) := by
  rw [lastName_eq pos]
  exact (block.entry _ (Nat.sub_lt pos Nat.one_pos)).2

/-- One round of the block search, at a pivot block that reads as a view. -/
theorem findTargetBlockLoop_succ (name : List UInt8) (fuel : Nat) {first last p : Nat}
    {view : List (List UInt8 × Nat)} (within : first ≤ last)
    (pivot : p = first + (last - first) / 2) (nonempty : view ≠ [])
    (block : d.ReadsBlock p view) :
    d.findTargetBlockLoop name (fuel + 1) first last =
      if firstName view ≤ name ∧ name ≤ lastName view then .ok p
      else if name < firstName view then checkedSub p 1 >>= d.findTargetBlockLoop name fuel first
      else d.findTargetBlockLoop name fuel (p + 1) last := by
  have pos := List.length_pos_of_ne_nil nonempty
  subst pivot
  rw [findTargetBlockLoop, if_pos within]
  simp only [block.count, block.entryName_first pos, checkedSub_of_le pos,
    block.entryName_last pos, Except.ok_bind]

/-- A name below every name of the views underflows the block search: the search goes left
until block 0, whose index has no predecessor. The induction is on the fuel, which exceeds the
window `[0, last]`. -/
theorem findTargetBlockLoop_underflow
    (reads : ∀ b (lt : b < views.length), d.ReadsBlock b views[b]) (asc : Ascending views)
    {name : List UInt8} (pos : 0 < views.length) (below : name < firstName views[0]) :
    ∀ {fuel last : Nat}, last < views.length → last < fuel →
      d.findTargetBlockLoop name fuel 0 last = .error .underflow
  | 0, _, _, enough => absurd enough (Nat.not_lt_zero _)
  | fuel + 1, last, lt, enough => by
    obtain ⟨p, pivot⟩ : ∃ p, p = 0 + (last - 0) / 2 := ⟨_, rfl⟩
    have hp : p < views.length := by omega
    have left : name < firstName views[p] :=
      name_lt_of_lt_of_le below (asc.firstName_mono (Nat.zero_le p) hp)
    have outside : ¬(firstName views[p] ≤ name ∧ name ≤ lastName views[p]) :=
      fun inside => absurd (name_lt_of_lt_of_le left inside.1) (List.lt_irrefl name)
    rw [findTargetBlockLoop_succ name fuel (Nat.zero_le last) pivot
      (asc.nonempty _ (List.getElem_mem hp)) (reads p hp), if_neg outside, if_pos left]
    rcases Nat.eq_zero_or_pos p with zero | positive
    · rw [zero, checkedSub_of_lt Nat.one_pos, Except.error_bind]
    · rw [checkedSub_of_le positive, Except.ok_bind]
      exact findTargetBlockLoop_underflow reads asc pos below (by omega) (by omega)

/-- The block search returns the block that brackets the name, while the window
`[first, last]` holds it. The induction is on the fuel, which exceeds the window's width. -/
theorem findTargetBlockLoop_of_bracket
    (reads : ∀ b (lt : b < views.length), d.ReadsBlock b views[b]) (asc : Ascending views)
    {name : List UInt8} {i : Nat} (hi : i < views.length)
    (bracket : firstName views[i] ≤ name ∧ name ≤ lastName views[i]) :
    ∀ {fuel first last : Nat}, first ≤ i → i ≤ last → last < views.length → last - first < fuel →
      d.findTargetBlockLoop name fuel first last = .ok i
  | 0, _, _, _, _, _, enough => absurd enough (Nat.not_lt_zero _)
  | fuel + 1, first, last, fromFirst, toLast, lt, enough => by
    obtain ⟨p, pivot⟩ : ∃ p, p = first + (last - first) / 2 := ⟨_, rfl⟩
    have hp : p < views.length := by omega
    rw [findTargetBlockLoop_succ name fuel (by omega) pivot
      (asc.nonempty _ (List.getElem_mem hp)) (reads p hp)]
    by_cases inside : firstName views[p] ≤ name ∧ name ≤ lastName views[p]
    · rw [if_pos inside, asc.bracket_unique hp hi inside bracket]
    rw [if_neg inside]
    by_cases left : name < firstName views[p]
    · -- the bracketing block lies left of the pivot
      have before : i < p := by
        refine Nat.lt_of_not_le fun after => List.lt_irrefl name ?_
        exact name_lt_of_lt_of_le left (List.le_trans (asc.firstName_mono after hi) bracket.1)
      rw [if_pos left, checkedSub_of_le (by omega : 1 ≤ p), Except.ok_bind]
      exact findTargetBlockLoop_of_bracket reads asc hi bracket fromFirst (by omega) (by omega)
        (by omega)
    · -- the bracketing block lies right of the pivot
      have after : p < i := by
        refine Nat.lt_of_not_le fun before => inside ⟨List.not_lt.mp left, ?_⟩
        exact List.le_trans bracket.2 (asc.lastName_mono before hp)
      rw [if_neg left]
      exact findTargetBlockLoop_of_bracket reads asc hi bracket (by omega) toLast lt (by omega)

/-- When no block brackets a name at or above the first one, the block search settles on
block 0: it never goes left of block 0, and an exhausted window or fuel gives block 0. -/
theorem findTargetBlockLoop_of_outside
    (reads : ∀ b (lt : b < views.length), d.ReadsBlock b views[b]) (asc : Ascending views)
    {name : List UInt8} (pos : 0 < views.length) (above : firstName views[0] ≤ name)
    (outside : ∀ i (hi : i < views.length), ¬(firstName views[i] ≤ name ∧ name ≤ lastName views[i])) :
    ∀ {fuel first last : Nat}, last < views.length → d.findTargetBlockLoop name fuel first last = .ok 0
  | 0, _, _, _ => rfl
  | fuel + 1, first, last, lt => by
    by_cases within : first ≤ last
    · obtain ⟨p, pivot⟩ : ∃ p, p = first + (last - first) / 2 := ⟨_, rfl⟩
      have hp : p < views.length := by omega
      rw [findTargetBlockLoop_succ name fuel within pivot
        (asc.nonempty _ (List.getElem_mem hp)) (reads p hp), if_neg (outside p hp)]
      by_cases left : name < firstName views[p]
      · have positive : 0 < p := by
          refine Nat.pos_of_ne_zero fun zero => List.lt_irrefl name ?_
          subst zero
          exact name_lt_of_lt_of_le left above
        rw [if_pos left, checkedSub_of_le positive, Except.ok_bind]
        exact findTargetBlockLoop_of_outside reads asc pos above outside (by omega)
      · rw [if_neg left]
        exact findTargetBlockLoop_of_outside reads asc pos above outside lt
    · rw [findTargetBlockLoop, if_neg within]

/-- One round of the entry search, at a pivot entry that reads as `entry`. -/
theorem childSearchLoop_succ (name : List UInt8) {b count fuel first last p : Nat}
    {entry : List UInt8 × Nat} (within : first ≤ last) (pivot : p = first + (last - first) / 2)
    (reads : d.ReadsEntry b count p entry) :
    d.childSearchLoop name b count (fuel + 1) first last =
      match compare entry.1 name with
      | .eq => .ok entry.2
      | .lt => d.childSearchLoop name b count fuel (p + 1) last
      | .gt => checkedSub p 1 >>= d.childSearchLoop name b count fuel first := by
  obtain ⟨⟨de, got, nid⟩, named⟩ := reads
  subst pivot
  rw [childSearchLoop, if_pos within]
  -- the comparison is taken apart first, so that the two matches on it reduce alike
  cases order : compare entry.1 name <;> simp only [got, named, Except.ok_bind, nid, order]

/-- The entry search finds a name the block's view holds, while the window holds its index.
The induction is on the fuel, which exceeds the window's width. -/
theorem childSearchLoop_of_mem
    (reads : ∀ b (lt : b < views.length), d.ReadsBlock b views[b]) (asc : Ascending views)
    {i : Nat} (hi : i < views.length) {name : List UInt8} {k : Nat} (hk : k < views[i].length)
    (named : views[i][k].1 = name) :
    ∀ {fuel first last : Nat}, first ≤ k → k ≤ last → last < views[i].length → last - first < fuel →
      d.childSearchLoop name i views[i].length fuel first last = .ok views[i][k].2
  | 0, _, _, _, _, _, enough => absurd enough (Nat.not_lt_zero _)
  | fuel + 1, first, last, fromFirst, toLast, lt, enough => by
    obtain ⟨p, pivot⟩ : ∃ p, p = first + (last - first) / 2 := ⟨_, rfl⟩
    have hp : p < views[i].length := by omega
    rw [childSearchLoop_succ name (by omega) pivot ((reads i hi).entry p hp)]
    rcases Nat.lt_trichotomy p k with before | same | after
    · rw [compare_eq_lt_iff.mpr (named ▸ asc.lt_within hi before hk)]
      exact childSearchLoop_of_mem reads asc hi hk named (by omega) toLast lt (by omega)
    · subst same
      rw [Std.compare_eq_iff_eq.mpr named]
    · rw [compare_eq_gt_iff.mpr (named ▸ asc.lt_within hi after hp)]
      rw [checkedSub_of_le (by omega : 1 ≤ p), Except.ok_bind]
      exact childSearchLoop_of_mem reads asc hi hk named fromFirst (by omega) (by omega)
        (by omega)

/-- The entry search does not find a name the block's view lacks, when the name is not below
the block's first name: it never goes left of entry 0. -/
theorem childSearchLoop_of_not_mem
    (reads : ∀ b (lt : b < views.length), d.ReadsBlock b views[b]) (asc : Ascending views)
    {i : Nat} (hi : i < views.length) {name : List UInt8} (above : firstName views[i] ≤ name)
    (absent : ∀ x ∈ views[i], x.1 ≠ name) :
    ∀ {fuel first last : Nat}, last < views[i].length →
      d.childSearchLoop name i views[i].length fuel first last = .error .enoent
  | 0, _, _, _ => rfl
  | fuel + 1, first, last, lt => by
    by_cases within : first ≤ last
    · obtain ⟨p, pivot⟩ : ∃ p, p = first + (last - first) / 2 := ⟨_, rfl⟩
      have hp : p < views[i].length := by omega
      rw [childSearchLoop_succ name within pivot ((reads i hi).entry p hp)]
      cases order : compare views[i][p].1 name with
      | eq => exact absurd (Std.compare_eq_iff_eq.mp order) (absent _ (List.getElem_mem hp))
      | lt => exact childSearchLoop_of_not_mem reads asc hi above absent lt
      | gt =>
        have positive : 0 < p := by
          refine Nat.pos_of_ne_zero fun zero => List.lt_irrefl name ?_
          subst zero
          rw [firstName_eq (asc.length_pos hi)] at above
          exact name_lt_of_lt_of_le (compare_eq_gt_iff.mp order) above
        rw [checkedSub_of_le positive, Except.ok_bind]
        exact childSearchLoop_of_not_mem reads asc hi above absent (by omega)
    · rw [childSearchLoop, if_neg within]

/-- Looking up the block `i` that brackets the name runs the entry search over block `i`. -/
theorem getChildByName_of_findTargetBlock
    (reads : ∀ b (lt : b < views.length), d.ReadsBlock b views[b]) (asc : Ascending views)
    {name : List UInt8} {i : Nat} (hi : i < views.length)
    (found : d.findTargetBlock name = .ok i) :
    d.getChildByName name =
      d.childSearchLoop name i views[i].length (views[i].length + 1) 0 (views[i].length - 1) := by
  rw [getChildByName, found]
  simp only [(reads i hi).count, checkedSub_of_le (asc.length_pos hi), Except.ok_bind]

/-! ### `get_child_by_name` on ascending views -/

section GetChild

variable (nonzero : d.size ≠ 0) (covers : views.length = d.blocksCount)
  (reads : ∀ b (lt : b < views.length), d.ReadsBlock b views[b]) (asc : Ascending views)
include nonzero covers reads asc

/-- A name the views hold is found, with its nid. -/
theorem getChildByName_of_mem {name : List UInt8} {nid : Nat} (mem : (name, nid) ∈ views.flatten) :
    d.getChildByName name = .ok nid := by
  obtain ⟨view, inViews, inView⟩ := List.mem_flatten.mp mem
  obtain ⟨i, hi, rfl⟩ := List.getElem_of_mem inViews
  obtain ⟨k, hk, entryAt⟩ := List.getElem_of_mem inView
  have named : views[i][k].1 = name := by rw [entryAt]
  have bracket : firstName views[i] ≤ name ∧ name ≤ lastName views[i] :=
    ⟨named ▸ asc.firstName_le hi hk, named ▸ asc.le_lastName hi hk⟩
  have found : d.findTargetBlock name = .ok i := by
    rw [findTargetBlock_eq_loop nonzero, ← covers]
    exact findTargetBlockLoop_of_bracket reads asc hi bracket (Nat.zero_le i) (by omega) (by omega)
      (by omega)
  rw [getChildByName_of_findTargetBlock reads asc hi found,
    childSearchLoop_of_mem reads asc hi hk named (Nat.zero_le k) (by omega) (by omega) (by omega),
    entryAt]

/-- A name the views lack, not below their first name, is not found: the block search
settles on the bracketing block, or on block 0 when none brackets it, and neither holds it. -/
theorem getChildByName_of_not_mem {name : List UInt8} (pos : 0 < views.length)
    (above : firstName views[0] ≤ name) (absent : ∀ x ∈ views.flatten, x.1 ≠ name) :
    d.getChildByName name = .error .enoent := by
  have loop := findTargetBlock_eq_loop nonzero name
  rw [← covers] at loop
  obtain ⟨i, hi, found, notBelow⟩ : ∃ i, ∃ hi : i < views.length,
      d.findTargetBlock name = .ok i ∧ firstName views[i] ≤ name := by
    by_cases bracketed : ∃ i, ∃ hi : i < views.length,
        firstName views[i] ≤ name ∧ name ≤ lastName views[i]
    · obtain ⟨i, hi, bracket⟩ := bracketed
      refine ⟨i, hi, ?_, bracket.1⟩
      rw [loop]
      exact findTargetBlockLoop_of_bracket reads asc hi bracket (Nat.zero_le i) (by omega)
        (by omega) (by omega)
    · refine ⟨0, pos, ?_, above⟩
      rw [loop]
      exact findTargetBlockLoop_of_outside reads asc pos above
        (fun i hi bracket => bracketed ⟨i, hi, bracket⟩) (by omega)
  rw [getChildByName_of_findTargetBlock reads asc hi found]
  exact childSearchLoop_of_not_mem reads asc hi notBelow
    (fun x mem => absent x (List.mem_flatten.mpr ⟨_, List.getElem_mem hi, mem⟩))
    (Nat.sub_lt (asc.length_pos hi) Nat.one_pos)

/-- A name below the first name of the views underflows the block search. -/
theorem getChildByName_underflow {name : List UInt8} (pos : 0 < views.length)
    (below : name < firstName views[0]) : d.getChildByName name = .error .underflow := by
  have fails : d.findTargetBlock name = .error .underflow := by
    rw [findTargetBlock_eq_loop nonzero, ← covers]
    exact findTargetBlockLoop_underflow reads asc pos below (by omega) (by omega)
  rw [getChildByName, fails]

end GetChild

end OndiskDir

end Nydus
