import Mathlib
/-!
# A list of slices as one buffer

Scatter-gather code keeps a buffer as a list of slices and a position in it as a slice index
and an offset in that slice. Laid end to end the slices are one flat buffer; a position is the
offset `flatOffset` there, the sum of the lengths of the slices before it plus its offset. A
position whose offset lies inside its slice is determined by its flat offset
(`eq_of_flatOffset_eq`).

`writeAt flat pos data` writes `data` over `flat` from `pos` on. Writing into one slice is
writing into the flat buffer at the slice's flat offset (`flatten_set_writeAt`), and two
writes end to end are one write of both (`writeAt_writeAt`): a copy done piece by piece,
slice after slice, is one write.
-/

namespace Slices

variable {α : Type}

/-- The bytes of the piece `(index, offset, len)` of the slices: `len` bytes of slice `index`
from `offset`. -/
def piece (slices : List (List α)) (p : Nat × Nat × Nat) : List α :=
  ((slices.getD p.1 []).drop p.2.1).take p.2.2

/-- The flat offset of position `offset` of slice `index`, for slices of lengths `lens`. -/
def flatOffset (lens : List Nat) (index offset : Nat) : Nat := (lens.take index).sum + offset

/-- `data` written over `flat` from `pos` on. -/
def writeAt (flat : List α) (pos : Nat) (data : List α) : List α :=
  flat.take pos ++ data ++ flat.drop (pos + data.length)

/-! ## Writes -/

theorem writeAt_nil (flat : List α) (pos : Nat) : writeAt flat pos [] = flat := by
  rw [writeAt, List.append_nil, List.length_nil, Nat.add_zero, List.take_append_drop]

theorem length_writeAt {flat data : List α} {pos : Nat} (fits : pos + data.length ≤ flat.length) :
    (writeAt flat pos data).length = flat.length := by
  simp only [writeAt, List.length_append, List.length_take, List.length_drop]
  omega

/-- Two writes end to end are one write of both. -/
theorem writeAt_writeAt {flat first second : List α} {pos : Nat}
    (fits : pos + first.length + second.length ≤ flat.length) :
    writeAt (writeAt flat pos first) (pos + first.length) second = writeAt flat pos (first ++ second) := by
  have front : (flat.take pos ++ first).length = pos + first.length := by
    rw [List.length_append, List.length_take]
    omega
  unfold writeAt
  rw [show pos + first.length + second.length = (flat.take pos ++ first).length + second.length by
      rw [front], List.take_left' front, List.drop_length_add_append, List.drop_drop, List.length_append]
  simp only [List.append_assoc, Nat.add_assoc]

/-- A write past a prefix leaves the prefix. -/
theorem writeAt_append_left (front rest data : List α) (pos : Nat) :
    writeAt (front ++ rest) (front.length + pos) data = front ++ writeAt rest pos data := by
  unfold writeAt
  rw [List.take_length_add_append, Nat.add_assoc, List.drop_length_add_append]
  simp only [List.append_assoc]

/-- A write inside the first part leaves the rest. -/
theorem writeAt_append_right {front rest data : List α} {pos : Nat}
    (fits : pos + data.length ≤ front.length) :
    writeAt (front ++ rest) pos data = writeAt front pos data ++ rest := by
  unfold writeAt
  rw [List.take_append_of_le_length (by omega), List.drop_append_of_le_length fits]
  simp only [List.append_assoc]

/-! ## Positions -/

theorem flatOffset_succ {lens : List Nat} {index : Nat} (inside : index < lens.length) :
    flatOffset lens (index + 1) 0 = flatOffset lens index (lens.getD index 0) := by
  unfold flatOffset
  rw [List.sum_take_succ _ _ inside, List.getD_eq_getElem _ _ inside]
  rfl

/-- The start of the next slice is the position moved by what is left of its slice. -/
theorem flatOffset_next {lens : List Nat} {index offset : Nat} (inside : index < lens.length)
    (within : offset ≤ lens.getD index 0) :
    flatOffset lens (index + 1) 0 = flatOffset lens index offset + (lens.getD index 0 - offset) := by
  rw [flatOffset_succ inside]
  unfold flatOffset
  omega

theorem getD_pos {lens : List Nat} {index : Nat} (positive : ∀ n ∈ lens, 0 < n)
    (inside : index < lens.length) : 0 < lens.getD index 0 := by
  rw [List.getD_eq_getElem _ _ inside]
  exact positive _ (List.getElem_mem inside)

/-- A position at most at the end of its slice is at most at the end of the buffer. -/
theorem flatOffset_le_sum {lens : List Nat} {index offset : Nat} (inside : index < lens.length)
    (within : offset ≤ lens.getD index 0) : flatOffset lens index offset ≤ lens.sum := by
  have upTo : (lens.take (index + 1)).sum ≤ lens.sum :=
    (List.take_sublist _ _).sum_le_sum fun _ _ => Nat.zero_le _
  have next := flatOffset_succ inside
  unfold flatOffset at next ⊢
  omega

/-- A position before the end of the buffer is in one of its slices. -/
theorem lt_length_of_flatOffset_lt {lens : List Nat} {index offset : Nat}
    (before : flatOffset lens index offset < lens.sum) : index < lens.length := by
  by_contra past
  rw [flatOffset, List.take_of_length_le (by omega)] at before
  omega

/-- A position inside an earlier slice has a smaller flat offset. -/
theorem flatOffset_lt_flatOffset {lens : List Nat} {i i' o o' : Nat} (earlier : i < i')
    (inside : i < lens.length) (within : o < lens.getD i 0) :
    flatOffset lens i o < flatOffset lens i' o' := by
  have upTo : (lens.take (i + 1)).sum ≤ (lens.take i').sum :=
    (List.take_sublist_take_left (by omega)).sum_le_sum fun _ _ => Nat.zero_le _
  have next := flatOffset_succ inside
  unfold flatOffset at next ⊢
  omega

/-- Positions with their offsets inside their slices are one when their flat offsets are. -/
theorem eq_of_flatOffset_eq {lens : List Nat} {i i' o o' : Nat}
    (inside : i < lens.length) (within : o < lens.getD i 0)
    (inside' : i' < lens.length) (within' : o' < lens.getD i' 0)
    (same : flatOffset lens i o = flatOffset lens i' o') : i = i' ∧ o = o' := by
  rcases Nat.lt_trichotomy i i' with earlier | rfl | later
  · exact absurd same (flatOffset_lt_flatOffset earlier inside within).ne
  · unfold flatOffset at same
    exact ⟨rfl, by omega⟩
  · exact absurd same (flatOffset_lt_flatOffset later inside' within').ne'

/-! ## Slices and the flat buffer -/

theorem lengths_pos {slices : List (List α)} (nonempty : ∀ s ∈ slices, s ≠ []) :
    ∀ n ∈ slices.map List.length, 0 < n := by
  intro n mem
  obtain ⟨s, member, rfl⟩ := List.mem_map.mp mem
  exact List.length_pos_iff.mpr (nonempty s member)

theorem length_getD (slices : List (List α)) (index : Nat) :
    (slices.getD index []).length = (slices.map List.length).getD index 0 :=
  (List.getD_map slices [] List.length).symm

/-- Replacing a slice by one of its length keeps the lengths of the slices. -/
theorem map_length_set : ∀ {slices : List (List α)} {index : Nat} {slice : List α},
    slice.length = (slices.getD index []).length →
      (slices.set index slice).map List.length = slices.map List.length
  | [], _, _, _ => rfl
  | s :: rest, 0, slice, same => by
    simp only [List.getD_cons_zero] at same
    simp [same]
  | s :: rest, index + 1, slice, same => by
    simp only [List.getD_cons_succ] at same
    simp [map_length_set same]

/-- The flat buffer from a position on: the rest of its slice, then the slices after it. -/
theorem drop_flatOffset : ∀ {slices : List (List α)} {index offset : Nat},
    offset ≤ (slices.getD index []).length →
      slices.flatten.drop (flatOffset (slices.map List.length) index offset) =
        (slices.getD index []).drop offset ++ (slices.drop (index + 1)).flatten
  | [], _, _, within => by
    simp only [List.getD_nil, List.length_nil, Nat.le_zero] at within
    simp [within, flatOffset]
  | s :: rest, 0, offset, within => by
    simp only [List.getD_cons_zero] at within
    simp only [flatOffset, List.take_zero, List.sum_nil, Nat.zero_add, List.flatten_cons,
      List.getD_cons_zero, List.drop_succ_cons, List.drop_zero]
    exact List.drop_append_of_le_length within
  | s :: rest, index + 1, offset, within => by
    simp only [List.getD_cons_succ] at within ⊢
    simp only [flatOffset, List.map_cons, List.take_succ_cons, List.sum_cons, List.flatten_cons,
      List.drop_succ_cons, Nat.add_assoc]
    rw [List.drop_length_add_append]
    exact drop_flatOffset within

/-- Writing into one slice is writing into the flat buffer at that slice's flat offset. -/
theorem flatten_set_writeAt {data : List α} :
    ∀ {slices : List (List α)} {index offset : Nat}, index < slices.length →
      offset + data.length ≤ (slices.getD index []).length →
      (slices.set index (writeAt (slices.getD index []) offset data)).flatten =
        writeAt slices.flatten (flatOffset (slices.map List.length) index offset) data
  | [], _, _, inside, _ => absurd inside (Nat.not_lt_zero _)
  | s :: rest, 0, offset, _, fits => by
    simp only [List.getD_cons_zero] at fits
    simp only [List.set_cons_zero, List.getD_cons_zero, List.flatten_cons, flatOffset, List.take_zero,
      List.sum_nil, Nat.zero_add]
    rw [writeAt_append_right fits]
  | s :: rest, index + 1, offset, inside, fits => by
    simp only [List.getD_cons_succ] at fits ⊢
    simp only [List.set_cons_succ, List.flatten_cons, List.length_cons] at inside ⊢
    rw [flatten_set_writeAt (by omega) fits]
    simp only [flatOffset, List.map_cons, List.take_succ_cons, List.sum_cons, Nat.add_assoc]
    rw [writeAt_append_left]

end Slices
