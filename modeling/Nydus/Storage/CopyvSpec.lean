import Mathlib
import Nydus.Lib.Except
import Nydus.Lib.Slices
import Nydus.Storage.Copyv
/-!
# `copyv` and `MemSliceCursor` against one flat buffer

Laid end to end, a list of slices is one buffer (`Slices`), and a position `(index, offset)`
in them is a flat offset. Against that buffer:

* `move_cursor` moves the flat position by the size asked, and from a position on a byte of a
  list of non-empty slices it stops on a byte again, while the slices last;
* `consume` gives the pieces that hold the next bytes from the cursor, in order, and leaves
  the cursor where `move_cursor` does;
* `copyv`, through a writer with the documented behaviour, is one write: the bytes of the
  sources from `offset` on, as many as asked or as the sources hold, written at the flat
  offset of `(dst_index, dst_offset)`; it ends where `move_cursor` moves from there by the
  bytes copied (`copyv_writes_flat`).

The last holds for non-empty destination slices and a copy that ends before their end. An
empty slice makes `VolatileSlice::write` fail at its offset 0, and a copy that fills the
slices exactly fails when another source follows (`copyv_overflow_after_exact_fill`).
-/

namespace Nydus.Storage.Utils

open Slices

namespace MemSliceCursor

/-- The cursor's offset in its slices laid end to end. -/
def position (c : MemSliceCursor) : Nat := flatOffset c.memSlice c.index c.offset

/-- The cursor stands on a byte: inside a slice, before its end. -/
def OnByte (c : MemSliceCursor) : Prop :=
  c.index < c.memSlice.length ∧ c.offset < c.memSlice.getD c.index 0

/-- Where a cursor that finishes its slice goes: the start of the next one, the position moved
by what was left; on a byte unless that is the end of the slices. -/
theorem next_onByte {c : MemSliceCursor} (positive : ∀ n ∈ c.memSlice, 0 < n)
    (inside : c.index < c.memSlice.length) (within : c.offset ≤ c.memSlice.getD c.index 0)
    (before : c.position + (c.memSlice.getD c.index 0 - c.offset) < c.memSlice.sum) :
    position ⟨c.memSlice, c.index + 1, 0⟩ = c.position + (c.memSlice.getD c.index 0 - c.offset) ∧
      OnByte ⟨c.memSlice, c.index + 1, 0⟩ := by
  have moved : position ⟨c.memSlice, c.index + 1, 0⟩ =
      c.position + (c.memSlice.getD c.index 0 - c.offset) :=
    flatOffset_next inside within
  have next : c.index + 1 < c.memSlice.length :=
    lt_length_of_flatOffset_lt (show position ⟨c.memSlice, c.index + 1, 0⟩ < _ by omega)
  exact ⟨moved, next, getD_pos positive next⟩

@[simp] theorem memSlice_moveCursor (c : MemSliceCursor) (size : Nat) :
    (moveCursor c size).memSlice = c.memSlice := by
  induction c, size using moveCursor.induct with
  | case1 c size stop => rw [moveCursor, if_pos stop]
  | case2 c size go left filled =>
    simp only [left] at filled
    rw [moveCursor, if_neg go]
    simp only [filled]
  | case3 c size go left longer =>
    simp only [left] at longer
    rw [moveCursor, if_neg go]
    simp only [longer]
  | case4 c size go left shorter ih =>
    simp only [left] at shorter ih
    rw [moveCursor, if_neg go]
    simp only [shorter]
    exact ih

/-- `move_cursor` from a byte of non-empty slices moves the flat position by `size` and stops
on a byte, if the slices go on past it. -/
theorem moveCursor_onByte {c : MemSliceCursor} {size : Nat} (positive : ∀ n ∈ c.memSlice, 0 < n)
    (on : c.OnByte) (room : c.position + size < c.memSlice.sum) :
    (moveCursor c size).position = c.position + size ∧ (moveCursor c size).OnByte := by
  induction c, size using moveCursor.induct with
  | case1 c size stop =>
    -- on a byte, the loop only stops at once for a move by nothing
    have nothing : size = 0 := stop.resolve_right (Nat.not_le.mpr on.1)
    rw [moveCursor, if_pos stop, nothing, Nat.add_zero]
    exact ⟨rfl, on⟩
  | case2 c size go left filled =>
    have filled : c.memSlice.getD c.index 0 - c.offset = size := Nat.compare_eq_eq.mp filled
    rw [moveCursor, if_neg go]
    simp only [Nat.compare_eq_eq.mpr filled]
    rw [← filled] at room ⊢
    exact next_onByte positive on.1 on.2.le room
  | case3 c size go left longer =>
    have longer : size < c.memSlice.getD c.index 0 - c.offset := Nat.compare_eq_gt.mp longer
    rw [moveCursor, if_neg go]
    simp only [Nat.compare_eq_gt.mpr longer]
    exact ⟨by simp only [position, flatOffset]; omega, on.1,
      show c.offset + size < c.memSlice.getD c.index 0 by omega⟩
  | case4 c size go left shorter ih =>
    have shorter : c.memSlice.getD c.index 0 - c.offset < size := Nat.compare_eq_lt.mp shorter
    rw [moveCursor, if_neg go]
    simp only [Nat.compare_eq_lt.mpr shorter]
    -- the rest of this slice is passed; the move goes on from the start of the next
    obtain ⟨moved, onNext⟩ := next_onByte positive on.1 on.2.le (by omega)
    obtain ⟨arrived, stops⟩ := ih positive onNext
      (show position ⟨c.memSlice, c.index + 1, 0⟩ + (size - (c.memSlice.getD c.index 0 - c.offset)) <
        c.memSlice.sum by rw [moved]; omega)
    exact ⟨by rw [arrived, moved]; omega, stops⟩

/-- `consume` leaves the cursor where `move_cursor` does. -/
theorem consume_cursor (c : MemSliceCursor) (size : Nat) : (consume c size).2 = moveCursor c size := by
  induction c, size using consume.induct with
  | case1 c size stop => rw [consume, moveCursor, if_pos stop, if_pos stop]
  | case2 c size go left longer =>
    have longer : compare (c.memSlice.getD c.index 0 - c.offset) size = .gt := longer
    rw [consume, moveCursor, if_neg go, if_neg go]
    simp only [longer]
  | case3 c size go left filled =>
    have filled : compare (c.memSlice.getD c.index 0 - c.offset) size = .eq := filled
    rw [consume, moveCursor, if_neg go, if_neg go]
    simp only [filled]
  | case4 c size go left shorter ih =>
    have shorter : compare (c.memSlice.getD c.index 0 - c.offset) size = .lt := shorter
    rw [consume, moveCursor, if_neg go, if_neg go]
    simp only [shorter]
    exact ih

section Pieces

variable {α : Type} {slices : List (List α)}

/-- The slices from the cursor on: the rest of its slice, then the slices after it. -/
theorem drop_position {c : MemSliceCursor} (lens : c.memSlice = slices.map List.length)
    (valid : c.offset ≤ c.memSlice.getD c.index 0) :
    slices.flatten.drop c.position =
      (slices.getD c.index []).drop c.offset ++ (slices.drop (c.index + 1)).flatten := by
  rw [position, lens]
  exact drop_flatOffset (by rw [length_getD, ← lens]; exact valid)

/-- The pieces `consume` takes hold the bytes from the cursor on, in order: `size` of them, or
what the slices have left. -/
theorem consume_pieces {c : MemSliceCursor} {size : Nat} (lens : c.memSlice = slices.map List.length)
    (valid : c.offset ≤ c.memSlice.getD c.index 0) :
    (consume c size).1.flatMap (piece slices) = (slices.flatten.drop c.position).take size := by
  induction c, size using consume.induct with
  | case1 c size stop =>
    rw [consume, if_pos stop]
    rcases stop with nothing | past
    · rw [nothing, List.take_zero]
      rfl
    · -- past the last slice nothing is left
      have past : slices.length ≤ c.index := by rw [lens, List.length_map] at past; exact past
      rw [drop_position lens valid, List.getD_eq_default _ _ past, List.drop_nil,
        List.drop_eq_nil_of_le (by omega : slices.length ≤ c.index + 1)]
      simp
  | case2 c size go left longer =>
    simp only [left] at longer
    have longer : size < c.memSlice.getD c.index 0 - c.offset := Nat.compare_eq_gt.mp longer
    rw [consume, if_neg go]
    simp only [Nat.compare_eq_gt.mpr longer, List.flatMap_cons, List.flatMap_nil, List.append_nil]
    rw [drop_position lens valid, List.take_append_of_le_length]
    · rfl
    · rw [List.length_drop, length_getD, ← lens]
      omega
  | case3 c size go left filled =>
    simp only [left] at filled
    have filled : c.memSlice.getD c.index 0 - c.offset = size := Nat.compare_eq_eq.mp filled
    rw [consume, if_neg go]
    simp only [Nat.compare_eq_eq.mpr filled, List.flatMap_cons, List.flatMap_nil, List.append_nil]
    rw [drop_position lens valid, List.take_append_of_le_length]
    · rfl
    · rw [List.length_drop, length_getD, ← lens]
      omega
  | case4 c size go left shorter ih =>
    simp only [left] at shorter ih
    have shorter : c.memSlice.getD c.index 0 - c.offset < size := Nat.compare_eq_lt.mp shorter
    have inside : c.index < c.memSlice.length := by omega
    -- the rest of the cursor's slice is one piece; the next pieces start at the next slice
    have restLength : ((slices.getD c.index []).drop c.offset).length =
        c.memSlice.getD c.index 0 - c.offset := by
      rw [List.length_drop, length_getD, ← lens]
    have nextPosition : position ⟨c.memSlice, c.index + 1, 0⟩ =
        c.position + (c.memSlice.getD c.index 0 - c.offset) :=
      flatOffset_next inside valid
    rw [consume, if_neg go]
    simp only [Nat.compare_eq_lt.mpr shorter, List.flatMap_cons]
    rw [ih lens (Nat.zero_le _), nextPosition, ← List.drop_drop, drop_position lens valid,
      List.drop_left' restLength, List.take_append, restLength,
      List.take_of_length_le (by omega : _ ≤ size)]
    simp only [piece]
    rw [List.take_of_length_le restLength.le]

/-- `consume` takes the bytes from the cursor on, in order, `size` of them or what the slices
have left, and leaves the cursor where `move_cursor` does. -/
theorem consume_spec {c : MemSliceCursor} {size : Nat} (lens : c.memSlice = slices.map List.length)
    (valid : c.offset ≤ c.memSlice.getD c.index 0) :
    (consume c size).1.flatMap (piece slices) = (slices.flatten.drop c.position).take size ∧
      (consume c size).2 = moveCursor c size :=
  ⟨consume_pieces lens valid, consume_cursor c size⟩

/-- Three bytes from the second byte of the slices `[1, 2, 3]` and `[4, 5]`: the rest of the
first slice and the first byte of the second. -/
theorem consume_spec_acrossSlices :
    [3, 2] = ([[1, 2, 3], [4, 5]] : List (List UInt8)).map List.length ∧ 1 ≤ [3, 2].getD 0 0 ∧
    (consume ⟨[3, 2], 0, 1⟩ 3).1.flatMap (piece ([[1, 2, 3], [4, 5]] : List (List UInt8))) =
        (([[1, 2, 3], [4, 5]] : List (List UInt8)).flatten.drop (position ⟨[3, 2], 0, 1⟩)).take 3 ∧
      (consume ⟨[3, 2], 0, 1⟩ 3).2 = moveCursor ⟨[3, 2], 0, 1⟩ 3 :=
  ⟨rfl, by decide, consume_spec (c := ⟨[3, 2], 0, 1⟩) rfl (by decide)⟩

end Pieces

end MemSliceCursor

/-! ## `copyv` -/

/-- A documented write at an offset inside the slice writes there what of the buffer fits. -/
theorem SliceWriter.Documented.write_of_lt {w : SliceWriter} (documented : w.Documented)
    {slice buf : List UInt8} {addr : Nat} (within : addr < slice.length) :
    w.write slice buf addr =
      .ok ((buf.take (slice.length - addr)).length,
        writeAt slice addr (buf.take (slice.length - addr))) := by
  have counted : (buf.take (slice.length - addr)).length = min buf.length (slice.length - addr) := by
    rw [List.length_take, Nat.min_comm]
  have fits : buf.take (min buf.length (slice.length - addr)) = buf.take (slice.length - addr) := by
    rw [Nat.min_comm, ← List.take_eq_take_min]
  rw [documented.write_inside slice buf addr within, writeAt, counted, fits]

section Copy

variable {w : SliceWriter} {orig : List (List UInt8)} {pos : Nat} {data : List UInt8}
  {st : CopyState}

/-- A copy into the slices `orig`, from their flat offset `pos` on, that has written `data`:
the slices keep their lengths and hold `orig` with `data` written over it, and the cursor
stands right after `data`, on a byte of its slice unless the slices are exhausted. -/
structure Copied (orig : List (List UInt8)) (pos : Nat) (data : List UInt8) (st : CopyState) :
    Prop where
  lengths : st.dst.map List.length = orig.map List.length
  contents : st.dst.flatten = writeAt orig.flatten pos data
  copied : st.copied = data.length
  cursor : flatOffset (orig.map List.length) st.dstIndex st.dstOffset = pos + data.length
  within : st.dstIndex < orig.length → st.dstOffset < (orig.map List.length).getD st.dstIndex 0

theorem Copied.start (within : offset < (orig.getD index []).length) :
    Copied orig (flatOffset (orig.map List.length) index offset) [] ⟨orig, 0, index, offset⟩ where
  lengths := rfl
  contents := (writeAt_nil _ _).symm
  copied := rfl
  cursor := rfl
  within _ := by rwa [← length_getD]

theorem Copied.length_dst (copied : Copied orig pos data st) : st.dst.length = orig.length := by
  simpa using congrArg List.length copied.lengths

theorem Copied.slice_length (copied : Copied orig pos data st) (index : Nat) :
    (st.dst.getD index []).length = (orig.map List.length).getD index 0 := by
  rw [length_getD, copied.lengths]

/-- The cursor of a copy that ends before the end of the slices is inside them. -/
theorem Copied.inside (copied : Copied orig pos data st)
    (before : pos + data.length < orig.flatten.length) : st.dstIndex < orig.length := by
  have inside := lt_length_of_flatOffset_lt
    (show flatOffset (orig.map List.length) st.dstIndex st.dstOffset < (orig.map List.length).sum by
      rw [copied.cursor, ← List.length_flatten]
      exact before)
  rwa [List.length_map] at inside

/-- One write of `copyLoop`, of `part` into the room left in the slice at the cursor: the
cursor moves past it, to the start of the next slice when it fills the slice. -/
theorem Copied.step {part : List UInt8} (copied : Copied orig pos data st)
    (nonempty : ∀ d ∈ orig, d ≠ []) (inside : st.dstIndex < orig.length)
    (fits : st.dstOffset + part.length ≤ (st.dst.getD st.dstIndex []).length) :
    Copied orig pos (data ++ part)
      (if (st.dst.getD st.dstIndex []).length - st.dstOffset = part.length then
        ⟨st.dst.set st.dstIndex (writeAt (st.dst.getD st.dstIndex []) st.dstOffset part),
          st.copied + part.length, st.dstIndex + 1, 0⟩
      else
        ⟨st.dst.set st.dstIndex (writeAt (st.dst.getD st.dstIndex []) st.dstOffset part),
          st.copied + part.length, st.dstIndex, st.dstOffset + part.length⟩) := by
  have sliceLength := copied.slice_length st.dstIndex
  have insideLens : st.dstIndex < (orig.map List.length).length := by rwa [List.length_map]
  have lengths : (st.dst.set st.dstIndex
      (writeAt (st.dst.getD st.dstIndex []) st.dstOffset part)).map List.length =
        orig.map List.length := by
    rw [map_length_set (length_writeAt fits), copied.lengths]
  -- the write ends inside the slice, so inside the flat buffer
  have ends : pos + data.length + part.length ≤ orig.flatten.length := by
    have bound := flatOffset_le_sum insideLens (show st.dstOffset + part.length ≤ _ by omega)
    rw [← List.length_flatten] at bound
    unfold flatOffset at bound
    have cursor := copied.cursor
    unfold flatOffset at cursor
    omega
  have contents : (st.dst.set st.dstIndex
      (writeAt (st.dst.getD st.dstIndex []) st.dstOffset part)).flatten =
        writeAt orig.flatten pos (data ++ part) := by
    rw [flatten_set_writeAt (copied.length_dst ▸ inside) fits, copied.lengths, copied.cursor,
      copied.contents, writeAt_writeAt ends]
  have counted : st.copied + part.length = (data ++ part).length := by
    rw [copied.copied, List.length_append]
  split
  · next filled =>
    -- the slice is full: the cursor goes to the start of the next one
    have moved := flatOffset_next insideLens (show st.dstOffset ≤ _ by omega)
    refine ⟨lengths, contents, counted, ?_, fun next => ?_⟩
    · rw [moved, copied.cursor, List.length_append]
      omega
    · exact getD_pos (lengths_pos nonempty) (by rwa [List.length_map])
  · next short =>
    refine ⟨lengths, contents, counted, ?_, fun _ => ?_⟩ <;> dsimp only
    · have cursor := copied.cursor
      unfold flatOffset at cursor ⊢
      rw [List.length_append]
      omega
    · omega

/-- The inner loop of `copyv` writes its source's part after what is copied, when that ends
before the end of the slices. The induction is on the bytes left of the part, which each
write lessens. -/
theorem copyLoop_writes (documented : w.Documented) (nonempty : ∀ d ∈ orig, d ≠ [])
    {s : List UInt8} (bufferLen : Nat) :
    ∀ {srcOffset : Nat} {data : List UInt8} {st : CopyState},
      Copied orig pos data st → srcOffset + bufferLen ≤ s.length →
      pos + data.length + bufferLen < orig.flatten.length →
      ∃ st', copyLoop w s srcOffset bufferLen st = .ok st' ∧
        Copied orig pos (data ++ (s.drop srcOffset).take bufferLen) st' := by
  induction bufferLen using Nat.strong_induction_on with
  | _ bufferLen ih =>
  intro srcOffset data st copied fits room
  have inside := copied.inside (by omega)
  have sliceLength := copied.slice_length st.dstIndex
  have on : st.dstOffset < (st.dst.getD st.dstIndex []).length := by
    rw [sliceLength]
    exact copied.within inside
  rw [copyLoop, if_neg (by rw [copied.length_dst]; omega), dif_neg (by omega)]
  dsimp only
  split
  · next wrote =>
    rw [documented.write_of_lt on] at wrote
    cases wrote
  · next wrote =>
    rw [documented.write_of_lt on] at wrote
    cases wrote
    -- what fits of the part in the room left in the slice
    generalize partIs : ((s.drop srcOffset).take bufferLen).take
      ((st.dst.getD st.dstIndex []).length - st.dstOffset) = part
    have partLength : part.length =
        min ((st.dst.getD st.dstIndex []).length - st.dstOffset) bufferLen := by
      rw [← partIs, List.length_take, List.length_take, List.length_drop]
      omega
    have partPrefix : part = (s.drop srcOffset).take part.length := by
      rw [← partIs, List.take_take, List.length_take]
      exact List.take_eq_take_min
    have next := copied.step nonempty inside (show st.dstOffset + part.length ≤ _ by omega)
    split
    · next done =>
      -- the whole part is written
      refine ⟨_, rfl, ?_⟩
      rw [← done, ← partPrefix]
      exact next
    · next notDone =>
      -- the rest of the part goes on from the next byte of the source
      have rest : (s.drop srcOffset).take bufferLen =
          part ++ (s.drop (srcOffset + part.length)).take (bufferLen - part.length) := by
        calc (s.drop srcOffset).take bufferLen
            = (s.drop srcOffset).take (part.length + (bufferLen - part.length)) := by
              congr 1
              omega
          _ = (s.drop srcOffset).take part.length ++
                ((s.drop srcOffset).drop part.length).take (bufferLen - part.length) :=
              List.take_add
          _ = part ++ (s.drop (srcOffset + part.length)).take (bufferLen - part.length) := by
              rw [← partPrefix, List.drop_drop]
      obtain ⟨st', ran, final⟩ := ih (bufferLen - part.length) (by omega) next
        (show srcOffset + part.length + (bufferLen - part.length) ≤ s.length by omega)
        (by rw [List.length_append]; omega)
      refine ⟨st', ran, ?_⟩
      rw [rest, ← List.append_assoc]
      exact final

/-- The source loop of `copyv` writes the bytes of the sources from `srcOffset` on, as many as
are left of the request, after what is copied, when that ends before the end of the slices.
The induction is on the sources. -/
theorem copySources_writes (documented : w.Documented) (nonempty : ∀ d ∈ orig, d ≠ [])
    (length : Nat) :
    ∀ (srcs : List (List UInt8)) {srcOffset : Nat} {data : List UInt8} {st : CopyState},
      Copied orig pos data st → srcOffset ≤ (srcs.getD 0 []).length → data.length ≤ length →
      pos + min length (data.length + (srcs.flatten.drop srcOffset).length) < orig.flatten.length →
      ∃ st', copySources w length srcs srcOffset st = .ok st' ∧
        Copied orig pos (data ++ (srcs.flatten.drop srcOffset).take (length - data.length)) st'
  | [], _, data, st, copied, _, _, _ => ⟨st, rfl, by simpa using copied⟩
  | s :: rest, srcOffset, data, st, copied, start, asked, room => by
    simp only [List.getD_cons_zero] at start
    have sourceLength : (s.drop srcOffset).length = s.length - srcOffset := List.length_drop
    have flatLength : ((s :: rest).flatten.drop srcOffset).length =
        s.length - srcOffset + rest.flatten.length := by
      rw [List.length_drop, List.flatten_cons, List.length_append]
      omega
    rw [flatLength] at room
    -- this source's part: what is left of it, cut to what is left of the request
    obtain ⟨st₁, ran, next⟩ := copyLoop_writes documented nonempty
      (min (s.length - srcOffset) (length - data.length)) copied
      (show srcOffset + min (s.length - srcOffset) (length - data.length) ≤ s.length by omega)
      (by omega)
    have partLength : ((s.drop srcOffset).take (min (s.length - srcOffset)
        (length - data.length))).length = min (s.length - srcOffset) (length - data.length) := by
      rw [List.length_take]
      omega
    obtain ⟨st₂, ranRest, final⟩ := copySources_writes documented nonempty length rest next
      (Nat.zero_le _) (by rw [List.length_append, partLength]; omega)
      (by rw [List.length_append, partLength, List.drop_zero]; omega)
    refine ⟨st₂, ?_, ?_⟩
    · rw [copySources, copied.copied]
      simp only [Except.bind_eq_ok]
      exact ⟨st₁, ran, ranRest⟩
    · -- the bytes asked from here are this source's part, then those asked of the rest
      have thisPart : (s.drop srcOffset).take (length - data.length) =
          (s.drop srcOffset).take (min (s.length - srcOffset) (length - data.length)) :=
        List.take_eq_take_iff.mpr (by rw [sourceLength]; omega)
      have split : ((s :: rest).flatten.drop srcOffset).take (length - data.length) =
          (s.drop srcOffset).take (min (s.length - srcOffset) (length - data.length)) ++
            (rest.flatten.drop 0).take (length - (data ++ (s.drop srcOffset).take
              (min (s.length - srcOffset) (length - data.length))).length) := by
        rw [List.flatten_cons, List.drop_append_of_le_length start, List.take_append, thisPart,
          sourceLength, List.length_append, partLength, List.drop_zero]
        congr 2
        omega
      rw [split, ← List.append_assoc]
      exact final

end Copy

/-- `copyv` into non-empty destination slices, with room left past the copy, is one write: the
bytes of the sources from `offset` on, as many as asked or as the sources hold, written at the
flat offset of `(dst_index, dst_offset)`. It returns their number and the position where
`move_cursor` moves from `(dst_index, dst_offset)` by that number. -/
theorem copyv_writes_flat {w : SliceWriter} (documented : w.Documented)
    {src dst : List (List UInt8)} {offset length dstIndex dstOffset : Nat}
    (start : offset ≤ (src.getD 0 []).length) (nonempty : ∀ d ∈ dst, d ≠ [])
    (within : dstOffset < (dst.getD dstIndex []).length)
    (room : flatOffset (dst.map List.length) dstIndex dstOffset +
      min length (src.flatten.length - offset) < dst.flatten.length) :
    ∃ dst', copyv w src dst offset length dstIndex dstOffset =
        .ok (min length (src.flatten.length - offset),
          ((MemSliceCursor.moveCursor ⟨dst.map List.length, dstIndex, dstOffset⟩
              (min length (src.flatten.length - offset))).index,
            (MemSliceCursor.moveCursor ⟨dst.map List.length, dstIndex, dstOffset⟩
              (min length (src.flatten.length - offset))).offset), dst') ∧
      dst'.map List.length = dst.map List.length ∧
      dst'.flatten = writeAt dst.flatten (flatOffset (dst.map List.length) dstIndex dstOffset)
        ((src.flatten.drop offset).take length) := by
  have inside : dstIndex < dst.length := by
    by_contra past
    rw [List.getD_eq_default _ _ (Nat.le_of_not_lt past)] at within
    exact Nat.not_lt_zero _ within
  by_cases trivial : src = [] ∨ length = 0
  · -- nothing to copy: the destination and the position are returned as they are
    have nothing : min length (src.flatten.length - offset) = 0 := by
      rcases trivial with rfl | rfl <;> simp
    have noBytes : (src.flatten.drop offset).take length = [] := by
      rcases trivial with rfl | rfl <;> simp
    refine ⟨dst, ?_, rfl, by rw [noBytes, writeAt_nil]⟩
    rw [copyv, if_pos trivial, nothing, MemSliceCursor.moveCursor, if_pos (Or.inl rfl)]
  · have checked : ¬((src.getD 0 []).length < offset ∨ dst.length ≤ dstIndex ∨
        (dst.getD dstIndex []).length < dstOffset) := by omega
    obtain ⟨st, ran, final⟩ := copySources_writes documented nonempty length src (Copied.start within)
      start
      (Nat.zero_le _) (by rw [List.length_nil, Nat.zero_add, List.length_drop]; omega)
    rw [List.nil_append, List.length_nil, Nat.sub_zero] at final
    have copiedLength : ((src.flatten.drop offset).take length).length =
        min length (src.flatten.length - offset) := by
      rw [List.length_take, List.length_drop]
    -- the copy ends where `move_cursor` does: both stand on the byte at the same flat offset
    have moved := MemSliceCursor.moveCursor_onByte (lengths_pos nonempty)
      (show MemSliceCursor.OnByte ⟨dst.map List.length, dstIndex, dstOffset⟩ by
        refine ⟨by rwa [List.length_map], by rwa [← length_getD]⟩)
      (show flatOffset (dst.map List.length) dstIndex dstOffset +
          min length (src.flatten.length - offset) < (dst.map List.length).sum by
        rwa [← List.length_flatten])
    simp only [MemSliceCursor.position, MemSliceCursor.OnByte, MemSliceCursor.memSlice_moveCursor]
      at moved
    have ends : st.dstIndex < dst.length :=
      final.inside (by rw [copiedLength]; omega)
    have same := eq_of_flatOffset_eq (by rwa [List.length_map]) (final.within ends) moved.2.1
      moved.2.2 (by rw [final.cursor, copiedLength, moved.1])
    refine ⟨st.dst, ?_, final.lengths, final.contents⟩
    rw [copyv, if_neg trivial, if_neg checked, ran, Except.ok_bind, final.copied, copiedLength,
      same.1, same.2]
    rfl

/-- Three bytes of the sources `[1, 2]` and `[3]` into two slices of two bytes, through the
crate's `write`: the first slice is filled, the copy ends at the second byte of the second. -/
theorem copyv_writes_flat_twoSlices :
    SliceWriter.volatile.Documented ∧
    0 ≤ (([[1, 2], [3]] : List (List UInt8)).getD 0 []).length ∧
    (∀ d ∈ ([[0, 0], [0, 0]] : List (List UInt8)), d ≠ []) ∧
    (0 < (([[0, 0], [0, 0]] : List (List UInt8)).getD 0 []).length) ∧
    flatOffset (([[0, 0], [0, 0]] : List (List UInt8)).map List.length) 0 0 +
      min 3 (([[1, 2], [3]] : List (List UInt8)).flatten.length - 0) <
        ([[0, 0], [0, 0]] : List (List UInt8)).flatten.length ∧
    ∃ dst', copyv .volatile [[1, 2], [3]] [[0, 0], [0, 0]] 0 3 0 0 =
        .ok (min 3 (([[1, 2], [3]] : List (List UInt8)).flatten.length - 0),
          ((MemSliceCursor.moveCursor ⟨[[0, 0], [0, 0]].map List.length, 0, 0⟩
              (min 3 (([[1, 2], [3]] : List (List UInt8)).flatten.length - 0))).index,
            (MemSliceCursor.moveCursor ⟨[[0, 0], [0, 0]].map List.length, 0, 0⟩
              (min 3 (([[1, 2], [3]] : List (List UInt8)).flatten.length - 0))).offset), dst') ∧
      dst'.map List.length = ([[0, 0], [0, 0]] : List (List UInt8)).map List.length ∧
      dst'.flatten = writeAt ([[0, 0], [0, 0]] : List (List UInt8)).flatten
        (flatOffset (([[0, 0], [0, 0]] : List (List UInt8)).map List.length) 0 0)
        ((([[1, 2], [3]] : List (List UInt8)).flatten.drop 0).take 3) :=
  ⟨SliceWriter.volatile_documented, by decide, by decide, by decide, by decide,
    copyv_writes_flat SliceWriter.volatile_documented (by decide) (by decide) (by decide)
      (by decide)⟩

end Nydus.Storage.Utils
