import Mathlib
import Nydus.Lib.Except
/-!
# Copying between buffer lists

`copyv` (`storage/src/utils.rs`) copies `length` bytes of a list of source buffers, from
`offset` in the first, into a list of destination slices, from slice `dst_index` at
`dst_offset`, and returns the bytes copied and where the copy ended. `MemSliceCursor` walks the
same kind of slice list: `move_cursor` moves its position forward, `consume` takes the pieces
of the slices that a number of bytes covers.

The destination slices are the `FileVolatileSlice`s of a FUSE request, written through
vm-memory's `VolatileSlice::write`. That crate is not part of the repository: the write is a
parameter (`SliceWriter`), of which the results assume what its documentation says
(`SliceWriter.Documented`: a write inside the slice copies what fits and returns how much);
the crate's own `write` satisfies it (`SliceWriter.volatile_documented`).

Whatever the write, a copy that succeeds has copied `length` bytes of the sources from
`offset`, or all of them if there are fewer (`copyv_copied`). But `copyv` goes on through the
remaining sources after the request is met, with empty buffers, and checks for an exhausted
destination before each write: when the request fills the destination exactly and another
source follows, it fails with `MemOverflow` although every byte was copied
(`copyv_overflow_after_exact_fill`).
-/

namespace Nydus.Storage.Utils

/-- The errors `copyv` returns, and the panic of its slice index. -/
inductive CopyError where
  /-- `StorageError::MemOverflow`. -/
  | memOverflow
  /-- `StorageError::VolatileSlice(Error::OutOfBounds { addr })`. -/
  | volatileSlice (addr : Nat)
  /-- `&s[src_offset..src_offset + buffer_len]` past the end of `s`. -/
  | indexPanic
deriving DecidableEq, Repr

/-- vm-memory's `VolatileSlice::write(buf, addr)` on the bytes of a slice: the bytes written
and the slice after. The crate is not part of the repository; what the development assumes of
a write is that it writes at most the buffer (`bounded`) and, when it succeeds on a non-empty
buffer, at least one byte (`progress`), without which the inner loop of `copyv` would not end;
the results about `copyv` add the documented behaviour (`SliceWriter.Documented`). -/
structure SliceWriter where
  write : List UInt8 → List UInt8 → Nat → Except CopyError (Nat × List UInt8)
  bounded : ∀ {slice buf addr written slice'},
    write slice buf addr = .ok (written, slice') → written ≤ buf.length
  progress : ∀ {slice buf addr written slice'}, buf ≠ [] →
    write slice buf addr = .ok (written, slice') → 0 < written

/-- The documented behaviour of `write`: at an address inside the slice it writes as much of
the buffer as fits there, and returns how much that is. -/
structure SliceWriter.Documented (w : SliceWriter) : Prop where
  write_inside : ∀ slice buf addr, addr < slice.length →
    w.write slice buf addr =
      .ok (min buf.length (slice.length - addr),
        slice.take addr ++ buf.take (min buf.length (slice.length - addr)) ++
          slice.drop (addr + min buf.length (slice.length - addr)))

/-- The crate's `write`: an empty buffer writes nothing, a write at or past the end of the
slice fails with `OutOfBounds`, any other write copies what fits. -/
def volatileWrite (slice buf : List UInt8) (addr : Nat) : Except CopyError (Nat × List UInt8) :=
  if buf = [] then .ok (0, slice)
  else if slice.length ≤ addr then .error (.volatileSlice addr)
  else
    let total := min buf.length (slice.length - addr)
    .ok (total, slice.take addr ++ buf.take total ++ slice.drop (addr + total))

/-- The crate's `write` as a writer, with the documented behaviour. -/
def SliceWriter.volatile : SliceWriter where
  write := volatileWrite
  bounded {slice buf addr written slice'} wrote := by
    unfold volatileWrite at wrote
    split at wrote
    · cases wrote
      exact Nat.zero_le _
    · split at wrote
      · cases wrote
      · cases wrote
        exact Nat.min_le_left _ _
  progress {slice buf addr written slice'} nonempty wrote := by
    unfold volatileWrite at wrote
    rw [if_neg nonempty] at wrote
    split at wrote
    · cases wrote
    · cases wrote
      have : 0 < buf.length := List.length_pos_iff.mpr nonempty
      omega

theorem SliceWriter.volatile_documented : SliceWriter.volatile.Documented where
  write_inside slice buf addr inside := by
    show volatileWrite slice buf addr = _
    unfold volatileWrite
    by_cases empty : buf = []
    · subst empty
      simp
    · rw [if_neg empty, if_neg (by omega)]

/-! ## `copyv` -/

/-- The locals `copyv` carries across its loops, with the destination slices' bytes. -/
structure CopyState where
  dst : List (List UInt8)
  copied : Nat
  dstIndex : Nat
  dstOffset : Nat
deriving DecidableEq, Repr

/-- A write of a source's part that falls short of the part wrote something: the buffer is the
whole part, so it was not empty. This is what makes the inner loop of `copyv` end. -/
theorem SliceWriter.short_write (w : SliceWriter) {slice s slice' : List UInt8}
    {srcOffset bufferLen addr written : Nat} (inBounds : ¬ s.length < srcOffset + bufferLen)
    (wrote : w.write slice ((s.drop srcOffset).take bufferLen) addr = .ok (written, slice'))
    (short : written ≠ bufferLen) : 0 < written ∧ written < bufferLen := by
  have whole : ((s.drop srcOffset).take bufferLen).length = bufferLen := by
    simp only [List.length_take, List.length_drop]
    omega
  have below : written < bufferLen := by
    have := w.bounded wrote
    omega
  have nonempty : (s.drop srcOffset).take bufferLen ≠ [] := fun empty => by
    rw [empty, List.length_nil] at whole
    omega
  exact ⟨w.progress nonempty wrote, below⟩

-- `inBounds`, `wrote` and `done` are read by `decreasing_by` only, which the linter misses.
set_option linter.unusedVariables false in
/-- The inner `loop` of `copyv` for the source `s`: write what is left of its part, `bufferLen`
bytes from `srcOffset`, into the destination slice at the cursor, until it is all written. -/
def copyLoop (w : SliceWriter) (s : List UInt8) (srcOffset bufferLen : Nat) (st : CopyState) :
    Except CopyError CopyState :=
  if st.dst.length ≤ st.dstIndex then .error .memOverflow
  else if inBounds : s.length < srcOffset + bufferLen then .error .indexPanic
  else
    let dstSlice := st.dst.getD st.dstIndex []
    let buffer := (s.drop srcOffset).take bufferLen
    match wrote : w.write dstSlice buffer st.dstOffset with
    | .error e => .error e
    | .ok (written, slice') =>
      let copied := st.copied + written
      let st' : CopyState :=
        if dstSlice.length - st.dstOffset = written then
          ⟨st.dst.set st.dstIndex slice', copied, st.dstIndex + 1, 0⟩
        else ⟨st.dst.set st.dstIndex slice', copied, st.dstIndex, st.dstOffset + written⟩
      -- the source's part is written: `continue 'next_source`
      if done : written = bufferLen then .ok st'
      else copyLoop w s (srcOffset + written) (bufferLen - written) st'
termination_by bufferLen
decreasing_by
  have := w.short_write inBounds wrote done
  omega

/-- The `'next_source` loop: each source's part is what is left of it, from `srcOffset` in
the first and from its start in the others, cut to what is left of the request. -/
def copySources (w : SliceWriter) (length : Nat) :
    List (List UInt8) → Nat → CopyState → Except CopyError CopyState
  | [], _, st => .ok st
  | s :: rest, srcOffset, st => do
    let bufferLen := min (s.length - srcOffset) (length - st.copied)
    let st ← copyLoop w s srcOffset bufferLen st
    copySources w length rest 0 st

/-- `copyv`: the bytes copied, the destination position where the copy ended, and the
destination slices after it. -/
def copyv (w : SliceWriter) (src dst : List (List UInt8)) (offset length dstIndex dstOffset : Nat) :
    Except CopyError (Nat × (Nat × Nat) × List (List UInt8)) :=
  if src = [] ∨ length = 0 then .ok (0, (dstIndex, dstOffset), dst)
  else if (src.getD 0 []).length < offset ∨ dst.length ≤ dstIndex ∨
      (dst.getD dstIndex []).length < dstOffset then .error .memOverflow
  else do
    let st ← copySources w length src offset ⟨dst, 0, dstIndex, dstOffset⟩
    return (st.copied, (st.dstIndex, st.dstOffset), st.dst)

/-! ## `MemSliceCursor` -/

/-- A position in a list of slices, with the lengths of the slices. -/
structure MemSliceCursor where
  memSlice : List Nat
  index : Nat
  offset : Nat
deriving DecidableEq, Repr

namespace MemSliceCursor

/-- `move_cursor`: forward by `size` bytes; a slice filled exactly leaves the cursor at the
start of the next. -/
def moveCursor (c : MemSliceCursor) (size : Nat) : MemSliceCursor :=
  if size = 0 ∨ c.memSlice.length ≤ c.index then c
  else
    let thisLeft := c.memSlice.getD c.index 0 - c.offset
    match compare thisLeft size with
    | .eq => { c with index := c.index + 1, offset := 0 }
    | .gt => { c with offset := c.offset + size }
    | .lt => moveCursor { c with index := c.index + 1, offset := 0 } (size - thisLeft)
termination_by c.memSlice.length - c.index

/-- `consume`: the pieces `(index, offset, len)` of the slices that the next `size` bytes
cover, and the cursor moved past them. -/
def consume (c : MemSliceCursor) (size : Nat) : List (Nat × Nat × Nat) × MemSliceCursor :=
  if size = 0 ∨ c.memSlice.length ≤ c.index then ([], c)
  else
    let thisLeft := c.memSlice.getD c.index 0 - c.offset
    match compare thisLeft size with
    | .gt => ([(c.index, c.offset, size)], { c with offset := c.offset + size })
    | .eq => ([(c.index, c.offset, size)], { c with index := c.index + 1, offset := 0 })
    | .lt =>
      let rest := consume { c with index := c.index + 1, offset := 0 } (size - thisLeft)
      ((c.index, c.offset, thisLeft) :: rest.1, rest.2)
termination_by c.memSlice.length - c.index

end MemSliceCursor

/-! ## The bytes a copy counts -/

section Counts

variable {w : SliceWriter}

/-- The inner loop, when it ends well, has copied the whole part. The induction follows the
loop's own recursion, on the bytes left of the part. -/
theorem copyLoop_copied (s : List UInt8) (bufferLen : Nat) :
    ∀ {srcOffset : Nat} {st st' : CopyState}, copyLoop w s srcOffset bufferLen st = .ok st' →
      st'.copied = st.copied + bufferLen := by
  induction bufferLen using Nat.strong_induction_on with
  | _ bufferLen ih =>
    intro srcOffset st st' ok
    rw [copyLoop] at ok
    split at ok
    · cases ok
    · split at ok
      · cases ok
      · next inBounds =>
        dsimp only at ok
        split at ok
        · cases ok
        · next written slice' wrote =>
          -- Either way the destination cursor moves, `copied` grows by `written`.
          have grown : ∀ full : Prop, [Decidable full] →
              (if full then (⟨st.dst.set st.dstIndex slice', st.copied + written, st.dstIndex + 1, 0⟩ :
                CopyState) else ⟨st.dst.set st.dstIndex slice', st.copied + written, st.dstIndex,
                  st.dstOffset + written⟩).copied = st.copied + written := by
            intro full _
            split <;> rfl
          split at ok
          · next done =>
            cases ok
            rw [grown, done]
          · next done =>
            have shorter := w.short_write inBounds wrote done
            rw [ih (bufferLen - written) (by omega) ok, grown]
            omega

/-- The outer loop, when it ends well, has copied what was left of the request or of the
sources, whichever is less. The induction is on the sources. -/
theorem copySources_copied (length : Nat) :
    ∀ {srcs : List (List UInt8)} {srcOffset : Nat} {st st' : CopyState},
      st.copied ≤ length → copySources w length srcs srcOffset st = .ok st' →
      st'.copied = min length (st.copied + ((srcs.getD 0 []).length - srcOffset) +
        ((srcs.drop 1).map List.length).sum)
  | [], _, st, st', within, ok => by
    cases ok
    simp only [List.getD_nil, List.length_nil, Nat.zero_sub, Nat.add_zero, List.drop_nil,
      List.map_nil, List.sum_nil]
    omega
  | s :: rest, srcOffset, st, st', within, ok => by
    obtain ⟨mid, first, later⟩ := Except.bind_eq_ok.mp ok
    have part := copyLoop_copied s _ first
    rw [copySources_copied length (by omega) later, part]
    cases rest with
    | nil => simp; omega
    | cons next rest => simp; omega

/-- `copyv`, when it succeeds, has copied `length` bytes of the sources from `offset` in the
first, or all of them if there are fewer. -/
theorem copyv_copied {src dst dst' : List (List UInt8)} {offset length dstIndex dstOffset n : Nat}
    {pos : Nat × Nat} (ok : copyv w src dst offset length dstIndex dstOffset = .ok (n, pos, dst')) :
    n = min length ((src.map List.length).sum - offset) := by
  unfold copyv at ok
  split at ok
  · next trivial =>
    cases ok
    rcases trivial with rfl | rfl <;> simp
  · next nontrivial =>
    split at ok
    · cases ok
    · next inside =>
      obtain ⟨st, copied, result⟩ := Except.bind_eq_ok.mp ok
      cases result
      obtain ⟨s, rest, rfl⟩ := List.exists_cons_of_ne_nil fun empty => nontrivial (.inl empty)
      have fits : offset ≤ s.length := by simp at inside; omega
      rw [copySources_copied length (Nat.zero_le _) copied]
      simp
      omega

/-- Three bytes of two sources into one slice with room for four. -/
theorem copyv_copied_twoSources :
    copyv .volatile [[1, 2], [3]] [[0, 0, 0, 0]] 0 3 0 0 = .ok (3, (0, 3), [[1, 2, 3, 0]]) ∧
      3 = min 3 ((([[1, 2], [3]] : List (List UInt8)).map List.length).sum - 0) :=
  have ran : copyv .volatile [[1, 2], [3]] [[0, 0, 0, 0]] 0 3 0 0 = .ok (3, (0, 3), [[1, 2, 3, 0]]) := by
    decide +kernel
  ⟨ran, copyv_copied ran⟩

end Counts

/-! ## A request that fills the destination exactly -/

/-- Two bytes asked of the sources `[1, 2]` and `[3]`, into one two-byte slice: the first
source meets the request and fills the slice, which `move_cursor` counts as the start of the
next slice; the empty part of the second source then finds the destination exhausted. -/
theorem copyv_overflow_after_exact_fill (w : SliceWriter) (documented : w.Documented) :
    copyv w [[1, 2], [3]] [[0, 0]] 0 2 0 0 = .error .memOverflow ∧
    2 ≤ ([[1, 2], [3]] : List (List UInt8)).flatten.length ∧
    2 ≤ ([[0, 0]] : List (List UInt8)).flatten.length ∧
    (MemSliceCursor.moveCursor ⟨[2], 0, 0⟩ 2) = ⟨[2], 1, 0⟩ := by
  have first : copyLoop w [1, 2] 0 2 ⟨[[0, 0]], 0, 0, 0⟩ = .ok ⟨[[1, 2]], 2, 1, 0⟩ := by
    have write : w.write [0, 0] [1, 2] 0 = .ok (2, [1, 2]) :=
      documented.write_inside [0, 0] [1, 2] 0 (by decide)
    rw [copyLoop, if_neg (by decide), dif_neg (by decide)]
    dsimp only
    split
    · next wrote => simp [write] at wrote
    · next written slice' wrote =>
      simp [write] at wrote
      obtain ⟨rfl, rfl⟩ := wrote
      rfl
  have second : copyLoop w [3] 0 0 ⟨[[1, 2]], 2, 1, 0⟩ = .error .memOverflow := by
    rw [copyLoop]
    simp
  refine ⟨?_, by decide, by decide, ?_⟩
  · simp [copyv, copySources, first, second]
  · rw [MemSliceCursor.moveCursor]
    simp

/-- The crate's own `write` fails the same request. -/
theorem copyv_overflow_after_exact_fill_volatile : SliceWriter.volatile.Documented ∧
    copyv .volatile [[1, 2], [3]] [[0, 0]] 0 2 0 0 = .error .memOverflow :=
  ⟨SliceWriter.volatile_documented,
    (copyv_overflow_after_exact_fill _ SliceWriter.volatile_documented).1⟩

end Nydus.Storage.Utils
