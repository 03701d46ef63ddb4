import Mathlib

/-!
# A range cut into blocks

A range `[lo, hi)` of a space cut into blocks of `size` units meets the blocks from
`lo / size` to `(hi - 1) / size`, and covers one part of each: an offset into the block and a
length. Placed back at their blocks, the parts follow one another from `lo` to `hi` with no
gap, no overlap and none empty (`cut_tiles`), so their lengths add up to `hi - lo`.
-/

namespace Blocks

/-- `Tiles extents lo hi`: the extents `(start, length)` follow one another from `lo` to `hi`,
none of them empty. -/
inductive Tiles : List (Nat × Nat) → Nat → Nat → Prop
  | nil (lo : Nat) : Tiles [] lo lo
  | cons {start length hi : Nat} {rest : List (Nat × Nat)} :
      0 < length → Tiles rest (start + length) hi → Tiles ((start, length) :: rest) start hi

theorem Tiles.le {extents : List (Nat × Nat)} {lo hi : Nat} (tiles : Tiles extents lo hi) :
    lo ≤ hi := by
  induction tiles with
  | nil => exact le_rfl
  | cons _ _ ih => omega

/-- The lengths of a tiling add up to the length of the range. -/
theorem Tiles.sum_length {extents : List (Nat × Nat)} {lo hi : Nat} (tiles : Tiles extents lo hi) :
    (extents.map Prod.snd).sum = hi - lo := by
  induction tiles with
  | nil => simp
  | cons _ rest ih =>
    have := rest.le
    rw [List.map_cons, List.sum_cons, ih]
    omega

/-- The part of block `j` that `[lo, hi)` covers: its offset in the block, and its length. -/
def part (size lo hi j : Nat) : Nat × Nat :=
  (max lo (j * size) - j * size, min hi ((j + 1) * size) - max lo (j * size))

/-- The blocks `[lo, hi)` meets, each with its part. -/
def cut (size lo hi : Nat) : List (Nat × Nat × Nat) :=
  (List.range' (lo / size) ((hi - 1) / size + 1 - lo / size)).map fun j => (j, part size lo hi j)

/-- The parts of the blocks the range meets before block `j`. -/
def cutBefore (size lo hi j : Nat) : List (Nat × Nat × Nat) :=
  (List.range' (lo / size) (j - lo / size)).map fun k => (k, part size lo hi k)

theorem cut_eq_cutBefore (size lo hi : Nat) :
    cut size lo hi = cutBefore size lo hi ((hi - 1) / size + 1) := rfl

/-- A part placed back at its block. -/
def extent (size : Nat) (p : Nat × Nat × Nat) : Nat × Nat := (p.1 * size + p.2.1, p.2.2)

section

variable {size lo hi : Nat}

/-- The first block the range meets starts at or before `lo` and ends after it. -/
theorem first_block (lo : Nat) (pos : 0 < size) : lo / size * size ≤ lo ∧ lo < (lo / size + 1) * size := by
  constructor
  · exact Nat.div_mul_le_self lo size
  · rw [add_one_mul]
    exact Nat.lt_div_mul_add pos

/-- A block up to the last one the range meets starts before `hi`. -/
theorem block_lt_of_le_last (pos : 0 < size) (lt : lo < hi) {j : Nat} (last : j ≤ (hi - 1) / size) :
    j * size < hi := by
  have : j * size ≤ hi - 1 := (Nat.le_div_iff_mul_le pos).mp last
  omega

/-- A block past the last one the range meets starts at or after `hi`. -/
theorem le_block_of_last_lt (pos : 0 < size) {j : Nat} (past : (hi - 1) / size < j) :
    hi ≤ j * size := by
  have : (hi - 1) / size < j := past
  have := (Nat.div_lt_iff_lt_mul pos).mp this
  omega

/-- The parts of the blocks from `j` on tile the range from where block `j` meets it.
The induction is on the number of blocks left; the start `max lo (j * size)` of each part
is the end of the one before. -/
theorem tiles_from (pos : 0 < size) (lt : lo < hi) :
    ∀ n j, lo / size ≤ j → j + n = (hi - 1) / size + 1 →
      Tiles ((List.range' j n).map fun k => extent size (k, part size lo hi k))
        (min hi (max lo (j * size))) hi := by
  intro n
  induction n with
  | zero =>
    intro j _ ends
    have past : hi ≤ j * size := le_block_of_last_lt pos (by omega)
    have : min hi (max lo (j * size)) = hi := by omega
    rw [this]
    exact .nil hi
  | succ n ih =>
    intro j first ends
    have before : j * size < hi := block_lt_of_le_last pos lt (by omega)
    have after : lo < (j + 1) * size := by
      have := (first_block lo pos).2
      have : (lo / size + 1) * size ≤ (j + 1) * size := Nat.mul_le_mul_right size (by omega)
      omega
    have next : (j + 1) * size = j * size + size := add_one_mul j size
    rw [List.range'_succ, List.map_cons]
    have start : min hi (max lo (j * size)) = j * size + (part size lo hi j).1 := by
      simp only [part]
      omega
    rw [start]
    refine .cons ?_ ?_
    · simp only [part]
      omega
    · have : j * size + (part size lo hi j).1 + (part size lo hi j).2 =
          min hi (max lo ((j + 1) * size)) := by
        simp only [part]
        omega
      rw [this]
      exact ih (j + 1) (by omega) (by omega)

/-- The parts of the blocks a non-empty range meets tile it. -/
theorem cut_tiles (pos : 0 < size) (lt : lo < hi) :
    Tiles ((cut size lo hi).map (extent size)) lo hi := by
  have start : min hi (max lo (lo / size * size)) = lo := by
    have := (first_block lo pos).1
    omega
  have first : lo / size ≤ (hi - 1) / size := Nat.div_le_div_right (by omega)
  have tiles := tiles_from pos lt ((hi - 1) / size + 1 - lo / size) (lo / size) le_rfl (by omega)
  rw [start] at tiles
  simpa [cut, List.map_map, Function.comp_def] using tiles

/-- The lengths of the parts add up to the length of the range. -/
theorem sum_cut (pos : 0 < size) (lt : lo < hi) :
    ((cut size lo hi).map fun p => p.2.2).sum = hi - lo := by
  have := (cut_tiles pos lt).sum_length
  rwa [List.map_map] at this

/-- The parts before a block after the first are those before the previous one, then its own. -/
theorem cutBefore_succ {j : Nat} (first : lo / size ≤ j) :
    cutBefore size lo hi (j + 1) = cutBefore size lo hi j ++ [(j, part size lo hi j)] := by
  have count : j + 1 - lo / size = (j - lo / size) + 1 := by omega
  have last : lo / size + 1 * (j - lo / size) = j := by omega
  rw [cutBefore, cutBefore, count, List.range'_concat, last, List.map_append, List.map_singleton]

/-- The parts before a block are some of the parts, so their lengths add up to at most the
length of the range. -/
theorem sum_cutBefore_le (pos : 0 < size) (lt : lo < hi) {j : Nat} (first : lo / size ≤ j)
    (last : j ≤ (hi - 1) / size + 1) :
    ((cutBefore size lo hi j).map fun p => p.2.2).sum ≤ hi - lo := by
  have whole : List.range' (lo / size) (j - lo / size) ++
      List.range' (lo / size + 1 * (j - lo / size)) ((hi - 1) / size + 1 - j) =
      List.range' (lo / size) ((hi - 1) / size + 1 - lo / size) := by
    rw [List.range'_append]
    congr 1
    omega
  have := sum_cut pos lt
  rw [cut, ← whole, List.map_append, List.map_append, List.sum_append] at this
  rw [cutBefore]
  omega

/-- The block a range ends in is the last it meets. -/
theorem last_eq (pos : 0 < size) {j : Nat} (before : j * size < hi) (ends : hi ≤ (j + 1) * size) :
    (hi - 1) / size = j := by
  have low : j * size ≤ hi - 1 := by omega
  have high : hi - 1 < j * size + size := by rw [← add_one_mul]; omega
  rw [Nat.div_eq_iff pos]
  exact ⟨low, by omega⟩

/-- The first part starts where the range does, within its block. -/
theorem part_first (pos : 0 < size) :
    part size lo hi (lo / size) = (lo % size, min hi ((lo / size + 1) * size) - lo) := by
  have := (first_block lo pos).1
  have split := Nat.div_add_mod lo size
  have : lo / size * size = size * (lo / size) := Nat.mul_comm _ _
  simp only [part, Prod.mk.injEq]
  omega

/-- A part after the first starts at its block's start. -/
theorem part_of_lt (pos : 0 < size) {j : Nat} (after : lo / size < j) :
    part size lo hi j = (0, min hi ((j + 1) * size) - j * size) := by
  have : (lo / size + 1) * size ≤ j * size := Nat.mul_le_mul_right size after
  have := (first_block lo pos).2
  simp only [part, Prod.mk.injEq]
  omega

example : cut 4 3 9 = [(0, 3, 1), (1, 0, 4), (2, 0, 1)] := by decide

end

end Blocks
