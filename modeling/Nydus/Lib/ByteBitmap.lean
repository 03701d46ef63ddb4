import Mathlib

/-!
# Bitmaps stored in bytes, most significant bit first

Bit `i` of a bitmap is bit `7 - i % 8` of byte `i / 8`. Setting a bit changes no other
bit, and takes one from the count of clear bits below any bound past it. The ones of the
bytes, counted byte by byte, are the set bits of the whole bitmap; below a bound `n` with
no set bit past it, they are the set bits below `n`.
-/

namespace ByteBitmap

/-- Whether bit `i` is set. Bits past the end are clear. -/
def test (bytes : List UInt8) (i : Nat) : Bool :=
  match bytes[i / 8]? with
  | some b => b.toNat.testBit (7 - i % 8)
  | none => false

/-- The bitmap with bit `i` set. -/
def set (bytes : List UInt8) (i : Nat) : List UInt8 :=
  bytes.modify (i / 8) fun b => b ||| (2 ^ (7 - i % 8) : Nat).toUInt8

/-- The number of clear bits below `n`. -/
def clearCount (bytes : List UInt8) (n : Nat) : Nat :=
  (List.range n).countP fun i => !test bytes i

/-- The number of ones of a byte, `u8::count_ones`. -/
def countOnes (b : UInt8) : Nat := (List.range 8).countP b.toNat.testBit

/-! ## Setting a bit -/

theorem length_set (bytes : List UInt8) (i : Nat) : (set bytes i).length = bytes.length := by
  simp [set]

/-- The mask of a bit fits in its byte. -/
theorem bitMask_mod (i : Nat) : 2 ^ (7 - i % 8) % 2 ^ 8 = 2 ^ (7 - i % 8) := by
  have small : 2 ^ (7 - i % 8) < 2 ^ 8 := Nat.pow_lt_pow_right (by decide) (by omega)
  exact Nat.mod_eq_of_lt small

/-- Bits of one byte are at the same position only when they are the same bit. -/
theorem index_eq_of_pos_eq {i j : Nat} (byte : i / 8 = j / 8) (pos : 7 - i % 8 = 7 - j % 8) :
    i = j := by
  have lt₁ : i % 8 < 8 := Nat.mod_lt _ (by decide)
  have lt₂ : j % 8 < 8 := Nat.mod_lt _ (by decide)
  have := Nat.div_add_mod i 8
  have := Nat.div_add_mod j 8
  omega

/-- Setting bit `i` sets it and changes no other bit. -/
theorem test_set {bytes : List UInt8} {i : Nat} (inRange : i / 8 < bytes.length) (j : Nat) :
    test (set bytes i) j = (test bytes j || decide (j = i)) := by
  unfold test set
  rw [List.getElem?_modify]
  by_cases byte : i / 8 = j / 8
  · obtain ⟨b, found⟩ : ∃ b, bytes[j / 8]? = some b :=
      ⟨bytes[i / 8], by rw [← byte, List.getElem?_eq_getElem inRange]⟩
    simp only [found, byte, Option.map_eq_map, Option.map_some, if_true, UInt8.toNat_or,
      Nat.toUInt8, Nat.testBit_or]
    rw [UInt8.toNat_ofNat', bitMask_mod, Nat.testBit_two_pow]
    by_cases same : j = i
    · subst same
      simp
    · have differ : 7 - i % 8 ≠ 7 - j % 8 := fun pos => same (index_eq_of_pos_eq byte pos).symm
      simp [differ, same]
  · have differ : j ≠ i := fun same => byte (by rw [same])
    cases bytes[j / 8]? with
    | none => simp [differ]
    | some b => simp [byte, differ]

/-! ## Counting -/

/-- Setting a clear bit below `n` takes one from the clear bits below `n`. -/
theorem clearCount_set {bytes : List UInt8} {i : Nat} (inRange : i / 8 < bytes.length)
    (clear : test bytes i = false) : ∀ {n : Nat}, i < n →
    clearCount (set bytes i) n + 1 = clearCount bytes n := by
  intro n
  induction n with
  | zero => intro lt; omega
  | succ n ih =>
    intro lt
    simp only [clearCount, List.range_succ, List.countP_append] at ih ⊢
    by_cases last : i = n
    · subst last
      -- below `i` nothing changes; bit `i` itself goes from clear to set
      have same : (List.range i).countP (fun j => !test (set bytes i) j) =
          (List.range i).countP (fun j => !test bytes j) := by
        apply List.countP_congr
        intro j mem
        have ne : j ≠ i := Nat.ne_of_lt (List.mem_range.mp mem)
        simp [test_set inRange, ne]
      have atI : test (set bytes i) i = true := by simp [test_set inRange]
      rw [same]
      simp [atI, clear]
    · have below := ih (by omega)
      have unchanged : test (set bytes i) n = test bytes n := by
        simp [test_set inRange, Ne.symm last]
      simp only [List.countP_cons, List.countP_nil, unchanged]
      omega

/-- The bits of `b :: bytes` past the first byte are those of `bytes`. -/
theorem test_cons_add (b : UInt8) (bytes : List UInt8) (j : Nat) :
    test (b :: bytes) (8 + j) = test bytes j := by
  have div : (8 + j) / 8 = j / 8 + 1 := by omega
  have mod : (8 + j) % 8 = j % 8 := by omega
  simp [test, div, mod]

/-- The first byte's ones are the set bits among the first eight. -/
theorem countP_range_eight (b : UInt8) (bytes : List UInt8) :
    (List.range 8).countP (test (b :: bytes)) = countOnes b := by
  have first : ∀ p ∈ List.range 8, test (b :: bytes) p = b.toNat.testBit (7 - p) := by
    intro p mem
    have lt := List.mem_range.mp mem
    simp [test, Nat.div_eq_of_lt lt, Nat.mod_eq_of_lt lt]
  rw [List.countP_congr (fun p mem => by rw [first p mem]), countOnes]
  -- `7 - p` runs over the same eight positions
  have perm : ((List.range 8).map fun p => 7 - p).Perm (List.range 8) := by decide
  rw [← perm.countP_eq, List.countP_map]
  rfl

/-- The ones of the bytes are the set bits of the bitmap. -/
theorem sum_countOnes (bytes : List UInt8) :
    (bytes.map countOnes).sum = (List.range (8 * bytes.length)).countP (test bytes) := by
  induction bytes with
  | nil => rfl
  | cons b bytes ih =>
    have split : 8 * (b :: bytes).length = 8 + 8 * bytes.length := by
      rw [List.length_cons]
      omega
    rw [split, List.range_add, List.countP_append, List.countP_map, countP_range_eight,
      List.map_cons, List.sum_cons, ih]
    congr 1
    exact List.countP_congr fun j _ => by simp [Function.comp, test_cons_add]

/-- With no set bit from `n` on, the set bits of the bitmap are those below `n`. -/
theorem countP_test_of_clear_above {bytes : List UInt8} {n : Nat} (le : n ≤ 8 * bytes.length)
    (above : ∀ i, n ≤ i → i < 8 * bytes.length → test bytes i = false) :
    (List.range (8 * bytes.length)).countP (test bytes) = (List.range n).countP (test bytes) := by
  obtain ⟨k, hk⟩ := Nat.exists_eq_add_of_le le
  rw [hk, List.range_add, List.countP_append, List.countP_map]
  have none : (List.range k).countP (test bytes ∘ fun j => n + j) = 0 := by
    rw [List.countP_eq_zero]
    intro j mem
    have lt := List.mem_range.mp mem
    simpa using above (n + j) (by omega) (by omega)
  rw [none, Nat.add_zero]

/-- Clear and set bits below `n` are `n` bits. -/
theorem clearCount_add_countP (bytes : List UInt8) (n : Nat) :
    clearCount bytes n + (List.range n).countP (test bytes) = n := by
  have total : (List.range n).length = _ := List.length_eq_countP_add_countP (test bytes)
  rw [List.length_range] at total
  simp only [clearCount]
  have flip : (List.range n).countP (fun i => !test bytes i) =
      (List.range n).countP (fun i => ¬ test bytes i) := by
    apply List.countP_congr
    intro i _
    simp
  omega

/-- No clear bit below `n` means every bit below `n` is set. -/
theorem test_of_clearCount_eq_zero {bytes : List UInt8} {n : Nat} (zero : clearCount bytes n = 0)
    {i : Nat} (lt : i < n) : test bytes i = true := by
  rw [clearCount, List.countP_eq_zero] at zero
  simpa using zero i (List.mem_range.mpr lt)

end ByteBitmap
