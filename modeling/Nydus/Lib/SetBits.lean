import Mathlib
/-!
# The set bits of a 64-bit word

Code that visits the set bits of a word pops the lowest one at a time: `trailing_zeros` is its
index and `v & (v - 1)` clears it. A positive number is `2 ^ (t + 1) * Q + 2 ^ t` for its lowest
set bit `t` (`exists_lowBit`); on that form both operations are plain arithmetic
(`trailingZeros_eq`, `and_sub_one_eq`). `forEachSetBit` is the loop, and `forEachSetBit_eq`
says it is the fold over `setBits`, the indexes of the set bits in ascending order.
-/

namespace SetBits

/-- The indexes of the set bits of `v`, ascending. -/
def setBits (v : UInt64) : List Nat := (List.range 64).filter v.toNat.testBit

/-- `u64::trailing_zeros`: the number of low zero bits, 64 for zero. -/
def trailingZeros (v : UInt64) : Nat := v.toBitVec.ctz.toNat

theorem mem_setBits {v : UInt64} {i : Nat} : i ∈ setBits v ↔ i < 64 ∧ v.toNat.testBit i := by
  rw [setBits, List.mem_filter, List.mem_range]

theorem setBits_pairwise (v : UInt64) : (setBits v).Pairwise (· < ·) :=
  List.pairwise_lt_range.filter _

theorem setBits_zero : setBits 0 = [] := by
  rw [setBits, List.filter_eq_nil_iff]
  intro i _
  simp

/-! ## The lowest set bit -/

/-- Every positive number is `2 ^ (t + 1) * Q + 2 ^ t`, with `t` its lowest set bit. -/
theorem exists_lowBit {x : Nat} (pos : 0 < x) : ∃ t Q, x = 2 ^ (t + 1) * Q + 2 ^ t := by
  induction x using Nat.strong_induction_on with
  | _ x ih =>
    rcases Nat.mod_two_eq_zero_or_one x with even | odd
    · -- an even number has the lowest bit of its half, one place up
      obtain ⟨t, Q, half⟩ := ih (x / 2) (by omega) (by omega)
      refine ⟨t + 1, Q, ?_⟩
      rw [Nat.pow_succ 2 (t + 1), Nat.pow_succ 2 t]
      have twice : x = 2 * (x / 2) := by omega
      rw [twice, half]
      ring
    · exact ⟨0, x / 2, by omega⟩

theorem testBit_lowBit (t Q i : Nat) :
    (2 ^ (t + 1) * Q + 2 ^ t).testBit i = (decide (i = t) || decide (t < i) && Q.testBit (i - (t + 1))) := by
  have low : 2 ^ t < 2 ^ (t + 1) := Nat.pow_lt_pow_right (by decide) (by omega)
  rw [Nat.testBit_two_pow_mul_add _ low, Nat.testBit_two_pow]
  by_cases below : i < t + 1
  · rw [if_pos below]
    by_cases at_t : i = t
    · simp [at_t]
    · simp [at_t, Ne.symm at_t, show ¬t < i by omega]
  · rw [if_neg below]
    simp [show ¬i = t by omega, show t < i by omega]

/-- `x & (x - 1)` clears the lowest set bit. -/
theorem and_sub_one_eq (t Q : Nat) :
    (2 ^ (t + 1) * Q + 2 ^ t) &&& (2 ^ (t + 1) * Q + 2 ^ t - 1) = 2 ^ (t + 1) * Q := by
  have low : 2 ^ t < 2 ^ (t + 1) := Nat.pow_lt_pow_right (by decide) (by omega)
  have borrow : 2 ^ (t + 1) * Q + 2 ^ t - 1 = 2 ^ (t + 1) * Q + (2 ^ t - 1) := by
    have := Nat.one_le_two_pow (n := t)
    omega
  rw [borrow]
  apply Nat.eq_of_testBit_eq
  intro i
  rw [Nat.testBit_and, Nat.testBit_two_pow_mul_add _ low, Nat.testBit_two_pow_mul_add _ (by omega),
    Nat.testBit_two_pow_mul]
  by_cases below : i < t + 1
  · rw [if_pos below, if_pos below, Nat.testBit_two_pow, Nat.testBit_two_pow_sub_one]
    simp only [show ¬i ≥ t + 1 by omega, decide_false, Bool.false_and]
    by_cases at_t : t = i
    · simp [at_t]
    · simp [at_t]
  · rw [if_neg below, if_neg below]
    simp [show i ≥ t + 1 by omega]

/-- `trailing_zeros` of a word whose lowest set bit is `t` is `t`. -/
theorem trailingZeros_eq {v : UInt64} {t Q : Nat} (form : v.toNat = 2 ^ (t + 1) * Q + 2 ^ t) :
    trailingZeros v = t := by
  have bit : ∀ i, v.toBitVec.getLsbD i = (decide (i = t) || decide (t < i) && Q.testBit (i - (t + 1))) := by
    intro i
    rw [← BitVec.testBit_toNat, UInt64.toNat_toBitVec, form, testBit_lowBit]
  have nonzero : v.toBitVec ≠ 0#64 := by
    intro zero
    have := congrArg BitVec.toNat zero
    rw [UInt64.toNat_toBitVec, form, BitVec.toNat_zero] at this
    have := Nat.two_pow_pos t
    omega
  have atCtz := BitVec.getLsbD_true_ctz_of_ne_zero nonzero
  have belowCtz : ¬t < trailingZeros v := fun lt => by
    have := BitVec.getLsbD_false_of_lt_ctz lt
    simp [bit] at this
  rw [bit] at atCtz
  unfold trailingZeros
  by_cases at_t : v.toBitVec.ctz.toNat = t
  · exact at_t
  · simp only [at_t, decide_false, Bool.false_or, Bool.and_eq_true, decide_eq_true_eq] at atCtz
    exact absurd atCtz.1 belowCtz

theorem toNat_and_sub_one {v : UInt64} {t Q : Nat} (form : v.toNat = 2 ^ (t + 1) * Q + 2 ^ t) :
    (v &&& (v - 1)).toNat = 2 ^ (t + 1) * Q := by
  have one_le : (1 : UInt64) ≤ v := by
    rw [UInt64.le_iff_toNat_le, UInt64.toNat_one, form]
    have := Nat.one_le_two_pow (n := t)
    omega
  rw [UInt64.toNat_and, UInt64.toNat_sub_of_le _ _ one_le, UInt64.toNat_one, form]
  exact and_sub_one_eq t Q

theorem toNat_and_sub_one_lt {v : UInt64} (nonzero : v ≠ 0) : (v &&& (v - 1)).toNat < v.toNat := by
  have pos : 0 < v.toNat := by
    rcases Nat.eq_zero_or_pos v.toNat with zero | pos
    · exact absurd (UInt64.toNat_inj.mp (by rw [zero, UInt64.toNat_zero])) nonzero
    · exact pos
  obtain ⟨t, Q, form⟩ := exists_lowBit pos
  rw [toNat_and_sub_one form, form]
  exact Nat.lt_add_of_pos_right (Nat.two_pow_pos t)

/-- Popping the lowest set bit: it heads the set bits, and the rest are those of `v & (v - 1)`. -/
theorem setBits_eq_cons {v : UInt64} {t Q : Nat} (form : v.toNat = 2 ^ (t + 1) * Q + 2 ^ t) :
    setBits v = t :: setBits (v &&& (v - 1)) := by
  have inWord : t < 64 := by
    have := v.toNat_lt
    have : 2 ^ t < 2 ^ 64 := by omega
    exact (Nat.pow_lt_pow_iff_right (by decide)).mp this
  have rest : ∀ i, (v &&& (v - 1)).toNat.testBit i = (decide (t < i) && Q.testBit (i - (t + 1))) := by
    intro i
    rw [toNat_and_sub_one form, Nat.testBit_two_pow_mul]
    by_cases above : t < i
    · simp [above, show i ≥ t + 1 by omega]
    · simp [above, show ¬i ≥ t + 1 by omega]
  apply List.Pairwise.eq_of_mem_iff (setBits_pairwise v)
  · refine List.pairwise_cons.mpr ⟨fun i mem => ?_, setBits_pairwise _⟩
    rw [mem_setBits, rest, Bool.and_eq_true, decide_eq_true_eq] at mem
    exact mem.2.1
  · intro i
    rw [List.mem_cons, mem_setBits, mem_setBits, form, testBit_lowBit, rest]
    by_cases at_t : i = t
    · simp [at_t, inWord]
    · simp [at_t]

/-! ## The loop -/

/-- `while v != 0 { visit(v.trailing_zeros()); v &= v - 1 }`. -/
def forEachSetBit {σ : Type} (visit : σ → Nat → σ) (v : UInt64) (s : σ) : σ :=
  if nonzero : v = 0 then s else forEachSetBit visit (v &&& (v - 1)) (visit s (trailingZeros v))
termination_by v.toNat
decreasing_by exact toNat_and_sub_one_lt nonzero

/-- The loop visits the set bits of the word, lowest first. -/
theorem forEachSetBit_eq {σ : Type} (visit : σ → Nat → σ) (v : UInt64) (s : σ) :
    forEachSetBit visit v s = (setBits v).foldl visit s := by
  induction v, s using forEachSetBit.induct visit with
  | case1 s =>
    rw [forEachSetBit, dif_pos rfl, setBits_zero, List.foldl_nil]
  | case2 v s nonzero ih =>
    have pos : 0 < v.toNat := by
      rcases Nat.eq_zero_or_pos v.toNat with zero | pos
      · exact absurd (UInt64.toNat_inj.mp (by rw [zero, UInt64.toNat_zero])) nonzero
      · exact pos
    obtain ⟨t, Q, form⟩ := exists_lowBit pos
    rw [forEachSetBit, dif_neg nonzero, ih, setBits_eq_cons form, trailingZeros_eq form,
      List.foldl_cons]

end SetBits
