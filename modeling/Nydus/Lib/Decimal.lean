import Mathlib

/-!
# Decimal numbers in ASCII

`decimal n` is the ASCII rendering of `n` in decimal, most significant digit first: the
digits of Lean's `Nat.toDigits 10`, which are those of Rust's `to_string`. It satisfies the
recursion on the last digit (`decimal_eq`), its width is `Nat.log 10 n + 1`
(`length_decimal`), and `digitsValue` reads it back (`digitsValue_decimal`).

The width of a number moves slowly: a number plus its own width crosses at most one power
of ten (`log_add_width_le`), and when it does cross one, one more step stays below the
next (`log_succ_add_width`). Self-describing lengths rest on these two facts.
-/

namespace Decimal

/-! ## The rendering -/

/-- The ASCII digits of `n`, most significant first. -/
def decimal (n : Nat) : List UInt8 := (Nat.toDigits 10 n).map fun c => UInt8.ofNat c.toNat

/-- The ASCII byte of the digit `d`. -/
def digitByte (d : Nat) : UInt8 := UInt8.ofNat (0x30 + d)

theorem toDigitsCore_append : ∀ (fuel n : Nat) (ds : List Char),
    Nat.toDigitsCore 10 fuel n ds = Nat.toDigitsCore 10 fuel n [] ++ ds
  | 0, _, _ => rfl
  | fuel + 1, n, ds => by
    simp only [Nat.toDigitsCore]
    split
    · rfl
    · rw [toDigitsCore_append fuel (n / 10) (_ :: ds),
        toDigitsCore_append fuel (n / 10) [Nat.digitChar (n % 10)], List.append_assoc]
      rfl

/-- Fuel beyond the number changes nothing. -/
theorem toDigitsCore_fuel : ∀ (fuel fuel' n : Nat), n < fuel → n < fuel' →
    Nat.toDigitsCore 10 fuel n [] = Nat.toDigitsCore 10 fuel' n []
  | 0, _, _, lt, _ => absurd lt (Nat.not_lt_zero _)
  | _, 0, _, _, lt' => absurd lt' (Nat.not_lt_zero _)
  | fuel + 1, fuel' + 1, n, lt, lt' => by
    simp only [Nat.toDigitsCore]
    split
    · rfl
    · next more =>
      rw [toDigitsCore_append fuel, toDigitsCore_append fuel',
        toDigitsCore_fuel fuel fuel' (n / 10) (by omega) (by omega)]

/-- The digits of `n` are those of `n / 10` followed by the last one. -/
theorem toDigits_eq (n : Nat) :
    Nat.toDigits 10 n = (if n < 10 then [] else Nat.toDigits 10 (n / 10)) ++ [Nat.digitChar (n % 10)] := by
  show Nat.toDigitsCore 10 (n + 1) n [] = _
  rw [Nat.toDigitsCore]
  split
  · next small =>
    rw [if_pos (by omega)]
    rfl
  · next large =>
    rw [if_neg (by omega), toDigitsCore_append, toDigitsCore_fuel n (n / 10 + 1) (n / 10) (by omega) (by omega)]
    rfl

theorem toNat_digitChar {d : Nat} (lt : d < 10) : (Nat.digitChar d).toNat = 0x30 + d := by
  interval_cases d <;> rfl

theorem decimal_eq (n : Nat) :
    decimal n = (if n < 10 then [] else decimal (n / 10)) ++ [digitByte (n % 10)] := by
  rw [decimal, toDigits_eq, List.map_append, List.map_singleton, toNat_digitChar (Nat.mod_lt _ (by decide))]
  split <;> rfl

/-! ## The width -/

theorem length_decimal (n : Nat) : (decimal n).length = Nat.log 10 n + 1 := by
  induction n using Nat.strong_induction_on with
  | _ n ih =>
    rw [decimal_eq, List.length_append, List.length_singleton]
    split
    · next small => rw [Nat.log_of_lt small]; rfl
    · next large =>
      have positive : 0 < Nat.log 10 n := Nat.log_pos (by decide) (by omega)
      rw [ih (n / 10) (by omega), Nat.log_div_base]
      omega

/-- Adding its width to a number crosses at most one power of ten. -/
theorem log_add_width_le (n : Nat) : Nat.log 10 (n + (Nat.log 10 n + 1)) ≤ Nat.log 10 n + 1 := by
  have below := Nat.lt_pow_succ_log_self (by decide : 1 < 10) n
  have small := Nat.lt_pow_self (by decide : 1 < 10) (n := Nat.log 10 n + 1)
  refine Nat.lt_succ_iff.mp (Nat.log_lt_of_lt_pow (by omega) ?_)
  rw [pow_succ]
  omega

/-- When a number plus its width crosses a power of ten, one more stays below the next. -/
theorem log_succ_add_width {n : Nat}
    (crosses : Nat.log 10 (n + (Nat.log 10 n + 1)) = Nat.log 10 n + 1) :
    Nat.log 10 (n + (Nat.log 10 n + 1) + 1) = Nat.log 10 n + 1 := by
  have below := Nat.lt_pow_succ_log_self (by decide : 1 < 10) n
  have small := Nat.lt_pow_self (by decide : 1 < 10) (n := Nat.log 10 n + 1)
  refine Nat.le_antisymm (Nat.lt_succ_iff.mp (Nat.log_lt_of_lt_pow (by omega) ?_)) ?_
  · rw [pow_succ]
    omega
  · calc Nat.log 10 n + 1 = Nat.log 10 (n + (Nat.log 10 n + 1)) := crosses.symm
      _ ≤ Nat.log 10 (n + (Nat.log 10 n + 1) + 1) := Nat.log_mono_right (Nat.le_succ _)

/-! ## Reading a rendering back -/

/-- Whether `b` is an ASCII digit. -/
def isDigit (b : UInt8) : Bool := 0x30 ≤ b.toNat && b.toNat ≤ 0x39

/-- The number a run of ASCII digits writes. -/
def digitsValue (bytes : List UInt8) : Nat := bytes.foldl (fun acc b => 10 * acc + (b.toNat - 0x30)) 0

theorem toNat_digitByte {d : Nat} (lt : d < 10) : (digitByte d).toNat = 0x30 + d := by
  rw [digitByte, UInt8.toNat_ofNat', Nat.mod_eq_of_lt (by omega)]

theorem isDigit_of_mem_decimal {n : Nat} : ∀ b ∈ decimal n, isDigit b = true := by
  induction n using Nat.strong_induction_on with
  | _ n ih =>
    intro b mem
    rw [decimal_eq, List.mem_append, List.mem_singleton] at mem
    rcases mem with earlier | rfl
    · split at earlier
      · cases earlier
      · exact ih (n / 10) (by omega) b earlier
    · have := toNat_digitByte (Nat.mod_lt n (by decide : 10 > 0))
      simp only [isDigit, this, Bool.and_eq_true, decide_eq_true_eq]
      omega

theorem decimal_ne_nil (n : Nat) : decimal n ≠ [] := by
  rw [decimal_eq]
  exact List.append_ne_nil_of_right_ne_nil _ (List.cons_ne_nil _ _)

theorem digitsValue_decimal (n : Nat) : digitsValue (decimal n) = n := by
  induction n using Nat.strong_induction_on with
  | _ n ih =>
    have last := toNat_digitByte (Nat.mod_lt n (by decide : 10 > 0))
    rw [decimal_eq, digitsValue, List.foldl_append, List.foldl_cons, List.foldl_nil]
    split
    · next small =>
      rw [List.foldl_nil, last]
      omega
    · next large =>
      rw [← digitsValue, ih (n / 10) (by omega), last]
      omega

end Decimal
