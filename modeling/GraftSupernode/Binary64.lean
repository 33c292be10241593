/-
# Double precision

Doubles that are not negative, as far as products, a quotient by a whole number and the conversion to
an integer need them.

A double is a whole number of at most 53 bits times a power of two; the exponent is not bounded here,
so that nothing overflows.  A product is the double nearest to the exact one (`round`), and the
conversion drops the fraction (`trunc`).  Whole numbers of 53 bits are exact (`trunc_mulNat_ofNat`).
-/
import Mathlib.Algebra.Order.Ring.Int

/-- The double `mantissa * 2 ^ exponent`. -/
structure Binary64 where
  mantissa : ℕ
  exponent : ℤ
  mantissa_lt : mantissa < 2 ^ 53

namespace Binary64

/-- The whole number nearest to `n / 2 ^ k`, the even one of two. -/
def nearest (n k : ℕ) : ℕ :=
  if 2 ^ k < 2 * (n % 2 ^ k) ∨ 2 * (n % 2 ^ k) = 2 ^ k ∧ n / 2 ^ k % 2 = 1 then n / 2 ^ k + 1
  else n / 2 ^ k

/-- How many bits of `n` there are beyond 53. -/
def excess (n : ℕ) : ℕ := n.log2 - 52

/-- The double nearest to `n * 2 ^ e`, the even one of two. -/
def round (n : ℕ) (e : ℤ) : Binary64 :=
  if h : nearest n (excess n) < 2 ^ 53 then ⟨nearest n (excess n), e + excess n, h⟩
  else ⟨2 ^ 52, e + excess n + 1, by decide⟩

/-- A whole number. -/
def ofNat (n : ℕ) (h : n < 2 ^ 53) : Binary64 := ⟨n, 0, h⟩

/-- The product with a whole number that is a double itself. -/
def mulNat (c : ℕ) (x : Binary64) : Binary64 := round (c * x.mantissa) x.exponent

/-- The product. -/
def mul (x y : Binary64) : Binary64 :=
  round (x.mantissa * y.mantissa) (x.exponent + y.exponent)

/-- The quotient by a whole number of at most 64 bits.  The mantissa is divided with 128 more bits,
and the last bit stands for what is left over. -/
def divNat (x : Binary64) (d : ℕ) : Binary64 :=
  let n := x.mantissa * 2 ^ 128
  round (2 * (n / d) + if n % d = 0 then 0 else 1) (x.exponent - 129)

/-- The nearest whole number, the larger one of two. -/
def roundAway (x : Binary64) : ℕ :=
  if 0 ≤ x.exponent then x.mantissa * 2 ^ x.exponent.toNat
  else (2 * x.mantissa / 2 ^ (-x.exponent).toNat + 1) / 2

/-- The conversion to an integer. -/
def trunc (x : Binary64) : ℕ :=
  if 0 ≤ x.exponent then x.mantissa * 2 ^ x.exponent.toNat
  else x.mantissa / 2 ^ (-x.exponent).toNat

theorem excess_of_lt {n : ℕ} (h : n < 2 ^ 53) : excess n = 0 := by
  rw [excess]
  rcases Nat.eq_zero_or_pos n with rfl | hpos
  · rfl
  · have hlog := (Nat.log2_lt (Nat.pos_iff_ne_zero.mp hpos)).mpr h
    omega

/-- Nothing is rounded. -/
theorem round_of_lt {n : ℕ} (h : n < 2 ^ 53) (e : ℤ) : round n e = ⟨n, e, h⟩ := by
  have hnearest : nearest n 0 = n := by
    rw [nearest, Nat.pow_zero, Nat.mod_one, Nat.div_one]
    rfl
  simp only [round, excess_of_lt h, hnearest, dif_pos h, Nat.cast_zero, add_zero]

/-- **Whole numbers are exact**. -/
theorem trunc_mulNat_ofNat {c n : ℕ} (hn : n < 2 ^ 53) (h : c * n < 2 ^ 53) :
    ((ofNat n hn).mulNat c).trunc = c * n := by
  rw [mulNat, ofNat, round_of_lt h, trunc]
  simp

end Binary64
