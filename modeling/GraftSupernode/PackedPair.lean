/-
# Pairs in a word

Two numbers in a signed word of 32 bits: the second one has the eight lowest bits, and is joined to
the first one by an or.  Pairs are in their lexicographic order, words in that of the integers.

* `join_eq`: the bits of the second number above the eighth are or-ed to the first one;
* `join_le_iff_of_fits`, `fits_of_forall`: for which pairs the two orders agree, against the pairs
  that all words stand for.
-/
import Mathlib.Algebra.Group.Int.Defs
import Mathlib.Algebra.GroupWithZero.Nat
import Mathlib.Data.Int.Basic
import Mathlib.Data.Prod.Lex

namespace PackedPair

/-- The word for a pair. -/
def join (a b : ℕ) : ℤ := ((BitVec.ofNat 32 a <<< 8) ||| BitVec.ofNat 32 b).toInt

/-- The first number in a word. -/
def first (w : ℤ) : ℤ := w / 256

/-- The second number in a word. -/
def second (w : ℤ) : ℤ := w % 256

/-- A word. -/
def IsWord (w : ℤ) : Prop := -2 ^ 31 ≤ w ∧ w < 2 ^ 31

/-- The pair in a word is not less than this one. -/
def AtLeast (n : ℕ × ℕ) (w : ℤ) : Prop :=
  toLex ((n.1 : ℤ), (n.2 : ℤ)) ≤ toLex (first w, second w)

theorem atLeast_iff {n : ℕ × ℕ} {w : ℤ} :
    AtLeast n w ↔ (n.1 : ℤ) < w / 256 ∨ (n.1 : ℤ) = w / 256 ∧ (n.2 : ℤ) ≤ w % 256 := by
  rw [AtLeast, Prod.Lex.toLex_le_toLex]
  rfl

/-- The numbers of a pair fit: they have their places, or the second one carries into the first one
as it does in the order of the pairs. -/
def Fits (n : ℕ × ℕ) : Prop :=
  n.1 < 2 ^ 23 ∧ (n.2 < 256 ∨ n.2 % 256 = 0 ∧ n.1 ||| n.2 / 256 = n.1 + 1)

instance (n : ℕ × ℕ) : Decidable (Fits n) := inferInstanceAs (Decidable (_ ∧ _))

/-- **A word** by its numbers. -/
theorem join_eq {a b : ℕ} (ha : a < 2 ^ 23) (hb : b < 2 ^ 31) :
    join a b = ((a ||| b / 256) * 256 + b % 256 : ℕ) := by
  have hlt : a * 256 ||| b < 2 ^ 31 := Nat.or_lt_two_pow (by omega) hb
  have hnat : (BitVec.ofNat 32 a <<< 8 ||| BitVec.ofNat 32 b).toNat = a * 256 ||| b := by
    rw [BitVec.toNat_or, BitVec.toNat_shiftLeft, BitVec.toNat_ofNat, BitVec.toNat_ofNat,
      Nat.mod_eq_of_lt (by omega : a < 2 ^ 32), Nat.mod_eq_of_lt (by omega : b < 2 ^ 32),
      Nat.shiftLeft_eq, Nat.mod_eq_of_lt (by omega)]
  have hdiv : (a * 256 ||| b) / 256 = a ||| b / 256 := by
    have hor := Nat.or_div_two_pow (a := a * 256) (b := b) (n := 8)
    rwa [show 2 ^ 8 = 256 from rfl, Nat.mul_div_cancel a (by decide)] at hor
  have hmod : (a * 256 ||| b) % 256 = b % 256 := by
    have hor := Nat.or_mod_two_pow (a := a * 256) (b := b) (n := 8)
    rwa [show 2 ^ 8 = 256 from rfl, Nat.mul_mod_left, Nat.zero_or] at hor
  rw [join, BitVec.toInt_eq_toNat_of_lt (by omega), hnat, ← hdiv, ← hmod, Nat.div_add_mod']

theorem join_eq_of_lt {a b : ℕ} (ha : a < 2 ^ 23) (hb : b < 256) :
    join a b = (a * 256 + b : ℕ) := by
  rw [join_eq ha (by omega), Nat.div_eq_of_lt hb, Nat.or_zero, Nat.mod_eq_of_lt hb]

/-- A word has the numbers that it is made of. -/
theorem first_second_join {a b : ℕ} (ha : a < 2 ^ 23) (hb : b < 256) :
    first (join a b) = a ∧ second (join a b) = b := by
  rw [join_eq_of_lt ha hb, first, second]
  omega

theorem isWord_join (a b : ℕ) : IsWord (join a b) :=
  ⟨BitVec.le_toInt _, BitVec.toInt_lt⟩

/-- The second number of a pair that fits is that of a word. -/
theorem Fits.second_lt {n : ℕ × ℕ} (h : Fits n) : n.2 < 2 ^ 31 := by
  obtain ⟨hfirst, hsecond⟩ := h
  by_contra hlarge
  obtain ⟨-, hcarry⟩ := hsecond.resolve_left (by omega)
  have hle : n.2 / 256 ≤ n.1 + 1 := by
    rw [← hcarry]
    exact Nat.right_le_or
  -- the carry would give a first number with one bit more
  have hor : n.1 ||| n.2 / 256 = 2 ^ 23 := by omega
  rw [show n.2 / 256 = 2 ^ 23 by omega, show n.1 = 2 ^ 23 - 1 by omega] at hor
  exact absurd hor (by decide)

/-- **Numbers that fit** are compared as they should be. -/
theorem join_le_iff_of_fits {n : ℕ × ℕ} (h : Fits n) (w : ℤ) :
    join n.1 n.2 ≤ w ↔ AtLeast n w := by
  have hlt := h.second_lt
  obtain ⟨hfirst, hsecond⟩ := h
  rw [atLeast_iff]
  by_cases hsmall : n.2 < 256
  · rw [join_eq_of_lt hfirst hsmall]
    omega
  · -- the word is that of the next first number
    obtain ⟨hzero, hcarry⟩ := hsecond.resolve_left hsmall
    rw [join_eq hfirst hlt, hcarry, hzero]
    omega

/-- **Numbers that are compared as they should be** with the pair of every word fit. -/
theorem fits_of_forall {n : ℕ × ℕ} (hb : n.2 < 2 ^ 31)
    (h : ∀ w, IsWord w → (join n.1 n.2 ≤ w ↔ AtLeast n w)) : Fits n := by
  have hfirst : n.1 < 2 ^ 23 := by
    -- the greatest word
    have hmax := (h (2 ^ 31 - 1) ⟨by decide, by decide⟩).mp (by
      have := (isWord_join n.1 n.2).2
      omega)
    rw [atLeast_iff] at hmax
    omega
  refine ⟨hfirst, ?_⟩
  by_cases hsmall : n.2 < 256
  · exact Or.inl hsmall
  · right
    have hlt : n.1 ||| n.2 / 256 < 2 ^ 23 := Nat.or_lt_two_pow hfirst (by omega)
    have hle : n.1 ≤ n.1 ||| n.2 / 256 := Nat.left_le_or
    -- the last word with the same first number, and the first one with the next
    have hlast := h (n.1 * 256 + 255) ⟨by omega, by omega⟩
    rw [join_eq hfirst hb, atLeast_iff] at hlast
    have hgt : n.1 < n.1 ||| n.2 / 256 := by omega
    have hnext := h ((n.1 + 1) * 256) ⟨by omega, by omega⟩
    rw [join_eq hfirst hb, atLeast_iff] at hnext
    omega

end PackedPair
