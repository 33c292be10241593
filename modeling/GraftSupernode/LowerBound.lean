/-
# Binary search for a lower bound

`std::lower_bound`: the end of the part of a range in which a condition holds, found by halving.

* `lowerBound_spec`: if the condition holds up to some place and not from there on, the search ends
  at this place;
* `drop_lowerBoundOf`: for a list, what is from there on is what `dropWhile` leaves.
-/
import Mathlib.Data.List.Basic
import Mathlib.Data.List.TakeWhile
import Mathlib.Order.Basic

namespace LowerBound

variable {α : Type*}

/-- The loop of `std::lower_bound`, over the `len` places from `first` on. -/
def lowerBound (p : ℕ → Bool) (first len : ℕ) : ℕ :=
  if h : len = 0 then first
  else if p (first + len / 2) then lowerBound p (first + len / 2 + 1) (len - len / 2 - 1)
  else lowerBound p first (len / 2)
termination_by len

/-- **The search ends** where the condition ends. -/
theorem lowerBound_spec {p : ℕ → Bool} (h : ∀ i j, i ≤ j → p j = true → p i = true)
    (first len : ℕ) :
    first ≤ lowerBound p first len ∧ lowerBound p first len ≤ first + len ∧
      (∀ i, first ≤ i → i < lowerBound p first len → p i = true) ∧
      ∀ i, lowerBound p first len ≤ i → i < first + len → p i = false := by
  induction first, len using lowerBound.induct p with
  | case1 first =>
    rw [lowerBound, dif_pos rfl]
    exact ⟨le_rfl, le_rfl, fun i hle hlt => absurd hlt (by omega), fun i hle hlt => by omega⟩
  | case2 first len hlen hp ih =>
    -- the condition holds up to the middle
    obtain ⟨hfirst, hlast, hbefore, hafter⟩ := ih
    rw [lowerBound, dif_neg hlen, if_pos hp]
    refine ⟨by omega, by omega, ?_, fun i hle hlt => hafter i hle (by omega)⟩
    intro i hle hlt
    by_cases hi : i ≤ first + len / 2
    · exact h i _ hi hp
    · exact hbefore i (by omega) hlt
  | case3 first len hlen hp ih =>
    -- it does not hold from the middle on
    obtain ⟨hfirst, hlast, hbefore, hafter⟩ := ih
    rw [lowerBound, dif_neg hlen, if_neg hp]
    refine ⟨hfirst, by omega, hbefore, ?_⟩
    intro i hle hlt
    by_cases hi : i < first + len / 2
    · exact hafter i hle hi
    · by_contra hpi
      exact hp (h _ i (by omega) (by simpa using hpi))

/-- `std::lower_bound` on a list. -/
def lowerBoundOf (p : α → Bool) (l : List α) : ℕ :=
  lowerBound (fun i => l[i]?.any p) 0 l.length

/-- A place of the list at which the condition holds. -/
theorem any_getElem?_iff {p : α → Bool} {l : List α} {i : ℕ} :
    l[i]?.any p = true ↔ ∃ h : i < l.length, p l[i] = true := by
  by_cases h : i < l.length
  · simp [h]
  · simp [h]

/-- **What is behind the place that is found** is what `dropWhile` leaves. -/
theorem drop_lowerBoundOf {p : α → Bool} {l : List α}
    (h : l.Pairwise fun a b => p b = true → p a = true) :
    l.drop (lowerBoundOf p l) = l.dropWhile p := by
  have hmono (i j : ℕ) (hij : i ≤ j) (hj : l[j]?.any p = true) : l[i]?.any p = true := by
    obtain ⟨hlt, hpj⟩ := any_getElem?_iff.mp hj
    rcases Nat.eq_or_lt_of_le hij with rfl | hij
    · exact hj
    · exact any_getElem?_iff.mpr
        ⟨by omega, List.pairwise_iff_getElem.mp h i j (by omega) hlt hij hpj⟩
  obtain ⟨-, -, hbefore, hafter⟩ := lowerBound_spec hmono 0 l.length
  rw [← lowerBoundOf] at hbefore hafter
  have htake : ∀ a ∈ l.take (lowerBoundOf p l), p a = true := by
    intro a ha
    obtain ⟨i, hi, rfl⟩ := List.getElem_of_mem ha
    rw [List.length_take] at hi
    obtain ⟨_, hpi⟩ := any_getElem?_iff.mp (hbefore i (Nat.zero_le i) (by omega))
    rw [List.getElem_take]
    exact hpi
  conv_rhs => rw [← List.take_append_drop (lowerBoundOf p l) l]
  rw [List.dropWhile_append_of_pos htake]
  cases hdrop : l.drop (lowerBoundOf p l) with
  | nil => rfl
  | cons a rest =>
    -- the condition does not hold at the place itself
    have hget : l[lowerBoundOf p l]? = some a := by
      rw [← List.head?_drop, hdrop, List.head?_cons]
    obtain ⟨hlt, -⟩ := List.getElem?_eq_some_iff.mp hget
    have hno := hafter (lowerBoundOf p l) le_rfl (by omega)
    rw [hget, Option.any_some] at hno
    rw [List.dropWhile_cons_of_neg (by rw [hno]; exact Bool.false_ne_true)]

end LowerBound
