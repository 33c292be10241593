/-
# Selection sampling

Out of `n` items, `k` are selected in one pass: an item is taken if a random number, below the
number of items from this one on, is below the number of items that are still wanted.

* `taken`: which items a sequence of numbers takes, and `pick`: these items;
* `sequences`: the sequences of numbers that are possible, `n!` of them (`card_sequences`);
* `card_taken`: each selection of `k` items comes from `k! (n - k)!` sequences.
-/
import Mathlib.Algebra.BigOperators.Group.Finset.Piecewise
import Mathlib.Algebra.BigOperators.Group.Finset.Sigma
import Mathlib.Algebra.BigOperators.Intervals
import Mathlib.Algebra.Group.Action.Defs
import Mathlib.Data.Nat.Count
import Mathlib.Data.Nat.Factorial.Basic

namespace SelectionSampling

/-- Which items are taken, for the number of items wanted and one number for each item. -/
def taken : ℕ → List ℕ → List Bool
  | _, [] => []
  | k, r :: rs => if r < k then true :: taken (k - 1) rs else false :: taken k rs

/-- The items that are taken. -/
def pick {α : Type*} : List Bool → List α → List α
  | b :: mask, a :: l => if b then a :: pick mask l else pick mask l
  | _, _ => []

/-- The sequences of numbers for `n` items. -/
def sequences : ℕ → Finset (List ℕ)
  | 0 => {[]}
  | n + 1 => (Finset.range (n + 1) ×ˢ sequences n).image fun p => p.1 :: p.2

/-! ## The items that are taken -/

section pick

variable {α β : Type*}

/-- Nothing is picked from nothing. -/
@[simp] theorem pick_nil (mask : List Bool) : pick mask ([] : List α) = [] := by
  cases mask <;> rfl

/-- Nothing is picked without a mask. -/
@[simp] theorem pick_nil_mask (l : List α) : pick [] l = [] := rfl

/-- What is picked keeps its order. -/
theorem pick_sublist (mask : List Bool) (l : List α) : (pick mask l).Sublist l := by
  induction mask generalizing l with
  | nil => exact List.nil_sublist l
  | cons b mask ih =>
    cases l with
    | nil => exact List.Sublist.refl _
    | cons a l =>
      unfold pick
      split
      · exact (ih l).cons_cons a
      · exact (ih l).cons a

/-- As many are picked as the mask says. -/
theorem length_pick {mask : List Bool} {l : List α} (h : mask.length = l.length) :
    (pick mask l).length = mask.count true := by
  induction mask generalizing l with
  | nil => rfl
  | cons b mask ih =>
    cases l with
    | nil => cases h
    | cons a l =>
      have ih := ih (Nat.succ.inj h)
      cases b with
      | true => simp [pick, ih]
      | false => simp [pick, ih]

end pick

/-! ## One pass -/

/-- Each position is taken or left. -/
@[simp] theorem length_taken (k : ℕ) (rs : List ℕ) : (taken k rs).length = rs.length := by
  induction rs generalizing k with
  | nil => rfl
  | cons r rs ih =>
    unfold taken
    split <;> simp [ih]

/-- A sequence of remainders has one below each number of positions that are left. -/
theorem mem_sequences {n : ℕ} {rs : List ℕ} :
    rs ∈ sequences n ↔ rs.length = n ∧ ∀ i r, rs[i]? = some r → r < n - i := by
  induction n generalizing rs with
  | zero => simp +contextual [sequences]
  | succ n ih =>
    simp only [sequences, Finset.mem_image, Finset.mem_product, Finset.mem_range, Prod.exists]
    constructor
    · rintro ⟨r, rs, ⟨hr, hrs⟩, rfl⟩
      obtain ⟨hlength, hbound⟩ := ih.mp hrs
      refine ⟨by rw [List.length_cons, hlength], fun i r' hi => ?_⟩
      cases i with
      | zero =>
        rw [List.getElem?_cons_zero, Option.some.injEq] at hi
        omega
      | succ i =>
        have hr' := hbound i r' hi
        omega
    · rintro ⟨hlength, hbound⟩
      cases rs with
      | nil => cases hlength
      | cons r rs =>
        refine ⟨r, rs, ⟨hbound 0 r rfl, ih.mpr ⟨Nat.succ.inj hlength, fun i r' hi => ?_⟩⟩, rfl⟩
        have hr' := hbound (i + 1) r' hi
        omega

/-- **Exactly `k` items are taken**, whatever the numbers are. -/
theorem count_taken {n k : ℕ} {rs : List ℕ} (hrs : rs ∈ sequences n) (hk : k ≤ n) :
    (taken k rs).count true = k := by
  induction n generalizing k rs with
  | zero =>
    rw [List.eq_nil_of_length_eq_zero (mem_sequences.mp hrs).1, Nat.le_zero.mp hk]
    rfl
  | succ n ih =>
    simp only [sequences, Finset.mem_image, Finset.mem_product, Finset.mem_range,
      Prod.exists] at hrs
    obtain ⟨r, rs, ⟨hr, hrs⟩, rfl⟩ := hrs
    unfold taken
    split
    · rw [List.count_cons_self, ih hrs (by omega)]
      omega
    · rw [List.count_cons_of_ne (by decide), ih hrs (by omega)]

/-! ## Counting the sequences -/

/-- The sequences for one more item, by the first number. -/
theorem card_filter_sequences_succ (n : ℕ) (p : List ℕ → Prop) [DecidablePred p] :
    ((sequences (n + 1)).filter p).card
      = ∑ r ∈ Finset.range (n + 1), ((sequences n).filter fun rs => p (r :: rs)).card := by
  have hinj : Function.Injective fun q : ℕ × List ℕ => q.1 :: q.2 := by
    rintro ⟨r, rs⟩ ⟨r', rs'⟩ h
    simpa using h
  simp only [Finset.card_filter]
  rw [sequences, Finset.sum_image hinj.injOn, Finset.sum_product]

/-- There are `n!` sequences of remainders. -/
theorem card_sequences (n : ℕ) : (sequences n).card = n.factorial := by
  induction n with
  | zero => rfl
  | succ n ih =>
    have h := card_filter_sequences_succ n fun _ => True
    simp only [Finset.filter_true, Finset.sum_const, Finset.card_range, smul_eq_mul] at h
    rw [h, ih, Nat.factorial_succ]

/-- A sum over the remainders below `k` and those that are not. -/
theorem sum_range_ite {n k : ℕ} (hk : k ≤ n) (c d : ℕ) :
    ∑ r ∈ Finset.range n, (if r < k then c else d) = k * c + (n - k) * d := by
  obtain ⟨m, rfl⟩ := Nat.exists_eq_add_of_le hk
  have hlow : ∑ r ∈ Finset.range k, (if r < k then c else d) = k * c := by
    rw [Finset.sum_congr rfl fun r hr => if_pos (Finset.mem_range.mp hr), Finset.sum_const,
      Finset.card_range, smul_eq_mul]
  have hhigh : ∑ r ∈ Finset.range m, (if k + r < k then c else d) = m * d := by
    rw [Finset.sum_congr rfl fun r _ => if_neg (Nat.not_lt.mpr (Nat.le_add_right k r)),
      Finset.sum_const, Finset.card_range, smul_eq_mul]
  rw [Finset.sum_range_add, hlow, hhigh, Nat.add_sub_cancel_left]

/-- The next item is taken for `k` of the numbers. -/
theorem card_taken_cons_true {n k : ℕ} (hk : k ≤ n + 1) (mask : List Bool) :
    ((sequences (n + 1)).filter fun rs => taken k rs = true :: mask).card
      = k * ((sequences n).filter fun rs => taken (k - 1) rs = mask).card := by
  rw [card_filter_sequences_succ]
  have hfirst : ∀ r ∈ Finset.range (n + 1),
      ((sequences n).filter fun rs => taken k (r :: rs) = true :: mask).card
        = if r < k then ((sequences n).filter fun rs => taken (k - 1) rs = mask).card else 0 := by
    intro r _
    by_cases hr : r < k
    · simp [taken, hr]
    · simp [taken, hr]
  rw [Finset.sum_congr rfl hfirst, sum_range_ite hk, Nat.mul_zero, Nat.add_zero]

/-- It is left for the others. -/
theorem card_taken_cons_false {n k : ℕ} (hk : k ≤ n + 1) (mask : List Bool) :
    ((sequences (n + 1)).filter fun rs => taken k rs = false :: mask).card
      = (n + 1 - k) * ((sequences n).filter fun rs => taken k rs = mask).card := by
  rw [card_filter_sequences_succ]
  have hfirst : ∀ r ∈ Finset.range (n + 1),
      ((sequences n).filter fun rs => taken k (r :: rs) = false :: mask).card
        = if r < k then 0 else ((sequences n).filter fun rs => taken k rs = mask).card := by
    intro r _
    by_cases hr : r < k
    · simp [taken, hr]
    · simp [taken, hr]
  rw [Finset.sum_congr rfl hfirst, sum_range_ite hk, Nat.mul_zero, Nat.zero_add]

/-- **Each selection of `k` items is taken equally often**, by induction on the items. -/
theorem card_taken {n k : ℕ} {mask : List Bool} (hlength : mask.length = n)
    (hcount : mask.count true = k) :
    ((sequences n).filter fun rs => taken k rs = mask).card
      = k.factorial * (n - k).factorial := by
  induction mask generalizing n k with
  | nil =>
    cases hlength
    cases hcount
    rfl
  | cons b mask ih =>
    obtain rfl : mask.length + 1 = n := hlength
    have hle : mask.count true ≤ mask.length := List.count_le_length
    cases b with
    | true =>
      rw [List.count_cons_self] at hcount
      subst hcount
      rw [card_taken_cons_true (by omega), Nat.add_sub_cancel, ih rfl rfl, Nat.factorial_succ,
        Nat.add_sub_add_right, Nat.mul_assoc]
    | false =>
      rw [List.count_cons_of_ne (by decide)] at hcount
      subst hcount
      rw [card_taken_cons_false (by omega), ih rfl rfl, Nat.succ_sub hle, Nat.factorial_succ,
        Nat.mul_left_comm]

/-! ## Selections as sets of positions -/

/-- The positions of the items that are taken. -/
def positions (mask : List Bool) : Finset ℕ :=
  (Finset.range mask.length).filter fun i => mask[i]? = some true

/-- The selection of the items at some positions. -/
def maskOf (n : ℕ) (S : Finset ℕ) : List Bool := (List.range n).map fun i => decide (i ∈ S)

/-- The mask of a set has a place for each position. -/
theorem length_maskOf (n : ℕ) (S : Finset ℕ) : (maskOf n S).length = n := by
  simp [maskOf]

/-- A mask takes the positions of a set when it is the mask of the set. -/
theorem positions_eq_iff {n : ℕ} {mask : List Bool} {S : Finset ℕ} (hlength : mask.length = n)
    (hS : S ⊆ Finset.range n) : positions mask = S ↔ mask = maskOf n S := by
  have hmem (i : ℕ) : i ∈ positions mask ↔ mask[i]? = some true := by
    rw [positions, Finset.mem_filter, Finset.mem_range, and_iff_right_iff_imp]
    exact fun h => (List.getElem?_eq_some_iff.mp h).choose
  have hmask (i : ℕ) (hi : i < n) : (maskOf n S)[i]? = some (decide (i ∈ S)) := by
    simp [maskOf, hi]
  constructor
  · rintro rfl
    apply List.ext_getElem?
    intro i
    by_cases hi : i < n
    · have hlt : i < mask.length := hlength ▸ hi
      rw [hmask i hi, List.getElem?_eq_getElem hlt, Option.some.injEq]
      have hbit : i ∈ positions mask ↔ mask[i] = true := by
        rw [hmem, List.getElem?_eq_getElem hlt, Option.some.injEq]
      cases hb : mask[i] <;> simp [hbit, hb]
    · rw [List.getElem?_eq_none (by omega), List.getElem?_eq_none (by rw [length_maskOf]; omega)]
  · rintro rfl
    ext i
    rw [hmem]
    by_cases hi : i < n
    · rw [hmask i hi, Option.some.injEq, decide_eq_true_eq]
    · rw [List.getElem?_eq_none (by rw [length_maskOf]; omega)]
      constructor
      · intro h
        cases h
      · exact fun h => absurd (Finset.mem_range.mp (hS h)) hi

/-- The mask of a set takes as many as the set has. -/
theorem count_maskOf {n : ℕ} {S : Finset ℕ} (hS : S ⊆ Finset.range n) :
    (maskOf n S).count true = S.card := by
  have hcount : (maskOf n S).count true = n.count (· ∈ S) := by
    rw [maskOf, List.count, List.countP_map, Nat.count]
    congr 1
    funext i
    simp
  rw [hcount, Nat.count_eq_card_filter_range, Finset.filter_mem_eq_inter,
    Finset.inter_eq_right.mpr hS]

/-- **Every set of `k` positions is taken by `k! (n - k)!` sequences**. -/
theorem card_positions {n k : ℕ} {S : Finset ℕ} (hS : S ⊆ Finset.range n) (hcard : S.card = k) :
    ((sequences n).filter fun rs => positions (taken k rs) = S).card
      = k.factorial * (n - k).factorial := by
  rw [← card_taken (length_maskOf n S) ((count_maskOf hS).trans hcard)]
  congr 1
  apply Finset.filter_congr
  intro rs hrs
  exact positions_eq_iff ((length_taken k rs).trans (mem_sequences.mp hrs).1) hS

end SelectionSampling
