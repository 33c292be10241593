/-
# The size of an auth sample

`buildAuthSample` selects up to eight supernodes of each tier, and balances how many of each it
takes.  The balance is described by its invariant (`Levelled`): no tier gives less than its share
while it can, a tier that has been balanced gives no more than it has, and either the sample is
full or every tier gives all that it has.
-/
import GraftSupernode.UniformSelection
import Mathlib.Algebra.BigOperators.Fin
import Mathlib.Algebra.Order.BigOperators.Group.Finset
import Mathlib.Tactic.Ring

open SelectionSampling

namespace FullSupernodeList

/-! ## The balance -/

section balance

variable {size select : Fin tiers → ℤ} {i j : Fin tiers} {deficit : ℤ}

theorem sum_update_add (f : Fin tiers → ℤ) (i : Fin tiers) (d : ℤ) :
    ∑ j, Function.update f i (f i + d) j = ∑ j, f j + d := by
  rw [Finset.sum_update_of_mem (Finset.mem_univ i), ← Finset.add_sum_erase _ f (Finset.mem_univ i),
    Finset.sdiff_singleton_eq_erase]
  ring

/-- What a transfer does: nothing, when nothing is lacking or tier `j` has no surplus; or `t`
supernodes move. -/
theorem transfer_cases (size : Fin tiers → ℤ) (i : Fin tiers) (p : (Fin tiers → ℤ) × ℤ)
    (j : Fin tiers) :
    transfer size i p j = p ∧ (p.2 ≤ 0 ∨ j = i ∨ size j ≤ p.1 j) ∨
      ∃ t f, transfer size i p j = (f, p.2 - t) ∧ 0 < t ∧ i ≠ j ∧
        t = min p.2 (size j - p.1 j) ∧ f i = p.1 i - t ∧ f j = p.1 j + t ∧
        (∀ k, k ≠ i → k ≠ j → f k = p.1 k) ∧ ∑ k, f k = ∑ k, p.1 k := by
  obtain ⟨select, deficit⟩ := p
  unfold transfer
  dsimp only
  by_cases h : 0 < deficit ∧ i ≠ j ∧ 0 < size j - select j
  · obtain ⟨hdeficit, hne, hsurplus⟩ := h
    rw [if_pos ⟨hdeficit, hne, hsurplus⟩]
    refine .inr ⟨min deficit (size j - select j), _, rfl, lt_min hdeficit hsurplus, hne, rfl, ?_,
      ?_, fun k hki hkj => ?_, ?_⟩
    · rw [Function.update_of_ne hne, Function.update_self]
    · rw [Function.update_self, Function.update_of_ne hne.symm]
    · rw [Function.update_of_ne hkj, Function.update_of_ne hki]
    · rw [sum_update_add, sub_eq_add_neg, sum_update_add]
      ring
  · rw [if_neg h]
    refine .inl ⟨rfl, ?_⟩
    by_cases hdeficit : 0 < deficit
    · by_cases hne : j = i
      · exact .inr (.inl hne)
      · refine .inr (.inr ?_)
        by_contra hlt
        exact h ⟨hdeficit, Ne.symm hne, by omega⟩
    · exact .inl (not_lt.mp hdeficit)

/-- The transfers to tier `i`, when the tiers in `done` have been asked; `select₀` is what was
selected before. -/
structure Transferring (size select₀ : Fin tiers → ℤ) (i : Fin tiers) (done : List (Fin tiers))
    (p : (Fin tiers → ℤ) × ℤ) : Prop where
  deficit : p.2 = p.1 i - size i
  total : ∑ k, p.1 k = ∑ k, select₀ k
  lower : ∀ k, min itemsPerTier (size k) ≤ p.1 k
  upper : ∀ k, select₀ k ≤ size k → p.1 k ≤ size k
  full : ∀ k, size k ≤ select₀ k → size k ≤ p.1 k
  asked : 0 < p.2 → ∀ k ∈ done, k ≠ i → size k ≤ p.1 k

theorem Transferring.transfer {size select₀ : Fin tiers → ℤ} {done : List (Fin tiers)}
    {p : (Fin tiers → ℤ) × ℤ} (h : Transferring size select₀ i done p) (j : Fin tiers) :
    Transferring size select₀ i (done ++ [j]) (transfer size i p j) := by
  rcases transfer_cases size i p j with
    ⟨hsame, hnone⟩ | ⟨t, f, heq, ht, hne, hmin, hi, hj, hk, hsum⟩
  · rw [hsame]
    refine { h with asked := fun hlack k hmem hki => ?_ }
    rcases List.mem_append.mp hmem with hmem | hmem
    · exact h.asked hlack k hmem hki
    · rw [List.mem_singleton.mp hmem] at hki ⊢
      rcases hnone with hnone | hnone | hnone
      · omega
      · exact absurd hnone hki
      · exact hnone
  · rw [heq]
    have hle : t ≤ p.2 := hmin ▸ min_le_left _ _
    have hle' : t ≤ size j - p.1 j := hmin ▸ min_le_right _ _
    have hdeficit := h.deficit
    -- only the tiers `i` and `j` change
    have hcases (k : Fin tiers) : k = i ∨ k = j ∨ k ≠ i ∧ k ≠ j ∧ f k = p.1 k := by
      by_cases hki : k = i
      · exact .inl hki
      · by_cases hkj : k = j
        · exact .inr (.inl hkj)
        · exact .inr (.inr ⟨hki, hkj, hk k hki hkj⟩)
    refine ⟨?_, hsum.trans h.total, fun k => ?_, fun k hupper => ?_, fun k hfull => ?_,
      fun hlack k hmem hki => ?_⟩
    · show p.2 - t = f i - size i
      omega
    · have hlower := h.lower k
      rcases hcases k with rfl | rfl | ⟨-, -, hfk⟩ <;> dsimp only <;> omega
    · have hupper := h.upper k hupper
      rcases hcases k with rfl | rfl | ⟨-, -, hfk⟩ <;> dsimp only <;> omega
    · have hfull := h.full k hfull
      rcases hcases k with rfl | rfl | ⟨-, -, hfk⟩ <;> dsimp only <;> omega
    · dsimp only at hlack ⊢
      rcases hcases k with heqi | rfl | ⟨-, hkj, hfk⟩
      · exact absurd heqi hki
      · -- tier `j` has given all that it had
        omega
      · rw [hfk]
        refine h.asked (by omega) k ?_ hki
        exact (List.mem_append.mp hmem).resolve_right fun hj' => hkj (List.mem_singleton.mp hj')

/-- **The transfers to a tier**. -/
theorem Transferring.foldl {size select₀ : Fin tiers → ℤ} {done : List (Fin tiers)}
    {p : (Fin tiers → ℤ) × ℤ} (h : Transferring size select₀ i done p) (js : List (Fin tiers)) :
    Transferring size select₀ i (done ++ js) (js.foldl (FullSupernodeList.transfer size i) p) := by
  induction js generalizing done p with
  | nil => rwa [List.append_nil]
  | cons j js ih =>
    have hnext := ih (h.transfer j)
    rwa [List.append_assoc, List.singleton_append] at hnext

/-- The selection, when the tiers in `done` are balanced. -/
structure Levelled (size : Fin tiers → ℤ) (done : List (Fin tiers)) (select : Fin tiers → ℤ) :
    Prop where
  lower : ∀ k, min itemsPerTier (size k) ≤ select k
  upper : ∀ k ∈ done, select k ≤ size k
  total : ∑ k, select k ≤ authSampleSize
  full : ∑ k, select k = authSampleSize ∨ ∀ k, size k ≤ select k

theorem Levelled.balanceTier {done : List (Fin tiers)} (h : Levelled size done select)
    (i : Fin tiers) : Levelled size (done ++ [i]) (balanceTier size select i) := by
  have hstart : Transferring size select i [] (select, select i - size i) :=
    ⟨rfl, rfl, h.lower, fun _ hk => hk, fun _ hk => hk, fun _ _ hk => absurd hk List.not_mem_nil⟩
  have hend := hstart.foldl (List.finRange tiers).reverse
  rw [List.nil_append] at hend
  unfold FullSupernodeList.balanceTier
  generalize (List.finRange tiers).reverse.foldl _ _ = p at hend
  obtain ⟨select', deficit⟩ := p
  have htotal := hend.total
  have hdeficit := hend.deficit
  dsimp only at htotal hdeficit ⊢
  have hup : ∀ k ∈ done ++ [i], k ≠ i → select' k ≤ size k := by
    intro k hmem hki
    rcases List.mem_append.mp hmem with hmem | hmem
    · exact hend.upper k (h.upper k hmem)
    · exact absurd (List.mem_singleton.mp hmem) hki
  by_cases hlack : 0 < deficit
  · -- no other tier has a surplus: the sample gets smaller
    rw [if_pos hlack]
    have hasked : ∀ k, k ≠ i → size k ≤ select' k := fun k hki =>
      hend.asked hlack k (List.mem_reverse.mpr (List.mem_finRange k)) hki
    have hi : select' i - deficit = size i := by omega
    have hsum := sum_update_add select' i (-deficit)
    rw [← sub_eq_add_neg, htotal] at hsum
    have hle := h.total
    refine ⟨fun k => ?_, fun k hmem => ?_, by omega, .inr fun k => ?_⟩
    · by_cases hki : k = i
      · rw [hki, Function.update_self, hi]
        exact min_le_right _ _
      · rw [Function.update_of_ne hki]
        exact hend.lower k
    · by_cases hki : k = i
      · rw [hki, Function.update_self, hi]
      · rw [Function.update_of_ne hki]
        exact hup k hmem hki
    · by_cases hki : k = i
      · rw [hki, Function.update_self, hi]
      · rw [Function.update_of_ne hki]
        exact hasked k hki
  · rw [if_neg hlack]
    refine ⟨hend.lower, fun k hmem => ?_, htotal.trans_le h.total, ?_⟩
    · by_cases hki : k = i
      · rw [hki]
        omega
      · exact hup k hmem hki
    · rcases h.full with hfull | hfull
      · exact .inl (htotal.trans hfull)
      · exact .inr fun k => hend.full k (hfull k)

theorem levelled_foldl {done : List (Fin tiers)} (h : Levelled size done select)
    (js : List (Fin tiers)) :
    Levelled size (done ++ js) (js.foldl (FullSupernodeList.balanceTier size) select) := by
  induction js generalizing done select with
  | nil => rwa [List.append_nil]
  | cons j js ih =>
    have hnext := ih (h.balanceTier j)
    rwa [List.append_assoc, List.singleton_append] at hnext

/-- **The balance**: no tier gives more than it has, or less than its share while it can, and the
sample is as large as possible. -/
theorem balance_spec {size : Fin tiers → ℤ} (hsize : ∀ i, 0 ≤ size i) :
    (∀ i, 0 ≤ balance size i ∧ balance size i ≤ size i ∧
      min itemsPerTier (size i) ≤ balance size i) ∧
    ∑ i, balance size i = min (authSampleSize : ℤ) (∑ i, size i) := by
  have hstart : Levelled size [] fun _ => itemsPerTier := by
    refine ⟨fun k => min_le_left _ _, fun k hk => ?_, le_rfl, .inl rfl⟩
    cases hk
  have h := levelled_foldl hstart (List.finRange tiers)
  rw [List.nil_append] at h
  have hupper : ∀ i, balance size i ≤ size i := fun i => h.upper i (List.mem_finRange i)
  refine ⟨fun i => ⟨?_, hupper i, h.lower i⟩, ?_⟩
  · have hitems : (0 : ℤ) ≤ itemsPerTier := by decide
    exact (le_min hitems (hsize i)).trans (h.lower i)
  · have hle : ∑ i, balance size i ≤ ∑ i, size i := Finset.sum_le_sum fun i _ => hupper i
    have htotal : ∑ i, balance size i ≤ authSampleSize := h.total
    rcases h.full with hfull | hfull
    · have hfull : ∑ i, balance size i = authSampleSize := hfull
      omega
    · have hge : ∑ i, size i ≤ ∑ i, balance size i := Finset.sum_le_sum fun i _ => hfull i
      omega

end balance

/-! ## The selections -/

variable {C : Crypto} {ρ : Type*} {R : RandomEngine ρ} {historySize : UInt64}
variable {s : FullSupernodeList C ρ} {bbl : BlockchainBasedList}

/-- The supernodes that are selected from a tier. -/
structure SelectedFrom (s : FullSupernodeList C ρ) (src : BlockchainBasedListTier)
    (sel : List (ListedSupernode C)) : Prop where
  length : sel.length = min authSampleSize src.length
  sublist : sel.Sublist (s.supernodes src)

theorem SelectedFrom.nil : SelectedFrom s [] [] := ⟨rfl, List.Sublist.refl _⟩

/-- From every tier as many as possible are selected. -/
theorem exists_selectTiers_eq (h : ∀ src ∈ bbl, s.Known src) (rng : ρ) :
    ∃ selected rng', s.selectTiers R bbl rng = (some selected, rng') ∧
      List.Forall₂ (SelectedFrom s) bbl selected := by
  induction bbl generalizing rng with
  | nil => exact ⟨[], rng, rfl, .nil⟩
  | cons src bbl ih =>
    obtain ⟨⟨rng', hselect⟩, hlength, hsublist⟩ :=
      exists_selectSupernodes_eq (R := R) (h src List.mem_cons_self) authSampleSize [] rng
    obtain ⟨selected, rng'', hrest, hforall⟩ :=
      ih (fun src' hsrc' => h src' (List.mem_cons_of_mem _ hsrc')) rng'
    refine ⟨_ :: selected, rng'', ?_, .cons ⟨hlength, hsublist⟩ hforall⟩
    unfold selectTiers
    rw [hselect]
    dsimp only
    rw [hrest]
    rfl

theorem selectedFrom_getD {selected : List (List (ListedSupernode C))}
    (h : List.Forall₂ (SelectedFrom s) bbl selected) (i : ℕ) :
    SelectedFrom s (bbl.getD i []) (selected.getD i []) := by
  induction h generalizing i with
  | nil => exact .nil
  | cons hsel _ ih =>
    cases i with
    | zero => exact hsel
    | succ i => exact ih i

/-- The tiers in their order, each an empty one if it is not there. -/
theorem flatMap_finRange_getD {α : Type*} {n : ℕ} {l : List (List α)} (h : l.length ≤ n) :
    (List.finRange n).flatMap (fun i : Fin n => l.getD i []) = l.flatten := by
  induction n generalizing l with
  | zero =>
    rw [List.eq_nil_of_length_eq_zero (Nat.le_zero.mp h)]
    rfl
  | succ n ih =>
    rw [List.finRange_succ, List.flatMap_cons, List.flatMap_map]
    cases l with
    | nil => simp
    | cons a l =>
      have ih := ih (Nat.le_of_succ_le_succ h)
      simpa using ih

/-- The supernodes of a tier have the ids of its entries. -/
theorem ids_supernodes (hs : s.Keyed) {src : BlockchainBasedListTier} (h : s.Known src) :
    ids (s.supernodes src) = src.map (·.supernodePublicId) := by
  induction src with
  | nil => rfl
  | cons entry src ih =>
    obtain ⟨sn, hsn⟩ := Option.isSome_iff_exists.mp (h entry List.mem_cons_self)
    rw [supernodes_cons hsn, List.map_cons, ← ih fun e he => h e (List.mem_cons_of_mem _ he),
      ← hs _ _ hsn]
    rfl

/-! ## The live entries -/

section live

variable {clock : ℕ → ℕ → ℤ} {height : UInt64}

theorem filter_zipIdx_sublist {α : Type*} (l : List α) (p : α × ℕ → Bool) :
    ((l.zipIdx.filter p).map Prod.fst).Sublist l := by
  have h : (l.zipIdx.filter p).Sublist l.zipIdx := List.filter_sublist
  have hmap := h.map Prod.fst
  rwa [List.zipIdx_map_fst] at hmap

theorem flatten_mapIdx_sublist {α : Type*} {f : ℕ → List α → List α} {l : List (List α)}
    (h : ∀ i a, (f i a).Sublist a) : (l.mapIdx f).flatten.Sublist l.flatten := by
  induction l generalizing f with
  | nil => exact List.Sublist.refl _
  | cons a l ih =>
    rw [List.mapIdx_cons, List.flatten_cons, List.flatten_cons]
    exact (h 0 a).append (ih fun i => h (i + 1))

/-- The filtered list has the entries of the stored one, in its order. -/
theorem flatten_filtered_sublist (hbbl : s.blockchainBasedLists height = some bbl) :
    (s.getBlockchainBasedListForAuthSample clock height []).2.flatten.Sublist bbl.flatten := by
  unfold getBlockchainBasedListForAuthSample
  rw [hbbl]
  exact flatten_mapIdx_sublist fun i src => filter_zipIdx_sublist src _

/-- An entry of the filtered list is an entry of the stored one, and has been announced. -/
theorem announced_of_mem_filtered (hbbl : s.blockchainBasedLists height = some bbl) {i : ℕ}
    {entry : BlockchainBasedListEntry}
    (h : entry ∈ (s.getBlockchainBasedListForAuthSample clock height []).2.getD i []) :
    ∃ src j, bbl[i]? = some src ∧ src[j]? = some entry ∧
      s.announced (clock i j) entry = true := by
  unfold getBlockchainBasedListForAuthSample at h
  rw [hbbl] at h
  dsimp only at h
  rw [List.getD_eq_getElem?_getD, List.getElem?_mapIdx] at h
  cases hsrc : bbl[i]? with
  | none =>
    rw [hsrc] at h
    cases h
  | some src =>
    rw [hsrc] at h
    obtain ⟨⟨e, j⟩, he, rfl⟩ := List.mem_map.mp h
    obtain ⟨hmem, hannounced⟩ := List.mem_filter.mp he
    exact ⟨src, j, rfl, List.mk_mem_zipIdx_iff_getElem?.mp hmem, hannounced⟩

end live

/-- `sn` is known under the id of an entry in one of the first four tiers of the list, and was
announced lately. -/
def LiveIn (s : FullSupernodeList C ρ) (clock : ℕ → ℕ → ℤ) (bbl : BlockchainBasedList)
    (sn : ListedSupernode C) : Prop :=
  ∃ i < tiers, ∃ src j entry, bbl[i]? = some src ∧ src[j]? = some entry ∧
    s.announced (clock i j) entry = true ∧ s.list entry.supernodePublicId = some sn

/-! ## The sample -/

/-- How many supernodes have been selected from each tier. -/
def selectedSize (selected : List (List (ListedSupernode C))) (i : Fin tiers) : ℤ :=
  (selected.getD i []).length

/-- What is copied from tier `i`. -/
def copied (selected : List (List (ListedSupernode C))) (i : Fin tiers) :
    List (ListedSupernode C) :=
  (selected.getD i []).take (balance (selectedSize selected) i).toNat

/-- The supernode has the id of an entry of the tier. -/
def ofTier (src : BlockchainBasedListTier) (sn : ListedSupernode C) : Bool :=
  src.any fun entry => entry.supernodePublicId = sn.idKeyAsString

section sample

variable {live : BlockchainBasedList} {selected : List (List (ListedSupernode C))}

theorem balance_selected (selected : List (List (ListedSupernode C))) (i : Fin tiers) :
    0 ≤ balance (selectedSize selected) i ∧
      balance (selectedSize selected) i ≤ selectedSize selected i ∧
      min itemsPerTier (selectedSize selected i) ≤ balance (selectedSize selected) i :=
  (balance_spec fun _ => Int.natCast_nonneg _).1 i

theorem length_copied (selected : List (List (ListedSupernode C))) (i : Fin tiers) :
    ((copied selected i).length : ℤ) = balance (selectedSize selected) i := by
  obtain ⟨hnonneg, hle, -⟩ := balance_selected selected i
  have hsize : selectedSize selected i = ((selected.getD i []).length : ℤ) := rfl
  rw [copied, List.length_take]
  omega

theorem selectedSize_eq (h : List.Forall₂ (SelectedFrom s) live selected) (i : Fin tiers) :
    selectedSize selected i = (min authSampleSize (live.getD i []).length : ℕ) :=
  congrArg Nat.cast (selectedFrom_getD h i).length

/-- A summand of at least `n` makes the sum as large. -/
theorem min_sum_min (n : ℕ) (f : Fin tiers → ℕ) :
    min n (∑ i, min n (f i)) = min n (∑ i, f i) := by
  by_cases h : ∃ i, n ≤ f i
  · obtain ⟨i, hi⟩ := h
    have hle (g : Fin tiers → ℕ) : g i ≤ ∑ j, g j :=
      Finset.single_le_sum (fun _ _ => Nat.zero_le _) (Finset.mem_univ i)
    have hmin := hle fun j => min n (f j)
    have hfull := hle f
    omega
  · push Not at h
    rw [Finset.sum_congr rfl fun i _ => min_eq_right (h i).le]

/-- The sample is as large as possible. -/
theorem length_sample (h : List.Forall₂ (SelectedFrom s) live selected) :
    ((List.finRange tiers).flatMap (copied selected)).length
      = min authSampleSize (∑ i : Fin tiers, (live.getD i []).length) := by
  have hsum : ((∑ i, (copied selected i).length : ℕ) : ℤ)
      = min (authSampleSize : ℤ) (∑ i, selectedSize selected i) := by
    rw [Nat.cast_sum, Finset.sum_congr rfl fun i _ => length_copied selected i]
    exact (balance_spec fun _ => Int.natCast_nonneg _).2
  have hsize : ∑ i, selectedSize selected i
      = ((∑ i : Fin tiers, min authSampleSize (live.getD i []).length : ℕ) : ℤ) := by
    rw [Nat.cast_sum]
    exact Finset.sum_congr rfl fun i _ => selectedSize_eq h i
  rw [List.length_flatMap, ← Fin.sum_univ_def, ← min_sum_min]
  rw [hsize] at hsum
  omega

/-- Only selected supernodes are copied. -/
theorem copied_sublist (h : List.Forall₂ (SelectedFrom s) live selected) (i : Fin tiers) :
    (copied selected i).Sublist (s.supernodes (live.getD i [])) :=
  (List.take_sublist _ _).trans (selectedFrom_getD h i).sublist

/-- The ids of the sample are ids of the tiers, in their order. -/
theorem ids_sample_sublist (hs : s.Keyed) (hknown : ∀ src ∈ live, s.Known src)
    (hlive : live.length ≤ tiers) (h : List.Forall₂ (SelectedFrom s) live selected) :
    (ids ((List.finRange tiers).flatMap (copied selected))).Sublist
      (live.flatten.map (·.supernodePublicId)) := by
  have hknown' (i : ℕ) : s.Known (live.getD i []) := by
    by_cases hi : i < live.length
    · rw [List.getD_eq_getElem _ _ hi]
      exact hknown _ (List.getElem_mem hi)
    · rw [List.getD_eq_default _ _ (not_lt.mp hi)]
      exact fun _ he => absurd he List.not_mem_nil
  rw [← flatMap_finRange_getD hlive, ids, List.map_flatMap, List.map_flatMap]
  apply List.Sublist.flatMap_right
  intro i _
  rw [← ids_supernodes hs (hknown' i)]
  exact (copied_sublist h i).map _

/-- Each tier has its share in the sample. -/
theorem share_le_countP (hs : s.Keyed) (h : List.Forall₂ (SelectedFrom s) live selected)
    (i : Fin tiers) :
    min itemsPerTier.toNat (live.getD i []).length ≤
      ((List.finRange tiers).flatMap (copied selected)).countP (ofTier (live.getD i [])) := by
  have hall : ∀ sn ∈ copied selected i, ofTier (live.getD i []) sn = true := by
    intro sn hsn
    obtain ⟨entry, hentry, hlist⟩ := List.mem_filterMap.mp ((copied_sublist h i).subset hsn)
    rw [ofTier, List.any_eq_true]
    exact ⟨entry, hentry, decide_eq_true (hs _ _ hlist).symm⟩
  have hsub : (copied selected i).Sublist ((List.finRange tiers).flatMap (copied selected)) := by
    have hsingle := (List.singleton_sublist.mpr (List.mem_finRange i)).flatMap (copied selected)
    rwa [List.flatMap_singleton] at hsingle
  have hcount : (copied selected i).countP (ofTier (live.getD i [])) ≤ _ := hsub.countP_le
  rw [List.countP_eq_length.mpr hall] at hcount
  have hlength := length_copied selected i
  have hlower := (balance_selected selected i).2.2
  have hsize := selectedSize_eq h i
  have hitems : itemsPerTier = 2 := rfl
  have hsample : authSampleSize = 8 := rfl
  omega

end sample

/-- What `buildAuthSample` puts together. -/
theorem buildAuthSample_fst_eq {height : UInt64} {clock : ℕ → ℕ → ℤ} {paymentId : String}
    {selected : List (List (ListedSupernode C))} {rng : ρ}
    (hbbl : s.blockchainBasedLists height = some bbl) (hheight : height ≠ 10)
    (hselect : s.selectTiers R
      ((s.getBlockchainBasedListForAuthSample clock height []).2.take tiers)
      (R.seed s.rng paymentId.toUTF8.toList) = (some selected, rng))
    (out : List (ListedSupernode C)) :
    (s.buildAuthSample R clock height paymentId out).1 =
      let out := ((List.finRange tiers).flatMap (copied selected)).take authSampleSize
      ⟨out.length = authSampleSize, out, height - blockchainBasedListDelayBlockCount⟩ := by
  have hblock : (s.getBlockchainBasedListForAuthSample clock height []).1
      = height - blockchainBasedListDelayBlockCount := by
    unfold getBlockchainBasedListForAuthSample
    rw [hbbl]
  have hne : height - blockchainBasedListDelayBlockCount ≠ 0 := by
    intro hzero
    have hback := UInt64.sub_add_cancel height blockchainBasedListDelayBlockCount
    rw [hzero] at hback
    exact hheight hback.symm
  unfold buildAuthSample
  rw [← hblock] at hne ⊢
  generalize s.getBlockchainBasedListForAuthSample clock height [] = filtered at hselect hne ⊢
  obtain ⟨blockNumber, live⟩ := filtered
  dsimp only at hselect hne ⊢
  rw [if_neg hne, hselect]
  rfl

/-- **The size of a sample**, and its balance. -/
theorem buildAuthSample_size (hs : s.Reachable R historySize) {height : UInt64}
    (hbbl : s.blockchainBasedLists height = some bbl) (hheight : height ≠ 10)
    (hids : (bbl.flatten.map (·.supernodePublicId)).Nodup) (clock : ℕ → ℕ → ℤ)
    (paymentId : String) (out : List (ListedSupernode C)) :
    let live := (s.getBlockchainBasedListForAuthSample clock height []).2.take tiers
    let total := ∑ i : Fin tiers, (live.getD i []).length
    let sample := (s.buildAuthSample R clock height paymentId out).1
    sample.out.length = min authSampleSize total ∧ (ids sample.out).Nodup ∧
      (∀ sn ∈ sample.out, s.LiveIn clock bbl sn) ∧
      (sample.ok = true ↔ authSampleSize ≤ total) ∧
      -- no copy runs past the end of a tier
      (∃ selected rng,
        s.selectTiers R live (R.seed s.rng paymentId.toUTF8.toList) = (some selected, rng) ∧
        let size := fun i : Fin tiers => ((selected.getD i []).length : ℤ)
        ∀ i, size i = min authSampleSize (live.getD i []).length ∧
          0 ≤ balance size i ∧ balance size i ≤ size i) ∧
      -- each tier has its share
      ∀ i : Fin tiers, min itemsPerTier.toNat (live.getD i []).length ≤
        sample.out.countP (ofTier (live.getD i [])) := by
  intro live total sample
  have hkeyed := Keyed.of_reachable hs
  have hknown : ∀ src ∈ live, s.Known src := fun src hsrc entry hentry =>
    exist_of_mem_filtered (List.mem_of_mem_take hsrc) hentry
  have hlive : live.flatten.Sublist bbl.flatten :=
    (List.take_sublist _ _).flatten.trans (flatten_filtered_sublist hbbl)
  have hle : live.length ≤ tiers := List.length_take_le _ _
  have hannounced : ∀ i < tiers, ∀ entry ∈ live.getD i [], ∃ src j, bbl[i]? = some src ∧
      src[j]? = some entry ∧ s.announced (clock i j) entry = true := by
    intro i hi entry hentry
    rw [List.getD_eq_getElem?_getD, List.getElem?_take_of_lt hi,
      ← List.getD_eq_getElem?_getD] at hentry
    exact announced_of_mem_filtered hbbl hentry
  obtain ⟨selected, rng, hselect, hforall⟩ :=
    exists_selectTiers_eq (R := R) hknown (R.seed s.rng paymentId.toUTF8.toList)
  have hlength := length_sample hforall
  have hsample : sample = _ := buildAuthSample_fst_eq hbbl hheight hselect out
  clear_value sample live
  subst hsample
  have htake : ((List.finRange tiers).flatMap (copied selected)).take authSampleSize
      = (List.finRange tiers).flatMap (copied selected) :=
    List.take_of_length_le (hlength.trans_le (min_le_left _ _))
  dsimp only
  rw [htake]
  refine ⟨hlength, ?_, fun sn hsn => ?_, ?_, ⟨selected, rng, hselect, fun i => ?_⟩, fun i => ?_⟩
  · -- the ids of the sample are among those of the list, which are different
    exact ((ids_sample_sublist hkeyed hknown hle hforall).trans (hlive.map _)).nodup hids
  · obtain ⟨i, -, hcopied⟩ := List.mem_flatMap.mp hsn
    obtain ⟨entry, hentry, hlist⟩ :=
      List.mem_filterMap.mp ((copied_sublist hforall i).subset hcopied)
    obtain ⟨src, j, hsrc, hj, hnow⟩ := hannounced i i.isLt entry hentry
    exact ⟨i, i.isLt, src, j, entry, hsrc, hj, hnow, hlist⟩
  · rw [decide_eq_true_eq, hlength, min_eq_left_iff]
  · obtain ⟨hnonneg, hupper, -⟩ := balance_selected selected i
    exact ⟨(selectedSize_eq hforall i).trans (by simp), hnonneg, hupper⟩
  · exact share_le_countP hkeyed hforall i

theorem live_sampleState :
    ((sampleState sampleRun₁).getBlockchainBasedListForAuthSample (fun _ _ => 3600) 200 []).2
      = sampleTiers := rfl

theorem nodup_sampleTiers : (sampleTiers.flatten.map (·.supernodePublicId)).Nodup := by decide

/-- Eight of ten supernodes, from tiers of which one has less than its share. -/
theorem buildAuthSample_size_eight :
    let sample := ((sampleState sampleRun₁).buildAuthSample mt19937_64 (fun _ _ => 3600) 200
      "payment" []).1
    sample.out.length = 8 ∧ sample.ok = true := by
  have hsize := buildAuthSample_size (R := mt19937_64) (reachable_sampleState sampleRun₁)
    sampleState_run₁.1 (by decide) nodup_sampleTiers (fun _ _ => 3600) "payment" []
  rw [live_sampleState] at hsize
  exact ⟨hsize.1.trans (by decide), hsize.2.2.2.1.mpr (by decide)⟩

end FullSupernodeList
