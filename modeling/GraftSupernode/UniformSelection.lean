/-
# The selection from a tier is uniform

`selectSupernodes` goes through a tier once and draws a number for each entry; what it takes
depends on the remainders only.  When all supernodes of the tier are known, this is selection
sampling: it takes as many as it can, in the order of the tier, and each choice of them comes from
the same number of sequences of remainders.
-/
import GraftSupernode.AuthSample
import GraftSupernode.SelectionSampling

open SelectionSampling

namespace FullSupernodeList

variable {C : Crypto} {ρ : Type*} {R : RandomEngine ρ} {s : FullSupernodeList C ρ}
variable {src : BlockchainBasedListTier}

/-- The remainders of the numbers that the engine gives for a tier of `n` entries. -/
def remainders (R : RandomEngine ρ) : ℕ → ρ → List ℕ
  | 0, _ => []
  | n + 1, rng => (R.next rng).1.toNat % (n + 1) :: remainders R n (R.next rng).2

theorem remainders_mem_sequences (n : ℕ) (rng : ρ) : remainders R n rng ∈ sequences n := by
  induction n generalizing rng with
  | zero => simp [remainders, sequences]
  | succ n ih =>
    rw [sequences, Finset.mem_image]
    refine ⟨((R.next rng).1.toNat % (n + 1), remainders R n (R.next rng).2), ?_, rfl⟩
    rw [Finset.mem_product, Finset.mem_range]
    exact ⟨Nat.mod_lt _ n.succ_pos, ih _⟩

/-- Every supernode of the tier is known. -/
def Known (s : FullSupernodeList C ρ) (src : BlockchainBasedListTier) : Prop :=
  ∀ entry ∈ src, s.exist entry.supernodePublicId = true

/-- The supernodes of a tier, in its order. -/
def supernodes (s : FullSupernodeList C ρ) (src : BlockchainBasedListTier) :
    List (ListedSupernode C) :=
  src.filterMap fun entry => s.list entry.supernodePublicId

theorem supernodes_cons {entry : BlockchainBasedListEntry} {sn : ListedSupernode C}
    (h : s.list entry.supernodePublicId = some sn) :
    s.supernodes (entry :: src) = sn :: s.supernodes src := List.filterMap_cons_some h

theorem length_supernodes (h : s.Known src) : (s.supernodes src).length = src.length := by
  induction src with
  | nil => rfl
  | cons entry src ih =>
    obtain ⟨sn, hsn⟩ := Option.isSome_iff_exists.mp (h entry List.mem_cons_self)
    rw [supernodes_cons hsn, List.length_cons, List.length_cons,
      ih fun e he => h e (List.mem_cons_of_mem _ he)]

/-- **What the loop takes**, by induction on the tier. -/
theorem exists_selectLoop_eq (h : s.Known src) (itemsCount : ℕ) (dst : List (ListedSupernode C))
    (rng : ρ) :
    ∃ rng', s.selectLoop R itemsCount src dst rng =
      (true, dst ++ pick (taken itemsCount (remainders R src.length rng)) (s.supernodes src),
        rng') := by
  induction src generalizing itemsCount dst rng with
  | nil => exact ⟨rng, by simp [selectLoop, supernodes]⟩
  | cons entry src ih =>
    obtain ⟨sn, hsn⟩ := Option.isSome_iff_exists.mp (h entry List.mem_cons_self)
    have ih := ih fun e he => h e (List.mem_cons_of_mem _ he)
    rw [supernodes_cons hsn, List.length_cons, remainders, taken]
    unfold selectLoop
    rw [hsn]
    dsimp only
    by_cases hskip : itemsCount ≤ (R.next rng).1.toNat % (src.length + 1)
    · rw [if_pos hskip, if_neg (Nat.not_lt.mpr hskip)]
      exact ih itemsCount dst (R.next rng).2
    · rw [if_neg hskip, if_pos (Nat.not_le.mp hskip)]
      obtain ⟨rng', hrest⟩ := ih (itemsCount - 1) (dst ++ [sn]) (R.next rng).2
      refine ⟨rng', ?_⟩
      rw [hrest, List.append_assoc]
      rfl

/-- `selectSupernodes` takes as many as it can, in the order of the tier. -/
theorem exists_selectSupernodes_eq (h : s.Known src) (itemsCount : ℕ)
    (dst : List (ListedSupernode C)) (rng : ρ) :
    let sel := pick (taken (min itemsCount src.length) (remainders R src.length rng))
      (s.supernodes src)
    (∃ rng', s.selectSupernodes R itemsCount src dst rng = (true, dst ++ sel, rng')) ∧
      sel.length = min itemsCount src.length ∧ sel.Sublist (s.supernodes src) := by
  intro sel
  have hrs := remainders_mem_sequences (R := R) src.length rng
  have hlength : (taken (min itemsCount src.length) (remainders R src.length rng)).length
      = (s.supernodes src).length := by
    rw [length_taken, length_supernodes h]
    exact (mem_sequences.mp hrs).1
  refine ⟨exists_selectLoop_eq h _ dst rng, ?_, pick_sublist _ _⟩
  exact (length_pick hlength).trans (count_taken hrs (min_le_right _ _))

/-- **The selection is uniform**: it appends `k` supernodes of the tier, those at the positions that
the remainders take, and each set of `k` positions is taken by `k! (n - k)!` of the `n!`
sequences of remainders. -/
theorem selectSupernodes_uniform (h : s.Known src) (itemsCount : ℕ) :
    let n := src.length
    let k := min itemsCount n
    (∀ dst rng, ∃ rs ∈ sequences n,
      rs = remainders R n rng ∧
      (∃ rng', s.selectSupernodes R itemsCount src dst rng =
        (true, dst ++ pick (taken k rs) (s.supernodes src), rng')) ∧
      (pick (taken k rs) (s.supernodes src)).length = k ∧
      (pick (taken k rs) (s.supernodes src)).Sublist (s.supernodes src)) ∧
    (∀ rs, rs ∈ sequences n ↔ rs.length = n ∧ ∀ i r, rs[i]? = some r → r < n - i) ∧
    (sequences n).card = n.factorial ∧
    ∀ S ⊆ Finset.range n, S.card = k →
      ((sequences n).filter fun rs => positions (taken k rs) = S).card
        = k.factorial * (n - k).factorial := by
  intro n k
  refine ⟨fun dst rng => ?_, fun rs => mem_sequences, card_sequences n,
    fun S hS hcard => card_positions hS hcard⟩
  obtain ⟨hselect, hlength, hsublist⟩ := exists_selectSupernodes_eq (R := R) h itemsCount dst rng
  exact ⟨_, remainders_mem_sequences n rng, rfl, hselect, hlength, hsublist⟩

theorem known_sampleState {src : BlockchainBasedListTier} (hsrc : src ∈ sampleTiers) :
    (sampleState sampleRun₁).Known src := fun entry hentry =>
  exist_of_announced (sampleState_run₁.2 src hsrc entry hentry)

/-- Two of the three supernodes of the first tier: its first and its last one are taken by two of
the six sequences. -/
theorem selectSupernodes_uniform_two :
    (sequences 3).card = 6 ∧
      ((sequences 3).filter fun rs => positions (taken 2 rs) = {0, 2}).card = 2 := by
  have hknown : (sampleState sampleRun₁).Known ([1, 2, 3].map sampleEntry) :=
    known_sampleState List.mem_cons_self
  obtain ⟨-, -, hcard, htaken⟩ := selectSupernodes_uniform (R := mt19937_64) hknown 2
  exact ⟨hcard, htaken {0, 2} (by decide) rfl⟩

end FullSupernodeList
