/-
# The block of an auth sample

`getBlockchainBasedListForAuthSample` is to return the number of the block whose list it filters,
and zero when there is no list.  The list is looked up under the number of the call, but the
number that is returned is `blockchainBasedListDelayBlockCount` below it.

* `baseEntry`: the entry of the cache that is filtered;
* `ReportsBase`: what the returned number is to say about this entry;
* `tier_of_available`: why the debug handler can look the tiers up again, if it has the number of
  the entry.
-/
import GraftSupernode.AuthSample
import GraftSupernode.BlockchainLists

namespace FullSupernodeList

variable {C : Crypto} {ρ : Type*} {R : RandomEngine ρ} {s : FullSupernodeList C ρ}
variable {clock : ℕ → ℕ → ℤ} {blockNumber : UInt64} {bbl : BlockchainBasedList} {id : String}

/-- What `m_blockchain_based_lists.find` gives: the number of a block and its list. -/
def baseEntry (s : FullSupernodeList C ρ) (blockNumber : UInt64) :
    Option (UInt64 × BlockchainBasedList) :=
  (s.findBlockchainBasedList blockNumber).map (blockNumber, ·)

/-- The entries of a list whose supernodes have been announced lately. -/
def announcedTiers (s : FullSupernodeList C ρ) (clock : ℕ → ℕ → ℤ) (bbl : BlockchainBasedList) :
    BlockchainBasedList :=
  bbl.mapIdx fun i src =>
    (src.zipIdx.filter fun e => s.announced (clock i e.2) e.1).map Prod.fst

/-- Zero is returned exactly when there is no list to filter; otherwise the number of its block
is, by the filter and by the sample that is built from it. -/
structure ReportsBase (R : RandomEngine ρ) (s : FullSupernodeList C ρ) (clock : ℕ → ℕ → ℤ)
    (blockNumber : UInt64) (list : BlockchainBasedList) (paymentId : String)
    (out : List (ListedSupernode C)) : Prop where
  zero_iff : (s.getBlockchainBasedListForAuthSample clock blockNumber list).1 = 0 ↔
    s.baseEntry blockNumber = none
  base : ∀ n bbl, s.baseEntry blockNumber = some (n, bbl) →
    s.getBlockchainBasedListForAuthSample clock blockNumber list = (n, s.announcedTiers clock bbl)
  sample : ∀ n bbl, s.baseEntry blockNumber = some (n, bbl) →
    (s.buildAuthSample R clock blockNumber paymentId out).1.outAuthBlockNumber = n

theorem baseEntry_eq_none : s.baseEntry blockNumber = none ↔
    s.findBlockchainBasedList blockNumber = none := Option.map_eq_none_iff

theorem getBlockchainBasedListForAuthSample_of_none
    (h : s.findBlockchainBasedList blockNumber = none) (list : BlockchainBasedList) :
    s.getBlockchainBasedListForAuthSample clock blockNumber list = (0, list) := by
  have hnone : s.blockchainBasedLists blockNumber = none := h
  simp only [getBlockchainBasedListForAuthSample, hnone]

theorem getBlockchainBasedListForAuthSample_of_some
    (h : s.findBlockchainBasedList blockNumber = some bbl) (list : BlockchainBasedList) :
    s.getBlockchainBasedListForAuthSample clock blockNumber list
      = (blockNumber - blockchainBasedListDelayBlockCount, s.announcedTiers clock bbl) := by
  have hsome : s.blockchainBasedLists blockNumber = some bbl := h
  simp only [getBlockchainBasedListForAuthSample, hsome]
  rfl

/-- The number of another block is returned, at any height. -/
theorem sub_delay_ne (blockNumber : UInt64) :
    blockNumber - blockchainBasedListDelayBlockCount ≠ blockNumber := by
  intro h
  have hdelay : blockchainBasedListDelayBlockCount = 0 := by
    calc blockchainBasedListDelayBlockCount
        = blockNumber - blockchainBasedListDelayBlockCount + blockchainBasedListDelayBlockCount
          - blockNumber := by rw [h, UInt64.add_comm, UInt64.add_sub_cancel]
      _ = 0 := by rw [UInt64.sub_add_cancel, UInt64.sub_self]
  revert hdelay
  decide

/-- **The block of the list is reported only where there is no list**. -/
theorem reportsBase_iff (R : RandomEngine ρ) (s : FullSupernodeList C ρ) (clock : ℕ → ℕ → ℤ)
    (blockNumber : UInt64) (list : BlockchainBasedList) (paymentId : String)
    (out : List (ListedSupernode C)) :
    s.ReportsBase R clock blockNumber list paymentId out ↔
      s.findBlockchainBasedList blockNumber = none := by
  constructor
  · intro h
    cases hfind : s.findBlockchainBasedList blockNumber with
    | none => rfl
    | some bbl =>
      have hbase := h.base blockNumber bbl (by rw [baseEntry, hfind]; rfl)
      rw [getBlockchainBasedListForAuthSample_of_some hfind] at hbase
      exact absurd (Prod.mk.inj hbase).1 (sub_delay_ne blockNumber)
  · intro hnone
    have hentry := baseEntry_eq_none.mpr hnone
    constructor
    · rw [getBlockchainBasedListForAuthSample_of_none hnone]
      exact iff_of_true rfl hentry
    · intro n bbl hbbl
      cases hentry.symm.trans hbbl
    · intro n bbl hbbl
      cases hentry.symm.trans hbbl

/-! ## Tiers -/

/-- The loops of `getSupernodeBlockchainBasedListTier`. -/
def tierNumber (id : String) : ℕ → BlockchainBasedList → ℕ
  | _, [] => 0
  | n, tier :: tiers =>
    if tier.any (·.supernodePublicId = id) then n else tierNumber id (n + 1) tiers

/-- `FullSupernodeList::getSupernodeBlockchainBasedListTier` -/
def getSupernodeBlockchainBasedListTier (s : FullSupernodeList C ρ) (id : String)
    (blockNumber : UInt64) : ℕ :=
  match s.findBlockchainBasedList blockNumber with
  | none => 0
  | some list => tierNumber id 1 list

/-- `is_supernode_available` of the debug handler `getSupernodeList`. -/
def isSupernodeAvailable (authSampleBaseList : BlockchainBasedList) (id : String) : Bool :=
  authSampleBaseList.any fun tier => tier.any (·.supernodePublicId = id)

theorem tierNumber_ne_zero {n : ℕ} (hn : n ≠ 0) (h : isSupernodeAvailable bbl id = true) :
    tierNumber id n bbl ≠ 0 := by
  induction bbl generalizing n with
  | nil => cases h
  | cons tier tiers ih =>
    rw [isSupernodeAvailable, List.any_cons, Bool.or_eq_true] at h
    rw [tierNumber]
    split
    · exact hn
    · rename_i htier
      exact ih (by omega) (h.resolve_left htier)

/-- The filter keeps only entries of the list. -/
theorem isSupernodeAvailable_of_announcedTiers
    (h : isSupernodeAvailable (s.announcedTiers clock bbl) id = true) :
    isSupernodeAvailable bbl id = true := by
  simp only [isSupernodeAvailable, List.any_eq_true] at h ⊢
  obtain ⟨tier, htier, entry, hentry, hid⟩ := h
  obtain ⟨i, hi, rfl⟩ := List.mem_mapIdx.mp htier
  obtain ⟨⟨entry', j⟩, hmem, rfl⟩ := List.mem_map.mp hentry
  have hentry' := (List.mem_zipIdx' (List.mem_filter.mp hmem).1).2
  exact ⟨bbl[i], List.getElem_mem hi, entry', hentry' ▸ List.getElem_mem _, hid⟩

/-- **A supernode that is available has a tier** in the list that was filtered. -/
theorem tier_of_available {n : UInt64} (hentry : s.baseEntry blockNumber = some (n, bbl))
    (h : isSupernodeAvailable (s.announcedTiers clock bbl) id = true) :
    s.getSupernodeBlockchainBasedListTier id n ≠ 0 := by
  obtain ⟨list, hlist, heq⟩ := Option.map_eq_some_iff.mp hentry
  cases heq
  unfold getSupernodeBlockchainBasedListTier
  rw [hlist]
  exact tierNumber_ne_zero Nat.one_ne_zero (isSupernodeAvailable_of_announcedTiers h)

/-- The list of block 200 is filtered, and block 190 is reported, where the supernode of the sample
has no tier. -/
theorem reportsBase_fails :
    let s := sampleState sampleRun₁
    let result := s.getBlockchainBasedListForAuthSample (fun _ _ => 3600) 200 []
    ¬ s.ReportsBase mt19937_64 (fun _ _ => 3600) 200 [] "payment" [] ∧
      result.1 = 190 ∧ isSupernodeAvailable result.2 "1" = true ∧
      s.getSupernodeBlockchainBasedListTier "1" 200 = 1 ∧
      s.getSupernodeBlockchainBasedListTier "1" result.1 = 0 := by
  intro s result
  have hfind : s.findBlockchainBasedList 200 = some sampleTiers := sampleState_run₁.1
  have hresult : result = (190, s.announcedTiers (fun _ _ => 3600) sampleTiers) :=
    getBlockchainBasedListForAuthSample_of_some hfind []
  refine ⟨fun h => ?_, congrArg Prod.fst hresult, ?_, ?_, ?_⟩
  · have hbase := h.base 200 sampleTiers (by rw [baseEntry, hfind]; rfl)
    exact absurd ((congrArg Prod.fst hresult).symm.trans (congrArg Prod.fst hbase)) (by decide)
  · rw [hresult]
    rfl
  · rw [getSupernodeBlockchainBasedListTier, hfind]
    rfl
  · rw [hresult]
    rfl

end FullSupernodeList
