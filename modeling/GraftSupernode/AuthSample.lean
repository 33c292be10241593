/-
# All supernodes build the same sample

Supernodes that hold the same blockchain based list and agree on who has been announced
build the same sample for a payment, whatever else their lists hold and whatever
their random engines were used for before.

The selections of two lists are compared by the ids of the supernodes in them: an entry of
the list names the id, and every supernode is stored under its own (`Keyed`).
-/
import GraftSupernode.AuthVotes
import GraftSupernode.FullSupernodeList
import Mathlib.Data.List.GetD

namespace FullSupernodeList

variable {C : Crypto} {ρ : Type*} {R : RandomEngine ρ} {historySize : UInt64}
variable {s₁ s₂ : FullSupernodeList C ρ}

/-- The ids of supernodes, in their order. -/
def ids (sns : List (ListedSupernode C)) : List String := sns.map (·.idKeyAsString)

/-- For each entry of the list, both know a supernode with a recent update, or neither does. -/
def SameAnnounced (s₁ s₂ : FullSupernodeList C ρ) (clock₁ clock₂ : ℕ → ℕ → ℤ)
    (bbl : BlockchainBasedList) : Prop :=
  ∀ i src, bbl[i]? = some src → ∀ j entry, src[j]? = some entry →
    s₁.announced (clock₁ i j) entry = s₂.announced (clock₂ i j) entry

/-! ## The filtered list -/

theorem exist_of_announced {s : FullSupernodeList C ρ} {now : ℤ} {entry : BlockchainBasedListEntry}
    (h : s.announced now entry = true) : s.exist entry.supernodePublicId = true := by
  unfold announced at h
  unfold exist
  split at h
  · cases h
  · rename_i sn hsn
    rw [hsn]
    rfl

/-- The same list is filtered alike. -/
theorem getBlockchainBasedListForAuthSample_congr {clock₁ clock₂ : ℕ → ℕ → ℤ} {height : UInt64}
    (hbbl : s₁.blockchainBasedLists height = s₂.blockchainBasedLists height)
    (hsame : ∀ bbl, s₁.blockchainBasedLists height = some bbl →
      SameAnnounced s₁ s₂ clock₁ clock₂ bbl) (list : BlockchainBasedList) :
    s₁.getBlockchainBasedListForAuthSample clock₁ height list
      = s₂.getBlockchainBasedListForAuthSample clock₂ height list := by
  unfold getBlockchainBasedListForAuthSample
  rw [← hbbl]
  cases h : s₁.blockchainBasedLists height with
  | none => rfl
  | some bbl =>
    refine Prod.ext rfl (List.ext_getElem? fun i => ?_)
    simp only [List.getElem?_mapIdx]
    cases hsrc : bbl[i]? with
    | none => rfl
    | some src =>
      simp only [Option.map_some]
      congr 2
      apply List.filter_congr
      rintro ⟨entry, j⟩ hentry
      rw [List.mk_mem_zipIdx_iff_getElem?] at hentry
      exact hsame bbl h i src hsrc j entry hentry

/-- Every entry of the filtered list is known. -/
theorem exist_of_mem_filtered {s : FullSupernodeList C ρ} {clock : ℕ → ℕ → ℤ} {height : UInt64}
    {src : BlockchainBasedListTier} {entry : BlockchainBasedListEntry}
    (hsrc : src ∈ (s.getBlockchainBasedListForAuthSample clock height []).2) (hentry : entry ∈ src) :
    s.exist entry.supernodePublicId = true := by
  unfold getBlockchainBasedListForAuthSample at hsrc
  split at hsrc
  · cases hsrc
  · obtain ⟨i, hi, rfl⟩ := List.mem_mapIdx.mp hsrc
    obtain ⟨⟨e, j⟩, he, rfl⟩ := List.mem_map.mp hentry
    exact exist_of_announced (List.mem_filter.mp he).2

/-! ## The selection -/

/-- Two selections with the same outcome and the same ids, and engines that go on alike. -/
structure SameSelection (R : RandomEngine ρ) (r₁ r₂ : Bool × List (ListedSupernode C) × ρ) :
    Prop where
  ok : r₁.1 = r₂.1
  ids : ids r₁.2.1 = ids r₂.2.1
  rng : R.SameOutputs r₁.2.2 r₂.2.2

/-- By induction on the tier: both take the same entries. -/
theorem selectLoop_same (h₁ : s₁.Keyed) (h₂ : s₂.Keyed) (src : BlockchainBasedListTier)
    (hsrc : ∀ entry ∈ src, s₁.exist entry.supernodePublicId = s₂.exist entry.supernodePublicId)
    (itemsCount : ℕ) {dst₁ dst₂ : List (ListedSupernode C)} (hdst : ids dst₁ = ids dst₂)
    {rng₁ rng₂ : ρ} (hrng : R.SameOutputs rng₁ rng₂) :
    SameSelection R (s₁.selectLoop R itemsCount src dst₁ rng₁)
      (s₂.selectLoop R itemsCount src dst₂ rng₂) := by
  induction src generalizing itemsCount dst₁ dst₂ rng₁ rng₂ with
  | nil => exact ⟨rfl, hdst, hrng⟩
  | cons entry src ih =>
    have hknown := hsrc entry List.mem_cons_self
    have hrest : ∀ e ∈ src, s₁.exist e.supernodePublicId = s₂.exist e.supernodePublicId :=
      fun e he => hsrc e (List.mem_cons_of_mem _ he)
    unfold exist at hknown
    unfold selectLoop
    cases hsn₁ : s₁.list entry.supernodePublicId with
    | none =>
      rw [hsn₁] at hknown
      rw [Option.isSome_eq_false_iff.mp hknown.symm |> Option.isNone_iff_eq_none.mp]
      exact ⟨rfl, hdst, hrng⟩
    | some sn₁ =>
      rw [hsn₁] at hknown
      obtain ⟨sn₂, hsn₂⟩ := Option.isSome_iff_exists.mp hknown.symm
      rw [hsn₂]
      -- both draw the same number, and what they take has the id of the entry
      have hid : sn₁.idKeyAsString = sn₂.idKeyAsString := (h₁ _ _ hsn₁).trans (h₂ _ _ hsn₂).symm
      have htaken : ids (dst₁ ++ [sn₁]) = ids (dst₂ ++ [sn₂]) := by
        simp only [FullSupernodeList.ids, List.map_append, List.map_cons, List.map_nil] at hdst ⊢
        rw [hdst, hid]
      dsimp only
      rw [hrng.fst]
      split
      · exact ih hrest _ hdst hrng.snd
      · exact ih hrest _ htaken hrng.snd

/-- The selections of all tiers. -/
theorem selectTiers_same (h₁ : s₁.Keyed) (h₂ : s₂.Keyed) (bbl : BlockchainBasedList)
    (hbbl : ∀ src ∈ bbl, ∀ entry ∈ src,
      s₁.exist entry.supernodePublicId = s₂.exist entry.supernodePublicId)
    {rng₁ rng₂ : ρ} (hrng : R.SameOutputs rng₁ rng₂) :
    (s₁.selectTiers R bbl rng₁).1.map (List.map ids)
      = (s₂.selectTiers R bbl rng₂).1.map (List.map ids) := by
  induction bbl generalizing rng₁ rng₂ with
  | nil => rfl
  | cons src bbl ih =>
    have hsel := selectLoop_same h₁ h₂ src (hbbl src List.mem_cons_self)
      (min authSampleSize src.length) (Eq.refl (ids [])) hrng
    unfold selectTiers selectSupernodes
    generalize s₁.selectLoop R _ src [] rng₁ = r₁ at hsel ⊢
    generalize s₂.selectLoop R _ src [] rng₂ = r₂ at hsel ⊢
    obtain ⟨ok₁, dst₁, rng₁⟩ := r₁
    obtain ⟨ok₂, dst₂, rng₂⟩ := r₂
    obtain ⟨rfl, hids, hrng⟩ := hsel
    have ih := ih (fun src hsrc => hbbl src (List.mem_cons_of_mem _ hsrc)) hrng
    cases ok₁ with
    | false => rfl
    | true =>
      have hcons : ∀ (dst : List (ListedSupernode C)) o,
          (Option.map (dst :: ·) o).map (List.map ids)
            = (o.map (List.map ids)).map (ids dst :: ·) := by
        intro dst o
        cases o <;> rfl
      dsimp only at hids ⊢
      rw [hcons, hcons, ih, hids]

/-- The sample that is put together from the selections depends on their ids only. -/
theorem ids_flatMap_take {selected₁ selected₂ : List (List (ListedSupernode C))}
    (h : selected₁.map ids = selected₂.map ids) :
    let sample := fun selected : List (List (ListedSupernode C)) =>
      let tierSupernodes := fun i : Fin tiers => selected.getD i []
      (List.finRange tiers).flatMap fun i => (tierSupernodes i).take
        (balance (fun i => ((tierSupernodes i).length : ℤ)) i).toNat
    ids (sample selected₁) = ids (sample selected₂) := by
  have htier (i : ℕ) : ids (selected₁.getD i []) = ids (selected₂.getD i []) := by
    have hget : (selected₁.map ids).getD i [] = (selected₂.map ids).getD i [] := by rw [h]
    rwa [show ([] : List String) = ids ([] : List (ListedSupernode C)) from rfl, List.getD_map,
      List.getD_map] at hget
  have hlength (i : ℕ) : (selected₁.getD i []).length = (selected₂.getD i []).length := by
    have hlen := congrArg List.length (htier i)
    rwa [FullSupernodeList.ids, List.length_map, FullSupernodeList.ids, List.length_map] at hlen
  intro sample
  show List.map _ (List.flatMap _ _) = List.map _ (List.flatMap _ _)
  rw [List.map_flatMap, List.map_flatMap]
  simp only [List.map_take, hlength]
  congr 1
  funext i
  exact congrArg (List.take _) (htier i)

/-- **Auth samples agree**. -/
theorem buildAuthSample_agrees (hR : R.SeedDetermines) (h₁ : s₁.Reachable R historySize)
    (h₂ : s₂.Reachable R historySize) {clock₁ clock₂ : ℕ → ℕ → ℤ} {height : UInt64}
    (hbbl : s₁.blockchainBasedLists height = s₂.blockchainBasedLists height)
    (hsame : ∀ bbl, s₁.blockchainBasedLists height = some bbl →
      SameAnnounced s₁ s₂ clock₁ clock₂ bbl)
    (paymentId : String) {out₁ out₂ : List (ListedSupernode C)} (hout : ids out₁ = ids out₂) :
    let sample₁ := (s₁.buildAuthSample R clock₁ height paymentId out₁).1
    let sample₂ := (s₂.buildAuthSample R clock₂ height paymentId out₂).1
    sample₁.ok = sample₂.ok ∧ sample₁.outAuthBlockNumber = sample₂.outAuthBlockNumber ∧
      ids sample₁.out = ids sample₂.out := by
  have hfiltered := getBlockchainBasedListForAuthSample_congr hbbl hsame []
  have hknown : ∀ src ∈ (s₁.getBlockchainBasedListForAuthSample clock₁ height []).2.take tiers,
      ∀ entry ∈ src, s₁.exist entry.supernodePublicId = s₂.exist entry.supernodePublicId := by
    intro src hsrc entry hentry
    have hmem := List.mem_of_mem_take hsrc
    rw [exist_of_mem_filtered hmem hentry, exist_of_mem_filtered (hfiltered ▸ hmem) hentry]
  have htiers := selectTiers_same (R := R) (Keyed.of_reachable h₁) (Keyed.of_reachable h₂) _ hknown
    (hR s₁.rng s₂.rng paymentId.toUTF8.toList)
  unfold buildAuthSample
  rw [← hfiltered]
  generalize s₁.getBlockchainBasedListForAuthSample clock₁ height [] = filtered at htiers
  dsimp only
  split
  · exact ⟨rfl, rfl, hout⟩
  · -- the selections fail together, or have the same ids
    generalize s₁.selectTiers R _ _ = r₁ at htiers
    generalize s₂.selectTiers R _ _ = r₂ at htiers
    obtain ⟨selected₁, rng₁⟩ := r₁
    obtain ⟨selected₂, rng₂⟩ := r₂
    cases selected₁ with
    | none =>
      cases selected₂ with
      | none => exact ⟨rfl, rfl, hout⟩
      | some selected₂ => cases htiers
    | some selected₁ =>
      cases selected₂ with
      | none => cases htiers
      | some selected₂ =>
        have hids := ids_flatMap_take (Option.some_injective _ htiers)
        dsimp only at hids ⊢
        have htake := congrArg (List.take authSampleSize) hids
        simp only [FullSupernodeList.ids, ← List.map_take] at htake
        have hlength := congrArg List.length htake
        simp only [List.length_map] at hlength
        refine ⟨?_, rfl, htake⟩
        rw [hlength]

open Request (sampleExternals podToHex)

def sampleListed (key : List ℕ) : ListedSupernode sampleExternals.toCrypto := .create "" key false

def sampleEntry (key : ℕ) : BlockchainBasedListEntry := ⟨podToHex [key], "", 0⟩

/-- Ten supernodes in four tiers; eight are taken. -/
def sampleTiers : BlockchainBasedList :=
  [[1, 2, 3], [4, 5, 6], [7], [8, 9, 10]].map (List.map sampleEntry)

/-- A list that holds the ten and the tiers. -/
def sampleRun₁ : List (Event sampleExternals.toCrypto) :=
  ((List.range' 1 10).map fun key => .add (sampleListed [key])) ++
    [.setBlockchainBasedList 200 sampleTiers]

/-- A list that has added them in another order, holds another one too, has heard of one of them
again and has built a sample before. -/
def sampleBefore : List (Event sampleExternals.toCrypto) :=
  ((List.range' 1 11).reverse.map fun key => .add (sampleListed [key])) ++
    [.setLastUpdateTime "1" 100, .setBlockchainBasedList 199 [[sampleEntry 11, sampleEntry 3]]]

@[inherit_doc sampleBefore]
def sampleRun₂ : List (Event sampleExternals.toCrypto) :=
  sampleBefore ++ [.buildAuthSample (fun _ _ => 50) 199 "before"] ++
    [.setBlockchainBasedList 200 sampleTiers]

def sampleState (es : List (Event sampleExternals.toCrypto)) :
    FullSupernodeList sampleExternals.toCrypto Mt19937_64 :=
  Runs.exec (step mt19937_64 100) (init ⟨#[], 0⟩) es

theorem sampleState_append (es : List (Event sampleExternals.toCrypto))
    (e : Event sampleExternals.toCrypto) :
    sampleState (es ++ [e]) = step mt19937_64 100 (sampleState es) e :=
  Runs.exec_append _ _ _ _

theorem reachable_sampleState (es : List (Event sampleExternals.toCrypto)) :
    (sampleState es).Reachable mt19937_64 100 :=
  ⟨_, es, rfl⟩

theorem sampleState_run₁ :
    (sampleState sampleRun₁).blockchainBasedLists 200 = some sampleTiers ∧
      ∀ src ∈ sampleTiers, ∀ entry ∈ src,
        (sampleState sampleRun₁).announced 3600 entry = true :=
  ⟨rfl, by decide +kernel⟩

theorem sampleState_before :
    (sampleState sampleBefore).blockchainBasedLists 200 = none ∧
      (sampleState sampleBefore).blockchainBasedListMaxBlockNumber = 199 ∧
      ∀ src ∈ sampleTiers, ∀ entry ∈ src,
        (sampleState sampleBefore).announced 200 entry = true :=
  ⟨rfl, rfl, by decide +kernel⟩

theorem sampleState_run₂ :
    (sampleState sampleRun₂).blockchainBasedLists 200 = some sampleTiers ∧
      ∀ src ∈ sampleTiers, ∀ entry ∈ src,
        (sampleState sampleRun₂).announced 200 entry = true := by
  obtain ⟨hlists, hmax, hannounced⟩ := sampleState_before
  obtain ⟨rng, hrng⟩ := exists_buildAuthSample_eq (R := mt19937_64) (sampleState sampleBefore)
    (fun _ _ => 50) 199 "before" []
  have hstate : sampleState sampleRun₂ = setBlockchainBasedList 100
      { (sampleState sampleBefore) with rng := rng } 200 sampleTiers := by
    rw [sampleRun₂, sampleState_append, sampleState_append, step, step, hrng]
  rw [hstate]
  constructor
  · simp [setBlockchainBasedList, hlists, hmax]
  · intro src hsrc entry hentry
    have hentry := hannounced src hsrc entry hentry
    unfold announced at hentry ⊢
    rw [setBlockchainBasedList_list]
    exact hentry

/-- Two lists with different histories. -/
theorem buildAuthSample_agrees_runs :
    let sample₁ := ((sampleState sampleRun₁).buildAuthSample mt19937_64 (fun _ _ => 3600) 200
      "payment" []).1
    let sample₂ := ((sampleState sampleRun₂).buildAuthSample mt19937_64 (fun _ _ => 200) 200
      "payment" []).1
    sample₁.ok = sample₂.ok ∧ sample₁.outAuthBlockNumber = sample₂.outAuthBlockNumber ∧
      ids sample₁.out = ids sample₂.out := by
  obtain ⟨hlist₁, hannounced₁⟩ := sampleState_run₁
  obtain ⟨hlist₂, hannounced₂⟩ := sampleState_run₂
  refine buildAuthSample_agrees seedDetermines_mt19937_64
    (reachable_sampleState sampleRun₁) (reachable_sampleState sampleRun₂)
    (hlist₁.trans hlist₂.symm) ?_ "payment" (Eq.refl (ids []))
  intro bbl hbbl i src hsrc j entry hentry
  rw [hlist₁] at hbbl
  cases hbbl
  have hsrc := List.mem_of_getElem? hsrc
  have hentry := List.mem_of_getElem? hentry
  exact (hannounced₁ src hsrc entry hentry).trans (hannounced₂ src hsrc entry hentry).symm

end FullSupernodeList
