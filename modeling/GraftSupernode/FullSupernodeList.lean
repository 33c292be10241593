/-
# The list of all supernodes

`FullSupernodeList` (`rta/fullsupernodelist.h`, `fullsupernodelist.cpp`): the supernodes
that are known, each under its public id, with the stakes and the blockchain based lists
that the cryptonode sends, and the samples of supernodes that authorise a payment.

The clock is an argument wherever the code reads it; `config::graft::SUPERNODE_HISTORY_SIZE`
belongs to the cryptonote library and is the parameter `historySize`.
-/
import GraftSupernode.RandomEngine
import GraftSupernode.Runs
import GraftSupernode.StateMachine
import GraftSupernode.Supernode
import Mathlib.Algebra.Group.Int.Defs
import Mathlib.Data.List.FinRange
import Mathlib.Data.List.Induction

/-- What a supernode has at stake. -/
structure Stake where
  amount : UInt64 := 0
  blockHeight : UInt64 := 0
  unlockTime : UInt64 := 0
  deriving DecidableEq

/-- `supernode_stake` -/
structure SupernodeStake extends Stake where
  supernodePublicId : String
  supernodePublicAddress : String
  deriving DecidableEq

/-- `SupernodeAnnounce` -/
structure SupernodeAnnounce where
  supernodePublicId : String
  height : UInt64
  signature : String
  networkAddress : String

/-- `Supernode`, with what the list of supernodes reads and writes. -/
structure ListedSupernode (C : Crypto) extends Supernode C where
  walletAddress : String
  stake : Stake

namespace ListedSupernode

variable {C : Crypto}

/-- `Supernode::Supernode` without a secret key. -/
def create (walletAddress : String) (idKey : C.PublicKey) (testnet : Bool) : ListedSupernode C :=
  ⟨⟨idKey, none, 0, testnet⟩, walletAddress, {}⟩

/-- `Supernode::setStake` -/
def setStake (sn : ListedSupernode C) (stake : Stake) : ListedSupernode C :=
  { sn with stake := stake }

/-- `Supernode::setLastUpdateTime` -/
def setLastUpdateTime (sn : ListedSupernode C) (time : ℤ) : ListedSupernode C :=
  { sn with lastUpdateTime := time }

/-- `Supernode::setWalletAddress` -/
def setWalletAddress (sn : ListedSupernode C) (address : String) : ListedSupernode C :=
  { sn with walletAddress := address }

/-- `Supernode::validateAnnounce`: the key of the announce. -/
def validateAnnounce (C : Crypto) (announce : SupernodeAnnounce) : Option C.PublicKey :=
  if announce.supernodePublicId = "" then none
  else
    match C.hexToPublicKey announce.supernodePublicId with
    | none => none
    | some idKey =>
      match C.hexToSignature announce.signature with
      | none => none
      | some sign =>
        let msg := announce.supernodePublicId ++ toString announce.height
        if Supernode.verifySignature C msg idKey sign then some idKey else none

/-- `Supernode::createFromAnnounce` -/
def createFromAnnounce (announce : SupernodeAnnounce) (now : ℤ) (testnet : Bool) :
    Option (ListedSupernode C) :=
  (validateAnnounce C announce).map fun idKey =>
    (create "" idKey testnet).setLastUpdateTime now

/-- `Supernode::updateFromAnnounce`; `none` for `false`. -/
def updateFromAnnounce (sn : ListedSupernode C) (announce : SupernodeAnnounce) (now : ℤ) :
    Option (ListedSupernode C) :=
  (validateAnnounce C announce).map fun _ => sn.setLastUpdateTime now

/-- `Supernode::createFromStake` -/
def createFromStake (stake : SupernodeStake) (now : ℤ) (testnet : Bool) :
    Option (ListedSupernode C) :=
  (C.hexToPublicKey stake.supernodePublicId).map fun idKey =>
    ((create stake.supernodePublicAddress idKey testnet).setLastUpdateTime now).setStake
      stake.toStake

end ListedSupernode

/-- `blockchain_based_list_entry` -/
structure BlockchainBasedListEntry where
  supernodePublicId : String
  supernodePublicAddress : String
  amount : UInt64
  deriving DecidableEq

/-- `blockchain_based_list_tier` -/
abbrev BlockchainBasedListTier := List BlockchainBasedListEntry

/-- `blockchain_based_list` -/
abbrev BlockchainBasedList := List BlockchainBasedListTier

/-- `FullSupernodeList`, over the states of its random engine. -/
structure FullSupernodeList (C : Crypto) (ρ : Type*) where
  list : String → Option (ListedSupernode C)
  blockchainBasedListMaxBlockNumber : UInt64
  stakesMaxBlockNumber : UInt64
  blockchainBasedLists : UInt64 → Option BlockchainBasedList
  rng : ρ

namespace FullSupernodeList

variable {C : Crypto} {ρ : Type*}

/-- `FullSupernodeList::TIERS` -/
def tiers : ℕ := 4

/-- `FullSupernodeList::ITEMS_PER_TIER` -/
def itemsPerTier : ℤ := 2

/-- `FullSupernodeList::AUTH_SAMPLE_SIZE` -/
def authSampleSize : ℕ := 8

/-- `FullSupernodeList::ANNOUNCE_TTL_SECONDS` -/
def announceTtlSeconds : UInt64 := 3600

/-- `BLOCKCHAIN_BASED_LIST_DELAY_BLOCK_COUNT` -/
def blockchainBasedListDelayBlockCount : UInt64 := 10

/-- `FullSupernodeList::FullSupernodeList` -/
def init (rng : ρ) : FullSupernodeList C ρ := ⟨fun _ => none, 0, 0, fun _ => none, rng⟩

/-! ## Supernodes -/

/-- The list with another entry, or none, under an id. -/
def store (s : FullSupernodeList C ρ) (id : String) (sn : Option (ListedSupernode C)) :
    FullSupernodeList C ρ :=
  { s with list := Function.update s.list id sn }

/-- What is stored under an id is there. -/
@[simp] theorem list_store_self (s : FullSupernodeList C ρ) (id : String)
    (sn : Option (ListedSupernode C)) : (s.store id sn).list id = sn :=
  Function.update_self _ _ _

/-- The other ids keep what they have. -/
theorem list_store_of_ne (s : FullSupernodeList C ρ) {id id' : String} (h : id' ≠ id)
    (sn : Option (ListedSupernode C)) : (s.store id sn).list id' = s.list id' :=
  Function.update_of_ne h _ _

/-- `FullSupernodeList::exists` -/
def exist (s : FullSupernodeList C ρ) (id : String) : Bool := (s.list id).isSome

/-- `FullSupernodeList::addImpl`: a supernode that is there already stays. -/
def addImpl (s : FullSupernodeList C ρ) (item : ListedSupernode C) : FullSupernodeList C ρ :=
  if s.exist item.idKeyAsString then s
  else s.store item.idKeyAsString (some item)

/-- `FullSupernodeList::add` -/
def add (s : FullSupernodeList C ρ) (item : ListedSupernode C) : Bool × FullSupernodeList C ρ :=
  if s.exist item.idKeyAsString then (false, s) else (true, s.addImpl item)

/-- `FullSupernodeList::remove` -/
def remove (s : FullSupernodeList C ρ) (id : String) : Bool × FullSupernodeList C ρ :=
  (s.exist id, s.store id none)

/-- A listed supernode is told the time of its last update. -/
def setLastUpdateTime (s : FullSupernodeList C ρ) (id : String) (time : ℤ) :
    FullSupernodeList C ρ :=
  s.store id ((s.list id).map (·.setLastUpdateTime time))

/-- `handleSupernodeAnnounce`, with the list and the supernode there: what becomes of the
list. -/
def handleSupernodeAnnounce (s : FullSupernodeList C ρ) (announce : SupernodeAnnounce) (now : ℤ)
    (testnet : Bool) : StateMachine.Status × FullSupernodeList C ρ :=
  match s.list announce.supernodePublicId with
  | some sn =>
    match sn.updateFromAnnounce announce now with
    | none => (.error, s)
    | some sn => (.ok, s.store announce.supernodePublicId (some sn))
  | none =>
    match ListedSupernode.createFromAnnounce announce now testnet with
    | none => (.error, s)
    -- that it could not be added is only logged
    | some sn => (.ok, (s.add sn).2)

/-! ## Stakes -/

/-- The first loop of `updateStakes`. -/
def clearStakes (s : FullSupernodeList C ρ) : FullSupernodeList C ρ :=
  { s with list := fun id => (s.list id).map (·.setStake {}) }

/-- One turn of the second loop of `updateStakes`. -/
def updateStake (now : ℤ) (testnet : Bool) (s : FullSupernodeList C ρ) (stake : SupernodeStake) :
    FullSupernodeList C ρ :=
  match s.list stake.supernodePublicId with
  | none =>
    match ListedSupernode.createFromStake stake now testnet with
    | none => s
    | some sn => s.addImpl sn
  | some sn =>
    let sn := (sn.setStake stake.toStake).setWalletAddress stake.supernodePublicAddress
    s.store stake.supernodePublicId (some sn)

/-- `FullSupernodeList::updateStakes` -/
def updateStakes (s : FullSupernodeList C ρ) (blockNumber : UInt64) (stakes : List SupernodeStake)
    (now : ℤ) (testnet : Bool) : FullSupernodeList C ρ :=
  if blockNumber ≤ s.stakesMaxBlockNumber then s
  else
    { (stakes.foldl (updateStake now testnet) s.clearStakes) with
      stakesMaxBlockNumber := blockNumber }

/-! ## Block numbers -/

/-- The highest of some block numbers. -/
def highestNumber (ns : List UInt64) : UInt64 := ns.foldl max 0

/-- The last number is the highest one unless there is a higher one before. -/
theorem highestNumber_append (ns : List UInt64) (n : UInt64) :
    highestNumber (ns ++ [n]) = if highestNumber ns ≤ n then n else highestNumber ns := by
  unfold highestNumber
  rw [List.foldl_append]
  rfl

/-- No number is above the highest one. -/
theorem le_highestNumber {ns : List UInt64} {n : UInt64} (h : n ∈ ns) : n ≤ highestNumber ns := by
  induction ns using List.reverseRecOn with
  | nil => cases h
  | append_singleton ns last ih =>
    rw [highestNumber_append]
    rcases List.mem_append.mp h with hmem | hmem
    · split
      · rename_i hle
        exact UInt64.le_trans (ih hmem) hle
      · exact ih hmem
    · rw [List.mem_singleton.mp hmem]
      split
      · exact UInt64.le_rfl
      · rename_i hle
        exact UInt64.le_of_lt (UInt64.not_le.mp hle)

/-- The highest number is zero, as it is of none, or one of the numbers. -/
theorem highestNumber_eq_zero_or_mem (ns : List UInt64) :
    highestNumber ns = 0 ∨ highestNumber ns ∈ ns := by
  induction ns using List.reverseRecOn with
  | nil => exact .inl rfl
  | append_singleton ns last ih =>
    rw [highestNumber_append]
    split
    · exact .inr (by simp)
    · rcases ih with hzero | hmem
      · exact .inl hzero
      · exact .inr (List.mem_append_left _ hmem)

/-- The highest of some numbers is one of them. -/
theorem highestNumber_mem {ns : List UInt64} (h : ns ≠ []) : highestNumber ns ∈ ns := by
  rcases highestNumber_eq_zero_or_mem ns with hzero | hmem
  · -- then every number is zero
    obtain ⟨n, ns', rfl⟩ := List.exists_cons_of_ne_nil h
    have hle : n ≤ highestNumber (n :: ns') := le_highestNumber List.mem_cons_self
    rw [hzero] at hle ⊢
    rw [← UInt64.le_zero_iff.mp hle]
    exact List.mem_cons_self
  · exact hmem

/-! ## Blockchain based lists -/

/-- `FullSupernodeList::setBlockchainBasedList` -/
def setBlockchainBasedList (historySize : UInt64) (s : FullSupernodeList C ρ) (blockNumber : UInt64)
    (list : BlockchainBasedList) : FullSupernodeList C ρ :=
  let lists := Function.update s.blockchainBasedLists blockNumber (some list)
  if (s.blockchainBasedLists blockNumber).isSome then { s with blockchainBasedLists := lists }
  else
    let maxBlockNumber :=
      if s.blockchainBasedListMaxBlockNumber < blockNumber then blockNumber
      else s.blockchainBasedListMaxBlockNumber
    let oldestBlockNumber := maxBlockNumber - historySize
    { s with
      blockchainBasedListMaxBlockNumber := maxBlockNumber
      blockchainBasedLists := fun n => if n < oldestBlockNumber then none else lists n }

/-- The age of an update: the time as an `unsigned`, the difference as a `uint64_t`. -/
def lastUpdateAge (now lastUpdateTime : ℤ) : UInt64 := UInt64.ofInt (now % 2 ^ 32 - lastUpdateTime)

/-- The supernode of an entry is known, and has been announced lately. -/
def announced (s : FullSupernodeList C ρ) (now : ℤ) (entry : BlockchainBasedListEntry) : Bool :=
  match s.list entry.supernodePublicId with
  | none => false
  | some sn => !decide (announceTtlSeconds < lastUpdateAge now sn.lastUpdateTime)

/-- `FullSupernodeList::getBlockchainBasedListForAuthSample`; `clock i j` is the time that is
read for the `j`-th entry of the `i`-th tier. -/
def getBlockchainBasedListForAuthSample (s : FullSupernodeList C ρ) (clock : ℕ → ℕ → ℤ)
    (blockNumber : UInt64) (list : BlockchainBasedList) : UInt64 × BlockchainBasedList :=
  match s.blockchainBasedLists blockNumber with
  | none => (0, list)
  | some bbl =>
    (blockNumber - blockchainBasedListDelayBlockCount,
      bbl.mapIdx fun i src =>
        (src.zipIdx.filter fun e => s.announced (clock i e.2) e.1).map Prod.fst)

/-! ## Samples -/

variable (R : RandomEngine ρ)

/-- The loop of `selectSupernodes`: `itemsCount` more supernodes out of the rest of the tier. -/
def selectLoop (s : FullSupernodeList C ρ) : ℕ → BlockchainBasedListTier →
    List (ListedSupernode C) → ρ → Bool × List (ListedSupernode C) × ρ
  | _, [], dst, rng => (true, dst, rng)
  | itemsCount, entry :: src, dst, rng =>
    match s.list entry.supernodePublicId with
    | none => (false, dst, rng)
    | some supernode =>
      let randomValue := (R.next rng).1.toNat % (src.length + 1)
      if itemsCount ≤ randomValue then s.selectLoop itemsCount src dst (R.next rng).2
      else s.selectLoop (itemsCount - 1) src (dst ++ [supernode]) (R.next rng).2

/-- `FullSupernodeList::selectSupernodes` -/
def selectSupernodes (s : FullSupernodeList C ρ) (itemsCount : ℕ) (src : BlockchainBasedListTier)
    (dst : List (ListedSupernode C)) (rng : ρ) : Bool × List (ListedSupernode C) × ρ :=
  s.selectLoop R (min itemsCount src.length) src dst rng

/-- The selections of a sample, one for each tier, or `none` when one fails. -/
def selectTiers (s : FullSupernodeList C ρ) :
    BlockchainBasedList → ρ → Option (List (List (ListedSupernode C))) × ρ
  | [], rng => (some [], rng)
  | src :: bbl, rng =>
    match s.selectSupernodes R authSampleSize src [] rng with
    | (false, _, rng) => (none, rng)
    | (true, dst, rng) => ((s.selectTiers bbl rng).1.map (dst :: ·), (s.selectTiers bbl rng).2)

/-- What tier `i` lacks is taken from tier `j`, as far as it has more than it gives. -/
def transfer (size : Fin tiers → ℤ) (i : Fin tiers) (p : (Fin tiers → ℤ) × ℤ) (j : Fin tiers) :
    (Fin tiers → ℤ) × ℤ :=
  let (select, deficit) := p
  let surplus := size j - select j
  if 0 < deficit ∧ i ≠ j ∧ 0 < surplus then
    let transfer := min deficit surplus
    let select := Function.update select i (select i - transfer)
    (Function.update select j (select j + transfer), deficit - transfer)
  else (select, deficit)

/-- One tier of the balance. -/
def balanceTier (size select : Fin tiers → ℤ) (i : Fin tiers) : Fin tiers → ℤ :=
  let (select, deficit) :=
    (List.finRange tiers).reverse.foldl (transfer size i) (select, select i - size i)
  if 0 < deficit then Function.update select i (select i - deficit) else select

/-- How many supernodes of each tier go into the sample. -/
def balance (size : Fin tiers → ℤ) : Fin tiers → ℤ :=
  (List.finRange tiers).foldl (balanceTier size) fun _ => itemsPerTier

/-- The flag, the supernodes and the block number of `buildAuthSample`. -/
structure AuthSample (C : Crypto) where
  ok : Bool
  out : List (ListedSupernode C)
  outAuthBlockNumber : UInt64

/-- `FullSupernodeList::buildAuthSample` -/
def buildAuthSample (s : FullSupernodeList C ρ) (clock : ℕ → ℕ → ℤ) (height : UInt64)
    (paymentId : String) (out : List (ListedSupernode C)) :
    AuthSample C × FullSupernodeList C ρ :=
  let (blockNumber, bbl) := s.getBlockchainBasedListForAuthSample clock height []
  if blockNumber = 0 then (⟨false, out, blockNumber⟩, s)
  else
    let seeded := R.seed s.rng paymentId.toUTF8.toList
    match s.selectTiers R (bbl.take tiers) seeded with
    | (none, rng) => (⟨false, out, blockNumber⟩, { s with rng := rng })
    | (some selected, rng) =>
      let tierSupernodes := fun i : Fin tiers => selected.getD i []
      let select := balance fun i => (tierSupernodes i).length
      let out := (List.finRange tiers).flatMap fun i =>
        (tierSupernodes i).take (select i).toNat
      let out := out.take authSampleSize
      (⟨out.length = authSampleSize, out, blockNumber⟩, { s with rng := rng })

/-! ## Runs -/

/-- What happens to the list. -/
inductive Event (C : Crypto)
  | add (item : ListedSupernode C)
  | announce (announce : SupernodeAnnounce) (now : ℤ) (testnet : Bool)
  | setLastUpdateTime (id : String) (time : ℤ)
  | remove (id : String)
  | updateStakes (blockNumber : UInt64) (stakes : List SupernodeStake) (now : ℤ) (testnet : Bool)
  | setBlockchainBasedList (blockNumber : UInt64) (list : BlockchainBasedList)
  | buildAuthSample (clock : ℕ → ℕ → ℤ) (height : UInt64) (paymentId : String)

/-- One event. -/
def step (historySize : UInt64) (s : FullSupernodeList C ρ) : Event C → FullSupernodeList C ρ
  | .add item => (s.add item).2
  | .announce announce now testnet => (s.handleSupernodeAnnounce announce now testnet).2
  | .setLastUpdateTime id time => s.setLastUpdateTime id time
  | .remove id => (s.remove id).2
  | .updateStakes blockNumber stakes now testnet => s.updateStakes blockNumber stakes now testnet
  | .setBlockchainBasedList blockNumber list => s.setBlockchainBasedList historySize blockNumber list
  | .buildAuthSample clock height paymentId => (s.buildAuthSample R clock height paymentId []).2

/-- The states of a list that was empty once. -/
def Reachable (historySize : UInt64) (s : FullSupernodeList C ρ) : Prop :=
  ∃ rng es, Runs.exec (step R historySize) (init rng) es = s

/-! ## Every supernode is stored under its own id -/

/-- Every supernode is stored under its own id. -/
def Keyed (s : FullSupernodeList C ρ) : Prop :=
  ∀ id sn, s.list id = some sn → sn.idKeyAsString = id

variable {R} {s : FullSupernodeList C ρ} {historySize : UInt64}

/-- A sample changes nothing but the engine. -/
theorem exists_buildAuthSample_eq (s : FullSupernodeList C ρ) (clock : ℕ → ℕ → ℤ) (height : UInt64)
    (paymentId : String) (out : List (ListedSupernode C)) :
    ∃ rng, (s.buildAuthSample R clock height paymentId out).2 = { s with rng := rng } := by
  unfold buildAuthSample
  dsimp only
  split
  · exact ⟨s.rng, rfl⟩
  · split
    · exact ⟨_, rfl⟩
    · exact ⟨_, rfl⟩

/-- A blockchain based list changes no supernode. -/
theorem setBlockchainBasedList_list (s : FullSupernodeList C ρ) (blockNumber : UInt64)
    (list : BlockchainBasedList) :
    (s.setBlockchainBasedList historySize blockNumber list).list = s.list := by
  unfold setBlockchainBasedList
  dsimp only
  split <;> rfl

namespace Keyed

/-- A list with fewer supernodes, or with other data of the same ones. -/
theorem mono (h : s.Keyed) {s' : FullSupernodeList C ρ}
    (hs' : ∀ id sn, s'.list id = some sn →
      ∃ sn', s.list id = some sn' ∧ sn.idKeyAsString = sn'.idKeyAsString) : s'.Keyed := by
  intro id sn hsn
  obtain ⟨sn', hsn', hkey⟩ := hs' id sn hsn
  rw [hkey]
  exact h id sn' hsn'

/-- One supernode is put into the list. -/
theorem store (h : s.Keyed) {id : String} {sn : ListedSupernode C} (hsn : sn.idKeyAsString = id) :
    (s.store id (some sn)).Keyed := by
  intro id' sn' hsn'
  by_cases hid : id' = id
  · subst hid
    rw [list_store_self] at hsn'
    cases hsn'
    exact hsn
  · rw [list_store_of_ne _ hid] at hsn'
    exact h id' sn' hsn'

/-- A supernode is added under its own id. -/
theorem addImpl (h : s.Keyed) (item : ListedSupernode C) : (s.addImpl item).Keyed := by
  unfold FullSupernodeList.addImpl
  split
  · exact h
  · exact h.store rfl

/-- A supernode is added under its own id, or not at all. -/
theorem add (h : s.Keyed) (item : ListedSupernode C) : (s.add item).2.Keyed := by
  unfold FullSupernodeList.add
  split
  · exact h
  · exact h.addImpl item

/-- An announce updates a supernode under its id, or adds one under its own. -/
theorem handleSupernodeAnnounce (h : s.Keyed) (announce : SupernodeAnnounce) (now : ℤ)
    (testnet : Bool) : (s.handleSupernodeAnnounce announce now testnet).2.Keyed := by
  unfold FullSupernodeList.handleSupernodeAnnounce
  split
  · rename_i sn hsn
    split
    · exact h
    · rename_i sn' hsn'
      obtain ⟨idKey, -, rfl⟩ := Option.map_eq_some_iff.mp hsn'
      exact h.store (h _ sn hsn)
  · split
    · exact h
    · exact h.add _

/-- The stakes are cleared under each id. -/
theorem clearStakes (h : s.Keyed) : s.clearStakes.Keyed := by
  apply h.mono
  intro id sn hsn
  obtain ⟨sn', hsn', rfl⟩ := Option.map_eq_some_iff.mp hsn
  exact ⟨sn', hsn', rfl⟩

/-- A stake is set under its id, or comes with a new supernode. -/
theorem updateStake (h : s.Keyed) (now : ℤ) (testnet : Bool) (stake : SupernodeStake) :
    (s.updateStake now testnet stake).Keyed := by
  unfold FullSupernodeList.updateStake
  split
  · split
    · exact h
    · exact h.addImpl _
  · rename_i sn hsn
    exact h.store (h _ sn hsn)

/-- The stakes of a block leave every supernode under its own id. -/
theorem updateStakes (h : s.Keyed) (blockNumber : UInt64) (stakes : List SupernodeStake) (now : ℤ)
    (testnet : Bool) : (s.updateStakes blockNumber stakes now testnet).Keyed := by
  unfold FullSupernodeList.updateStakes
  split
  · exact h
  · exact Runs.exec_of_step (I := Keyed) (fun _ stake h => h.updateStake now testnet stake)
      h.clearStakes stakes

/-- The time of an update does not change the id. -/
theorem setLastUpdateTime (h : s.Keyed) (id : String) (time : ℤ) :
    (s.setLastUpdateTime id time).Keyed := by
  apply h.mono
  intro id' sn hsn
  by_cases hid : id' = id
  · subst hid
    rw [FullSupernodeList.setLastUpdateTime, list_store_self] at hsn
    obtain ⟨sn', hsn', rfl⟩ := Option.map_eq_some_iff.mp hsn
    exact ⟨sn', hsn', rfl⟩
  · rw [FullSupernodeList.setLastUpdateTime, list_store_of_ne _ hid] at hsn
    exact ⟨sn, hsn, rfl⟩

/-- What is left when one is removed is stored as before. -/
theorem remove (h : s.Keyed) (id : String) : (s.remove id).2.Keyed := by
  apply h.mono
  intro id' sn hsn
  by_cases hid : id' = id
  · subst hid
    simp [FullSupernodeList.remove] at hsn
  · rw [show (s.remove id).2 = s.store id none from rfl, list_store_of_ne _ hid] at hsn
    exact ⟨sn, hsn, rfl⟩

/-- Only the supernodes matter. -/
theorem of_list (h : s.Keyed) {s' : FullSupernodeList C ρ} (hs' : s'.list = s.list) : s'.Keyed := by
  unfold Keyed
  rw [hs']
  exact h

/-- **Every event keeps it so**. -/
theorem step (h : s.Keyed) (e : Event C) : (s.step R historySize e).Keyed := by
  cases e with
  | add item => exact h.add item
  | announce announce now testnet => exact h.handleSupernodeAnnounce announce now testnet
  | setLastUpdateTime id time => exact h.setLastUpdateTime id time
  | remove id => exact h.remove id
  | updateStakes blockNumber stakes now testnet =>
    exact h.updateStakes blockNumber stakes now testnet
  | setBlockchainBasedList blockNumber list =>
    exact h.of_list (setBlockchainBasedList_list s blockNumber list)
  | buildAuthSample clock height paymentId =>
    obtain ⟨rng, hrng⟩ := exists_buildAuthSample_eq (R := R) s clock height paymentId []
    rw [FullSupernodeList.step, hrng]
    exact h.of_list rfl

/-- Every run keeps the supernodes under their own ids. -/
theorem exec (h : s.Keyed) (es : List (Event C)) :
    (Runs.exec (FullSupernodeList.step R historySize) s es).Keyed :=
  Runs.exec_of_step (I := Keyed) (fun _ e h => h.step e) h es

/-- In a list that was empty once, every supernode is stored under its own id. -/
theorem of_reachable (h : s.Reachable R historySize) : s.Keyed := by
  obtain ⟨rng, es, rfl⟩ := h
  apply exec
  intro id sn hsn
  cases hsn

end Keyed

end FullSupernodeList
