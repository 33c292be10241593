/-
# Stakes do not depend on the order of their messages

The cryptonode sends the stakes of a block to every supernode; the messages can be repeated,
and come in any order.  What the list holds afterwards is written down without the list
(`settled`): the stakes of the first message with the highest block number.  Supernodes
are announced in between, and start without a stake.
-/
import GraftSupernode.AuthVotes
import GraftSupernode.FullSupernodeList

namespace FullSupernodeList

variable {C : Crypto} {ρ : Type*} {R : RandomEngine ρ} {historySize : UInt64}
variable {s : FullSupernodeList C ρ}

/-! ## The stakes of a sequence of messages -/

/-- The block number and the entries of a call of `updateStakes`. -/
structure StakesMessage where
  blockNumber : UInt64
  stakes : List SupernodeStake

/-- The messages among the events, in their order. -/
def messages (es : List (Event C)) : List StakesMessage :=
  es.filterMap fun
    | .updateStakes blockNumber stakes _ _ => some ⟨blockNumber, stakes⟩
    | _ => none

/-- The highest block number of the messages. -/
def highest (msgs : List StakesMessage) : UInt64 := (msgs.map (·.blockNumber)).foldl max 0

/-- The last entry for an id. -/
def lastEntry (stakes : List SupernodeStake) (id : String) : Option SupernodeStake :=
  (stakes.filter (·.supernodePublicId = id)).getLast?

/-- The stake of an id in the first message with the highest block number. -/
def settled (msgs : List StakesMessage) (id : String) : Stake :=
  ((msgs.find? (·.blockNumber = highest msgs)).bind (lastEntry ·.stakes id)).elim {} (·.toStake)

/-- The last message has the highest block unless one before has a higher one. -/
theorem highest_append (msgs : List StakesMessage) (msg : StakesMessage) :
    highest (msgs ++ [msg])
      = if highest msgs ≤ msg.blockNumber then msg.blockNumber else highest msgs := by
  unfold highest
  rw [List.map_append]
  exact highestNumber_append _ _

/-- No message has a block above the highest one. -/
theorem le_highest {msgs : List StakesMessage} {msg : StakesMessage} (h : msg ∈ msgs) :
    msg.blockNumber ≤ highest msgs :=
  le_highestNumber (List.mem_map_of_mem h)

/-- The highest block is that of a message, or there is none. -/
theorem highest_eq_zero_or (msgs : List StakesMessage) :
    highest msgs = 0 ∨ ∃ msg ∈ msgs, msg.blockNumber = highest msgs := by
  rcases highestNumber_eq_zero_or_mem (msgs.map (·.blockNumber)) with hzero | hmem
  · exact .inl hzero
  · exact .inr (List.mem_map.mp hmem)

/-- A message that is not above the highest block number so far settles nothing. -/
theorem settled_append_of_le {msgs : List StakesMessage} {msg : StakesMessage}
    (hpos : 1 ≤ msg.blockNumber) (h : msg.blockNumber ≤ highest msgs) :
    highest (msgs ++ [msg]) = highest msgs ∧ settled (msgs ++ [msg]) = settled msgs := by
  have hhighest : highest (msgs ++ [msg]) = highest msgs := by
    rw [highest_append]
    split
    · rename_i hle
      exact UInt64.le_antisymm h hle
    · rfl
  refine ⟨hhighest, ?_⟩
  -- an earlier message has this block number, and is found first
  have hne : highest msgs ≠ 0 := by
    intro hzero
    rw [hzero] at h
    have habsurd := UInt64.le_trans hpos h
    revert habsurd
    decide
  obtain ⟨first, hmem, hfirst⟩ := (highest_eq_zero_or msgs).resolve_left hne
  have hsome : (msgs.find? (·.blockNumber = highest msgs)).isSome := by
    rw [List.find?_isSome]
    exact ⟨first, hmem, decide_eq_true hfirst⟩
  funext id
  unfold settled
  rw [hhighest, List.find?_append, Option.or_of_isSome hsome]

/-- A message above it settles all stakes. -/
theorem settled_append_of_lt {msgs : List StakesMessage} {msg : StakesMessage}
    (h : highest msgs < msg.blockNumber) :
    highest (msgs ++ [msg]) = msg.blockNumber ∧
      ∀ id, settled (msgs ++ [msg]) id = (lastEntry msg.stakes id).elim {} (·.toStake) := by
  have hhighest : highest (msgs ++ [msg]) = msg.blockNumber := by
    rw [highest_append, if_pos (UInt64.le_of_lt h)]
  refine ⟨hhighest, fun id => ?_⟩
  have hnone : msgs.find? (·.blockNumber = msg.blockNumber) = none := by
    rw [List.find?_eq_none]
    intro earlier hmem
    have hlt := UInt64.lt_of_le_of_lt (le_highest hmem) h
    simp [UInt64.ne_of_lt hlt]
  unfold settled
  rw [hhighest, List.find?_append, hnone]
  simp

/-! ## The stakes in the list -/

/-- The stake of the supernode under an id; zero while there is none. -/
def stakeOf (s : FullSupernodeList C ρ) (id : String) : Stake :=
  (s.list id).elim {} (·.stake)

/-- The stake of a supernode is the one it is stored with. -/
theorem stakeOf_store (id id' : String) (sn : ListedSupernode C) :
    (s.store id (some sn)).stakeOf id' = if id' = id then sn.stake else s.stakeOf id' := by
  unfold stakeOf
  by_cases h : id' = id
  · rw [if_pos h, h, list_store_self]
    rfl
  · rw [if_neg h, list_store_of_ne s h]

/-- The hex form of a key, as `pod_to_hex` writes it. -/
def Canonical (C : Crypto) (id : String) : Prop :=
  ∃ key, C.hexToPublicKey id = some key ∧ C.publicKeyToHex key = id

/-- One entry sets the stake under its id, whether the supernode was there or not. -/
theorem stakeOf_updateStake {stake : SupernodeStake} (h : Canonical C stake.supernodePublicId)
    (now : ℤ) (testnet : Bool) (id : String) :
    (s.updateStake now testnet stake).stakeOf id
      = if id = stake.supernodePublicId then stake.toStake else s.stakeOf id := by
  obtain ⟨key, hkey, hid⟩ := h
  unfold updateStake
  cases hsn : s.list stake.supernodePublicId with
  | none =>
    have hcreate := congrArg (Option.map fun idKey =>
      ((ListedSupernode.create stake.supernodePublicAddress idKey testnet).setLastUpdateTime
        now).setStake stake.toStake) hkey
    rw [← ListedSupernode.createFromStake, Option.map_some] at hcreate
    rw [hcreate]
    dsimp only
    rw [addImpl, Supernode.idKeyAsString]
    simp only [ListedSupernode.setStake, ListedSupernode.setLastUpdateTime, ListedSupernode.create,
      hid, exist, hsn, Option.isSome_none, Bool.false_eq_true, if_false]
    exact stakeOf_store _ _ _
  | some sn => exact stakeOf_store _ _ _

/-- The last entry of an id decides, and without one the stake is as before. -/
theorem stakeOf_foldl {stakes : List SupernodeStake}
    (h : ∀ stake ∈ stakes, Canonical C stake.supernodePublicId) (now : ℤ) (testnet : Bool)
    (id : String) :
    (stakes.foldl (updateStake now testnet) s).stakeOf id
      = (lastEntry stakes id).elim (s.stakeOf id) (·.toStake) := by
  induction stakes using List.reverseRecOn with
  | nil => rfl
  | append_singleton stakes last ih =>
    have ih := ih fun stake hstake => h stake (List.mem_append_left _ hstake)
    rw [List.foldl_append, List.foldl_cons, List.foldl_nil,
      stakeOf_updateStake (h last (by simp)), ih]
    unfold lastEntry
    rw [List.filter_append, List.getLast?_append]
    by_cases hid : id = last.supernodePublicId
    · rw [if_pos hid]
      simp [hid]
    · rw [if_neg hid]
      simp [Ne.symm hid]

/-- A cleared supernode has no stake. -/
theorem stakeOf_clearStakes (s : FullSupernodeList C ρ) (id : String) :
    s.clearStakes.stakeOf id = {} := by
  show (Option.map _ (s.list id)).elim _ _ = _
  cases s.list id <;> rfl

/-- A supernode without a stake is added. -/
theorem stakeOf_add {item : ListedSupernode C} (h : item.stake = {}) (id : String) :
    (s.add item).2.stakeOf id = s.stakeOf id := by
  unfold add addImpl
  by_cases hexist : s.exist item.idKeyAsString = true
  · simp [hexist]
  · simp only [hexist, if_false, Bool.false_eq_true]
    rw [stakeOf_store]
    by_cases hid : id = item.idKeyAsString
    · rw [if_pos hid, h, hid]
      unfold stakeOf
      rw [Option.not_isSome_iff_eq_none.mp hexist]
      rfl
    · rw [if_neg hid]

/-- The time of an update does not change a stake. -/
theorem stakeOf_setLastUpdateTime {id : String} {sn : ListedSupernode C} (h : s.list id = some sn)
    (time : ℤ) (id' : String) :
    (s.store id (some (sn.setLastUpdateTime time))).stakeOf id' = s.stakeOf id' := by
  rw [stakeOf_store]
  by_cases hid : id' = id
  · rw [if_pos hid, hid]
    unfold stakeOf
    rw [h]
    rfl
  · rw [if_neg hid]

/-- An announce does not change a stake. -/
theorem stakeOf_handleSupernodeAnnounce (announce : SupernodeAnnounce) (now : ℤ) (testnet : Bool)
    (id : String) :
    (s.handleSupernodeAnnounce announce now testnet).2.stakeOf id = s.stakeOf id := by
  unfold handleSupernodeAnnounce
  split
  · rename_i sn hsn
    split
    · rfl
    · rename_i sn' hsn'
      obtain ⟨idKey, -, rfl⟩ := Option.map_eq_some_iff.mp hsn'
      exact stakeOf_setLastUpdateTime hsn now id
  · split
    · rfl
    · rename_i sn hsn
      obtain ⟨idKey, -, rfl⟩ := Option.map_eq_some_iff.mp hsn
      exact stakeOf_add rfl id

/-! ## Runs of messages and announces -/

/-- A message of stakes for a block, with ids as `pod_to_hex` writes them, or another event
that takes nothing away: an announced supernode has no stake yet. -/
def StakesEvent : Event C → Prop
  | .updateStakes blockNumber stakes _ _ =>
    1 ≤ blockNumber ∧ ∀ stake ∈ stakes, Canonical C stake.supernodePublicId
  | .add item => item.stake = {}
  | .remove _ => False
  | _ => True

/-- The list holds what the messages settle. -/
structure Settled (msgs : List StakesMessage) (s : FullSupernodeList C ρ) : Prop where
  max : s.stakesMaxBlockNumber = highest msgs
  stake : ∀ id, s.stakeOf id = settled msgs id

variable {msgs : List StakesMessage}

/-- Only the stakes and the highest block matter. -/
theorem Settled.of_eq (h : Settled msgs s) {s' : FullSupernodeList C ρ}
    (hmax : s'.stakesMaxBlockNumber = s.stakesMaxBlockNumber)
    (hstake : ∀ id, s'.stakeOf id = s.stakeOf id) : Settled msgs s' :=
  ⟨hmax.trans h.max, fun id => (hstake id).trans (h.stake id)⟩

/-- A new supernode does not change the highest block of the stakes. -/
theorem stakesMaxBlockNumber_add (item : ListedSupernode C) :
    (s.add item).2.stakesMaxBlockNumber = s.stakesMaxBlockNumber := by
  unfold add addImpl
  split <;> rfl

/-- An announce does not change the highest block of the stakes. -/
theorem stakesMaxBlockNumber_handleSupernodeAnnounce (announce : SupernodeAnnounce) (now : ℤ)
    (testnet : Bool) :
    (s.handleSupernodeAnnounce announce now testnet).2.stakesMaxBlockNumber
      = s.stakesMaxBlockNumber := by
  unfold handleSupernodeAnnounce
  split
  · split <;> rfl
  · split
    · rfl
    · exact stakesMaxBlockNumber_add _

/-- **A message of stakes**. -/
theorem Settled.updateStakes (h : Settled msgs s) {msg : StakesMessage}
    (hpos : 1 ≤ msg.blockNumber)
    (hids : ∀ stake ∈ msg.stakes, Canonical C stake.supernodePublicId) (now : ℤ) (testnet : Bool) :
    Settled (msgs ++ [msg]) (s.updateStakes msg.blockNumber msg.stakes now testnet) := by
  unfold FullSupernodeList.updateStakes
  by_cases hle : msg.blockNumber ≤ s.stakesMaxBlockNumber
  · rw [if_pos hle]
    rw [h.max] at hle
    obtain ⟨hhighest, hsettled⟩ := settled_append_of_le hpos hle
    exact ⟨h.max.trans hhighest.symm, fun id => by rw [hsettled, h.stake]⟩
  · rw [if_neg hle]
    rw [h.max, UInt64.not_le] at hle
    obtain ⟨hhighest, hsettled⟩ := settled_append_of_lt hle
    refine ⟨hhighest.symm, fun id => ?_⟩
    rw [hsettled]
    have hstake : (msg.stakes.foldl (updateStake now testnet) s.clearStakes).stakeOf id
        = (lastEntry msg.stakes id).elim {} (·.toStake) := by
      rw [stakeOf_foldl hids, stakeOf_clearStakes]
    exact hstake

/-- **One event**. -/
theorem Settled.step (R : RandomEngine ρ) (historySize : UInt64) (h : Settled msgs s) {e : Event C}
    (he : StakesEvent e) : Settled (msgs ++ messages [e]) (s.step R historySize e) := by
  cases e with
  | updateStakes blockNumber stakes now testnet =>
    have hmsg : Settled (msgs ++ [⟨blockNumber, stakes⟩]) _ :=
      h.updateStakes he.1 he.2 now testnet
    exact hmsg
  | add item =>
    rw [show messages [Event.add item] = [] from rfl, List.append_nil]
    exact h.of_eq (stakesMaxBlockNumber_add item) (stakeOf_add he)
  | announce announce now testnet =>
    rw [show messages [Event.announce (C := C) announce now testnet] = [] from rfl,
      List.append_nil]
    exact h.of_eq (stakesMaxBlockNumber_handleSupernodeAnnounce announce now testnet)
      (stakeOf_handleSupernodeAnnounce announce now testnet)
  | setLastUpdateTime id time =>
    rw [show messages [Event.setLastUpdateTime (C := C) id time] = [] from rfl, List.append_nil]
    refine h.of_eq rfl fun id' => ?_
    show (s.store id ((s.list id).map _)).stakeOf id' = _
    cases hsn : s.list id with
    | none =>
      by_cases hid : id' = id
      · subst hid
        simp [stakeOf, hsn]
      · simp [stakeOf, list_store_of_ne s hid]
    | some sn => exact stakeOf_setLastUpdateTime hsn time id'
  | remove id => exact he.elim
  | setBlockchainBasedList blockNumber list =>
    rw [show messages [Event.setBlockchainBasedList (C := C) blockNumber list] = [] from rfl,
      List.append_nil]
    refine h.of_eq ?_ fun id => ?_
    · show (s.setBlockchainBasedList historySize blockNumber list).stakesMaxBlockNumber = _
      unfold setBlockchainBasedList
      dsimp only
      split <;> rfl
    · show (s.setBlockchainBasedList historySize blockNumber list).stakeOf id = _
      unfold stakeOf
      rw [setBlockchainBasedList_list]
  | buildAuthSample clock height paymentId =>
    rw [show messages [Event.buildAuthSample (C := C) clock height paymentId] = [] from rfl,
      List.append_nil]
    obtain ⟨rng, hrng⟩ := exists_buildAuthSample_eq (R := R) s clock height paymentId []
    rw [FullSupernodeList.step, hrng]
    exact h.of_eq rfl fun _ => rfl

/-- **Whole runs**. -/
theorem Settled.exec (R : RandomEngine ρ) (historySize : UInt64) (h : Settled msgs s)
    {es : List (Event C)} (hes : ∀ e ∈ es, StakesEvent e) :
    Settled (msgs ++ messages es) (Runs.exec (FullSupernodeList.step R historySize) s es) := by
  induction es using List.reverseRecOn with
  | nil => simpa [messages] using h
  | append_singleton es e ih =>
    have ih := ih fun e' he' => hes e' (List.mem_append_left _ he')
    have hstep := ih.step R historySize (hes e (by simp))
    rw [Runs.exec_append, messages, List.filterMap_append, ← List.append_assoc]
    exact hstep

/-- **The stakes are those of the first message with the highest block number**, the highest
block number is remembered, and a message that is not above it changes nothing. -/
theorem stakes_settled (hs : s.Reachable R historySize) (hmax : s.stakesMaxBlockNumber = 0)
    (hzero : ∀ id sn, s.list id = some sn → sn.stake = {}) {es : List (Event C)}
    (hes : ∀ e ∈ es, StakesEvent e) :
    let run := Runs.exec (step R historySize) s
    (∀ id sn, (run es).list id = some sn →
        sn.stake = settled (messages es) id ∧ sn.idKeyAsString = id) ∧
      (run es).stakesMaxBlockNumber = highest (messages es) ∧
      ∀ pre blockNumber stakes now testnet post,
        es = pre ++ .updateStakes blockNumber stakes now testnet :: post →
        blockNumber ≤ (run pre).stakesMaxBlockNumber →
        (run pre).step R historySize (.updateStakes blockNumber stakes now testnet) = run pre := by
  intro run
  have hstart : Settled [] s := by
    refine ⟨hmax, fun id => ?_⟩
    show (s.list id).elim {} (·.stake) = {}
    cases hsn : s.list id with
    | none => rfl
    | some sn => exact hzero id sn hsn
  have hend := hstart.exec R historySize hes
  rw [List.nil_append] at hend
  refine ⟨fun id sn hsn => ⟨?_, ?_⟩, hend.max, ?_⟩
  · rw [← hend.stake id]
    show sn.stake = ((run es).list id).elim {} (·.stake)
    rw [hsn]
    rfl
  · exact (Keyed.of_reachable hs).exec es id sn hsn
  · intro pre blockNumber stakes now testnet post _ hle
    exact if_pos hle

open Request (sampleExternals lowerId otherId lowerKey otherKey podToHex hexToPod_ids)

/-- Both ids of the sample are written as the code writes their keys. -/
theorem canonical_ids :
    Canonical sampleExternals.toCrypto lowerId ∧ Canonical sampleExternals.toCrypto otherId := by
  have hhex : podToHex lowerKey = lowerId ∧ podToHex otherKey = otherId := by decide +kernel
  exact ⟨⟨lowerKey, hexToPod_ids.1, hhex.1⟩, ⟨otherKey, hexToPod_ids.2.2.1, hhex.2⟩⟩

/-- An announced supernode between two messages that come in the wrong order. -/
def stakesRun : List (Event sampleExternals.toCrypto) :=
  [.updateStakes 7 [⟨⟨5, 1, 2⟩, lowerId, ""⟩, ⟨⟨6, 1, 2⟩, lowerId, ""⟩] 100 false,
    .add (.create "" otherKey false),
    .updateStakes 4 [⟨⟨9, 1, 2⟩, otherId, ""⟩] 200 false]

/-- The later message is not above the first one. -/
theorem stakes_settled_run :
    let s := Runs.exec (step mt19937_64 100) (init ⟨#[], 0⟩) stakesRun
    (∀ id sn, s.list id = some sn → sn.stake = settled (messages stakesRun) id) ∧
      s.stakesMaxBlockNumber = 7 := by
  have hes : ∀ e ∈ stakesRun, StakesEvent e := by
    intro e he
    simp only [stakesRun, List.mem_cons, List.not_mem_nil, or_false] at he
    rcases he with rfl | rfl | rfl
    · refine ⟨by decide, fun stake hstake => ?_⟩
      simp only [List.mem_cons, List.not_mem_nil, or_false] at hstake
      rcases hstake with rfl | rfl <;> exact canonical_ids.1
    · rfl
    · refine ⟨by decide, fun stake hstake => ?_⟩
      rw [List.mem_singleton.mp hstake]
      exact canonical_ids.2
  have hinit : (init ⟨#[], 0⟩ : FullSupernodeList sampleExternals.toCrypto _).Reachable mt19937_64
      100 := ⟨_, [], rfl⟩
  obtain ⟨hstakes, hmax, -⟩ := stakes_settled hinit rfl (fun id sn hsn => by cases hsn) hes
  exact ⟨fun id sn hsn => (hstakes id sn hsn).1, hmax.trans (by decide)⟩

end FullSupernodeList
