/-
# The cache of blockchain based lists

The cryptonode sends a list of supernodes for a block; `setBlockchainBasedList` keeps the lists of
the last `historySize` blocks.  What it is to keep is written down without the list
(`recentLists`): of every block number that was received and is at most `historySize` below the
highest one, the latest list.

* `Held`: what is kept.  The number of the oldest block is computed in 64 bits, and below
  `historySize` it wraps around, so that every list is removed again, the new one too;
* `keepsRecent_iff`: the runs in which what is kept is what is to be kept.
-/
import GraftSupernode.FullSupernodeList
import GraftSupernode.AuthVotes
import Mathlib.Data.List.TakeWhile

namespace FullSupernodeList

variable {C : Crypto} {ρ : Type*} {R : RandomEngine ρ} {historySize : UInt64}
variable {s : FullSupernodeList C ρ}

/-- `FullSupernodeList::findBlockchainBasedList` -/
def findBlockchainBasedList (s : FullSupernodeList C ρ) (blockNumber : UInt64) :
    Option BlockchainBasedList :=
  s.blockchainBasedLists blockNumber

/-- `FullSupernodeList::getBlockchainBasedListMaxBlockNumber` -/
def getBlockchainBasedListMaxBlockNumber (s : FullSupernodeList C ρ) : UInt64 :=
  s.blockchainBasedListMaxBlockNumber

/-! ## What the cache is to hold -/

/-- The block number and the list of a call of `setBlockchainBasedList`. -/
structure ListMessage where
  blockNumber : UInt64
  list : BlockchainBasedList

/-- The messages among the events, in their order. -/
def listMessages (es : List (Event C)) : List ListMessage :=
  es.filterMap fun
    | .setBlockchainBasedList blockNumber list => some ⟨blockNumber, list⟩
    | _ => none

/-- The highest block number of the messages. -/
def highestBlock (msgs : List ListMessage) : UInt64 := highestNumber (msgs.map (·.blockNumber))

/-- The latest list for a block number. -/
def latestList (msgs : List ListMessage) (n : UInt64) : Option BlockchainBasedList :=
  (msgs.filter (·.blockNumber = n)).getLast?.map (·.list)

/-- The block number is at most `historySize` below the highest one. -/
def Recent (historySize : UInt64) (msgs : List ListMessage) (n : UInt64) : Prop :=
  (highestBlock msgs).toNat ≤ n.toNat + historySize.toNat

instance (msgs : List ListMessage) (n : UInt64) : Decidable (Recent historySize msgs n) :=
  inferInstanceAs (Decidable (_ ≤ _))

/-- The latest lists for the recent block numbers. -/
def recentLists (historySize : UInt64) (msgs : List ListMessage) (n : UInt64) :
    Option BlockchainBasedList :=
  if Recent historySize msgs n then latestList msgs n else none

/-- In the end of the run the cache holds the latest lists for the recent block numbers, and has a
list for the highest one. -/
def KeepsRecent (R : RandomEngine ρ) (historySize : UInt64) (rng : ρ) (es : List (Event C)) :
    Prop :=
  let s := Runs.exec (step R historySize) (init rng) es
  let msgs := listMessages es
  (∀ n, s.findBlockchainBasedList n = recentLists historySize msgs n) ∧
    s.getBlockchainBasedListMaxBlockNumber = highestBlock msgs ∧
    (msgs ≠ [] →
      (s.findBlockchainBasedList s.getBlockchainBasedListMaxBlockNumber).isSome = true)

section messages

variable {msgs : List ListMessage} {msg : ListMessage} {n : UInt64}

/-- The last message has the highest block unless one before has a higher one. -/
theorem highestBlock_append (msgs : List ListMessage) (msg : ListMessage) :
    highestBlock (msgs ++ [msg])
      = if highestBlock msgs ≤ msg.blockNumber then msg.blockNumber else highestBlock msgs := by
  unfold highestBlock
  rw [List.map_append]
  exact highestNumber_append _ _

/-- No message has a block above the highest one. -/
theorem le_highestBlock (h : msg ∈ msgs) : msg.blockNumber ≤ highestBlock msgs :=
  le_highestNumber (List.mem_map_of_mem h)

/-- The highest block is that of a message. -/
theorem highestBlock_mem (h : msgs ≠ []) : highestBlock msgs ∈ msgs.map (·.blockNumber) :=
  highestNumber_mem (by simpa using h)

/-- The last message gives the list of its block. -/
theorem latestList_append (msgs : List ListMessage) (msg : ListMessage) (n : UInt64) :
    latestList (msgs ++ [msg]) n
      = if n = msg.blockNumber then some msg.list else latestList msgs n := by
  unfold latestList
  rw [List.filter_append, List.getLast?_append]
  by_cases h : n = msg.blockNumber
  · simp [h]
  · simp [h, Ne.symm h]

/-- There is a list for the blocks of the messages. -/
theorem latestList_isSome : (latestList msgs n).isSome = true ↔ n ∈ msgs.map (·.blockNumber) := by
  induction msgs using List.reverseRecOn with
  | nil => simp [latestList]
  | append_singleton msgs msg ih =>
    rw [latestList_append, List.map_append, List.mem_append]
    by_cases h : n = msg.blockNumber
    · simp [h]
    · simp [h, ih]

/-- There is no list for another block. -/
theorem latestList_eq_none : latestList msgs n = none ↔ n ∉ msgs.map (·.blockNumber) := by
  rw [← latestList_isSome, Bool.not_eq_true, Option.isSome_eq_false_iff, Option.isNone_iff_eq_none]

end messages

/-! ## What the cache holds -/

/-- The messages from the first one on whose block number is at least `historySize`. -/
def counted (historySize : UInt64) (msgs : List ListMessage) : List ListMessage :=
  msgs.dropWhile fun msg => msg.blockNumber < historySize

section counted

variable {msgs : List ListMessage} {msg : ListMessage} {n : UInt64}

/-- The messages that count are the last ones. -/
theorem counted_suffix (historySize : UInt64) (msgs : List ListMessage) :
    counted historySize msgs <:+ msgs := List.dropWhile_suffix _

/-- The highest block number is at least `historySize` from the first counted message on. -/
theorem counted_ne_nil_iff (h : msgs ≠ []) :
    counted historySize msgs ≠ [] ↔ historySize ≤ highestBlock msgs := by
  unfold counted
  rw [Ne, List.dropWhile_eq_nil_iff]
  push Not
  constructor
  · rintro ⟨msg, hmem, hle⟩
    exact UInt64.le_trans (by simpa using hle) (le_highestBlock hmem)
  · intro hle
    obtain ⟨msg, hmem, hmsg⟩ := List.mem_map.mp (highestBlock_mem h)
    refine ⟨msg, hmem, ?_⟩
    rw [hmsg]
    simpa using hle

/-- **One more message** counts if the highest block number is at least `historySize` with it. -/
theorem counted_append (historySize : UInt64) (msgs : List ListMessage) (msg : ListMessage) :
    counted historySize (msgs ++ [msg])
      = if historySize ≤ highestBlock (msgs ++ [msg]) then counted historySize msgs ++ [msg]
        else [] := by
  have hne : msgs ++ [msg] ≠ [] := by simp
  split
  · rename_i hle
    have hcounted := (counted_ne_nil_iff hne).mpr hle
    unfold counted at hcounted ⊢
    rw [List.dropWhile_append] at hcounted ⊢
    split at hcounted
    · -- the message is the first one that counts
      rename_i hempty
      rw [if_pos hempty, List.isEmpty_iff.mp hempty, List.nil_append]
      by_cases hlt : msg.blockNumber < historySize
      · simp [hlt] at hcounted
      · simp [hlt]
    · rename_i hempty
      rw [if_neg hempty]
  · rename_i hlt
    exact not_not.mp fun hcounted => hlt ((counted_ne_nil_iff hne).mp hcounted)

/-- Messages without the block number do not change its latest list. -/
theorem latestList_append_left {later : List ListMessage}
    (h : n ∈ later.map (·.blockNumber)) : latestList (msgs ++ later) n = latestList later n := by
  obtain ⟨list, hlist⟩ := Option.isSome_iff_exists.mp (latestList_isSome.mpr h)
  unfold latestList at hlist ⊢
  obtain ⟨last, hlast, -⟩ := Option.map_eq_some_iff.mp hlist
  rw [List.filter_append, List.getLast?_append, hlast, Option.some_or]

/-- There is no list for a block that no message is for. -/
theorem latestList_counted_eq_none (h : n ∉ msgs.map (·.blockNumber)) :
    latestList (counted historySize msgs) n = none :=
  latestList_eq_none.mpr fun hmem =>
    h (List.map_subset _ (counted_suffix historySize msgs).subset hmem)

/-- A block number of a counted message has the latest list among these. -/
theorem latestList_counted (h : n ∈ (counted historySize msgs).map (·.blockNumber)) :
    latestList (counted historySize msgs) n = latestList msgs n := by
  obtain ⟨pre, hpre⟩ := counted_suffix historySize msgs
  conv_rhs => rw [← hpre]
  exact (latestList_append_left h).symm

end counted

/-- The cache holds the latest lists of the messages that count, for the recent block numbers. -/
structure Held (historySize : UInt64) (msgs : List ListMessage) (s : FullSupernodeList C ρ) :
    Prop where
  max : s.blockchainBasedListMaxBlockNumber = highestBlock msgs
  recent : ∀ n, Recent historySize msgs n →
    s.blockchainBasedLists n = latestList (counted historySize msgs) n
  old : ∀ n, ¬ Recent historySize msgs n → s.blockchainBasedLists n = none

variable {msgs : List ListMessage} {n : UInt64}

/-- Only the lists and the highest block matter. -/
theorem Held.of_eq (h : Held historySize msgs s) {s' : FullSupernodeList C ρ}
    (hmax : s'.blockchainBasedListMaxBlockNumber = s.blockchainBasedListMaxBlockNumber)
    (hlists : s'.blockchainBasedLists = s.blockchainBasedLists) : Held historySize msgs s' :=
  ⟨hmax.trans h.max, fun n hn => (congrFun hlists n).trans (h.recent n hn),
    fun n hn => (congrFun hlists n).trans (h.old n hn)⟩

/-- Only messages are stored. -/
theorem Held.of_isSome (h : Held historySize msgs s)
    (hstored : (s.blockchainBasedLists n).isSome = true) :
    Recent historySize msgs n ∧ n ∈ (counted historySize msgs).map (·.blockNumber) := by
  by_cases hn : Recent historySize msgs n
  · rw [h.recent n hn] at hstored
    exact ⟨hn, latestList_isSome.mp hstored⟩
  · rw [h.old n hn] at hstored
    cases hstored

/-- The highest block grows. -/
theorem highestBlock_le_append (msgs : List ListMessage) (msg : ListMessage) :
    highestBlock msgs ≤ highestBlock (msgs ++ [msg]) := by
  rw [highestBlock_append]
  split
  · assumption
  · exact UInt64.le_rfl

/-- What is recent after a message was recent before. -/
theorem Recent.of_append {msg : ListMessage} (h : Recent historySize (msgs ++ [msg]) n) :
    Recent historySize msgs n :=
  (UInt64.le_iff_toNat_le.mp (highestBlock_le_append msgs msg)).trans h

/-- A list that is stored already is replaced. -/
theorem Held.override (h : Held historySize msgs s) {msg : ListMessage}
    (hstored : (s.blockchainBasedLists msg.blockNumber).isSome = true) :
    Held historySize (msgs ++ [msg]) { s with
      blockchainBasedLists :=
        Function.update s.blockchainBasedLists msg.blockNumber (some msg.list) } := by
  obtain ⟨hrecent, hcounted⟩ := h.of_isSome hstored
  have hmem : msg.blockNumber ∈ msgs.map (·.blockNumber) :=
    List.map_subset _ (counted_suffix historySize msgs).subset hcounted
  have hmax : highestBlock (msgs ++ [msg]) = highestBlock msgs := by
    rw [highestBlock_append]
    split
    · rename_i hge
      exact UInt64.le_antisymm (le_highestNumber hmem) hge
    · rfl
  -- the block has been counted, so the highest number is large enough
  have hsize : historySize ≤ highestBlock (msgs ++ [msg]) := by
    rw [hmax, ← counted_ne_nil_iff (List.map_eq_nil_iff.not.mp (List.ne_nil_of_mem hmem))]
    exact List.map_eq_nil_iff.not.mp (List.ne_nil_of_mem hcounted)
  refine ⟨h.max.trans hmax.symm, fun n hn => ?_, fun n hn => ?_⟩
  · rw [counted_append, if_pos hsize, latestList_append]
    show Function.update s.blockchainBasedLists _ _ n = _
    by_cases heq : n = msg.blockNumber
    · subst heq
      rw [Function.update_self, if_pos rfl]
    · rw [Function.update_of_ne heq, if_neg heq, h.recent n hn.of_append]
  · unfold Recent at hn hrecent
    rw [hmax] at hn
    show Function.update s.blockchainBasedLists _ _ n = _
    have hne : n ≠ msg.blockNumber := by
      rintro rfl
      exact hn hrecent
    rw [Function.update_of_ne hne, h.old n hn]

/-- **Eviction**: below `historySize` the number of the oldest block wraps around, and is above
every number. -/
theorem lt_oldest_iff {maxBlockNumber : UInt64} (h : n ≤ maxBlockNumber) :
    n < maxBlockNumber - historySize ↔
      (historySize ≤ maxBlockNumber → n.toNat + historySize.toNat < maxBlockNumber.toNat) := by
  have hsize := historySize.toNat_lt
  have hmax := maxBlockNumber.toNat_lt
  rw [UInt64.le_iff_toNat_le] at h
  rw [UInt64.lt_iff_toNat_lt, UInt64.le_iff_toNat_le, UInt64.toNat_sub]
  omega

/-- A number above the highest one has not been received. -/
theorem not_mem_of_highestBlock_lt (h : highestBlock msgs < n) : n ∉ msgs.map (·.blockNumber) :=
  fun hmem => UInt64.not_le.mpr h (le_highestNumber hmem)

/-- No list is held for a block above the highest one. -/
theorem Held.of_highestBlock_lt (h : Held historySize msgs s) (hn : highestBlock msgs < n) :
    s.blockchainBasedLists n = none := by
  rw [← Option.not_isSome_iff_eq_none]
  intro hstored
  have hmem := List.map_subset _ (counted_suffix historySize msgs).subset (h.of_isSome hstored).2
  exact not_mem_of_highestBlock_lt hn hmem

/-- A new list is stored, and those before the oldest block are removed. -/
theorem Held.insert (h : Held historySize msgs s) (msg : ListMessage) :
    Held historySize (msgs ++ [msg]) { s with
      blockchainBasedListMaxBlockNumber := highestBlock (msgs ++ [msg])
      blockchainBasedLists := fun n =>
        if n < highestBlock (msgs ++ [msg]) - historySize then none
        else Function.update s.blockchainBasedLists msg.blockNumber (some msg.list) n } := by
  have hle : msg.blockNumber ≤ highestBlock (msgs ++ [msg]) :=
    le_highestBlock (List.mem_append_right _ (List.mem_singleton_self _))
  refine ⟨rfl, fun n hn => ?_, fun n hn => ?_⟩
  · show (if n < _ then none else Function.update s.blockchainBasedLists _ _ n) = _
    by_cases habove : n ≤ highestBlock (msgs ++ [msg])
    · rw [counted_append]
      by_cases hsize : historySize ≤ highestBlock (msgs ++ [msg])
      · have hkept : ¬ n < highestBlock (msgs ++ [msg]) - historySize := by
          rw [lt_oldest_iff habove]
          exact fun hlt => Nat.not_lt.mpr hn (hlt hsize)
        rw [if_neg hkept, if_pos hsize, latestList_append]
        by_cases heq : n = msg.blockNumber
        · subst heq
          rw [Function.update_self, if_pos rfl]
        · rw [Function.update_of_ne heq, if_neg heq, h.recent n hn.of_append]
      · -- the number of the oldest block has wrapped around
        rw [if_pos ((lt_oldest_iff habove).mpr (absurd · hsize)), if_neg hsize]
        rfl
    · have hlt := UInt64.not_le.mp habove
      have hne : n ≠ msg.blockNumber := by
        rintro rfl
        exact habove hle
      have hearlier := h.of_highestBlock_lt
        (UInt64.lt_of_le_of_lt (highestBlock_le_append msgs msg) hlt)
      rw [Function.update_of_ne hne, hearlier, ite_self]
      exact (latestList_counted_eq_none (not_mem_of_highestBlock_lt hlt)).symm
  · show (if n < _ then none else Function.update s.blockchainBasedLists _ _ n) = _
    have hlt := Nat.not_le.mp hn
    have habove : n ≤ highestBlock (msgs ++ [msg]) := by
      rw [UInt64.le_iff_toNat_le]
      omega
    rw [if_pos ((lt_oldest_iff habove).mpr fun _ => hlt)]

/-- **A message of a list**. -/
theorem Held.setBlockchainBasedList (h : Held historySize msgs s) (msg : ListMessage) :
    Held historySize (msgs ++ [msg])
      (s.setBlockchainBasedList historySize msg.blockNumber msg.list) := by
  unfold FullSupernodeList.setBlockchainBasedList
  dsimp only
  split
  · rename_i hstored
    exact h.override hstored
  · have hmax : (if s.blockchainBasedListMaxBlockNumber < msg.blockNumber then msg.blockNumber
        else s.blockchainBasedListMaxBlockNumber) = highestBlock (msgs ++ [msg]) := by
      rw [h.max, highestBlock_append]
      by_cases hlt : highestBlock msgs < msg.blockNumber
      · rw [if_pos hlt, if_pos (UInt64.le_of_lt hlt)]
      · rw [if_neg hlt]
        split
        · rename_i hle
          exact UInt64.le_antisymm hle (UInt64.not_lt.mp hlt)
        · rfl
    rw [hmax]
    exact h.insert msg

/-! ## Runs -/

/-- The cache of lists is the same in both. -/
def SameLists (s s' : FullSupernodeList C ρ) : Prop :=
  s'.blockchainBasedListMaxBlockNumber = s.blockchainBasedListMaxBlockNumber ∧
    s'.blockchainBasedLists = s.blockchainBasedLists

namespace SameLists

/-- A list has its own blockchain based lists. -/
theorem refl (s : FullSupernodeList C ρ) : SameLists s s := ⟨rfl, rfl⟩

/-- The same lists are the same lists. -/
theorem trans {s' s'' : FullSupernodeList C ρ} (h : SameLists s s') (h' : SameLists s' s'') :
    SameLists s s'' := ⟨h'.1.trans h.1, h'.2.trans h.2⟩

/-- A supernode that is added changes no blockchain based list. -/
theorem addImpl (s : FullSupernodeList C ρ) (item : ListedSupernode C) :
    SameLists s (s.addImpl item) := by
  unfold FullSupernodeList.addImpl
  split <;> exact ⟨rfl, rfl⟩

/-- A new supernode changes no blockchain based list. -/
theorem add (s : FullSupernodeList C ρ) (item : ListedSupernode C) :
    SameLists s (s.add item).2 := by
  unfold FullSupernodeList.add
  split
  · exact refl s
  · exact addImpl s item

/-- An announce changes no blockchain based list. -/
theorem handleSupernodeAnnounce (s : FullSupernodeList C ρ) (announce : SupernodeAnnounce) (now : ℤ)
    (testnet : Bool) : SameLists s (s.handleSupernodeAnnounce announce now testnet).2 := by
  unfold FullSupernodeList.handleSupernodeAnnounce
  split
  · split <;> exact ⟨rfl, rfl⟩
  · split
    · exact refl s
    · exact add s _

/-- A stake changes no blockchain based list. -/
theorem updateStake (s : FullSupernodeList C ρ) (now : ℤ) (testnet : Bool)
    (stake : SupernodeStake) : SameLists s (s.updateStake now testnet stake) := by
  unfold FullSupernodeList.updateStake
  split
  · split
    · exact refl s
    · exact addImpl s _
  · exact ⟨rfl, rfl⟩

/-- The stakes of a block change no blockchain based list. -/
theorem updateStakes (s : FullSupernodeList C ρ) (blockNumber : UInt64)
    (stakes : List SupernodeStake) (now : ℤ) (testnet : Bool) :
    SameLists s (s.updateStakes blockNumber stakes now testnet) := by
  unfold FullSupernodeList.updateStakes
  split
  · exact refl s
  · have hclear : SameLists s s.clearStakes := ⟨rfl, rfl⟩
    have hstakes : SameLists s (stakes.foldl (FullSupernodeList.updateStake now testnet)
        s.clearStakes) :=
      Runs.exec_of_step (I := SameLists s)
        (fun s' stake h => h.trans (updateStake s' now testnet stake)) hclear stakes
    exact hstakes.trans ⟨rfl, rfl⟩

/-- **Only a message changes the cache**. -/
theorem step (R : RandomEngine ρ) (historySize : UInt64) (s : FullSupernodeList C ρ) {e : Event C}
    (he : listMessages [e] = []) : SameLists s (s.step R historySize e) := by
  cases e with
  | add item => exact add s item
  | announce announce now testnet => exact handleSupernodeAnnounce s announce now testnet
  | setLastUpdateTime id time => exact ⟨rfl, rfl⟩
  | remove id => exact ⟨rfl, rfl⟩
  | updateStakes blockNumber stakes now testnet =>
    exact updateStakes s blockNumber stakes now testnet
  | setBlockchainBasedList blockNumber list => cases he
  | buildAuthSample clock height paymentId =>
    obtain ⟨rng, hrng⟩ := exists_buildAuthSample_eq (R := R) s clock height paymentId []
    rw [FullSupernodeList.step, hrng]
    exact ⟨rfl, rfl⟩

end SameLists

/-- **One event**. -/
theorem Held.step (R : RandomEngine ρ) (h : Held historySize msgs s) (e : Event C) :
    Held historySize (msgs ++ listMessages [e]) (s.step R historySize e) := by
  by_cases he : listMessages [e] = []
  · rw [he, List.append_nil]
    obtain ⟨hmax, hlists⟩ := SameLists.step R historySize s he
    exact h.of_eq hmax hlists
  · cases e with
    | setBlockchainBasedList blockNumber list =>
      exact h.setBlockchainBasedList ⟨blockNumber, list⟩
    | _ => exact absurd rfl he

/-- **Whole runs**. -/
theorem held_exec (R : RandomEngine ρ) (historySize : UInt64) (rng : ρ) (es : List (Event C)) :
    Held historySize (listMessages es)
      (Runs.exec (FullSupernodeList.step R historySize) (init rng) es) := by
  induction es using List.reverseRecOn with
  | nil => exact ⟨rfl, fun _ _ => rfl, fun _ _ => rfl⟩
  | append_singleton es e ih =>
    rw [Runs.exec_append, listMessages, List.filterMap_append]
    exact ih.step R e

/-- **The cache holds the latest lists for the recent block numbers** exactly if each of them that
was received was received from the first number on that is at least `historySize`. -/
theorem keepsRecent_iff (R : RandomEngine ρ) (historySize : UInt64) (rng : ρ)
    (es : List (Event C)) :
    KeepsRecent R historySize rng es ↔
      ∀ n ∈ (listMessages es).map (·.blockNumber), Recent historySize (listMessages es) n →
        n ∈ (counted historySize (listMessages es)).map (·.blockNumber) := by
  have h := held_exec R historySize rng es
  constructor
  · rintro ⟨hlists, -, -⟩ n hmem hrecent
    have hstored := h.recent n hrecent
    rw [← findBlockchainBasedList, hlists, recentLists, if_pos hrecent] at hstored
    rw [← latestList_isSome, ← hstored, latestList_isSome]
    exact hmem
  · intro hcounted
    have hlists (n : UInt64) : (Runs.exec (FullSupernodeList.step R historySize) (init rng)
        es).findBlockchainBasedList n = recentLists historySize (listMessages es) n := by
      unfold findBlockchainBasedList recentLists
      split
      · rename_i hrecent
        rw [h.recent n hrecent]
        by_cases hmem : n ∈ (listMessages es).map (·.blockNumber)
        · exact latestList_counted (hcounted n hmem hrecent)
        · rw [latestList_counted_eq_none hmem, latestList_eq_none.mpr hmem]
      · rename_i hold
        exact h.old n hold
    refine ⟨hlists, h.max, fun hne => ?_⟩
    have hrecent : Recent historySize (listMessages es) (highestBlock (listMessages es)) :=
      Nat.le_add_right _ _
    rw [getBlockchainBasedListMaxBlockNumber, h.max, hlists, recentLists, if_pos hrecent,
      latestList_isSome]
    exact highestBlock_mem hne

/-- The list of an early block is not kept. -/
theorem not_keepsRecent_early : ¬ KeepsRecent (C := Request.sampleExternals.toCrypto) mt19937_64 100
    ⟨#[], 0⟩ [.setBlockchainBasedList 5 []] := by
  intro h
  have hlist := h.1 5
  revert hlist
  decide

end FullSupernodeList
