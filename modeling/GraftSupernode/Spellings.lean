/-
# Spellings of an id

`hex_to_pod` reads a key in either letter case, `pod_to_hex` writes it in lower case.  The list
holds each supernode under the id that is written; announces and entries of stakes are looked
up under the id that came with the message.  In another spelling they miss the supernode, try to
add it, and are dropped because it is there.

* `HexSpellings`: what the list relies on;
* `Finds`: an id of a message leads to the supernode of its key, or to a new one;
* `refreshes_iff`, `setsStakes_iff`: the announces and the messages that are not dropped.
-/
import GraftSupernode.Stakes

namespace FullSupernodeList

variable {C : Crypto} {ρ : Type*} {R : RandomEngine ρ} {historySize : UInt64}
variable {s : FullSupernodeList C ρ} {id : String} {key : C.PublicKey}

/-- `hex_to_pod` and `pod_to_hex` on public keys. -/
structure HexSpellings (C : Crypto) : Prop where
  /-- Both letter cases are read. -/
  read_toLower : ∀ id, C.hexToPublicKey id.toLower = C.hexToPublicKey id
  /-- The lower case is written. -/
  write_read : ∀ {id key}, C.hexToPublicKey id = some key → C.publicKeyToHex key = id.toLower
  /-- What is written is read back. -/
  read_write : ∀ key, C.hexToPublicKey (C.publicKeyToHex key) = some key

/-- Under the id the supernode of its key is found, or this supernode is not listed, also after
the `earlier` entries of a message. -/
def Finds (s : FullSupernodeList C ρ) (earlier : List String) (id : String) : Prop :=
  id.toLower = id ∨ s.list id.toLower = none ∧ ∀ id' ∈ earlier, id'.toLower ≠ id.toLower

/-- The announce of a key, whenever it comes, sets the last update time of its supernode. -/
def Refreshes (s : FullSupernodeList C ρ) (announce : SupernodeAnnounce) (key : C.PublicKey) :
    Prop :=
  ∀ now testnet, ∃ sn,
    (s.handleSupernodeAnnounce announce now testnet).2.list (C.publicKeyToHex key) = some sn ∧
      sn.idKey = key ∧ sn.lastUpdateTime = now

/-- A message with entries for these ids, whatever the stakes are, sets the stake of each
supernode it names: to that of the last entry for its key. -/
def SetsStakes (s : FullSupernodeList C ρ) (blockNumber : UInt64) (ids : List String) : Prop :=
  ∀ stakes : List SupernodeStake, stakes.map (·.supernodePublicId) = ids →
    ∀ now testnet pre stake post key, stakes = pre ++ stake :: post →
      C.hexToPublicKey stake.supernodePublicId = some key →
      (∀ later ∈ post, C.hexToPublicKey later.supernodePublicId ≠ some key) →
      ∃ sn, (s.updateStakes blockNumber stakes now testnet).list (C.publicKeyToHex key) = some sn ∧
        sn.idKey = key ∧ sn.stake = stake.toStake

namespace HexSpellings

variable (hC : HexSpellings C)

include hC

/-- Spellings of one key differ in their letter case only. -/
theorem same_key_iff {id' : String} (hkey : C.hexToPublicKey id = some key) :
    C.hexToPublicKey id' = some key ↔ id'.toLower = id.toLower := by
  constructor
  · intro hkey'
    rw [← hC.write_read hkey, ← hC.write_read hkey']
  · intro hlower
    rw [← hC.read_toLower, hlower, hC.read_toLower, hkey]

/-- A supernode is listed under the lower-case id of its key. -/
theorem of_listed (hs : s.Keyed) {sn : ListedSupernode C} (hsn : s.list id = some sn) :
    C.hexToPublicKey id = some sn.idKey ∧ id.toLower = id := by
  have hread := hC.read_write sn.idKey
  have hid : C.publicKeyToHex sn.idKey = id := hs id sn hsn
  rw [hid] at hread
  exact ⟨hread, (hC.write_read hread).symm.trans hid⟩

end HexSpellings

/-! ## Announces -/

/-- A supernode that is not there is stored under its own id. -/
theorem list_addImpl_of_none {item : ListedSupernode C} (h : s.list item.idKeyAsString = none)
    (id : String) : (s.addImpl item).list id = if id = item.idKeyAsString then some item
      else s.list id := by
  have hexist : s.exist item.idKeyAsString = false := by rw [exist, h]; rfl
  rw [addImpl, hexist]
  by_cases hid : id = item.idKeyAsString
  · rw [if_pos hid, hid]
    exact list_store_self _ _ _
  · rw [if_neg hid]
    exact list_store_of_ne s hid _

/-- The key of a valid announce is the one its id is read as. -/
theorem hexToPublicKey_of_validateAnnounce {announce : SupernodeAnnounce}
    (h : ListedSupernode.validateAnnounce C announce = some key) :
    C.hexToPublicKey announce.supernodePublicId = some key := by
  unfold ListedSupernode.validateAnnounce at h
  split at h
  · cases h
  · split at h
    · cases h
    · rename_i idKey hread
      split at h
      · cases h
      · dsimp only at h
        split at h
        · rwa [hread]
        · cases h

/-- An announce of a listed id updates its supernode. -/
theorem handleSupernodeAnnounce_of_listed {announce : SupernodeAnnounce} {sn : ListedSupernode C}
    (hvalid : ListedSupernode.validateAnnounce C announce = some key)
    (hsn : s.list announce.supernodePublicId = some sn) (now : ℤ) (testnet : Bool) :
    (s.handleSupernodeAnnounce announce now testnet).2
      = s.store announce.supernodePublicId (some (sn.setLastUpdateTime now)) := by
  simp only [handleSupernodeAnnounce, hsn, ListedSupernode.updateFromAnnounce, hvalid,
    Option.map_some]

/-- An announce of an id that is not listed adds a supernode under its own id. -/
theorem handleSupernodeAnnounce_of_not_listed {announce : SupernodeAnnounce}
    (hvalid : ListedSupernode.validateAnnounce C announce = some key)
    (hsn : s.list announce.supernodePublicId = none) (now : ℤ) (testnet : Bool) :
    (s.handleSupernodeAnnounce announce now testnet).2
      = (s.add ((ListedSupernode.create "" key testnet).setLastUpdateTime now)).2 := by
  simp only [handleSupernodeAnnounce, hsn, ListedSupernode.createFromAnnounce, hvalid,
    Option.map_some]

/-- A supernode that is listed already is not added. -/
theorem add_of_listed {item old : ListedSupernode C} (h : s.list item.idKeyAsString = some old) :
    s.add item = (false, s) := by
  have hexist : s.exist item.idKeyAsString = true := by rw [exist, h]; rfl
  rw [add, if_pos hexist]

/-- What is added can be found. -/
theorem list_add_of_none {item : ListedSupernode C} (h : s.list item.idKeyAsString = none) :
    (s.add item).2.list item.idKeyAsString = some item := by
  have hexist : ¬ s.exist item.idKeyAsString = true := by rw [exist, h]; exact Bool.false_ne_true
  rw [add, if_neg hexist, list_addImpl_of_none h, if_pos rfl]

/-- **Which announces refresh the supernode of their key**. -/
theorem refreshes_iff (hC : HexSpellings C) (hs : s.Keyed) {announce : SupernodeAnnounce}
    (hvalid : ListedSupernode.validateAnnounce C announce = some key) :
    s.Refreshes announce key ↔ s.Finds [] announce.supernodePublicId := by
  have hkey := hexToPublicKey_of_validateAnnounce hvalid
  have hwrite := hC.write_read hkey
  unfold Refreshes
  cases hsn : s.list announce.supernodePublicId with
  | some sn =>
    obtain ⟨hread, hlower⟩ := hC.of_listed hs hsn
    refine iff_of_true (fun now testnet => ⟨sn.setLastUpdateTime now, ?_, ?_, rfl⟩) (.inl hlower)
    · rw [handleSupernodeAnnounce_of_listed hvalid hsn, hwrite, hlower, list_store_self]
    · exact Option.some.inj (hread.symm.trans hkey)
  | none =>
    cases hlist : s.list announce.supernodePublicId.toLower with
    | none =>
      rw [← hwrite] at hlist
      refine iff_of_true (fun now testnet => ?_) (.inr ⟨hwrite ▸ hlist, by simp⟩)
      refine ⟨(ListedSupernode.create "" key testnet).setLastUpdateTime now, ?_, rfl, rfl⟩
      rw [handleSupernodeAnnounce_of_not_listed hvalid hsn]
      exact list_add_of_none hlist
    | some old =>
      -- the lookup misses the supernode, and the new one is not added
      refine iff_of_false (fun h => ?_) ?_
      · obtain ⟨sn, hsn', -, htime⟩ := h (old.lastUpdateTime + 1) false
        rw [← hwrite] at hlist
        rw [handleSupernodeAnnounce_of_not_listed hvalid hsn, add_of_listed hlist, hlist] at hsn'
        obtain rfl := Option.some.inj hsn'
        omega
      · rintro (hlower | ⟨hnone, -⟩)
        · rw [hlower, hsn] at hlist
          cases hlist
        · cases hnone.symm.trans hlist

/-! ## One entry of a message of stakes -/

section entry

variable {stake : SupernodeStake} {now : ℤ} {testnet : Bool}

/-- A stake of a listed id is set. -/
theorem updateStake_of_listed {sn : ListedSupernode C}
    (hsn : s.list stake.supernodePublicId = some sn) :
    s.updateStake now testnet stake = s.store stake.supernodePublicId
      (some ((sn.setStake stake.toStake).setWalletAddress stake.supernodePublicAddress)) := by
  simp only [updateStake, hsn]

/-- A stake of an id that is no key is left out. -/
theorem updateStake_of_unreadable (hsn : s.list stake.supernodePublicId = none)
    (hkey : C.hexToPublicKey stake.supernodePublicId = none) :
    s.updateStake now testnet stake = s := by
  simp only [updateStake, hsn, ListedSupernode.createFromStake, hkey, Option.map_none]

/-- A stake of an id that is not listed adds a supernode under its own id. -/
theorem updateStake_of_not_listed (hsn : s.list stake.supernodePublicId = none)
    (hkey : C.hexToPublicKey stake.supernodePublicId = some key) :
    s.updateStake now testnet stake = s.addImpl
      (((ListedSupernode.create stake.supernodePublicAddress key testnet).setLastUpdateTime
        now).setStake stake.toStake) := by
  simp only [updateStake, hsn, ListedSupernode.createFromStake, hkey, Option.map_some]

/-- An entry that finds the supernode of its key sets its stake. -/
theorem updateStake_of_finds (stake : SupernodeStake) (now : ℤ) (testnet : Bool)
    (hC : HexSpellings C) (hs : s.Keyed)
    (hkey : C.hexToPublicKey stake.supernodePublicId = some key)
    (hfinds : s.Finds [] stake.supernodePublicId) :
    ∃ sn, (s.updateStake now testnet stake).list (C.publicKeyToHex key) = some sn ∧
      sn.idKey = key ∧ sn.stake = stake.toStake := by
  have hwrite := hC.write_read hkey
  cases hsn : s.list stake.supernodePublicId with
  | some sn =>
    obtain ⟨hread, hlower⟩ := hC.of_listed hs hsn
    rw [updateStake_of_listed hsn, hwrite, hlower]
    exact ⟨_, list_store_self _ _ _, Option.some.inj (hread.symm.trans hkey), rfl⟩
  | none =>
    have hnone : s.list (C.publicKeyToHex key) = none := by
      rw [hwrite]
      rcases hfinds with hlower | ⟨hnone, -⟩
      · rw [hlower, hsn]
      · exact hnone
    rw [updateStake_of_not_listed hsn hkey]
    exact ⟨_, (list_addImpl_of_none hnone _).trans (if_pos rfl), rfl, rfl⟩

/-- Another entry is dropped. -/
theorem updateStake_of_not_finds (stake : SupernodeStake) (now : ℤ) (testnet : Bool)
    (hC : HexSpellings C) (hs : s.Keyed)
    (hkey : C.hexToPublicKey stake.supernodePublicId = some key)
    (hfinds : ¬ s.Finds [] stake.supernodePublicId) : s.updateStake now testnet stake = s := by
  obtain ⟨hlower, hlisted⟩ := not_or.mp hfinds
  have hsn : s.list stake.supernodePublicId = none := by
    rw [Option.eq_none_iff_forall_not_mem]
    intro sn hsn
    exact hlower (hC.of_listed hs hsn).2
  obtain ⟨old, hold⟩ : ∃ old, s.list stake.supernodePublicId.toLower = some old := by
    rw [← Option.ne_none_iff_exists']
    exact fun hnone => hlisted ⟨hnone, by simp⟩
  rw [← hC.write_read hkey] at hold
  have hexist : s.exist (C.publicKeyToHex key) = true := by rw [exist, hold]; rfl
  rw [updateStake_of_not_listed hsn hkey]
  exact if_pos hexist

/-- The supernodes of other keys stay as they are. -/
theorem updateStake_of_ne (hC : HexSpellings C) (hs : s.Keyed)
    (hne : C.hexToPublicKey stake.supernodePublicId ≠ some key) :
    (s.updateStake now testnet stake).list (C.publicKeyToHex key)
      = s.list (C.publicKeyToHex key) := by
  have hother : ∀ key', C.hexToPublicKey stake.supernodePublicId = some key' →
      C.publicKeyToHex key ≠ C.publicKeyToHex key' := by
    intro key' hkey' heq
    have hread := hC.read_write key
    rw [heq, hC.read_write key'] at hread
    exact hne (hkey'.trans hread)
  cases hsn : s.list stake.supernodePublicId with
  | some sn =>
    obtain ⟨hread, -⟩ := hC.of_listed hs hsn
    rw [updateStake_of_listed hsn, ← hs _ sn hsn]
    exact list_store_of_ne s (hother _ hread) _
  | none =>
    cases hkey' : C.hexToPublicKey stake.supernodePublicId with
    | none => rw [updateStake_of_unreadable hsn hkey']
    | some key' =>
      rw [updateStake_of_not_listed hsn hkey', addImpl]
      split
      · rfl
      · exact list_store_of_ne s (hother key' hkey') _

end entry

/-! ## A whole message of stakes -/

section message

variable {stakes : List SupernodeStake} {now : ℤ} {testnet : Bool}

/-- The stakes of a list leave every supernode under its own id. -/
theorem Keyed.foldl (hs : s.Keyed) (now : ℤ) (testnet : Bool) (stakes : List SupernodeStake) :
    (stakes.foldl (FullSupernodeList.updateStake now testnet) s).Keyed := by
  induction stakes generalizing s with
  | nil => exact hs
  | cons stake stakes ih => exact ih (hs.updateStake now testnet stake)

/-- Stakes of other keys leave the supernode of a key. -/
theorem foldl_of_ne (hC : HexSpellings C) (hs : s.Keyed)
    (hne : ∀ stake ∈ stakes, C.hexToPublicKey stake.supernodePublicId ≠ some key) :
    (stakes.foldl (updateStake now testnet) s).list (C.publicKeyToHex key)
      = s.list (C.publicKeyToHex key) := by
  induction stakes generalizing s with
  | nil => rfl
  | cons stake stakes ih =>
    rw [List.foldl_cons, ih (hs.updateStake now testnet stake)
        fun later hlater => hne later (List.mem_cons_of_mem _ hlater),
      updateStake_of_ne hC hs (hne stake List.mem_cons_self)]

/-- A supernode that was listed, or has an entry, is listed afterwards. -/
theorem foldl_ne_none (hC : HexSpellings C) (hs : s.Keyed)
    (h : s.list (C.publicKeyToHex key) ≠ none ∨
      ∃ stake ∈ stakes, C.hexToPublicKey stake.supernodePublicId = some key) :
    (stakes.foldl (updateStake now testnet) s).list (C.publicKeyToHex key) ≠ none := by
  induction stakes using List.reverseRecOn with
  | nil => exact h.resolve_right (by simp)
  | append_singleton stakes stake ih =>
    have hfold := hs.foldl now testnet stakes
    rw [List.foldl_append, List.foldl_cons, List.foldl_nil]
    by_cases hkey : C.hexToPublicKey stake.supernodePublicId = some key
    · by_cases hfinds :
        (stakes.foldl (updateStake now testnet) s).Finds [] stake.supernodePublicId
      · obtain ⟨sn, hsn, -⟩ := updateStake_of_finds _ now testnet hC hfold hkey hfinds
        exact Option.ne_none_iff_exists'.mpr ⟨sn, hsn⟩
      · rw [updateStake_of_not_finds _ _ _ hC hfold hkey hfinds, hC.write_read hkey]
        exact fun hnone => (not_or.mp hfinds).2 ⟨hnone, by simp⟩
    · rw [updateStake_of_ne hC hfold hkey]
      apply ih
      rcases h with hlisted | ⟨stake', hmem, hkey'⟩
      · exact .inl hlisted
      · rcases List.mem_append.mp hmem with hmem | hmem
        · exact .inr ⟨stake', hmem, hkey'⟩
        · rw [List.mem_singleton.mp hmem] at hkey'
          exact absurd hkey' hkey

/-- Entries without a stake leave every supernode without one. -/
theorem foldl_stake_zero (hs : ∀ id sn, s.list id = some sn → sn.stake = {})
    (hstakes : ∀ stake ∈ stakes, stake.toStake = {}) :
    ∀ id sn, (stakes.foldl (updateStake now testnet) s).list id = some sn → sn.stake = {} := by
  induction stakes generalizing s with
  | nil => exact hs
  | cons stake stakes ih =>
    refine ih (fun id sn hsn => ?_) fun later hlater =>
      hstakes later (List.mem_cons_of_mem _ hlater)
    have hzero := hstakes stake List.mem_cons_self
    unfold updateStake at hsn
    split at hsn
    · split at hsn
      · exact hs id sn hsn
      · rename_i hcreate
        obtain ⟨idKey, -, rfl⟩ := Option.map_eq_some_iff.mp hcreate
        unfold addImpl at hsn
        split at hsn
        · exact hs id sn hsn
        · by_cases hid : id = C.publicKeyToHex idKey
          · subst hid
            cases (list_store_self s _ _).symm.trans hsn
            exact hzero
          · exact hs id sn ((list_store_of_ne s hid _).symm.trans hsn)
    · by_cases hid : id = stake.supernodePublicId
      · subst hid
        cases (list_store_self s _ _).symm.trans hsn
        exact hzero
      · exact hs id sn ((list_store_of_ne s hid _).symm.trans hsn)

/-- Cleared stakes do not change which supernodes are there. -/
theorem list_clearStakes_eq_none (s : FullSupernodeList C ρ) (id : String) :
    s.clearStakes.list id = none ↔ s.list id = none := Option.map_eq_none_iff

/-- The stakes of a new block are cleared, and then set one after the other. -/
theorem updateStakes_list {blockNumber : UInt64} (h : s.stakesMaxBlockNumber < blockNumber)
    (stakes : List SupernodeStake) (now : ℤ) (testnet : Bool) :
    (s.updateStakes blockNumber stakes now testnet).list
      = (stakes.foldl (updateStake now testnet) s.clearStakes).list := by
  rw [updateStakes, if_neg (UInt64.not_le.mpr h)]

/-- The last entry for a key. -/
theorem foldl_last (hC : HexSpellings C) (hs : s.Keyed) {pre post : List SupernodeStake}
    {stake : SupernodeStake}
    (hpost : ∀ later ∈ post, C.hexToPublicKey later.supernodePublicId ≠ some key) :
    ((pre ++ stake :: post).foldl (updateStake now testnet) s).list (C.publicKeyToHex key)
      = ((pre.foldl (updateStake now testnet) s).updateStake now testnet stake).list
          (C.publicKeyToHex key) := by
  rw [List.foldl_append, List.foldl_cons]
  exact foldl_of_ne hC ((hs.foldl now testnet pre).updateStake now testnet stake) hpost

end message

/-- Entries for the given ids, of which one has a stake. -/
def probe (pre : List String) (id : String) (post : List String) : List SupernodeStake :=
  let noStake : String → SupernodeStake := fun id => ⟨{}, id, ""⟩
  pre.map noStake ++ ⟨⟨1, 0, 0⟩, id, ""⟩ :: post.map noStake

/-- The ids of the list that is tried. -/
theorem map_probe (pre : List String) (id : String) (post : List String) :
    (probe pre id post).map (·.supernodePublicId) = pre ++ id :: post := by
  simp [probe, Function.comp_def]

/-- **Which messages set the stakes of the supernodes they name**. -/
theorem setsStakes_iff (hC : HexSpellings C) (hs : s.Keyed) {blockNumber : UInt64}
    (haccepted : s.stakesMaxBlockNumber < blockNumber) (ids : List String) :
    s.SetsStakes blockNumber ids ↔
      ∀ pre id post, ids = pre ++ id :: post → (C.hexToPublicKey id).isSome = true →
        (∀ later ∈ post, later.toLower ≠ id.toLower) → s.Finds pre id := by
  constructor
  · intro h pre id post hids hread hpost
    obtain ⟨key, hkey⟩ := Option.isSome_iff_exists.mp hread
    by_contra hfinds
    obtain ⟨hlower, hlisted⟩ := not_or.mp hfinds
    -- the stake of the dropped entry is the only one in the message
    have hpost' : ∀ later ∈ post.map fun id => (⟨{}, id, ""⟩ : SupernodeStake),
        C.hexToPublicKey later.supernodePublicId ≠ some key := by
      intro later hlater
      obtain ⟨id', hid', rfl⟩ := List.mem_map.mp hlater
      exact fun hkey' => hpost id' hid' ((hC.same_key_iff hkey).mp hkey')
    obtain ⟨sn, hsn, -, hstake⟩ := h (probe pre id post) ((map_probe _ _ _).trans hids.symm) 0 false
      _ _ _ key rfl hkey hpost'
    rw [updateStakes_list haccepted, probe, foldl_last hC hs.clearStakes hpost'] at hsn
    have hzero : ∀ id sn, s.clearStakes.list id = some sn → sn.stake = {} := by
      intro id sn hsn
      obtain ⟨sn', -, rfl⟩ := Option.map_eq_some_iff.mp hsn
      rfl
    have hbefore : ∀ id sn, ((pre.map fun id => ⟨{}, id, ""⟩).foldl (updateStake 0 false)
        s.clearStakes).list id = some sn → sn.stake = {} := foldl_stake_zero hzero (by simp)
    rw [updateStake_of_not_finds _ _ _ hC (hs.clearStakes.foldl 0 false _) hkey ?_] at hsn
    · cases (hbefore _ sn hsn).symm.trans hstake
    · rintro (hlower' | ⟨hnone, -⟩)
      · exact hlower hlower'
      · rw [show (SupernodeStake.mk ⟨1, 0, 0⟩ id "").supernodePublicId = id from rfl,
          ← hC.write_read hkey] at hnone
        refine foldl_ne_none hC hs.clearStakes ?_ hnone
        rw [Ne, list_clearStakes_eq_none, hC.write_read hkey]
        by_cases hold : s.list id.toLower = none
        · obtain ⟨id', hid', hsame⟩ : ∃ id' ∈ pre, id'.toLower = id.toLower := by
            by_contra hnew
            push Not at hnew
            exact hlisted ⟨hold, hnew⟩
          exact .inr ⟨_, List.mem_map_of_mem hid', (hC.same_key_iff hkey).mpr hsame⟩
        · exact .inl hold
  · intro h stakes hids now testnet pre stake post key hstakes hkey hpost
    subst hstakes
    have hfinds := h (pre.map (·.supernodePublicId)) stake.supernodePublicId
      (post.map (·.supernodePublicId)) (by rw [← hids]; simp) (by rw [hkey]; rfl) ?_
    · rw [updateStakes_list haccepted, foldl_last hC hs.clearStakes hpost]
      apply updateStake_of_finds _ _ _ hC (hs.clearStakes.foldl now testnet pre) hkey
      rcases hfinds with hlower | ⟨hnone, hnew⟩
      · exact .inl hlower
      · refine .inr ⟨?_, by simp⟩
        rw [← hC.write_read hkey, foldl_of_ne hC hs.clearStakes, list_clearStakes_eq_none,
          hC.write_read hkey]
        · exact hnone
        · intro earlier hearlier hkey'
          exact hnew _ (List.mem_map_of_mem hearlier) ((hC.same_key_iff hkey).mp hkey')
    · intro later hlater hsame
      obtain ⟨stake', hstake', rfl⟩ := List.mem_map.mp hlater
      exact hpost stake' hstake' ((hC.same_key_iff hkey).mpr hsame)

/-- **One supernode for a key**: an announce refreshes the supernode of its key, and the entries
of a message set the stakes of theirs, exactly when the supernode is found under the id that came
with the message. -/
theorem one_supernode_per_key (hC : HexSpellings C) (hs : s.Reachable R historySize) :
    (∀ announce key, ListedSupernode.validateAnnounce C announce = some key →
      (s.Refreshes announce key ↔ s.Finds [] announce.supernodePublicId)) ∧
      ∀ blockNumber ids, s.stakesMaxBlockNumber < blockNumber →
        (s.SetsStakes blockNumber ids ↔
          ∀ pre id post, ids = pre ++ id :: post → (C.hexToPublicKey id).isSome = true →
            (∀ later ∈ post, later.toLower ≠ id.toLower) → s.Finds pre id) := by
  have hkeyed := Keyed.of_reachable hs
  exact ⟨fun _ _ hvalid => refreshes_iff hC hkeyed hvalid,
    fun _ ids haccepted => setsStakes_iff hC hkeyed haccepted ids⟩

/-! ## Two spellings of one id -/

/-- The 64 hex digits of a key, in lower case. -/
def IsHexKey (digits : String) : Prop :=
  digits.toList.length = 64 ∧ (digits.toList.all fun c => (Request.hexDigit c).isSome) = true ∧
    digits.toLower = digits

instance (digits : String) : Decidable (IsHexKey digits) :=
  inferInstanceAs (Decidable (_ ∧ _ ∧ _))

/-- A key is its digits, and a signature is the message followed by the digits of the key. -/
def digitsCrypto : Crypto where
  PublicKey := { digits : String // IsHexKey digits }
  SecretKey := Unit
  Signature := String
  Hash := String
  Nonce := Unit
  hexToPublicKey id := if h : IsHexKey id.toLower then some ⟨id.toLower, h⟩ else none
  publicKeyToHex key := key.1
  hexToSignature := some
  signatureToHex sign := sign
  hexToHash := some
  hashToHex hash := hash
  cnFastHash msg := msg
  generateSignature _ hash key _ := hash ++ key.1
  checkSignature hash key sign := sign == hash ++ key.1

/-- A character in lower case stays as it is. -/
theorem toLower_toLower_char (c : Char) : c.toLower.toLower = c.toLower := by
  have hupper : ¬ (c.toLower.val ≥ 'A'.val ∧ c.toLower.val ≤ 'Z'.val) := by
    delta Char.toLower
    split <;> grind [UInt32.toNat_add]
  exact dif_neg hupper

/-- A text in lower case stays as it is. -/
theorem toLower_toLower (id : String) : id.toLower.toLower = id.toLower := by
  unfold String.toLower
  rw [String.map_map]
  congr 1
  funext c
  exact toLower_toLower_char c

/-- The digits of the sample are read in either case, and written in lower case. -/
theorem hexSpellings_digitsCrypto : HexSpellings digitsCrypto where
  read_toLower id := by simp only [digitsCrypto, toLower_toLower]
  write_read {id key} h := by
    simp only [digitsCrypto] at h
    split at h
    · cases h
      rfl
    · cases h
  read_write key := by
    have hlower : key.1.toLower = key.1 := key.2.2.2
    have hkey : IsHexKey key.1.toLower := hlower.symm ▸ key.2
    simp only [digitsCrypto, dif_pos hkey]
    exact congrArg some (Subtype.ext hlower)

open Request (lowerId upperId hexDigit)

def lowerKey : digitsCrypto.PublicKey := ⟨lowerId, by decide +kernel⟩

/-- Both ids are the lower one in lower case. -/
theorem toLower_ids : lowerId.toLower = lowerId ∧ upperId.toLower = lowerId := by decide +kernel

/-- Both ids are of one key. -/
theorem hexToPublicKey_ids : digitsCrypto.hexToPublicKey lowerId = some lowerKey ∧
    digitsCrypto.hexToPublicKey upperId = some lowerKey := by
  have hlower : digitsCrypto.hexToPublicKey lowerId = some lowerKey :=
    hexSpellings_digitsCrypto.read_write lowerKey
  refine ⟨hlower, ?_⟩
  rw [← hexSpellings_digitsCrypto.read_toLower, toLower_ids.2, hlower]

/-- The list after a message of stakes that lists a supernode. -/
def listed : FullSupernodeList digitsCrypto Mt19937_64 :=
  Runs.exec (step mt19937_64 100) (init ⟨#[], 0⟩)
    [.updateStakes 7 [⟨⟨5, 1, 2⟩, lowerId, ""⟩] 100 false]

/-- An announce of the supernode, in a spelling of its id. -/
def announceAs (id : String) : SupernodeAnnounce :=
  ⟨id, 0, id ++ toString (0 : UInt64) ++ lowerId, ""⟩

/-- The announce is for the id. -/
theorem announceAs_id (id : String) : (announceAs id).supernodePublicId = id := rfl

/-- The sample list was empty once. -/
theorem reachable_listed : listed.Reachable mt19937_64 100 := ⟨_, _, rfl⟩

/-- The key is listed under the lower id. -/
theorem exists_listed : ∃ sn, listed.list lowerId = some sn := by
  have hinit : (init ⟨#[], 0⟩ : FullSupernodeList digitsCrypto Mt19937_64).Keyed :=
    fun id sn hsn => by cases hsn
  have haccepted : (init ⟨#[], 0⟩ : FullSupernodeList digitsCrypto Mt19937_64).stakesMaxBlockNumber
      < 7 := by decide
  have hlist := updateStakes_list haccepted [⟨⟨5, 1, 2⟩, lowerId, ""⟩] 100 false
  obtain ⟨sn, hsn, -⟩ := updateStake_of_finds ⟨⟨5, 1, 2⟩, lowerId, ""⟩ 100 false
    hexSpellings_digitsCrypto hinit.clearStakes hexToPublicKey_ids.1 (.inl toLower_ids.1)
  rw [show digitsCrypto.publicKeyToHex lowerKey = lowerId from rfl] at hsn
  rw [List.foldl_cons, List.foldl_nil] at hlist
  exact ⟨sn, (congrFun hlist lowerId).trans hsn⟩

/-- The announce is valid under either id. -/
theorem validateAnnounce_announceAs {id : String} (hne : id ≠ "")
    (hkey : digitsCrypto.hexToPublicKey id = some lowerKey) :
    ListedSupernode.validateAnnounce digitsCrypto (announceAs id) = some lowerKey := by
  have hverify : Supernode.verifySignature digitsCrypto (id ++ toString (0 : UInt64)) lowerKey
      (id ++ toString (0 : UInt64) ++ lowerId) = true := beq_self_eq_true _
  unfold ListedSupernode.validateAnnounce
  rw [announceAs_id, if_neg hne, hkey]
  exact if_pos hverify

/-- The upper id does not find the supernode. -/
theorem not_finds_upperId (pre : List String) : ¬ listed.Finds pre upperId := by
  obtain ⟨sn, hsn⟩ := exists_listed
  rw [Finds, toLower_ids.2]
  rintro (hlower | ⟨hnone, -⟩)
  · exact absurd hlower (by decide)
  · cases hnone.symm.trans hsn

/-- The sample list accepts the stakes of block 8. -/
theorem listed_accepts : listed.stakesMaxBlockNumber < 8 := by decide

/-- There is nothing under the upper id. -/
theorem list_upperId : listed.list upperId = none := by
  rw [Option.eq_none_iff_forall_not_mem]
  intro sn hsn
  have hlower := (hexSpellings_digitsCrypto.of_listed (Keyed.of_reachable reachable_listed) hsn).2
  exact not_finds_upperId [] (.inl hlower)

/-- The announce in capital letters leaves the list as it is. -/
theorem handleSupernodeAnnounce_upperId (now : ℤ) (testnet : Bool) :
    (listed.handleSupernodeAnnounce (announceAs upperId) now testnet).2 = listed := by
  have hvalid := validateAnnounce_announceAs (by decide) hexToPublicKey_ids.2
  have hnone : listed.list (announceAs upperId).supernodePublicId = none := by
    rw [announceAs_id, list_upperId]
  have hid : ((ListedSupernode.create "" lowerKey testnet).setLastUpdateTime now).idKeyAsString
      = lowerId := rfl
  obtain ⟨sn, hsn⟩ := exists_listed
  rw [← hid] at hsn
  rw [handleSupernodeAnnounce_of_not_listed hvalid hnone, add_of_listed hsn]

/-- An entry in capital letters leaves the supernode without a stake. -/
theorem stakeOf_updateStakes_upperId (stake : Stake) (now : ℤ) (testnet : Bool) :
    (listed.updateStakes 8 [⟨stake, upperId, ""⟩] now testnet).stakeOf lowerId = {} := by
  have hdropped := updateStake_of_not_finds ⟨stake, upperId, ""⟩ now testnet
    hexSpellings_digitsCrypto (Keyed.of_reachable reachable_listed).clearStakes hexToPublicKey_ids.2 (by
      rintro (hlower | ⟨hnone, -⟩)
      · exact not_finds_upperId [] (.inl hlower)
      · exact not_finds_upperId [] (.inr ⟨(list_clearStakes_eq_none _ _).mp hnone, by simp⟩))
  have hlist := updateStakes_list listed_accepts [⟨stake, upperId, ""⟩] now testnet
  rw [List.foldl_cons, List.foldl_nil, hdropped] at hlist
  unfold stakeOf
  rw [hlist]
  exact stakeOf_clearStakes listed lowerId

/-- **A spelling in capital letters**: the announce leaves the list as it is, and the message leaves
the supernode without a stake. -/
theorem upper_case_dropped :
    HexSpellings digitsCrypto ∧ listed.Reachable mt19937_64 100 ∧
      ListedSupernode.validateAnnounce digitsCrypto (announceAs upperId) = some lowerKey ∧
      ¬ listed.Refreshes (announceAs upperId) lowerKey ∧
      (listed.handleSupernodeAnnounce (announceAs upperId) 5000 false).2 = listed ∧
      ¬ listed.SetsStakes 8 [upperId] ∧
      (listed.updateStakes 8 [⟨⟨6, 1, 2⟩, upperId, ""⟩] 5000 false).stakeOf lowerId = {} := by
  have hC := hexSpellings_digitsCrypto
  have hkeyed := Keyed.of_reachable reachable_listed
  have hvalid := validateAnnounce_announceAs (by decide) hexToPublicKey_ids.2
  have hread : (digitsCrypto.hexToPublicKey upperId).isSome = true := by
    rw [hexToPublicKey_ids.2]
    rfl
  refine ⟨hC, reachable_listed, hvalid, fun h => ?_, handleSupernodeAnnounce_upperId _ _,
    fun h => ?_, stakeOf_updateStakes_upperId _ _ _⟩
  · exact not_finds_upperId [] ((refreshes_iff hC hkeyed hvalid).mp h)
  · exact not_finds_upperId []
      ((setsStakes_iff hC hkeyed listed_accepts _).mp h [] upperId [] rfl hread (by simp))

/-- The announce of the listed supernode in lower case. -/
theorem one_supernode_per_key_listed :
    listed.Refreshes (announceAs lowerId) lowerKey ∧
      listed.SetsStakes 8 [lowerId] := by
  obtain ⟨hannounce, hstakes⟩ :=
    one_supernode_per_key hexSpellings_digitsCrypto reachable_listed
  have hvalid := validateAnnounce_announceAs (by decide) hexToPublicKey_ids.1
  refine ⟨(hannounce _ _ hvalid).mpr (.inl toLower_ids.1), (hstakes 8 _ listed_accepts).mpr ?_⟩
  intro pre id post hids hread hpost
  obtain rfl : id = lowerId := by
    have hmem : id ∈ [lowerId] := by rw [hids]; simp
    exact List.mem_singleton.mp hmem
  exact .inl toLower_ids.1

end FullSupernodeList
