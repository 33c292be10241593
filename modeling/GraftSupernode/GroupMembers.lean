/-
# Pointers to nodes

The pointers of a group as a map, and what a pointer finds.  An id tells a node from the ones that
held its key before and will hold it later, because no id is given twice (`Follows.act`).
-/
import GraftSupernode.TSGroups

open Runs

namespace TSGroup

variable {κ : Type*} [LinearOrder κ] {g : TSGroup κ} {key k : κ}

/-- The first entry of the key is the one that is found. -/
theorem find_cons (entry : κ × ℕ) (rest : TSGroup κ) (key : κ) :
    find (entry :: rest) key = if entry.1 = key then some entry.2 else find rest key := by
  unfold find
  by_cases h : entry.1 = key
  · simp [h]
  · simp [h]

/-- What is found is an entry of the group. -/
theorem mem_of_find {wptr : ℕ} (h : g.find key = some wptr) : (key, wptr) ∈ g := by
  obtain ⟨entry, hentry, rfl⟩ := Option.map_eq_some_iff.mp h
  have hkey : entry.1 = key := by simpa using List.find?_some hentry
  rw [← hkey]
  exact List.mem_of_find?_eq_some hentry

/-- With one pointer for a key, it is the one that is found. -/
theorem find_of_mem {wptr : ℕ} (hg : (g.map Prod.fst).Nodup) (h : (key, wptr) ∈ g) :
    g.find key = some wptr := by
  induction g with
  | nil => cases h
  | cons entry rest ih =>
    rw [List.map_cons, List.nodup_cons] at hg
    rw [find_cons]
    rcases List.mem_cons.mp h with rfl | hmem
    · rw [if_pos rfl]
    · have hne : entry.1 ≠ key := fun heq => hg.1 (heq ▸ List.mem_map_of_mem hmem)
      rw [if_neg hne, ih hg.2 hmem]

/-- Nothing is found when no entry has the key. -/
theorem find_eq_none : g.find key = none ↔ ∀ entry ∈ g, entry.1 ≠ key := by
  simp [find]

/-- A new key. -/
theorem find_emplace (h : g.find key = none) (wptr : ℕ) :
    (g.emplace key wptr).find k = if k = key then some wptr else g.find k := by
  induction g with
  | nil =>
    rw [emplace, find_cons]
    simp only [eq_comm]
  | cons entry rest ih =>
    rw [find_cons] at h
    split at h
    · cases h
    · rename_i hne
      rw [emplace]
      split
      · rw [find_cons]
        simp only [eq_comm]
      · rw [if_neg (Ne.symm hne), find_cons, find_cons, ih h]
        by_cases hk : k = key
        · rw [hk, if_neg hne, if_pos rfl, if_pos rfl]
        · rw [if_neg hk, if_neg hk]

/-- An erased key is not found, and the others are as before. -/
theorem find_erase : (g.erase key).find k = if k = key then none else g.find k := by
  unfold erase
  induction g with
  | nil => simp [find]
  | cons entry rest ih =>
    by_cases hkey : entry.1 = key
    · rw [List.filter_cons_of_neg (by simp [hkey]), ih, find_cons]
      by_cases hk : k = key
      · rw [if_pos hk, if_pos hk]
      · rw [if_neg hk, if_neg hk, if_neg fun heq => hk (heq.symm.trans hkey)]
    · rw [List.filter_cons_of_pos (by simp [hkey]), find_cons, find_cons, ih]
      by_cases hk : k = key
      · rw [hk, if_neg hkey, if_pos rfl, if_pos rfl]
      · rw [if_neg hk, if_neg hk]

/-- Keys that are erased one after the other are not found, and the others are as before. -/
theorem find_foldl_erase (keys : List κ) :
    (keys.foldl erase g).find k = if k ∈ keys then none else g.find k := by
  induction keys generalizing g with
  | nil => simp
  | cons key keys ih =>
    rw [List.foldl_cons, ih, find_erase]
    by_cases hk : k = key
    · simp [hk]
    · simp [hk]

/-- `emplace` adds this entry at most. -/
theorem mem_emplace {entry : κ × ℕ} {wptr : ℕ} (h : entry ∈ g.emplace key wptr) :
    entry = (key, wptr) ∨ entry ∈ g := by
  induction g with
  | nil => exact .inl (List.mem_singleton.mp h)
  | cons e rest ih =>
    rw [emplace] at h
    split at h
    · exact List.mem_cons.mp h
    · split at h
      · exact .inr h
      · rcases List.mem_cons.mp h with rfl | h
        · exact .inr List.mem_cons_self
        · exact (ih h).imp_right (List.mem_cons_of_mem _)

/-- Keys that are erased leave entries that were there. -/
theorem foldl_erase_sublist (keys : List κ) : (keys.foldl erase g).Sublist g := by
  induction keys generalizing g with
  | nil => exact List.Sublist.refl _
  | cons key keys ih => exact ih.trans List.filter_sublist

/-- The keys of a group differ. -/
def Distinct (g : TSGroup κ) : Prop := (g.map Prod.fst).Nodup

omit [LinearOrder κ] in
/-- Fewer entries have different keys, too. -/
theorem Distinct.sublist {g' : TSGroup κ} (h : g.Distinct) (hg : g'.Sublist g) : g'.Distinct :=
  List.Nodup.sublist (hg.map _) h

/-- A key that is not there can be added. -/
theorem Distinct.emplace (h : g.Distinct) (hnew : g.find key = none) (wptr : ℕ) :
    (g.emplace key wptr).Distinct := by
  induction g with
  | nil => exact List.nodup_singleton _
  | cons entry rest ih =>
    have hrest : Distinct rest := (List.nodup_cons.mp h).2
    rw [find_cons] at hnew
    split at hnew
    · cases hnew
    · rename_i hne
      rw [TSGroup.emplace]
      split
      · refine List.nodup_cons.mpr ⟨fun hmem => ?_, h⟩
        obtain ⟨e, he, hkey⟩ := List.mem_map.mp hmem
        rcases List.mem_cons.mp he with rfl | he
        · exact hne hkey
        · exact find_eq_none.mp hnew e he hkey
      · rw [if_neg (Ne.symm hne)]
        refine List.nodup_cons.mpr ⟨fun hmem => ?_, ih hrest hnew⟩
        obtain ⟨e, he, hkey⟩ := List.mem_map.mp hmem
        rcases mem_emplace he with rfl | he
        · exact hne hkey.symm
        · exact (List.nodup_cons.mp h).1 (List.mem_map.mpr ⟨e, he, hkey⟩)

end TSGroup

namespace TSHashtable

variable {κ V F : Type*} [LinearOrder κ] {hasher : κ → ℕ} {n : ℕ} [NeZero n]
variable {t t' t'' : TSHashtable hasher n V F} {key : κ} {id : ℕ}

/-! ## Ids are not given twice -/

/-- A node with this id holds the key. -/
def Tagged (t : TSHashtable hasher n V F) (id : ℕ) (key : κ) : Prop :=
  ∃ i, (id, key) ∈ (t.buckets i).tags

/-- The second table has come about from the first: its nodes were there, or have new ids. -/
structure Follows (t t' : TSHashtable hasher n V F) : Prop where
  nextId : t.nextId ≤ t'.nextId
  tagged : ∀ {id key}, t'.Tagged id key → t.Tagged id key ∨ t.nextId ≤ id

omit [LinearOrder κ] [NeZero n] in
/-- A table with nodes of another one comes about from it. -/
theorem Thins.follows (h : Thins t t') : Follows t t' :=
  ⟨h.nextId, fun ⟨i, htag⟩ => .inl ⟨i, (h.tags i).subset htag⟩⟩

omit [LinearOrder κ] [NeZero n] in
/-- A group may be set, and the nodes stay. -/
theorem Thins.setGroup (t : TSHashtable hasher n V F) (gname : String) (g : Option (TSGroup κ)) :
    Thins t (t.setGroup gname g) := ⟨le_rfl, fun _ => List.Sublist.refl _⟩

omit [LinearOrder κ] [NeZero n] in
/-- A value may be written into a node. -/
theorem Thins.setValue (t : TSHashtable hasher n V F) (id : ℕ) (value : V) :
    Thins t (t.write id (.setValue value)) :=
  .write (TSNode.key_setValue value) (TSNode.id_setValue value) id

omit [NeZero n] in
/-- `groupSet` writes into a node that is there. -/
theorem Thins.groupSet (t : TSHashtable hasher n V F) (gname : String) (key : κ) (val : V)
    (ttl : ℤ) (onExpired : Option F) : Thins t (t.groupSet gname key val ttl onExpired).2 := by
  unfold TSHashtable.groupSet
  split
  · exact .refl t
  · exact .write (TSNode.key_assign val ttl onExpired) (TSNode.id_assign val ttl onExpired) _

omit [LinearOrder κ] [NeZero n] in
/-- `for_each_unsafe` writes into nodes that are there. -/
theorem Thins.forEachUnsafe (f : κ → V → Bool × V) (g : TSGroup κ) (t : TSHashtable hasher n V F) :
    Thins t (forEachUnsafe f g t).table := by
  induction g generalizing t with
  | nil => exact refl t
  | cons entry rest ih =>
    rw [TSHashtable.forEachUnsafe]
    split
    · exact ih t
    · dsimp only
      split
      · exact (Thins.setValue t _ _).trans (ih _)
      · exact Thins.setValue t _ _

namespace Follows

omit [LinearOrder κ] [NeZero n] in
/-- What comes about from a table in two steps comes about from it. -/
theorem trans (h : Follows t t') (h' : Follows t' t'') : Follows t t'' where
  nextId := h.nextId.trans h'.nextId
  tagged htag := (h'.tagged htag).elim h.tagged fun hle => .inr (h.nextId.trans hle)

omit [LinearOrder κ] in
/-- A new node has a new id. -/
theorem pushFront (t : TSHashtable hasher n V F) (now : ℤ) (key : κ) (value : V) (ttl : ℤ)
    (onExpired : Option F) : Follows t (t.pushFront now key value ttl onExpired) := by
  refine ⟨Nat.le_succ _, fun {id key'} ⟨i, htag⟩ => ?_⟩
  replace htag : (id, key') ∈ ((t.setBucket (getBucket hasher n key) _).buckets i).tags := htag
  rw [buckets_setBucket] at htag
  split at htag
  · rename_i hi
    rcases List.mem_cons.mp htag with heq | htag
    · cases heq
      exact .inr le_rfl
    · exact .inl ⟨i, hi ▸ htag⟩
  · exact .inl ⟨i, htag⟩

/-- `addOrUpdate` gives a new id to a new node. -/
theorem addOrUpdate (t : TSHashtable hasher n V F) (now : ℤ) (key : κ) (value : V) (ttl : ℤ)
    (onExpired : Option F) : Follows t (t.addOrUpdate now key value ttl onExpired) := by
  refine Follows.trans (Thins.findEntryFor t now key).follows ?_
  cases hnode : t.nodeOf key with
  | none =>
    rw [addOrUpdate_of_none hnode]
    exact pushFront _ _ _ _ _ _
  | some node =>
    rw [addOrUpdate_of_some hnode]
    exact (Thins.setValue _ _ _).follows

/-- An operation gives new ids to new nodes. -/
theorem step (t : TSHashtable hasher n V F) (o : Op κ V F) : Follows t (t.step o) := by
  cases o with
  | addOrUpdate now key value ttl onExpired => exact addOrUpdate t now key value ttl onExpired
  | valueFor now key defaultValue => exact (Thins.findEntryFor t now key).follows
  | hasKey now key => exact (Thins.findEntryFor t now key).follows
  | apply now key f => exact (Thins.apply t now key f).follows
  | remove key => exact (Thins.remove t key).follows
  | cleanup clock all => exact (Thins.cleanup t clock all).follows

end Follows

/-- An event that is not an operation on the table drops no node but those it drops. -/
theorem Thins.act (t : TSHashtable hasher n V F) (e : Event κ V F) (he : ∀ o, e ≠ .op o) :
    Thins t (t.act e) := by
  cases e with
  | op o => exact absurd rfl (he o)
  | createGroup gname =>
    show Thins t (t.createGroup gname).2
    unfold createGroup
    split
    · exact .setGroup t _ _
    · exact .refl t
  | deleteGroup gname => exact .setGroup t _ _
  | groupAddKey gname key =>
    show Thins t (t.groupAddKey gname key).2
    unfold groupAddKey
    split
    · exact .refl t
    · exact .setGroup t _ _
  | groupRemoveKey gname key =>
    show Thins t (t.groupRemoveKey gname key).2
    unfold groupRemoveKey
    split
    · exact .refl t
    · exact .setGroup t _ _
  | groupSet gname key val ttl onExpired => exact .groupSet t gname key val ttl onExpired
  | groupForEach gname f =>
    show Thins t (t.groupForEach gname f).2.2
    unfold groupForEach
    split
    · exact .refl t
    · exact (Thins.forEachUnsafe f _ t).trans (.setGroup _ _ _)

/-- **Every event** gives new ids to new nodes. -/
theorem Follows.act (t : TSHashtable hasher n V F) (e : Event κ V F) : Follows t (t.act e) := by
  by_cases he : ∃ o, e = .op o
  · obtain ⟨o, rfl⟩ := he
    exact .step t o
  · exact (Thins.act t e fun o heq => he ⟨o, heq⟩).follows

/-- A run gives new ids to new nodes. -/
theorem Follows.exec (t : TSHashtable hasher n V F) (es : List (Event κ V F)) :
    Follows t (Runs.exec TSHashtable.act t es) := by
  induction es generalizing t with
  | nil => exact (Thins.refl t).follows
  | cons e es ih => exact (Follows.act t e).trans (ih _)

/-- Every event keeps the table sound. -/
theorem Sound.act (h : t.Sound) (e : Event κ V F) : (t.act e).Sound := by
  by_cases he : ∃ o, e = .op o
  · obtain ⟨o, rfl⟩ := he
    exact h.step o
  · exact h.thins (Thins.act t e fun o heq => he ⟨o, heq⟩)

/-! ## Nodes and weak pointers -/

omit [LinearOrder κ] [NeZero n] in
/-- A node in a bucket holds its key. -/
theorem tagged_of_mem {i : Fin n} {node : TSNode (κ × V) F} (h : node ∈ t.buckets i) :
    t.Tagged node.id node.data.1 := ⟨i, List.mem_map_of_mem h⟩

/-- A node in a bucket is the node of its key. -/
theorem Sound.nodeOf_of_mem (h : t.Sound) {i : Fin n} {node : TSNode (κ × V) F}
    (hmem : node ∈ t.buckets i) : t.nodeOf node.data.1 = some node := by
  unfold nodeOf
  rw [show getBucket hasher n node.data.1 = i from h.placed i _ (List.mem_map_of_mem hmem)]
  exact TSList.lookup_of_mem (h.nodup_keys i) hmem

/-- The node of a key is the one that holds it. -/
theorem Sound.tagged_iff (h : t.Sound) :
    t.Tagged id key ↔ ∃ node, t.nodeOf key = some node ∧ node.id = id := by
  constructor
  · rintro ⟨i, htag⟩
    obtain ⟨node, hnode, heq⟩ := List.mem_map.mp htag
    cases heq
    exact ⟨node, h.nodeOf_of_mem hnode, rfl⟩
  · rintro ⟨node, hnode, rfl⟩
    obtain ⟨hmem, rfl⟩ := mem_of_nodeOf hnode
    exact tagged_of_mem hmem

omit [LinearOrder κ] [NeZero n] in
/-- A pointer is dead when no key is held by the node with this id. -/
theorem lock_eq_none : t.lock id = none ↔ ∀ key, ¬ t.Tagged id key := by
  unfold lock
  rw [List.findSome?_eq_none_iff]
  constructor
  · rintro h key ⟨i, htag⟩
    obtain ⟨node, hnode, heq⟩ := List.mem_map.mp htag
    cases heq
    have hfind := h i (List.mem_finRange i)
    rw [List.find?_eq_none] at hfind
    exact hfind node hnode (decide_eq_true rfl)
  · intro h i _
    rw [List.find?_eq_none]
    intro node hnode hid
    obtain rfl := of_decide_eq_true hid
    exact h _ (tagged_of_mem hnode)

/-- A pointer that is not dead is one to the node of a key. -/
theorem Sound.lock_eq_some (h : t.Sound) {node : TSNode (κ × V) F} (hlock : t.lock id = some node) :
    t.nodeOf node.data.1 = some node ∧ node.id = id := by
  obtain ⟨i, -, hfind⟩ := List.exists_of_findSome?_eq_some hlock
  exact ⟨h.nodeOf_of_mem (List.mem_of_find?_eq_some hfind), by simpa using List.find?_some hfind⟩

/-- A pointer to the node of a key can be locked. -/
theorem Sound.lock_of_nodeOf (h : t.Sound) {node : TSNode (κ × V) F}
    (hnode : t.nodeOf key = some node) : t.lock node.id = some node := by
  have htag : t.Tagged node.id key := h.tagged_iff.mpr ⟨node, hnode, rfl⟩
  cases hlock : t.lock node.id with
  | none => exact absurd htag (lock_eq_none.mp hlock key)
  | some node' =>
    obtain ⟨hnode', hid⟩ := h.lock_eq_some hlock
    have hkey := h.eq_of_id hnode' hnode hid
    rw [hkey, hnode] at hnode'
    exact hnode'.symm

end TSHashtable
