/-
# The nodes of a table

The node of a key is the first one with this key in its bucket (`nodeOf`).  In a `Sound` table it
is the only one, and has an id of its own; every operation on keys replaces the node of its key, and
keeps the table sound.
-/
import GraftSupernode.TSHashtable

namespace TSList

variable {κ V F : Type*} [DecidableEq κ] {l : TSList (κ × V) F} {now : ℤ} {key key' : κ}

/-- The first node with a key. -/
def lookup (l : TSList (κ × V) F) (key : κ) : Option (TSNode (κ × V) F) :=
  l.find? fun n => n.data.1 = key

/-- The ids of the nodes, with the keys. -/
def tags (l : TSList (κ × V) F) : List (ℕ × κ) := l.map fun n => (n.id, n.data.1)

/-- An empty bucket has no node of a key. -/
@[simp] theorem lookup_nil : lookup ([] : TSList (κ × V) F) key = none := rfl

/-- The first node of the key is the one that is found. -/
theorem lookup_cons (next : TSNode (κ × V) F) (rest : TSList (κ × V) F) (key : κ) :
    lookup (next :: rest) key = if next.data.1 = key then some next else rest.lookup key := by
  unfold lookup
  by_cases h : next.data.1 = key
  · simp [h]
  · simp [h]

/-- The node that is found is in the bucket, and its key is the one looked for. -/
theorem mem_of_lookup {n : TSNode (κ × V) F} (h : l.lookup key = some n) :
    n ∈ l ∧ n.data.1 = key :=
  ⟨List.mem_of_find?_eq_some h, by simpa using List.find?_some h⟩

/-- No node is found when none has the key. -/
theorem lookup_eq_none : l.lookup key = none ↔ ∀ n ∈ l, n.data.1 ≠ key := by
  simp [lookup]

/-- With one node for a key, it is the one that is looked up. -/
theorem lookup_of_mem (hl : (l.map (·.data.1)).Nodup) {n : TSNode (κ × V) F} (h : n ∈ l) :
    l.lookup n.data.1 = some n := by
  induction l with
  | nil => cases h
  | cons next rest ih =>
    rw [List.map_cons, List.nodup_cons] at hl
    rw [lookup_cons]
    rcases List.mem_cons.mp h with rfl | hmem
    · rw [if_pos rfl]
    · have hne : next.data.1 ≠ n.data.1 := fun heq => hl.1 (heq ▸ List.mem_map_of_mem hmem)
      rw [if_neg hne, ih hl.2 hmem]

/-- A filter keeps the node of a key, or leaves none. -/
theorem lookup_filter (hl : (l.map (·.data.1)).Nodup) (p : TSNode (κ × V) F → Bool) (key : κ) :
    lookup (l.filter p) key = (l.lookup key).filter p := by
  cases hlookup : l.lookup key with
  | none =>
    rw [lookup_eq_none] at hlookup
    exact lookup_eq_none.mpr fun n hn => hlookup n (List.mem_filter.mp hn).1
  | some n =>
    obtain ⟨hmem, rfl⟩ := mem_of_lookup hlookup
    by_cases hp : p n = true
    · rw [Option.filter_some_pos hp]
      exact lookup_of_mem (hl.sublist (List.filter_sublist.map _)) (List.mem_filter.mpr ⟨hmem, hp⟩)
    · rw [Option.filter_some_neg (by simpa using hp), lookup_eq_none]
      intro n' hn' hkey
      obtain ⟨hmem', hp'⟩ := List.mem_filter.mp hn'
      have hsame := (lookup_of_mem hl hmem').symm
      rw [hkey, hlookup] at hsame
      exact hp (Option.some.inj hsame ▸ hp')

/-! ## The operations on a list -/

/-- `find_first_of` answers with the node of the key, whose time is then set. -/
theorem findFirstOf_fst : (l.findFirstOf now fun item => item.1 = key).1
    = (l.lookup key).map (TSNode.updateTime now) := by
  induction l with
  | nil => rfl
  | cons next rest ih =>
    rw [findFirstOf, lookup_cons]
    by_cases h : next.data.1 = key
    · simp [h]
    · simp [h, ih]

/-- `find_first_of` sets the time of the node that it finds, and leaves the others. -/
theorem lookup_findFirstOf : (l.findFirstOf now fun item => item.1 = key).2.lookup key'
    = if key' = key then (l.lookup key).map (TSNode.updateTime now) else l.lookup key' := by
  induction l with
  | nil => simp [findFirstOf]
  | cons next rest ih =>
    rw [findFirstOf, lookup_cons, lookup_cons]
    by_cases h : next.data.1 = key
    · simp only [h, decide_true, if_true, lookup_cons]
      by_cases hk : key' = key
      · simp [hk, TSNode.updateTime, h]
      · simp [hk, TSNode.updateTime, h, Ne.symm hk]
    · simp only [h, decide_false, if_false, lookup_cons, ih, Bool.false_eq_true]
      by_cases hk : key' = key
      · simp [hk, h]
      · simp [hk]

omit [DecidableEq κ] in
/-- `find_first_of` leaves the ids and keys of the nodes. -/
theorem tags_findFirstOf (p : κ × V → Bool) : (l.findFirstOf now p).2.tags = l.tags := by
  induction l with
  | nil => rfl
  | cons next rest ih =>
    rw [findFirstOf]
    split
    · rfl
    · simpa [tags] using ih

/-- `find_and_apply_first_of` answers what the function does for the value of the key, or `false`.
-/
theorem findAndApplyFirstOf_fst (f : κ × V → Bool × κ × V) :
    (l.findAndApplyFirstOf now (fun item => item.1 = key) f).1
      = (l.lookup key).elim false fun n => (f n.data).1 := by
  induction l with
  | nil => rfl
  | cons next rest ih =>
    rw [findAndApplyFirstOf, lookup_cons]
    by_cases h : next.data.1 = key
    · simp [h]
    · simp [h, ih]

/-- `find_and_apply_first_of` changes the value of the key and sets the time of its node. -/
theorem lookup_findAndApplyFirstOf {f : κ × V → Bool × κ × V} (hf : ∀ item, (f item).2.1 = item.1) :
    (l.findAndApplyFirstOf now (fun item => item.1 = key) f).2.lookup key'
      = if key' = key then
          (l.lookup key).map fun n => { n.updateTime now with data := (f n.data).2 }
        else l.lookup key' := by
  induction l with
  | nil => simp [findAndApplyFirstOf]
  | cons next rest ih =>
    rw [findAndApplyFirstOf, lookup_cons, lookup_cons]
    by_cases h : next.data.1 = key
    · simp only [h, decide_true, if_true, lookup_cons, hf]
      by_cases hk : key' = key
      · simp [hk]
      · simp [hk, Ne.symm hk]
    · simp only [h, decide_false, if_false, lookup_cons, ih, Bool.false_eq_true]
      by_cases hk : key' = key
      · simp [hk, h]
      · simp [hk]

omit [DecidableEq κ] in
/-- `find_and_apply_first_of` leaves the ids and keys of the nodes. -/
theorem tags_findAndApplyFirstOf (p : κ × V → Bool) {f : κ × V → Bool × κ × V}
    (hf : ∀ item, (f item).2.1 = item.1) : (l.findAndApplyFirstOf now p f).2.tags = l.tags := by
  induction l with
  | nil => rfl
  | cons next rest ih =>
    rw [findAndApplyFirstOf]
    split
    · simp [tags, TSNode.updateTime, hf]
    · simpa [tags] using ih

omit [DecidableEq κ] in
/-- `remove_if` keeps the other nodes, in their order. -/
theorem removeIf_eq_filter (p : κ × V → Bool) : l.removeIf p = l.filter fun n => !p n.data := by
  induction l with
  | nil => rfl
  | cons next rest ih =>
    rw [removeIf, ih]
    by_cases h : p next.data = true
    · simp [h]
    · simp [h]

/-- `remove_if` for a key leaves no node of it, and the first ones of the others. -/
theorem lookup_removeIf : (l.removeIf fun item => item.1 = key).lookup key'
    = if key' = key then none else l.lookup key' := by
  induction l with
  | nil => simp [removeIf]
  | cons next rest ih =>
    rw [removeIf, lookup_cons]
    by_cases h : next.data.1 = key
    · simp only [h, decide_true, if_true, ih]
      by_cases hk : key' = key
      · simp [hk]
      · simp [hk, Ne.symm hk]
    · simp only [h, decide_false, if_false, lookup_cons, ih, Bool.false_eq_true]
      by_cases hk : key' = key
      · simp [hk, h]
      · simp [hk]

omit [DecidableEq κ] in
/-- A cleanup keeps the nodes that have not expired. -/
theorem safeCleanup_snd : (l.safeCleanup now).2 = l.filter fun n => !n.expired now := by
  induction l with
  | nil => rfl
  | cons next rest ih =>
    rw [safeCleanup]
    by_cases h : next.expired now = true
    · rw [if_pos h, List.filter_cons_of_neg (by simp [h]), ← ih]
      cases next.onExpired <;> rfl
    · rw [if_neg h, List.filter_cons_of_pos (by simp [h]), ← ih]

/-- The call that a cleanup makes for a node. -/
def expiredCall (now : ℤ) (n : TSNode (κ × V) F) : Option (ExpiredCall (κ × V) F) :=
  if n.expired now then n.onExpired.map (⟨·, n.data⟩) else none

omit [DecidableEq κ] in
/-- A cleanup calls the callbacks of the nodes that have expired, in their order. -/
theorem safeCleanup_fst : (l.safeCleanup now).1 = l.filterMap (expiredCall now) := by
  induction l with
  | nil => rfl
  | cons next rest ih =>
    rw [safeCleanup, List.filterMap_cons, expiredCall]
    by_cases h : next.expired now = true
    · rw [if_pos h, if_pos h, ← ih]
      cases next.onExpired <;> rfl
    · rw [if_neg h, if_neg h, ← ih]

/-- A write through a pointer changes the node with this id only. -/
theorem lookup_write {f : TSNode (κ × V) F → TSNode (κ × V) F} (hf : ∀ n, (f n).data.1 = n.data.1)
    (id : ℕ) : (l.write id f).lookup key
      = (l.lookup key).map fun n => if n.id = id then f n else n := by
  have hkey : ∀ n : TSNode (κ × V) F, (if n.id = id then f n else n).data.1 = n.data.1 := by
    intro n
    split
    · exact hf n
    · rfl
  unfold write lookup
  rw [List.find?_map]
  simp only [Function.comp_def, hkey]

omit [DecidableEq κ] in
/-- A write through a pointer leaves the ids and keys of the nodes. -/
theorem tags_write {f : TSNode (κ × V) F → TSNode (κ × V) F} (hf : ∀ n, (f n).data.1 = n.data.1)
    (hid : ∀ n, (f n).id = n.id) (id : ℕ) : (l.write id f).tags = l.tags := by
  unfold write tags
  rw [List.map_map]
  apply List.map_congr_left
  intro n _
  rw [Function.comp_apply]
  split
  · rw [hf, hid]
  · rfl

end TSList

namespace TSHashtable

variable {κ V F : Type*} [DecidableEq κ] {hasher : κ → ℕ} {n : ℕ} [NeZero n]
variable {t t' t'' : TSHashtable hasher n V F} {now : ℤ} {key key' : κ}

/-! ## The node of a key -/

/-- The first node with a key in the bucket of the key. -/
def nodeOf (t : TSHashtable hasher n V F) (key : κ) : Option (TSNode (κ × V) F) :=
  (t.buckets (getBucket hasher n key)).lookup key

/-- The node of a key is in the bucket of the key. -/
theorem mem_of_nodeOf {node : TSNode (κ × V) F} (h : t.nodeOf key = some node) :
    node ∈ t.buckets (getBucket hasher n key) ∧ node.data.1 = key :=
  TSList.mem_of_lookup h

/-- A new bucket is what the keys that belong to it see. -/
theorem nodeOf_setBucket (i : Fin n) (l : TSList (κ × V) F) :
    (t.setBucket i l).nodeOf key
      = if getBucket hasher n key = i then l.lookup key else t.nodeOf key := by
  unfold nodeOf
  rw [buckets_setBucket]
  split <;> rfl

/-- A list in the bucket of one key that has the other nodes as before. -/
theorem nodeOf_setBucket_self {l : TSList (κ × V) F} {o : Option (TSNode (κ × V) F)}
    (h : ∀ k, l.lookup k
      = if k = key then o else (t.buckets (getBucket hasher n key)).lookup k) :
    (t.setBucket (getBucket hasher n key) l).nodeOf key' = if key' = key then o
      else t.nodeOf key' := by
  rw [nodeOf_setBucket, h]
  by_cases hk : key' = key
  · rw [if_pos (by rw [hk]), if_pos hk, if_pos hk]
  · rw [if_neg hk, if_neg hk]
    by_cases hb : getBucket hasher n key' = getBucket hasher n key
    · rw [if_pos hb, ← hb]
      rfl
    · rw [if_neg hb]

/-- `find_entry_for` answers with the node of the key, whose time is then set. -/
theorem findEntryFor_fst :
    (t.findEntryFor now key).1 = (t.nodeOf key).map (TSNode.updateTime now) :=
  TSList.findFirstOf_fst

/-- `find_entry_for` sets the time of the node of the key, and leaves the others. -/
theorem nodeOf_findEntryFor : (t.findEntryFor now key).2.nodeOf key'
    = if key' = key then (t.nodeOf key).map (TSNode.updateTime now) else t.nodeOf key' :=
  nodeOf_setBucket_self fun _ => TSList.lookup_findFirstOf

/-- `push_front` adds a node for the key. -/
theorem nodeOf_pushFront (value : V) (ttl : ℤ) (onExpired : Option F) :
    (t.pushFront now key value ttl onExpired).nodeOf key' = if key' = key
      then some (.create t.nextId now (key, value) ttl onExpired) else t.nodeOf key' := by
  refine nodeOf_setBucket_self fun k => ?_
  rw [TSList.lookup_cons, TSNode.data_create]
  simp only [eq_comm]

/-- `remove` takes away the node of the key. -/
theorem nodeOf_remove : (t.remove key).nodeOf key' = if key' = key then none else t.nodeOf key' :=
  nodeOf_setBucket_self fun _ => TSList.lookup_removeIf

/-- `apply` changes the value of the key and sets the time of its node. -/
theorem nodeOf_apply (f : V → Bool × V) : (t.apply now key f).2.nodeOf key' = if key' = key
    then (t.nodeOf key).map fun n => (n.updateTime now).setValue (f n.data.2).2
    else t.nodeOf key' :=
  nodeOf_setBucket_self fun _ => TSList.lookup_findAndApplyFirstOf fun _ => rfl

/-- A write through a pointer changes the node with this id, under whichever key. -/
theorem nodeOf_write {f : TSNode (κ × V) F → TSNode (κ × V) F} (hf : ∀ n, (f n).data.1 = n.data.1)
    (id : ℕ) :
    (t.write id f).nodeOf key = (t.nodeOf key).map fun n => if n.id = id then f n else n :=
  TSList.lookup_write hf id

/-! ## Tables with fewer nodes -/

/-- The second table has nodes of the first, with their ids and keys. -/
structure Thins (t t' : TSHashtable hasher n V F) : Prop where
  nextId : t.nextId ≤ t'.nextId
  tags : ∀ i, ((t'.buckets i).tags).Sublist (t.buckets i).tags

namespace Thins

omit [DecidableEq κ] [NeZero n]

/-- A table has its own nodes. -/
theorem refl (t : TSHashtable hasher n V F) : Thins t t := ⟨le_rfl, fun _ => List.Sublist.refl _⟩

/-- What has nodes of a table that has nodes of another one has nodes of that. -/
theorem trans (h : Thins t t') (h' : Thins t' t'') : Thins t t'' :=
  ⟨h.nextId.trans h'.nextId, fun i => (h'.tags i).trans (h.tags i)⟩

/-- A bucket may lose nodes. -/
theorem setBucket {i : Fin n} {l : TSList (κ × V) F}
    (hl : (l.tags).Sublist (t.buckets i).tags) : Thins t (t.setBucket i l) := by
  refine ⟨le_rfl, fun j => ?_⟩
  rw [buckets_setBucket]
  split
  · rename_i hj
    rwa [hj]
  · exact List.Sublist.refl _

/-- A write through a pointer leaves the nodes, with their ids and keys. -/
theorem write {f : TSNode (κ × V) F → TSNode (κ × V) F} (hf : ∀ n, (f n).data.1 = n.data.1)
    (hid : ∀ n, (f n).id = n.id) (id : ℕ) : Thins t (t.write id f) := by
  refine ⟨le_rfl, fun i => ?_⟩
  show ((t.buckets i).write id f).tags.Sublist _
  rw [TSList.tags_write hf hid]

/-- A cleanup of a bucket only takes nodes away. -/
theorem cleanupBucket (t : TSHashtable hasher n V F) (nowSec : ℤ) (i : Fin n) :
    Thins t (t.cleanupBucket nowSec i).2 := by
  apply setBucket
  rw [TSList.safeCleanup_snd]
  exact List.filter_sublist.map _

end Thins

section keys

variable (t : TSHashtable hasher n V F) (now : ℤ) (key : κ)

/-- `find_entry_for` leaves the nodes, with their ids and keys. -/
theorem Thins.findEntryFor : Thins t (t.findEntryFor now key).2 := by
  apply setBucket
  rw [TSList.tags_findFirstOf]

/-- `remove` only takes nodes away. -/
theorem Thins.remove : Thins t (t.remove key) := by
  apply setBucket
  rw [TSList.removeIf_eq_filter]
  exact List.filter_sublist.map _

/-- `apply` leaves the nodes, with their ids and keys. -/
theorem Thins.apply (f : V → Bool × V) : Thins t (t.apply now key f).2 := by
  apply setBucket
  rw [TSList.tags_findAndApplyFirstOf]
  exact fun _ => rfl

end keys

/-! ## Sound tables -/

/-- Every key has its node in its own bucket, and one at most; the ids of the nodes differ, and
will not be given to new ones. -/
structure Sound (t : TSHashtable hasher n V F) : Prop where
  nodup : ∀ i, ((t.buckets i).tags.map Prod.snd).Nodup
  placed : ∀ i, ∀ tag ∈ (t.buckets i).tags, getBucket hasher n tag.2 = i
  fresh : ∀ i, ∀ tag ∈ (t.buckets i).tags, tag.1 < t.nextId
  distinct : ∀ i j, ∀ tag ∈ (t.buckets i).tags, ∀ tag' ∈ (t.buckets j).tags,
    tag.1 = tag'.1 → tag.2 = tag'.2

omit [DecidableEq κ] in
/-- A new table is sound. -/
theorem sound_init : (init : TSHashtable hasher n V F).Sound where
  nodup _ := List.nodup_nil
  placed _ _ h := absurd h List.not_mem_nil
  fresh _ _ h := absurd h List.not_mem_nil
  distinct _ _ _ h := absurd h List.not_mem_nil

namespace Sound

omit [DecidableEq κ] in
/-- The keys of a bucket are different. -/
theorem nodup_keys (h : t.Sound) (i : Fin n) : ((t.buckets i).map (·.data.1)).Nodup := by
  have hnodup := h.nodup i
  rwa [TSList.tags, List.map_map] at hnodup

omit [DecidableEq κ] in
/-- Nodes that disappear, and other data than the ids and the keys, do not matter. -/
theorem thins (h : t.Sound) (ht : Thins t t') : t'.Sound where
  nodup i := (h.nodup i).sublist ((ht.tags i).map _)
  placed i tag htag := h.placed i tag ((ht.tags i).subset htag)
  fresh i tag htag := (h.fresh i tag ((ht.tags i).subset htag)).trans_le ht.nextId
  distinct i j tag htag tag' htag' := h.distinct i j tag ((ht.tags i).subset htag) tag'
    ((ht.tags j).subset htag')

/-- The nodes of two keys have different ids. -/
theorem eq_of_id (h : t.Sound) {node node' : TSNode (κ × V) F} (hnode : t.nodeOf key = some node)
    (hnode' : t.nodeOf key' = some node') (hid : node.id = node'.id) : key = key' := by
  obtain ⟨hmem, rfl⟩ := mem_of_nodeOf hnode
  obtain ⟨hmem', rfl⟩ := mem_of_nodeOf hnode'
  exact h.distinct _ _ _ (List.mem_map_of_mem hmem) _ (List.mem_map_of_mem hmem') hid

/-- A node of a new key. -/
theorem pushFront (h : t.Sound) (hnew : t.nodeOf key = none) (now : ℤ) (value : V) (ttl : ℤ)
    (onExpired : Option F) : (t.pushFront now key value ttl onExpired).Sound := by
  have htags : ∀ i, ((t.pushFront now key value ttl onExpired).buckets i).tags
      = if i = getBucket hasher n key then (t.nextId, key) :: (t.buckets i).tags
        else (t.buckets i).tags := by
    intro i
    show TSList.tags ((t.setBucket (getBucket hasher n key) _).buckets i) = _
    rw [buckets_setBucket]
    by_cases hi : i = getBucket hasher n key
    · rw [if_pos hi, if_pos hi, hi]
      rfl
    · rw [if_neg hi, if_neg hi]
  have hmem : ∀ {i tag}, tag ∈ ((t.pushFront now key value ttl onExpired).buckets i).tags →
      tag = (t.nextId, key) ∧ i = getBucket hasher n key ∨ tag ∈ (t.buckets i).tags := by
    intro i tag htag
    rw [htags] at htag
    split at htag
    · rename_i hi
      rcases List.mem_cons.mp htag with rfl | htag
      · exact .inl ⟨rfl, hi⟩
      · exact .inr htag
    · exact .inr htag
  constructor
  · intro i
    rw [htags]
    split
    · rename_i hi
      rw [List.map_cons, List.nodup_cons]
      refine ⟨fun hkey => ?_, h.nodup i⟩
      rw [TSList.tags, List.map_map] at hkey
      obtain ⟨node, hnode, heq⟩ := List.mem_map.mp hkey
      subst hi
      exact TSList.lookup_eq_none.mp hnew node hnode heq
    · exact h.nodup i
  · intro i tag htag
    rcases hmem htag with ⟨rfl, rfl⟩ | htag
    · rfl
    · exact h.placed i tag htag
  · intro i tag htag
    rcases hmem htag with ⟨rfl, rfl⟩ | htag
    · exact Nat.lt_succ_self _
    · exact (h.fresh i tag htag).trans (Nat.lt_succ_self _)
  · -- the new id is above those of the other nodes
    intro i j tag htag tag' htag' hid
    rcases hmem htag with ⟨rfl, rfl⟩ | htag <;> rcases hmem htag' with ⟨rfl, rfl⟩ | htag'
    · rfl
    · exact absurd hid (h.fresh j tag' htag').ne'
    · exact absurd hid (h.fresh i tag htag).ne
    · exact h.distinct i j tag htag tag' htag' hid

end Sound

/-- The node that `addOrUpdate` leaves under its key. -/
def nodeAfterSet (t : TSHashtable hasher n V F) (now : ℤ) (key : κ) (value : V) (ttl : ℤ)
    (onExpired : Option F) : TSNode (κ × V) F :=
  match t.nodeOf key with
  | none => .create t.nextId now (key, value) ttl onExpired
  | some node => (node.updateTime now).setValue value

/-- For a key that is not there, `addOrUpdate` adds a node. -/
theorem addOrUpdate_of_none (h : t.nodeOf key = none) (value : V) (ttl : ℤ)
    (onExpired : Option F) : t.addOrUpdate now key value ttl onExpired
      = (t.findEntryFor now key).2.pushFront now key value ttl onExpired := by
  simp only [addOrUpdate, findEntryFor_fst, h, Option.map_none]

/-- For a key that is there, `addOrUpdate` writes the value into its node. -/
theorem addOrUpdate_of_some {node : TSNode (κ × V) F} (h : t.nodeOf key = some node) (value : V)
    (ttl : ℤ) (onExpired : Option F) : t.addOrUpdate now key value ttl onExpired
      = (t.findEntryFor now key).2.write node.id (.setValue value) := by
  simp only [addOrUpdate, findEntryFor_fst, h, Option.map_some, TSNode.id_updateTime]

/-- **What `addOrUpdate` does to the nodes of the keys**. -/
theorem nodeOf_addOrUpdate (h : t.Sound) (value : V) (ttl : ℤ) (onExpired : Option F) :
    (t.addOrUpdate now key value ttl onExpired).nodeOf key' = if key' = key
      then some (t.nodeAfterSet now key value ttl onExpired) else t.nodeOf key' := by
  unfold nodeAfterSet
  cases hnode : t.nodeOf key with
  | none =>
    rw [addOrUpdate_of_none hnode, nodeOf_pushFront, nodeOf_findEntryFor]
    by_cases hk : key' = key
    · rw [if_pos hk, if_pos hk]
      rfl
    · rw [if_neg hk, if_neg hk, if_neg hk]
  | some node =>
    rw [addOrUpdate_of_some hnode, nodeOf_write (TSNode.key_setValue value), nodeOf_findEntryFor]
    by_cases hk : key' = key
    · rw [if_pos hk, if_pos hk, hnode, Option.map_some, Option.map_some,
        if_pos (TSNode.id_updateTime now node)]
    · rw [if_neg hk, if_neg hk]
      cases hnode' : t.nodeOf key' with
      | none => rfl
      | some node' =>
        rw [Option.map_some, if_neg fun hid => hk (h.eq_of_id hnode' hnode hid)]

/-- `addOrUpdate` keeps the table sound, since it adds a node only for a key that has none. -/
theorem Sound.addOrUpdate (h : t.Sound) (now : ℤ) (key : κ) (value : V) (ttl : ℤ)
    (onExpired : Option F) : (t.addOrUpdate now key value ttl onExpired).Sound := by
  cases hnode : t.nodeOf key with
  | none =>
    rw [addOrUpdate_of_none hnode]
    apply (h.thins (.findEntryFor t now key)).pushFront
    rw [nodeOf_findEntryFor, if_pos rfl, hnode]
    rfl
  | some node =>
    rw [addOrUpdate_of_some hnode]
    exact (h.thins (.findEntryFor t now key)).thins
      (.write (TSNode.key_setValue value) (TSNode.id_setValue value) _)

end TSHashtable
