/-
# Access through a group

`Global::groupSet` and `Global::groupGet` on a member of a group, next to `Global::set` and
`Global::get` on its key: one writes the `ttl` and the callback of the node and leaves its time, the
other updates its time and leaves them.  `groupAccess_iff` says where no continuation tells one from
the other.
-/
import GraftSupernode.GroupMembership

open Runs

namespace TSHashtable

variable {κ V F : Type*} [LinearOrder κ] {hasher : κ → ℕ} {n : ℕ} [NeZero n]
variable {t t₁ t₂ : TSHashtable hasher n V F} {gname : String} {key : κ} {now : ℤ}

/-! ## Tables that nothing tells apart -/

/-- What can be observed of two tables is the same. -/
structure SameObserved (t₁ t₂ : TSHashtable hasher n V F) : Prop where
  /-- The values, the `ttl`s, the expiry times and the callbacks. -/
  entries : t₁.entries = t₂.entries
  /-- What any operation returns. -/
  reply : ∀ o, t₁.reply o = t₂.reply o
  /-- What any operation calls. -/
  calls : ∀ o, t₁.calls o = t₂.calls o
  /-- Who is a member of any group. -/
  groupHasKey : ∀ gname key, t₁.groupHasKey gname key = t₂.groupHasKey gname key
  /-- What is given to a function for each member of a group. -/
  delivered : ∀ gname f, (t₁.groupForEach gname f).2.1 = (t₂.groupForEach gname f).2.1

/-- Nothing can be observed in one table that cannot in the other, after any continuation. -/
def SameFrom (t₁ t₂ : TSHashtable hasher n V F) : Prop :=
  ∀ es : List (Event κ V F), SameObserved (exec act t₁ es) (exec act t₂ es)

/-- `groupSet` leaves the table as `set` does. -/
def SetAgrees (t : TSHashtable hasher n V F) (gname : String) (key : κ) (now : ℤ) (val : V) (ttl : ℤ)
    (onExpired : Option F) : Prop :=
  SameFrom (t.groupSet gname key val ttl onExpired).2 (t.addOrUpdate now key val ttl onExpired)

/-- `groupGet` returns what `get` does, and leaves the table as `get` does. -/
def GetAgrees {α : Type*} (t : TSHashtable hasher n V F) (gname : String) (key : κ) (now : ℤ)
    (anyCast : V → Option α) (any : α → V) (defval : α) : Prop :=
  t.groupGet gname key anyCast defval = (t.get key now anyCast any defval).1 ∧
    SameFrom t (t.get key now anyCast any defval).2

/-- Equal tables are the same from any key's view. -/
theorem SameFrom.of_eq (h : t₁ = t₂) : SameFrom t₁ t₂ := by
  subst h
  exact fun es => ⟨rfl, fun _ => rfl, fun _ => rfl, fun _ _ => rfl, fun _ _ => rfl⟩

/-! ## The node of a member -/

omit [LinearOrder κ] in
/-- The node was accessed `now`, or has no `ttl`. -/
theorem updateTime_eq_self_iff {node : TSNode (κ × V) F} :
    node.updateTime now = node ↔ node.expires = TimedMap.deadline now node.ttl := by
  constructor
  · intro h
    exact (congrArg TSNode.expires h).symm
  · intro h
    exact congrArg (fun expires => { node with expires := expires }) h.symm

/-- An access at the same second leaves the bucket. -/
theorem findFirstOf_snd_eq_self {l : TSList (κ × V) F} {node : TSNode (κ × V) F}
    (hnode : l.lookup key = some node) (h : node.updateTime now = node) :
    (l.findFirstOf now fun item => item.1 = key).2 = l := by
  induction l with
  | nil => rfl
  | cons next rest ih =>
    rw [TSList.lookup_cons] at hnode
    rw [TSList.findFirstOf]
    by_cases hk : next.data.1 = key
    · rw [if_pos hk] at hnode
      obtain rfl := Option.some.inj hnode
      rw [if_pos (decide_eq_true hk), h]
    · rw [if_neg hk] at hnode
      rw [if_neg (by simpa using hk), ih hnode]

/-- An access at the same second leaves the table. -/
theorem findEntryFor_snd_eq_self {node : TSNode (κ × V) F} (hnode : t.nodeOf key = some node)
    (h : node.updateTime now = node) : (t.findEntryFor now key).2 = t := by
  show t.setBucket _ ((t.buckets _).findFirstOf now _).2 = t
  rw [findFirstOf_snd_eq_self hnode h]
  unfold setBucket
  rw [Function.update_eq_self]

/-- A write concerns the only node with the id. -/
theorem Sound.write_congr (h : t.Sound) {node : TSNode (κ × V) F} (hnode : t.nodeOf key = some node)
    {f f' : TSNode (κ × V) F → TSNode (κ × V) F} (hf : f node = f' node) :
    t.write node.id f = t.write node.id f' := by
  unfold TSHashtable.write
  congr 1
  funext i
  apply List.map_congr_left
  intro node' hmem
  split
  · rename_i hid
    have hnode' := h.nodeOf_of_mem hmem
    have hkey := h.eq_of_id hnode' hnode hid
    rw [hkey, hnode] at hnode'
    rw [← Option.some.inj hnode', hf]
  · rfl

/-- A write to the node of a key changes its entry. -/
theorem entries_write {node : TSNode (κ × V) F} (hnode : t.nodeOf key = some node)
    {f : TSNode (κ × V) F → TSNode (κ × V) F} (hf : ∀ n, (f n).data.1 = n.data.1) :
    (t.write node.id f).entries key = some (entryOf (f node)) := by
  simp only [entries, nodeOf_write hf, hnode, Option.map_some, if_true]

/-- What both write to the node of a key. -/
theorem Good.entries_groupSet (h : t.Good) (hmember : t.groupHasKey gname key = true)
    {node : TSNode (κ × V) F} (hnode : t.nodeOf key = some node) (val : V) (ttl : ℤ)
    (onExpired : Option F) :
    (t.groupSet gname key val ttl onExpired).2 = t.write node.id (.assign val ttl onExpired) ∧
      (t.groupSet gname key val ttl onExpired).2.entries key
        = some ⟨val, ttl, node.expires, onExpired⟩ := by
  have hptr : (t.groups gname).bind (t.groupNode · key) = some node := by
    rw [groupNode_eq, h.lock_pointer, if_pos hmember, hnode]
  have hgroupSet : (t.groupSet gname key val ttl onExpired).2
      = t.write node.id (.assign val ttl onExpired) := by
    simp only [groupSet, hptr]
  refine ⟨hgroupSet, ?_⟩
  rw [hgroupSet, entries_write hnode (TSNode.key_assign val ttl onExpired)]
  rfl

/-- `addOrUpdate` of a key that is there keeps its `ttl` and its callback. -/
theorem Good.entries_set (h : t.Good) {node : TSNode (κ × V) F} (hnode : t.nodeOf key = some node)
    (now : ℤ) (val : V) (ttl : ℤ) (onExpired : Option F) :
    (t.addOrUpdate now key val ttl onExpired).entries key
      = some ⟨val, node.ttl, TimedMap.deadline now node.ttl, node.onExpired⟩ := by
  rw [entries_addOrUpdate h.sound, TimedMap.step, Function.update_self]
  simp only [entries, hnode, Option.map_some]
  rfl

/-- **Where a group gives the same access to a member**: `groupSet` does what `set` does if the
node has the given `ttl` and callback and its time is what an access would make it; `groupGet` does
what `get` does if its time is. -/
theorem groupAccess_iff (α : Type*) (ht : t.Reachable)
    (hmember : t.groupHasKey gname key = true) (now : ℤ) :
    ∃ e, t.entries key = some e ∧
      (∀ val ttl onExpired, t.SetAgrees gname key now val ttl onExpired ↔
        e.ttl = ttl ∧ e.onExpired = onExpired ∧ e.expires = TimedMap.deadline now ttl) ∧
      ∀ (anyCast : V → Option α) (any : α → V) (defval : α),
        t.GetAgrees gname key now anyCast any defval ↔
          e.expires = TimedMap.deadline now e.ttl := by
  have hgood : t.Good := by
    obtain ⟨es, rfl⟩ := ht
    exact good_init.exec es
  obtain ⟨id, -, htag⟩ := hgood.groupHasKey_iff.mp hmember
  obtain ⟨node, hnode, -⟩ := hgood.sound.tagged_iff.mp htag
  have hentry : t.entries key = some (entryOf node) := by
    simp only [entries, hnode, Option.map_some]
  refine ⟨entryOf node, hentry, fun val ttl onExpired => ?_, fun anyCast any defval => ?_⟩
  · obtain ⟨hgroupSet, hgroup⟩ := hgood.entries_groupSet hmember hnode val ttl onExpired
    have hset := hgood.entries_set hnode now val ttl onExpired
    constructor
    · -- the entries differ at once if the node differs in one of these
      intro h
      have hsame := congrFun (h []).entries key
      rw [exec_nil, exec_nil, hgroup, hset, Option.some_inj] at hsame
      obtain ⟨-, rfl, hexpires, rfl⟩ := TimedMap.Entry.mk.inj hsame
      exact ⟨rfl, rfl, hexpires⟩
    · rintro ⟨rfl, rfl, hexpires⟩
      have hself := updateTime_eq_self_iff.mpr hexpires
      apply SameFrom.of_eq
      rw [hgroupSet, addOrUpdate_of_some hnode, findEntryFor_snd_eq_self hnode hself]
      exact hgood.sound.write_congr hnode rfl
  · have hget : t.groupGet gname key anyCast defval = (t.get key now anyCast any defval).1 := by
      rw [hgood.groupGet_eq, if_pos hmember, hentry]
      show _ = anyCast ((t.findEntryFor now key).1.elim _ _)
      rw [findEntryFor_fst, hnode]
      rfl
    constructor
    · rintro ⟨-, h⟩
      have hsame := congrFun (h []).entries key
      have hfound : (t.get key now anyCast any defval).2.entries key
          = some ((entryOf node).access now fun v => v) := by
        show (t.findEntryFor now key).2.entries key = _
        rw [entries_findEntryFor, TimedMap.step_access_of_some hentry]
        rfl
      rw [exec_nil, exec_nil, hentry, hfound, Option.some_inj] at hsame
      exact congrArg TimedMap.Entry.expires hsame
    · intro hexpires
      have hself := updateTime_eq_self_iff.mpr hexpires
      exact ⟨hget, .of_eq (findEntryFor_snd_eq_self hnode hself).symm⟩

/-! ## A run -/

/-- A key with a `ttl` of ten seconds, added to a group. -/
def groupRun : List (Event ℕ ℕ String) :=
  [.op (.addOrUpdate 0 1 10 10 none), .createGroup "g", .groupAddKey "g" 1]

/-- The table after this run. -/
def groupTable : TSHashtable (fun key : ℕ => key) 2 ℕ String := exec act init groupRun

/-- The table of the sample can be reached. -/
theorem groupTable_reachable : groupTable.Reachable := ⟨groupRun, rfl⟩

/-- The key of the sample is in its group. -/
theorem groupHasKey_groupTable : groupTable.groupHasKey "g" 1 = true := by decide

/-- The key of the sample expires at 10. -/
theorem entries_groupTable : groupTable.entries 1 = some ⟨10, 10, some 10, none⟩ := by decide

/-- **The two differ**: `groupSet` gives the node its `ttl` and its callback and leaves the time of
expiry, `set` moves this time and gives none of them; `groupGet` does not move it, `get` does. -/
theorem groupAccess_differs :
    groupTable.Reachable ∧ groupTable.groupHasKey "g" 1 = true ∧
      ¬ groupTable.SetAgrees "g" 1 3 20 30 (some "f") ∧
      (groupTable.groupSet "g" 1 20 30 (some "f")).2.entries 1 = some ⟨20, 30, some 10, some "f"⟩ ∧
      (groupTable.addOrUpdate 3 1 20 30 (some "f")).entries 1 = some ⟨20, 10, some 13, none⟩ ∧
      ¬ groupTable.GetAgrees "g" 1 3 some id 0 := by
  have hgroup : (groupTable.groupSet "g" 1 20 30 (some "f")).2.entries 1
      = some ⟨20, 30, some 10, some "f"⟩ := by decide
  have hset : (groupTable.addOrUpdate 3 1 20 30 (some "f")).entries 1
      = some ⟨20, 10, some 13, none⟩ := by decide
  have hget : (groupTable.get 1 3 some id 0).2.entries 1 = some ⟨10, 10, some 13, none⟩ := by decide
  refine ⟨groupTable_reachable, groupHasKey_groupTable, fun h => ?_, hgroup, hset, fun h => ?_⟩
  · have hsame := congrFun (h []).entries 1
    rw [exec_nil, exec_nil, hgroup, hset] at hsame
    exact absurd hsame (by decide)
  · have hsame := congrFun (h.2 []).entries 1
    rw [exec_nil, exec_nil, entries_groupTable, hget] at hsame
    exact absurd hsame (by decide)

/-- In the second of the last access, with the same `ttl` and callback, they agree. -/
theorem groupAccess_agrees :
    groupTable.SetAgrees "g" 1 0 20 10 none ∧ groupTable.GetAgrees "g" 1 0 some id 0 := by
  obtain ⟨e, he, hset, hget⟩ :=
    groupAccess_iff ℕ groupTable_reachable groupHasKey_groupTable 0
  rw [entries_groupTable] at he
  obtain rfl := Option.some.inj he
  exact ⟨(hset 20 10 none).mpr ⟨rfl, rfl, rfl⟩, (hget some id 0).mpr rfl⟩

end TSHashtable
