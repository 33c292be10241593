/-
# Groups over a run

A key is a member of a group when the group's pointer for it is to the node that holds the key now
(`Linked`).  `linked_act` says what one event does to this, and `linked_iff` what it comes to over a
run: the key was added when its node was there, and has not been taken out since.
-/
import GraftSupernode.GroupMembers

open Runs

namespace TSHashtable

variable {κ V F : Type*} [LinearOrder κ] {hasher : κ → ℕ} {n : ℕ} [NeZero n]
variable {t t' : TSHashtable hasher n V F} {g g' : TSGroup κ} {gname : String} {key k : κ} {id : ℕ}

/-! ## Good groups -/

/-- The pointers of a group are to the nodes that hold their keys, or dead. -/
structure GoodGroup (t : TSHashtable hasher n V F) (g : TSGroup κ) : Prop where
  distinct : g.Distinct
  fresh : ∀ entry ∈ g, entry.2 < t.nextId
  key : ∀ entry ∈ g, ∀ k, t.Tagged entry.2 k → k = entry.1

omit [LinearOrder κ] [NeZero n] in
/-- A part of a good group stays good as the table goes on. -/
theorem GoodGroup.mono (h : t.GoodGroup g) (ht : Follows t t') (hg : g'.Sublist g) :
    t'.GoodGroup g' where
  distinct := h.distinct.sublist hg
  fresh entry hentry := (h.fresh entry (hg.subset hentry)).trans_le ht.nextId
  key entry hentry k htag := by
    rcases ht.tagged htag with htag | hle
    · exact h.key entry (hg.subset hentry) k htag
    · exact absurd (h.fresh entry (hg.subset hentry)) hle.not_gt

/-- A group stays good when it gets a key that is in the table. -/
theorem GoodGroup.emplace (h : t.GoodGroup g) (ht : t.Sound) (hnew : g.find key = none)
    {node : TSNode (κ × V) F} (hnode : t.nodeOf key = some node) :
    t.GoodGroup (g.emplace key node.id) where
  distinct := h.distinct.emplace hnew _
  fresh entry hentry := by
    rcases TSGroup.mem_emplace hentry with rfl | hentry
    · exact ht.fresh _ _ (List.mem_map_of_mem (mem_of_nodeOf hnode).1)
    · exact h.fresh entry hentry
  key entry hentry k htag := by
    rcases TSGroup.mem_emplace hentry with rfl | hentry
    · obtain ⟨node', hnode', hid⟩ := ht.tagged_iff.mp htag
      exact ht.eq_of_id hnode' hnode hid
    · exact h.key entry hentry k htag

/-- A sound table with good groups. -/
structure Good (t : TSHashtable hasher n V F) : Prop where
  sound : t.Sound
  groups : ∀ gname g, t.groups gname = some g → t.GoodGroup g

omit [LinearOrder κ] in
/-- A new table is good: it has no groups. -/
theorem good_init : (init : TSHashtable hasher n V F).Good where
  sound := sound_init
  groups _ _ h := by cases h

/-! ## The events and the groups -/

/-- `groupAddNode` adds a pointer to the node of the key, if there is one. -/
theorem groupAddNode_eq (t : TSHashtable hasher n V F) (g : TSGroup κ) (key : κ) :
    t.groupAddNode g key = (t.nodeOf key).elim (false, g) fun node =>
      (true, g.emplace key node.id) := by
  unfold groupAddNode nodeOf
  induction t.buckets (getBucket hasher n key) with
  | nil => rfl
  | cons next rest ih =>
    rw [TSList.forEachNode, TSList.lookup_cons]
    by_cases hk : next.data.1 = key
    · simp [hk]
    · simp only [hk, if_false]
      exact ih

/-- A member whose node is there is not added again. -/
theorem groupAdd_of_member {wptr : ℕ} (hfind : g.find key = some wptr)
    (hlock : (t.lock wptr).isSome = true) : t.groupAdd g key = (false, g) := by
  simp only [groupAdd, hfind, hlock, if_true]

/-- A dead pointer of the key is removed first. -/
theorem exists_groupAdd_eq (hdead : ∀ wptr, g.find key = some wptr → t.lock wptr = none) :
    ∃ g' : TSGroup κ, g'.Sublist g ∧ g'.find key = none ∧ (∀ k, k ≠ key → g'.find k = g.find k) ∧
      t.groupAdd g key = t.groupAddNode g' key := by
  cases hfind : g.find key with
  | none =>
    refine ⟨g, List.Sublist.refl _, hfind, fun _ _ => rfl, ?_⟩
    simp only [groupAdd, hfind]
  | some wptr =>
    refine ⟨g.erase key, List.filter_sublist, ?_, fun k hk => ?_, ?_⟩
    · rw [TSGroup.find_erase, if_pos rfl]
    · rw [TSGroup.find_erase, if_neg hk]
    · simp [groupAdd, hfind, hdead wptr hfind]

omit [NeZero n] in
/-- A key is a member, or its pointer is dead. -/
theorem member_or_dead (t : TSHashtable hasher n V F) (g : TSGroup κ) (key : κ) :
    (∃ wptr, g.find key = some wptr ∧ (t.lock wptr).isSome = true) ∨
      ∀ wptr, g.find key = some wptr → t.lock wptr = none := by
  by_cases hmember : ∃ wptr, g.find key = some wptr ∧ (t.lock wptr).isSome = true
  · exact .inl hmember
  · right
    intro wptr hfind
    by_contra hlock
    exact hmember ⟨wptr, hfind, Option.isSome_iff_ne_none.mpr hlock⟩

omit [LinearOrder κ] [NeZero n] in
/-- The visits of a cleanup leave the groups. -/
theorem groups_visit (clock : ℕ → ℤ) (k : ℕ) (is : List (Fin n)) (t : TSHashtable hasher n V F) :
    (visit clock k is t).2.groups = t.groups := by
  induction is generalizing k t with
  | nil => rfl
  | cons i is ih => exact ih (k + 1) (t.cleanupBucket (clock k) i).2

/-- The operations of the table leave the groups. -/
theorem groups_step (t : TSHashtable hasher n V F) (o : Op κ V F) :
    (t.step o).groups = t.groups := by
  cases o with
  | addOrUpdate now key value ttl onExpired =>
    show (t.addOrUpdate now key value ttl onExpired).groups = _
    unfold addOrUpdate
    dsimp only
    split <;> rfl
  | cleanup clock all =>
    show (t.cleanup clock all).table.groups = _
    rw [cleanup_eq]
    exact groups_visit clock 0 _ t
  | _ => rfl

omit [NeZero n] in
/-- `groupSet` leaves the groups. -/
theorem groups_groupSet (t : TSHashtable hasher n V F) (gname : String) (key : κ) (val : V)
    (ttl : ℤ) (onExpired : Option F) :
    (t.groupSet gname key val ttl onExpired).2.groups = t.groups := by
  unfold groupSet
  split <;> rfl

omit [LinearOrder κ] [NeZero n] in
/-- `for_each_unsafe` leaves the groups. -/
theorem groups_forEachUnsafe (f : κ → V → Bool × V) (g : TSGroup κ)
    (t : TSHashtable hasher n V F) : (forEachUnsafe f g t).table.groups = t.groups := by
  induction g generalizing t with
  | nil => rfl
  | cons entry rest ih =>
    rw [forEachUnsafe]
    split
    · exact ih t
    · dsimp only
      split
      · exact ih _
      · rfl

omit [LinearOrder κ] [NeZero n] in
/-- The keys that `forEachUnsafe` finds invalid have dead pointers. -/
theorem invalid_of_mem (f : κ → V → Bool × V) (t : TSHashtable hasher n V F)
    (h : key ∈ (forEachUnsafe f g t).invalidKeys) :
    ∃ wptr, (key, wptr) ∈ g ∧ ∀ k, ¬ (forEachUnsafe f g t).table.Tagged wptr k := by
  induction g generalizing t with
  | nil => cases h
  | cons entry rest ih =>
    obtain ⟨key', wptr⟩ := entry
    rw [forEachUnsafe] at h ⊢
    cases hlock : t.lock wptr with
    | none =>
      simp only [hlock] at h ⊢
      rcases List.mem_cons.mp h with rfl | h
      · refine ⟨wptr, List.mem_cons_self, fun k htag => ?_⟩
        obtain ⟨i, htag⟩ := htag
        exact lock_eq_none.mp hlock k ⟨i, ((Thins.forEachUnsafe f rest t).tags i).subset htag⟩
      · obtain ⟨w, hw, hdead⟩ := ih t h
        exact ⟨w, List.mem_cons_of_mem _ hw, hdead⟩
    | some ptr =>
      simp only [hlock] at h ⊢
      split at h
      · obtain ⟨w, hw, hdead⟩ := ih _ h
        rename_i hgo
        simp only [hgo, if_true]
        exact ⟨w, List.mem_cons_of_mem _ hw, hdead⟩
      · cases h

/-! ## Every event keeps the groups good -/

omit [LinearOrder κ] in
/-- A good group may be set, or one removed. -/
theorem Good.setGroup (h : t.Good) {o : Option (TSGroup κ)} (ho : ∀ g, o = some g → t.GoodGroup g) :
    (t.setGroup gname o).Good where
  sound := h.sound.thins (.setGroup t gname o)
  groups gname' g hg := by
    have hsame : Follows t (t.setGroup gname o) := (Thins.setGroup t gname o).follows
    have hgood : t.GoodGroup g := by
      simp only [TSHashtable.setGroup, Function.update_apply] at hg
      split at hg
      · exact ho g hg
      · exact h.groups gname' g hg
    exact hgood.mono hsame (List.Sublist.refl g)

omit [LinearOrder κ] in
/-- The same groups stay good as the table goes on. -/
theorem Good.follows (h : t.Good) (hsound : t'.Sound) (ht : Follows t t')
    (hgroups : t'.groups = t.groups) : t'.Good where
  sound := hsound
  groups gname g hg := (h.groups gname g (hgroups ▸ hg)).mono ht (List.Sublist.refl g)

/-- `groupAdd` leaves a good group. -/
theorem Good.groupAdd (h : t.Good) (hg : t.GoodGroup g) (key : κ) :
    t.GoodGroup (t.groupAdd g key).2 := by
  rcases member_or_dead t g key with ⟨wptr, hfind, hlock⟩ | hdead
  · rwa [groupAdd_of_member hfind hlock]
  · obtain ⟨g', hsub, hnew, -, hadd⟩ := exists_groupAdd_eq hdead
    have hg' : t.GoodGroup g' := hg.mono (Thins.refl t).follows hsub
    rw [hadd, groupAddNode_eq]
    cases hnode : t.nodeOf key with
    | none => exact hg'
    | some node => exact hg'.emplace h.sound hnew hnode

/-- **Every event keeps the groups good**. -/
theorem Good.act (h : t.Good) (e : Event κ V F) : (t.act e).Good := by
  cases e with
  | op o => exact h.follows (h.sound.step o) (.step t o) (groups_step t o)
  | createGroup gname =>
    show (t.createGroup gname).2.Good
    unfold createGroup
    split
    · apply h.setGroup
      intro g hg
      cases hg
      exact ⟨List.nodup_nil, fun _ h => absurd h List.not_mem_nil,
        fun _ h => absurd h List.not_mem_nil⟩
    · exact h
  | deleteGroup gname => exact h.setGroup fun g hg => by cases hg
  | groupAddKey gname key =>
    show (t.groupAddKey gname key).2.Good
    unfold groupAddKey
    split
    · exact h
    · rename_i g hg
      apply h.setGroup
      rintro g' ⟨⟩
      exact h.groupAdd (h.groups gname g hg) key
  | groupRemoveKey gname key =>
    show (t.groupRemoveKey gname key).2.Good
    unfold groupRemoveKey
    split
    · exact h
    · rename_i g hg
      apply h.setGroup
      rintro g' ⟨⟩
      exact (h.groups gname g hg).mono (Thins.refl t).follows List.filter_sublist
  | groupSet gname key val ttl onExpired =>
    have hthins := Thins.groupSet t gname key val ttl onExpired
    exact h.follows (h.sound.thins hthins) hthins.follows (groups_groupSet t gname key val ttl _)
  | groupForEach gname f =>
    show (t.groupForEach gname f).2.2.Good
    unfold groupForEach
    split
    · exact h
    · rename_i g hg
      -- the table is thinned by the visit, and then the group by its invalid keys
      have hthins := Thins.forEachUnsafe f g t
      have hvisited : (forEachUnsafe f g t).table.Good :=
        h.follows (h.sound.thins hthins) hthins.follows (groups_forEachUnsafe f g t)
      apply hvisited.setGroup
      rintro g' ⟨⟩
      exact (h.groups gname g hg).mono hthins.follows (TSGroup.foldl_erase_sublist _)

/-- Every run leaves the groups good. -/
theorem Good.exec (h : t.Good) (es : List (Event κ V F)) : (Runs.exec TSHashtable.act t es).Good :=
  exec_of_step (fun _ e h => h.act e) h es

/-! ## Members -/

/-- The pointer of a group for a key. -/
def pointer (t : TSHashtable hasher n V F) (gname : String) (key : κ) : Option ℕ :=
  (t.groups gname).bind (·.find key)

/-- The group's pointer for the key is to the node that holds the key. -/
def Linked (t : TSHashtable hasher n V F) (gname : String) (key : κ) (id : ℕ) : Prop :=
  t.pointer gname key = some id ∧ t.Tagged id key

omit [NeZero n] in
/-- The node that `groupSet` and `groupGet` work on. -/
theorem groupNode_eq (t : TSHashtable hasher n V F) (gname : String) (key : κ) :
    (t.groups gname).bind (t.groupNode · key) = (t.pointer gname key).bind t.lock :=
  (Option.bind_assoc _ _ _).symm

omit [NeZero n] in
/-- A group that is set gives the pointers of its members, and the other groups stay. -/
theorem pointer_setGroup (t : TSHashtable hasher n V F) (gname' : String)
    (o : Option (TSGroup κ)) : (t.setGroup gname' o).pointer gname key
      = if gname = gname' then o.bind (·.find key) else t.pointer gname key := by
  unfold pointer setGroup
  by_cases h : gname = gname'
  · rw [if_pos h, h]
    simp
  · simp [h]

omit [NeZero n] in
/-- The pointers are those of the groups. -/
theorem pointer_congr (h : t'.groups = t.groups) : t'.pointer gname key = t.pointer gname key := by
  unfold pointer
  rw [h]

/-- The pointer of a member never points to the node of another key. -/
theorem Good.tagged_key (h : t.Good) (hptr : t.pointer gname key = some id)
    (htag : t.Tagged id k) : k = key := by
  obtain ⟨g, hg, hfind⟩ := Option.bind_eq_some_iff.mp hptr
  exact (h.groups gname g hg).key _ (TSGroup.mem_of_find hfind) k htag

/-- A pointer is dead, or its node holds its key. -/
theorem Good.lock_of_pointer (h : t.Good) (hptr : t.pointer gname key = some id) :
    (t.lock id).isSome = true ↔ t.Tagged id key := by
  rw [Option.isSome_iff_ne_none, ne_eq, lock_eq_none, not_forall_not]
  constructor
  · rintro ⟨k, htag⟩
    exact h.tagged_key hptr htag ▸ htag
  · exact fun htag => ⟨key, htag⟩

omit [NeZero n] in
/-- `groupHasKey` asks whether the pointer of the key can be locked. -/
theorem groupHasKey_eq (t : TSHashtable hasher n V F) (gname : String) (key : κ) :
    t.groupHasKey gname key = (t.pointer gname key).any fun id => (t.lock id).isSome := by
  unfold groupHasKey groupHas pointer
  cases t.groups gname with
  | none => rfl
  | some g =>
    simp only [Option.bind_some]
    cases g.find key <;> rfl

/-- `groupHasKey` says `true` just for the members whose node is there. -/
theorem Good.groupHasKey_iff (h : t.Good) :
    t.groupHasKey gname key = true ↔ ∃ id, t.Linked gname key id := by
  rw [groupHasKey_eq, Option.any_eq_true]
  constructor
  · rintro ⟨id, hptr, hlock⟩
    exact ⟨id, hptr, (h.lock_of_pointer hptr).mp hlock⟩
  · rintro ⟨id, hptr, htag⟩
    exact ⟨id, hptr, (h.lock_of_pointer hptr).mpr htag⟩

/-! ## What one event does to a member -/

/-- The event takes the key out of the group. -/
def Drops (gname : String) (key : κ) (e : Event κ V F) : Prop :=
  e = .groupRemoveKey gname key ∨ e = .deleteGroup gname

/-- The event adds the key to the group. -/
def Adds (t : TSHashtable hasher n V F) (gname : String) (key : κ) (e : Event κ V F) : Prop :=
  e = .groupAddKey gname key ∧ (t.groupAddKey gname key).1 = true

/-- The event adds or removes the key of the group, or deletes the group. -/
def Event.Names (gname : String) (key : κ) : Event κ V F → Prop
  | groupAddKey g k => g = gname ∧ k = key
  | groupRemoveKey g k => g = gname ∧ k = key
  | deleteGroup g => g = gname
  | _ => False

/-- The event leaves the pointer alone. -/
structure Keeps (t : TSHashtable hasher n V F) (gname : String) (key : κ) (e : Event κ V F) :
    Prop where
  pointer : (t.act e).pointer gname key = t.pointer gname key
  not_drops : ¬ Drops gname key e
  not_adds : ¬ t.Adds gname key e

/-- The event removes the pointer, which is dead if the key was not to be taken out. -/
structure Clears (t : TSHashtable hasher n V F) (gname : String) (key : κ) (e : Event κ V F) :
    Prop where
  pointer : (t.act e).pointer gname key = none
  drops_or_dead : Drops gname key e ∨
    ∀ id, t.pointer gname key = some id → ¬ (t.act e).Tagged id key
  not_adds : ¬ t.Adds gname key e

/-- The event sets the pointer to the node of the key. -/
structure Sets (t : TSHashtable hasher n V F) (gname : String) (key : κ) (e : Event κ V F) :
    Prop where
  adds : t.Adds gname key e
  node : ∃ node, t.nodeOf key = some node ∧ (t.act e).pointer gname key = some node.id

/-- An event that does not name the member, and leaves its pointer, keeps it. -/
theorem Keeps.of_not_names {e : Event κ V F} (hnames : ¬ e.Names gname key)
    (hptr : (t.act e).pointer gname key = t.pointer gname key) : t.Keeps gname key e where
  pointer := hptr
  not_drops := by
    rintro (rfl | rfl)
    · exact hnames ⟨rfl, rfl⟩
    · exact hnames rfl
  not_adds := by
    rintro ⟨rfl, -⟩
    exact hnames ⟨rfl, rfl⟩

/-- `groupAddKey` for the key itself. -/
theorem pointer_groupAddKey (t : TSHashtable hasher n V F) (gname : String) (key : κ) :
    t.Keeps gname key (.groupAddKey gname key) ∨ t.Clears gname key (.groupAddKey gname key) ∨
      t.Sets gname key (.groupAddKey gname key) := by
  have hnot : ¬ Drops gname key (.groupAddKey gname key : Event κ V F) := by
    rintro (heq | heq) <;> cases heq
  cases hg : t.groups gname with
  | none =>
    have hact : t.groupAddKey gname key = (false, t) := by simp only [groupAddKey, hg]
    refine .inl ⟨?_, hnot, fun hadds => ?_⟩
    · rw [TSHashtable.act, hact]
    · rw [Adds, hact] at hadds
      cases hadds.2
  | some g =>
    have hact : t.groupAddKey gname key
        = ((t.groupAdd g key).1, t.setGroup gname (some (t.groupAdd g key).2)) := by
      simp only [groupAddKey, hg]
    have hptr : (t.act (.groupAddKey gname key)).pointer gname key
        = (t.groupAdd g key).2.find key := by
      rw [TSHashtable.act, hact, pointer_setGroup, if_pos rfl, Option.bind_some]
    have hptr₀ : t.pointer gname key = g.find key := by
      unfold pointer
      rw [hg, Option.bind_some]
    rcases member_or_dead t g key with ⟨wptr, hfind, hlock⟩ | hdead
    · have hadd := groupAdd_of_member hfind hlock
      refine .inl ⟨?_, hnot, fun hadds => ?_⟩
      · rw [hptr, hadd, hptr₀]
      · rw [Adds, hact, hadd] at hadds
        cases hadds.2
    · obtain ⟨g', -, hnew, -, hadd⟩ := exists_groupAdd_eq hdead
      rw [groupAddNode_eq] at hadd
      cases hnode : t.nodeOf key with
      | none =>
        rw [hnode] at hadd
        refine .inr (.inl ⟨?_, .inr fun id hid htag => ?_, fun hadds => ?_⟩)
        · rw [hptr, hadd]
          exact hnew
        · have htag₀ : t.Tagged id key := by
            rw [TSHashtable.act, hact] at htag
            exact htag
          exact lock_eq_none.mp (hdead id (hptr₀ ▸ hid)) key htag₀
        · rw [Adds, hact, hadd] at hadds
          cases hadds.2
      | some node =>
        rw [hnode] at hadd
        refine .inr (.inr ⟨⟨rfl, ?_⟩, node, hnode, ?_⟩)
        · rw [hact, hadd]
          rfl
        · rw [hptr, hadd]
          exact (TSGroup.find_emplace hnew _).trans (if_pos rfl)

/-- `groupAdd` leaves the other keys. -/
theorem find_groupAdd_of_ne (hk : k ≠ key) : (t.groupAdd g key).2.find k = g.find k := by
  rcases member_or_dead t g key with ⟨wptr, hfind, hlock⟩ | hdead
  · rw [groupAdd_of_member hfind hlock]
  · obtain ⟨g', -, hnew, hother, hadd⟩ := exists_groupAdd_eq hdead
    rw [hadd, groupAddNode_eq]
    cases t.nodeOf key with
    | none => exact hother k hk
    | some node => exact (TSGroup.find_emplace hnew _).trans ((if_neg hk).trans (hother k hk))

omit [NeZero n] in
/-- Another group for the name, with the same pointers for the other keys. -/
theorem pointer_setGroup_of_not_named {gname' : String} (hg : t.groups gname' = some g)
    (hother : ∀ k, k ≠ key → g'.find k = g.find k) (hnot : ¬ (gname' = gname ∧ key = k)) :
    (t.setGroup gname' (some g')).pointer gname k = t.pointer gname k := by
  rw [pointer_setGroup]
  split
  · rename_i hname
    subst hname
    have hk : k ≠ key := fun hk => hnot ⟨rfl, hk.symm⟩
    rw [Option.bind_some, hother k hk, pointer, hg, Option.bind_some]
  · rfl

/-- `groupForEach` takes out the keys that it finds to be invalid. -/
theorem Good.pointer_groupForEach (h : t.Good) (gname : String) (key : κ) (gname' : String)
    (f : κ → V → Bool × V) :
    t.Keeps gname key (.groupForEach gname' f) ∨ t.Clears gname key (.groupForEach gname' f) ∨
      t.Sets gname key (.groupForEach gname' f) := by
  have hact : t.act (.groupForEach gname' f) = (t.groupForEach gname' f).2.2 := rfl
  cases hg : t.groups gname' with
  | none =>
    refine .inl (.of_not_names id ?_)
    rw [hact]
    simp only [groupForEach, hg]
  | some g =>
    have htable : t.act (.groupForEach gname' f) = (forEachUnsafe f g t).table.setGroup gname'
        (some ((forEachUnsafe f g t).invalidKeys.foldl TSGroup.erase g)) := by
      rw [hact]
      simp only [groupForEach, hg]
    have hptr₀ : (forEachUnsafe f g t).table.pointer gname key = t.pointer gname key :=
      pointer_congr (groups_forEachUnsafe f g t)
    by_cases hname : gname = gname'
    · subst hname
      have hfind : t.pointer gname key = g.find key := by
        rw [pointer, hg, Option.bind_some]
      by_cases hinvalid : key ∈ (forEachUnsafe f g t).invalidKeys
      · -- an invalid key had a dead pointer, the only one of the key
        refine .inr (.inl ⟨?_, .inr fun id hid htag => ?_, fun hadds => by cases hadds.1⟩)
        · rw [htable, pointer_setGroup, if_pos rfl, Option.bind_some, TSGroup.find_foldl_erase,
            if_pos hinvalid]
        · obtain ⟨wptr, hmem, hdead⟩ := invalid_of_mem f t hinvalid
          have hid' := TSGroup.find_of_mem (h.groups gname g hg).distinct hmem
          rw [hfind, hid'] at hid
          cases hid
          rw [htable] at htag
          exact hdead key htag
      · refine .inl (.of_not_names id ?_)
        rw [htable, pointer_setGroup, if_pos rfl, Option.bind_some, TSGroup.find_foldl_erase,
          if_neg hinvalid, hfind]
    · refine .inl (.of_not_names id ?_)
      rw [htable, pointer_setGroup, if_neg hname, hptr₀]

/-- **What one event does to a pointer**. -/
theorem Good.pointer_act (h : t.Good) (gname : String) (key : κ) (e : Event κ V F) :
    t.Keeps gname key e ∨ t.Clears gname key e ∨ t.Sets gname key e := by
  cases e with
  | op o => exact .inl (.of_not_names id (pointer_congr (groups_step t o)))
  | createGroup gname' =>
    refine .inl (.of_not_names id ?_)
    show (t.createGroup gname').2.pointer gname key = _
    unfold createGroup
    split
    · rename_i hnone
      rw [pointer_setGroup]
      split
      · rename_i heq
        subst heq
        rw [pointer, hnone]
        rfl
      · rfl
    · rfl
  | deleteGroup gname' =>
    by_cases heq : gname = gname'
    · subst heq
      refine .inr (.inl ⟨?_, .inl (.inr rfl), fun hadds => by cases hadds.1⟩)
      exact (pointer_setGroup t gname none).trans (if_pos rfl)
    · refine .inl (.of_not_names (fun hname => heq hname.symm) ?_)
      exact (pointer_setGroup t gname' none).trans (if_neg heq)
  | groupAddKey gname' key' =>
    by_cases heq : gname' = gname ∧ key' = key
    · obtain ⟨rfl, rfl⟩ := heq
      exact pointer_groupAddKey t gname' key'
    · refine .inl (.of_not_names heq ?_)
      show (t.groupAddKey gname' key').2.pointer gname key = _
      unfold groupAddKey
      split
      · rfl
      · rename_i g hg
        exact pointer_setGroup_of_not_named hg (fun k hk => find_groupAdd_of_ne hk) heq
  | groupRemoveKey gname' key' =>
    by_cases heq : gname' = gname ∧ key' = key
    · obtain ⟨rfl, rfl⟩ := heq
      refine .inr (.inl ⟨?_, .inl (.inl rfl), fun hadds => by cases hadds.1⟩)
      show (t.groupRemoveKey gname' key').2.pointer gname' key' = none
      unfold groupRemoveKey
      split
      · rename_i hg
        rw [pointer, hg]
        rfl
      · rw [pointer_setGroup, if_pos rfl, Option.bind_some, TSGroup.find_erase, if_pos rfl]
    · refine .inl (.of_not_names heq ?_)
      show (t.groupRemoveKey gname' key').2.pointer gname key = _
      unfold groupRemoveKey
      split
      · rfl
      · rename_i g hg
        refine pointer_setGroup_of_not_named hg (fun k hk => ?_) heq
        rw [TSGroup.find_erase, if_neg hk]
  | groupSet gname' key' val ttl onExpired =>
    exact .inl (.of_not_names id (pointer_congr (groups_groupSet t gname' key' val ttl onExpired)))
  | groupForEach gname' f => exact h.pointer_groupForEach gname key gname' f

/-- **One event and a member**: a key is linked after an event if it was before and was not taken
out, or is added; and its node is there. -/
theorem Good.linked_act (h : t.Good) (e : Event κ V F) :
    (t.act e).Linked gname key id ↔ (t.act e).Tagged id key ∧
      (t.Linked gname key id ∧ ¬ Drops gname key e ∨ t.Adds gname key e ∧ t.Tagged id key) := by
  have htags : (t.act e).Tagged id key → t.pointer gname key = some id → t.Tagged id key := by
    intro htag hptr
    obtain ⟨g, hg, hfind⟩ := Option.bind_eq_some_iff.mp hptr
    refine ((Follows.act t e).tagged htag).resolve_right fun hle => ?_
    exact hle.not_gt ((h.groups gname g hg).fresh _ (TSGroup.mem_of_find hfind))
  rcases h.pointer_act gname key e with hkeeps | hclears | hsets
  · constructor
    · rintro ⟨hptr, htag⟩
      rw [hkeeps.pointer] at hptr
      exact ⟨htag, .inl ⟨⟨hptr, htags htag hptr⟩, hkeeps.not_drops⟩⟩
    · rintro ⟨htag, ⟨⟨hptr, -⟩, -⟩ | ⟨hadds, -⟩⟩
      · exact ⟨hkeeps.pointer.trans hptr, htag⟩
      · exact absurd hadds hkeeps.not_adds
  · constructor
    · rintro ⟨hptr, -⟩
      rw [hclears.pointer] at hptr
      cases hptr
    · rintro ⟨htag, ⟨⟨hptr, -⟩, hdrops⟩ | ⟨hadds, -⟩⟩
      · exact (hclears.drops_or_dead.resolve_left hdrops id hptr htag).elim
      · exact absurd hadds hclears.not_adds
  · obtain ⟨node, hnode, hptr'⟩ := hsets.node
    have hnode' : t.Tagged node.id key := h.sound.tagged_iff.mpr ⟨node, hnode, rfl⟩
    have hone : t.Tagged id key → node.id = id := by
      intro htag
      obtain ⟨node', hnode', rfl⟩ := h.sound.tagged_iff.mp htag
      rw [Option.some.inj (hnode.symm.trans hnode')]
    constructor
    · rintro ⟨hptr, htag⟩
      rw [hptr'] at hptr
      cases hptr
      exact ⟨htag, .inr ⟨hsets.adds, hnode'⟩⟩
    · rintro ⟨htag, ⟨⟨-, htag₀⟩, -⟩ | ⟨-, htag₀⟩⟩
      · exact ⟨hptr'.trans (congrArg some (hone htag₀)), htag⟩
      · exact ⟨hptr'.trans (congrArg some (hone htag₀)), htag⟩

/-! ## Members over a run -/

/-- In the run the key was added to the group when the node `id` held it, and has not been taken
out since. -/
def AddedSince (t₀ : TSHashtable hasher n V F) (es : List (Event κ V F)) (gname : String) (key : κ)
    (id : ℕ) : Prop :=
  ∃ pre post, es = pre ++ .groupAddKey gname key :: post ∧
    ((exec act t₀ pre).groupAddKey gname key).1 = true ∧ (exec act t₀ pre).Tagged id key ∧
    ∀ e ∈ post, ¬ Drops gname key e

/-- A node that a key had before, and has later, it has had all the time. -/
theorem tagged_of_tagged (h : t.Good) (htag : t.Tagged id key) (es : List (Event κ V F))
    (e : Event κ V F) (hlater : (act (exec act t es) e).Tagged id key) :
    (exec act t es).Tagged id key := by
  have hid : id < (exec act t es).nextId := by
    obtain ⟨i, htag⟩ := htag
    exact (h.sound.fresh i _ htag).trans_le (Follows.exec t es).nextId
  exact ((Follows.act _ e).tagged hlater).resolve_right hid.not_ge

/-- **Membership over a run**: the node that holds the key now held it when the key was added. -/
theorem linked_iff (es : List (Event κ V F)) :
    let t₀ : TSHashtable hasher n V F := init
    (exec act t₀ es).Linked gname key id ↔
      (exec act t₀ es).Tagged id key ∧ t₀.AddedSince es gname key id := by
  intro t₀
  -- from the last event backwards: a key that is linked was linked before, or is added now
  induction es using List.reverseRecOn with
  | nil =>
    constructor
    · rintro ⟨hptr, -⟩
      cases hptr
    · rintro ⟨-, pre, post, hes, -⟩
      cases pre <;> cases hes
  | append_singleton es e ih =>
    have hgood : (exec act t₀ es).Good := good_init.exec es
    have hexec : exec act t₀ (es ++ [e]) = act (exec act t₀ es) e := exec_append act t₀ es [e]
    rw [hexec, hgood.linked_act]
    refine and_congr_right fun htag => ?_
    constructor
    · rintro (⟨hlinked, hdrops⟩ | ⟨⟨rfl, hadd⟩, htag₀⟩)
      · obtain ⟨-, pre, post, rfl, hadd, htag₀, hpost⟩ := ih.mp hlinked
        refine ⟨pre, post ++ [e], by simp, hadd, htag₀, fun e' he' => ?_⟩
        rcases List.mem_append.mp he' with he' | he'
        · exact hpost e' he'
        · rwa [List.mem_singleton.mp he']
      · exact ⟨es, [], rfl, hadd, htag₀, fun _ h => absurd h List.not_mem_nil⟩
    · rintro ⟨pre, post, hes, hadd, htag₀, hpost⟩
      rcases List.eq_nil_or_concat post with rfl | ⟨post, e', rfl⟩
      · obtain ⟨rfl, he⟩ := List.append_inj' hes rfl
        cases he
        exact .inr ⟨⟨rfl, hadd⟩, htag₀⟩
      · have hes' : es ++ [e] = (pre ++ .groupAddKey gname key :: post) ++ [e'] := by
          simpa using hes
        obtain ⟨rfl, he⟩ := List.append_inj' hes' rfl
        cases he
        have hmid := tagged_of_tagged (good_init.exec pre) htag₀ (.groupAddKey gname key :: post) e
        rw [← exec_append] at hmid
        refine .inl ⟨ih.mpr ⟨hmid htag, pre, post, rfl, hadd, htag₀, fun e' he' => ?_⟩, ?_⟩
        · exact hpost e' (by simp [he'])
        · exact hpost e (by simp)

end TSHashtable
