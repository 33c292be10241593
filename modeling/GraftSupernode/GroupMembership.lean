/-
# Group membership follows the nodes

`group_membership`: after any events, one after another, a key is a member of a group exactly when
it was added to the group after the creation of the node that holds it now, and has not been taken
out since; and what the group hands out are the values that the table has.
-/
import GraftSupernode.GroupRuns

open Runs

namespace TSHashtable

variable {κ V F : Type*} [LinearOrder κ] {hasher : κ → ℕ} {n : ℕ} [NeZero n]
variable {t t' : TSHashtable hasher n V F} {g : TSGroup κ} {gname : String} {key : κ} {id : ℕ}

/-! ## What a group hands out -/

/-- The keys of a group whose pointers are not dead, with the values of the table. -/
def living (t : TSHashtable hasher n V F) (g : TSGroup κ) : List (κ × V) :=
  g.filterMap fun entry => (t.lock entry.2).map fun node => (entry.1, node.data.2)

/-- The list up to where the function says not to go on. -/
def deliveredOf (f : κ → V → Bool × V) : List (κ × V) → List (κ × V)
  | [] => []
  | item :: rest => if (f item.1 item.2).1 then item :: deliveredOf f rest else [item]

omit [LinearOrder κ] [NeZero n] in
theorem lock_write_of_ne {f : TSNode (κ × V) F → TSNode (κ × V) F}
    (hf : ∀ node, (f node).id = node.id) {wptr : ℕ} (h : wptr ≠ id) :
    (t.write id f).lock wptr = t.lock wptr := by
  unfold lock
  congr 1
  funext i
  show ((t.buckets i).write id f).find? _ = _
  induction t.buckets i with
  | nil => rfl
  | cons next rest ih =>
    rw [TSList.write] at ih ⊢
    rw [List.map_cons]
    by_cases hid : next.id = id
    · have hne : next.id ≠ wptr := fun heq => h (heq.symm.trans hid)
      rw [if_pos hid, List.find?_cons_of_neg (by simpa [hf] using hne),
        List.find?_cons_of_neg (by simpa using hne)]
      exact ih
    · rw [if_neg hid]
      by_cases hw : next.id = wptr
      · rw [List.find?_cons_of_pos (by simpa using hw), List.find?_cons_of_pos (by simpa using hw)]
      · rw [List.find?_cons_of_neg (by simpa using hw), List.find?_cons_of_neg (by simpa using hw)]
        exact ih

omit [LinearOrder κ] [NeZero n] in
/-- Two keys of a group do not point to one node. -/
theorem GoodGroup.ne_of_tail {entry : κ × ℕ} {rest : TSGroup κ} (h : t.GoodGroup (entry :: rest))
    (htag : t.Tagged entry.2 entry.1) : ∀ entry' ∈ rest, entry'.2 ≠ entry.2 := by
  intro entry' hmem heq
  have hkey := h.key entry' (List.mem_cons_of_mem _ hmem) entry.1 (heq ▸ htag)
  exact (List.nodup_cons.mp h.distinct).1 (List.mem_map.mpr ⟨entry', hmem, hkey.symm⟩)

/-- **What `forEachUnsafe` gives to the function**: the members with their values, until the
function says not to go on.  What it writes to one node is not seen at another. -/
theorem delivered_forEachUnsafe (hs : t.Sound) (h : t.GoodGroup g) (f : κ → V → Bool × V) :
    (forEachUnsafe f g t).delivered = deliveredOf f (t.living g) := by
  induction g generalizing t with
  | nil => rfl
  | cons entry rest ih =>
    obtain ⟨key, wptr⟩ := entry
    have hrest : t.GoodGroup rest := h.mono (Thins.refl t).follows (List.sublist_cons_self _ _)
    rw [forEachUnsafe]
    unfold living
    cases hlock : t.lock wptr with
    | none =>
      rw [List.filterMap_cons_none (by simp [hlock])]
      exact ih hs hrest
    | some ptr =>
      obtain ⟨hnode, rfl⟩ := hs.lock_eq_some hlock
      have htag : t.Tagged ptr.id ptr.data.1 := hs.tagged_iff.mpr ⟨ptr, hnode, rfl⟩
      obtain rfl : ptr.data.1 = key := h.key (key, ptr.id) List.mem_cons_self _ htag
      have hthins := Thins.setValue t ptr.id (f ptr.data.1 ptr.data.2).2
      rw [List.filterMap_cons_some (by rw [hlock]; rfl), deliveredOf]
      dsimp only
      split
      · have hliving : (t.write ptr.id (.setValue (f ptr.data.1 ptr.data.2).2)).living rest
            = t.living rest := by
          unfold living
          apply List.filterMap_congr
          intro entry' hmem
          rw [lock_write_of_ne (TSNode.id_setValue _) (h.ne_of_tail htag entry' hmem)]
        rw [ih (hs.thins hthins) (hrest.mono hthins.follows (List.Sublist.refl _)), hliving]
        rfl
      · rfl

theorem mem_living (hs : t.Sound) (h : t.GoodGroup g) {item : κ × V} :
    item ∈ t.living g ↔ ∃ wptr, g.find item.1 = some wptr ∧ t.Tagged wptr item.1 ∧
      (t.entries item.1).map (·.val) = some item.2 := by
  unfold living
  rw [List.mem_filterMap]
  constructor
  · rintro ⟨⟨key, wptr⟩, hmem, hsome⟩
    obtain ⟨node, hlock, rfl⟩ := Option.map_eq_some_iff.mp hsome
    obtain ⟨hnode, rfl⟩ := hs.lock_eq_some hlock
    have htag : t.Tagged node.id node.data.1 := hs.tagged_iff.mpr ⟨node, hnode, rfl⟩
    obtain rfl : node.data.1 = key := h.key _ hmem _ htag
    refine ⟨node.id, TSGroup.find_of_mem h.distinct hmem, htag, ?_⟩
    simp only [entries, hnode, Option.map_some]
    rfl
  · rintro ⟨wptr, hfind, htag, hval⟩
    obtain ⟨node, hnode, rfl⟩ := hs.tagged_iff.mp htag
    simp only [entries, hnode, Option.map_some, Option.some_inj] at hval
    refine ⟨_, TSGroup.mem_of_find hfind, ?_⟩
    rw [hs.lock_of_nodeOf hnode]
    exact congrArg (fun v => some (item.1, v)) hval

omit [LinearOrder κ] [NeZero n] in
theorem nodup_living (t : TSHashtable hasher n V F) (hg : g.Distinct) :
    ((t.living g).map Prod.fst).Nodup := by
  refine List.Nodup.sublist ?_ hg
  unfold living
  induction g with
  | nil => exact List.Sublist.refl _
  | cons entry rest ih =>
    have hrest : TSGroup.Distinct rest := (List.nodup_cons.mp hg).2
    cases hlock : t.lock entry.2 with
    | none =>
      rw [List.filterMap_cons_none (by simp [hlock])]
      exact (ih hrest).cons _
    | some node =>
      rw [List.filterMap_cons_some (by rw [hlock]; rfl)]
      exact (ih hrest).cons_cons _

omit [LinearOrder κ] in
theorem prefix_deliveredOf (f : κ → V → Bool × V) (items : List (κ × V)) :
    deliveredOf f items <+: items := by
  induction items with
  | nil => exact List.prefix_refl _
  | cons item rest ih =>
    rw [deliveredOf]
    split
    · exact List.cons_prefix_cons.mpr ⟨rfl, ih⟩
    · exact List.cons_prefix_cons.mpr ⟨rfl, List.nil_prefix⟩

omit [LinearOrder κ] in
/-- If the function always says to go on, it is given the whole list. -/
theorem deliveredOf_eq {f : κ → V → Bool × V} {items : List (κ × V)}
    (h : ∀ item ∈ deliveredOf f items, (f item.1 item.2).1 = true) :
    deliveredOf f items = items := by
  induction items with
  | nil => rfl
  | cons item rest ih =>
    rw [deliveredOf] at h ⊢
    split
    · rename_i hgo
      rw [if_pos hgo] at h
      rw [ih fun item' hmem => h item' (List.mem_cons_of_mem _ hmem)]
    · rename_i hstop
      rw [if_neg hstop] at h
      exact absurd (h item List.mem_cons_self) hstop

/-! ## The groups after a run -/

/-- The group `gname` follows the nodes of the table in the run `es`. -/
structure FollowsNodes (α : Type*) (t₀ : TSHashtable hasher n V F) (es : List (Event κ V F))
    (gname : String) : Prop where
  /-- A member was added when the node that holds it now was there, and not taken out since. -/
  has : ∀ key, (exec act t₀ es).groupHasKey gname key = true ↔
    ∃ id, (exec act t₀ es).Tagged id key ∧ t₀.AddedSince es gname key id
  /-- What is in the table and not a member can be added. -/
  add : ∀ key, ((exec act t₀ es).groupAddKey gname key).1 = true ↔
    ((exec act t₀ es).groups gname).isSome = true ∧ ((exec act t₀ es).entries key).isSome = true ∧
      (exec act t₀ es).groupHasKey gname key = false
  /-- A key that was not in the table, and has not been added since, is not a member. -/
  stored_again : ∀ pre post key, es = pre ++ post → (exec act t₀ pre).entries key = none →
    .groupAddKey gname key ∉ post → (exec act t₀ es).groupHasKey gname key = false
  /-- `groupGet` gives the value that a member has in the table. -/
  get : ∀ key (anyCast : V → Option α) (defval : α),
    (exec act t₀ es).groupGet gname key anyCast defval =
      if (exec act t₀ es).groupHasKey gname key then
        ((exec act t₀ es).entries key).bind fun e => anyCast e.val
      else some defval
  /-- `groupForEach` gives the function no key twice, only members with their values, and all of
  them if the function does not stop it. -/
  forEach : ∀ f, let delivered := ((exec act t₀ es).groupForEach gname f).2.1
    (delivered.map Prod.fst).Nodup ∧
      (∀ item ∈ delivered, (exec act t₀ es).groupHasKey gname item.1 = true ∧
        ((exec act t₀ es).entries item.1).map (·.val) = some item.2) ∧
      ((∀ item ∈ delivered, (f item.1 item.2).1 = true) →
        ∀ key, (exec act t₀ es).groupHasKey gname key = true → key ∈ delivered.map Prod.fst)

theorem groupAddKey_iff (t : TSHashtable hasher n V F) (gname : String) (key : κ) :
    (t.groupAddKey gname key).1 = true ↔
    (t.groups gname).isSome = true ∧ (t.entries key).isSome = true ∧
      t.groupHasKey gname key = false := by
  unfold groupAddKey groupHasKey
  cases hg : t.groups gname with
  | none => simp
  | some g =>
    simp only [Option.isSome_some, true_and, entries, Option.isSome_map]
    rcases member_or_dead t g key with ⟨wptr, hfind, hlock⟩ | hdead
    · simp [groupAdd_of_member hfind hlock, groupHas, hfind, hlock]
    · have hhas : t.groupHas g key = false := by
        unfold groupHas
        cases hfind : g.find key with
        | none => rfl
        | some wptr => simp [hdead wptr hfind]
      obtain ⟨g', -, -, -, hadd⟩ := exists_groupAdd_eq hdead
      rw [hadd, groupAddNode_eq, hhas]
      cases t.nodeOf key <;> simp

/-- A key that is not a member becomes none but by `groupAddKey`. -/
theorem Good.groupHasKey_act (h : t.Good) (hno : t.groupHasKey gname key = false)
    {e : Event κ V F} (he : e ≠ .groupAddKey gname key) :
    (t.act e).groupHasKey gname key = false := by
  rw [← Bool.not_eq_true] at hno ⊢
  rw [h.groupHasKey_iff] at hno
  rw [(h.act e).groupHasKey_iff]
  rintro ⟨id, hlinked⟩
  obtain ⟨-, ⟨hlinked, -⟩ | ⟨hadds, -⟩⟩ := (h.linked_act e).mp hlinked
  · exact hno ⟨id, hlinked⟩
  · exact he hadds.1

/-- The node of a member is the one that its pointer finds. -/
theorem Good.lock_pointer (h : t.Good) : (t.pointer gname key).bind t.lock
    = if t.groupHasKey gname key then t.nodeOf key else none := by
  rw [groupHasKey_eq]
  cases hptr : t.pointer gname key with
  | none => rfl
  | some wptr =>
    rw [Option.bind_some, Option.any_some]
    cases hlock : t.lock wptr with
    | none => rfl
    | some node =>
      obtain ⟨hnode, rfl⟩ := h.sound.lock_eq_some hlock
      have htag : t.Tagged node.id node.data.1 := h.sound.tagged_iff.mpr ⟨node, hnode, rfl⟩
      obtain rfl := h.tagged_key hptr htag
      exact hnode.symm

theorem Good.groupGet_eq {α : Type*} (h : t.Good) (anyCast : V → Option α) (defval : α) :
    t.groupGet gname key anyCast defval = if t.groupHasKey gname key then
      (t.entries key).bind fun e => anyCast e.val else some defval := by
  unfold groupGet
  rw [groupNode_eq, h.lock_pointer]
  by_cases hmember : t.groupHasKey gname key = true
  · obtain ⟨id, -, htag⟩ := h.groupHasKey_iff.mp hmember
    obtain ⟨node, hnode, -⟩ := h.sound.tagged_iff.mp htag
    rw [if_pos hmember, if_pos hmember, entries, hnode]
    rfl
  · rw [if_neg hmember, if_neg hmember]

theorem Good.groupForEach_spec (h : t.Good) (f : κ → V → Bool × V) :
    let delivered := (t.groupForEach gname f).2.1
    (delivered.map Prod.fst).Nodup ∧
      (∀ item ∈ delivered, t.groupHasKey gname item.1 = true ∧
        (t.entries item.1).map (·.val) = some item.2) ∧
      ((∀ item ∈ delivered, (f item.1 item.2).1 = true) →
        ∀ key, t.groupHasKey gname key = true → key ∈ delivered.map Prod.fst) := by
  cases hg : t.groups gname with
  | none =>
    simp only [groupForEach, hg, groupHasKey]
    simp
  | some g =>
    have hgood := h.groups gname g hg
    simp only [groupForEach, hg]
    rw [delivered_forEachUnsafe h.sound hgood]
    have hmem : ∀ item : κ × V, item ∈ t.living g ↔ t.groupHasKey gname item.1 = true ∧
        (t.entries item.1).map (·.val) = some item.2 := by
      intro item
      have hptr : t.pointer gname item.1 = g.find item.1 := by rw [pointer, hg, Option.bind_some]
      rw [mem_living h.sound hgood, h.groupHasKey_iff]
      simp only [Linked, hptr]
      constructor
      · rintro ⟨wptr, hfind, htag, hval⟩
        exact ⟨⟨wptr, hfind, htag⟩, hval⟩
      · rintro ⟨⟨wptr, hfind, htag⟩, hval⟩
        exact ⟨wptr, hfind, htag, hval⟩
    refine ⟨?_, fun item hitem => ?_, fun hgo key hkey => ?_⟩
    · exact (nodup_living t hgood.distinct).sublist ((prefix_deliveredOf f _).sublist.map _)
    · exact (hmem item).mp ((prefix_deliveredOf f _).subset hitem)
    · rw [deliveredOf_eq hgo]
      obtain ⟨id, -, htag⟩ := h.groupHasKey_iff.mp hkey
      obtain ⟨node, hnode, -⟩ := h.sound.tagged_iff.mp htag
      have hval : (t.entries key).map (·.val) = some node.data.2 := by
        simp only [entries, hnode, Option.map_some]
        rfl
      exact List.mem_map.mpr ⟨(key, node.data.2), (hmem _).mpr ⟨hkey, hval⟩, rfl⟩

/-- **Group membership follows node identity**: after any events, one after another. -/
theorem group_membership (α : Type*) (es : List (Event κ V F)) (gname : String) :
    (init : TSHashtable hasher n V F).FollowsNodes α es gname := by
  have hgood : (exec act (init : TSHashtable hasher n V F) es).Good := good_init.exec es
  constructor
  · intro key
    rw [hgood.groupHasKey_iff]
    exact exists_congr fun id => linked_iff es
  · exact fun key => groupAddKey_iff _ gname key
  · rintro pre post key rfl hnone hpost
    have hpre : (exec act (init : TSHashtable hasher n V F) pre).Good := good_init.exec pre
    have hno : (exec act init pre : TSHashtable hasher n V F).groupHasKey gname key = false := by
      rw [← Bool.not_eq_true, hpre.groupHasKey_iff]
      rintro ⟨id, -, htag⟩
      obtain ⟨node, hnode, -⟩ := hpre.sound.tagged_iff.mp htag
      simp [entries, hnode] at hnone
    rw [exec_append]
    -- no event of `post` makes the key a member
    refine (exec_invariant
      (I := fun t : TSHashtable hasher n V F => t.Good ∧ t.groupHasKey gname key = false)
      (P := fun _ e => e ≠ Event.groupAddKey gname key) ?_ ⟨hpre, hno⟩ ?_).2
    · exact fun t e ht he => ⟨ht.1.act e, ht.1.groupHasKey_act ht.2 he⟩
    · exact along_of_forall_mem (P := fun e => e ≠ Event.groupAddKey gname key)
        (fun e he heq => hpost (heq ▸ he)) _
  · exact fun key anyCast defval => hgood.groupGet_eq anyCast defval
  · exact fun f => hgood.groupForEach_spec f

/-- A key that expires and is stored again has to be added again. -/
theorem group_membership_run :
    let es : List (Event ℕ ℕ String) :=
      [.createGroup "g", .op (.addOrUpdate 0 1 10 5 none), .groupAddKey "g" 1,
        .op (.cleanup (fun _ => 7) true), .op (.addOrUpdate 8 1 20 0 none)]
    (init : TSHashtable (fun key : ℕ => key) 2 ℕ String).FollowsNodes ℕ es "g" :=
  @group_membership ℕ ℕ String _ (fun key => key) 2 _ ℕ _ "g"

end TSHashtable
