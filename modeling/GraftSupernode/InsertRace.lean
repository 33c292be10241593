/-
# Check and insert

`addOrUpdate` finds the node of its key in one step, and pushes a new node or writes to the one it
has found in another.  `hasKey`, `valueFor` and `remove` share the lock of the bucket, `addOrUpdate`
takes none, so no call waits for another: what a call does is a program of atomic steps (`prog`),
and a run is any interleaving of the steps of any number of calls.

* `oneNode_iff`: no bucket ever holds two nodes of a key exactly if every push is of a key that is
  not there;
* `readsLast`: if a write is to a node that is still there as well, a read sees what the last
  completed `addOrUpdate` has stored.
-/
import GraftSupernode.AtomicProgram
import GraftSupernode.GroupMembers

open Runs AtomicProgram

namespace TSHashtable

variable {κ V F : Type} [LinearOrder κ] {hasher : κ → ℕ} {n : ℕ} [NeZero n]

/-! ## Atomic steps -/

variable (κ V F) in
/-- A step on the list of a bucket, or on the data of a node that was found. -/
inductive ListOp
  | findFirstOf (now : ℤ) (key : κ)
  | pushFront (now : ℤ) (key : κ) (value : V) (ttl : ℤ) (onExpired : Option F)
  | removeIf (key : κ)
  /-- `found_entry->second = value` -/
  | assign (ptr : ℕ) (value : V)
  /-- `found_entry->second` -/
  | second (ptr : ℕ)

/-- What a step returns: a pointer is the id of its node. -/
abbrev ListOp.Answer : ListOp κ V F → Type
  | findFirstOf _ _ => Option ℕ
  | pushFront _ _ _ _ _ => Unit
  | removeIf _ => Unit
  | assign _ _ => Unit
  | second _ => Option V

/-- The table, and the values of the nodes that were dropped, which pointers keep alive. -/
structure Shared {κ : Type} (hasher : κ → ℕ) (n : ℕ) (V F : Type) where
  table : TSHashtable hasher n V F
  loose : ℕ → Option V

/-- The steps. -/
def handle : Meaning (ListOp κ V F) ListOp.Answer (Shared hasher n V F)
  | .findFirstOf now key, s =>
    ((s.table.findEntryFor now key).1.map (·.id), ⟨(s.table.findEntryFor now key).2, s.loose⟩)
  | .pushFront now key value ttl onExpired, s =>
    ((), ⟨s.table.pushFront now key value ttl onExpired, s.loose⟩)
  | .removeIf key, s =>
    ((), ⟨s.table.remove key, fun ptr =>
      match s.table.lock ptr with
      | some node => if node.data.1 = key then some node.data.2 else s.loose ptr
      | none => s.loose ptr⟩)
  | .assign ptr value, s =>
    ((), ⟨s.table.write ptr (.setValue value),
      Function.update s.loose ptr ((s.loose ptr).map fun _ => value)⟩)
  | .second ptr, s => ((s.table.lock ptr).elim (s.loose ptr) fun node => some node.data.2, s)

/-! ## Calls -/

variable (κ V F) in
/-- A call, with the times at which it reads the clock: `addOrUpdate` may read it twice. -/
inductive Call
  | addOrUpdate (now later : ℤ) (key : κ) (value : V) (ttl : ℤ) (onExpired : Option F)
  | valueFor (now : ℤ) (key : κ) (defaultValue : V)
  | hasKey (now : ℤ) (key : κ)
  | remove (key : κ)

/-- What a call does, step by step. -/
def prog : Call κ V F → Prog (ListOp κ V F) ListOp.Answer (Reply V)
  | .addOrUpdate now later key value ttl onExpired =>
    .call (.findFirstOf now key) fun
      | none => .call (.pushFront later key value ttl onExpired) fun _ => .ret .none
      | some ptr => .call (.assign ptr value) fun _ => .ret .none
  | .valueFor now key defaultValue =>
    .call (.findFirstOf now key) fun
      | none => .ret (.value defaultValue)
      | some ptr => .call (.second ptr) fun value => .ret (.value (value.getD defaultValue))
  | .hasKey now key =>
    .call (.findFirstOf now key) fun (found : Option ℕ) => .ret (.flag found.isSome)
  | .remove key => .call (.removeIf key) fun _ => .ret .none

/-- Threads that share a table. -/
abbrev Pool {κ : Type} (ι : Type*) (hasher : κ → ℕ) (n : ℕ) (V F : Type) :=
  Config ι (Shared hasher n V F) (ListOp κ V F) ListOp.Answer (Reply V)

/-- A pool in which each thread makes one call, and no node is in the table. -/
def pool {ι : Type*} (hasher : κ → ℕ) (n : ℕ) [NeZero n] (calls : ι → Call κ V F) :
    Pool ι hasher n V F :=
  ⟨⟨init, fun _ => none⟩, fun i => prog (calls i)⟩

variable {ι : Type*} [DecidableEq ι]

/-- A turn of a thread. -/
def turn (c : Pool ι hasher n V F) (i : ι) : Pool ι hasher n V F :=
  c.step handle (fun (e : Empty) _ => e.elim) (.thread i)

variable {c : Pool ι hasher n V F} {calls : ι → Call κ V F} {s : Shared hasher n V F}
variable {t t' : TSHashtable hasher n V F} {key : κ} {ptr : ℕ}

/-- The thread pushes a key that is not there. -/
def PushesNew (c : Pool ι hasher n V F) (i : ι) : Prop :=
  ∀ now key value ttl onExpired k, c.thread i = .call (.pushFront now key value ttl onExpired) k →
    c.store.table.nodeOf key = none

/-- The thread writes to a node that is there. -/
def AssignsLive (c : Pool ι hasher n V F) (i : ι) : Prop :=
  ∀ ptr value k, c.thread i = .call (.assign ptr value) k → (c.store.table.lock ptr).isSome = true

/-- No bucket holds two nodes of a key. -/
def OneNode (t : TSHashtable hasher n V F) : Prop :=
  ∀ i, ((t.buckets i).map (·.data.1)).Nodup

/-! ## One node for a key -/

/-- A step on a sound table; a push has to be of a key that is not there. -/
theorem handle_sound (h : s.table.Sound) (o : ListOp κ V F)
    (hnew : ∀ now key value ttl onExpired, o = .pushFront now key value ttl onExpired →
      s.table.nodeOf key = none) :
    (handle o s).2.table.Sound ∧ Follows s.table (handle o s).2.table := by
  cases o with
  | findFirstOf now key =>
    have hthins := Thins.findEntryFor s.table now key
    exact ⟨h.thins hthins, hthins.follows⟩
  | pushFront now key value ttl onExpired =>
    exact ⟨h.pushFront (hnew _ _ _ _ _ rfl) now value ttl onExpired,
      .pushFront s.table now key value ttl onExpired⟩
  | removeIf key =>
    have hthins := Thins.remove s.table key
    exact ⟨h.thins hthins, hthins.follows⟩
  | assign ptr value =>
    have hthins := Thins.setValue s.table ptr value
    exact ⟨h.thins hthins, hthins.follows⟩
  | second ptr => exact ⟨h, (Thins.refl s.table).follows⟩

/-- A turn that pushes a new key only keeps the table sound. -/
theorem sound_turn {i : ι} (h : c.store.table.Sound) (hnew : PushesNew c i) :
    (turn c i).store.table.Sound := by
  unfold turn
  cases hi : c.thread i with
  | ret a =>
    rw [Config.step_thread_of_ret hi]
    exact h
  | call o k =>
    rw [Config.step_thread_of_call hi]
    refine (handle_sound h o ?_).1
    rintro now key value ttl onExpired rfl
    exact hnew now key value ttl onExpired k hi

/-- **When two nodes have one key**: exactly when a call pushes a key that is there. -/
theorem oneNode_iff (is : List ι) :
    (∀ pre post, is = pre ++ post → (exec turn (pool hasher n calls) pre).store.table.OneNode) ↔
      Along turn PushesNew (pool hasher n calls) is := by
  constructor
  · intro h
    refine along_of_at_step fun pre i post his now key value ttl onExpired k hi => ?_
    have hone := h (pre ++ [i]) post (by rw [his, List.append_assoc]; rfl)
    rw [exec_append, exec_cons, exec_nil] at hone
    -- after the push the key is in front of the keys of its bucket
    generalize exec turn (pool hasher n calls) pre = c at hi hone ⊢
    have hturn := hone (getBucket hasher n key)
    rw [turn, Config.step_thread_of_call hi] at hturn
    replace hturn : (((c.store.table.setBucket (getBucket hasher n key) _).buckets
      (getBucket hasher n key)).map (·.data.1)).Nodup := hturn
    rw [buckets_setBucket, if_pos rfl, List.map_cons, List.nodup_cons] at hturn
    exact TSList.lookup_eq_none.mpr fun node hnode hkey =>
      hturn.1 (List.mem_map.mpr ⟨node, hnode, hkey⟩)
  · rintro h pre post rfl
    have hsound := exec_invariant_prefix
      (I := fun c : Pool ι hasher n V F => c.store.table.Sound) (P := PushesNew)
      (fun c i hc hi => sound_turn hc hi) sound_init h
    exact hsound.nodup_keys

/-! ## What the calls have stored -/

/-- The values of the keys in the table. -/
def values (t : TSHashtable hasher n V F) (key : κ) : Option V := (t.nodeOf key).map (·.data.2)

/-- What a completed call means for the values. -/
def applyCall (m : κ → Option V) : Call κ V F → κ → Option V
  | .addOrUpdate _ _ key value _ _ => Function.update m key (some value)
  | .remove key => Function.update m key none
  | _ => m

/-- The call that is completed by a turn. -/
def completed (calls : ι → Call κ V F) (c : Pool ι hasher n V F) (i : ι) : Option (Call κ V F) :=
  match c.thread i with
  | .ret _ => none
  | .call o k =>
    match k (handle o c.store).1 with
    | .ret _ => some (calls i)
    | .call _ _ => none

/-- When the node of one key changes, so does its value, and no other. -/
theorem values_eq_update {o : Option (TSNode (κ × V) F)}
    (h : ∀ k, t'.nodeOf k = if k = key then o else t.nodeOf k) :
    t'.values = Function.update t.values key (o.map (·.data.2)) := by
  funext k
  unfold values
  rw [h]
  by_cases hk : k = key
  · rw [if_pos hk, hk, Function.update_self]
  · rw [if_neg hk, Function.update_of_ne hk]

/-- `find_entry_for` changes no value. -/
theorem values_findEntryFor (t : TSHashtable hasher n V F) (now : ℤ) (key : κ) :
    (t.findEntryFor now key).2.values = t.values := by
  rw [values_eq_update fun _ => nodeOf_findEntryFor, Option.map_map]
  exact Function.update_eq_self key t.values

/-- A write to the node of a key changes its value. -/
theorem values_write {node : TSNode (κ × V) F} (h : t.Sound) (hnode : t.nodeOf key = some node)
    (value : V) : (t.write node.id (.setValue value)).values
      = Function.update t.values key (some value) := by
  refine values_eq_update (o := some (node.setValue value)) fun k => ?_
  rw [nodeOf_write (TSNode.key_setValue value)]
  by_cases hk : k = key
  · rw [if_pos hk, hk, hnode, Option.map_some, if_pos rfl]
  · rw [if_neg hk]
    cases hnode' : t.nodeOf k with
    | none => rfl
    | some node' =>
      have hid : node'.id ≠ node.id := fun hid => hk (h.eq_of_id hnode' hnode hid)
      rw [Option.map_some, if_neg hid]

/-! ## The calls under way -/

/-- The pointer is to the node of the key, or the node was dropped. -/
structure PointsTo (t : TSHashtable hasher n V F) (ptr : ℕ) (key : κ) : Prop where
  old : ptr < t.nextId
  key : ∀ k, t.Tagged ptr k → k = key

/-- How far a call can be. -/
inductive Stage (t : TSHashtable hasher n V F) :
    Call κ V F → Prog (ListOp κ V F) ListOp.Answer (Reply V) → Prop
  | start (call : Call κ V F) : Stage t call (prog call)
  | push (now later : ℤ) (key : κ) (value : V) (ttl : ℤ) (onExpired : Option F) :
    Stage t (.addOrUpdate now later key value ttl onExpired)
      (.call (.pushFront later key value ttl onExpired) fun _ => .ret .none)
  | assign (now later : ℤ) (key : κ) (value : V) (ttl : ℤ) (onExpired : Option F) {ptr : ℕ}
    (hptr : t.PointsTo ptr key) : Stage t (.addOrUpdate now later key value ttl onExpired)
      (.call (.assign ptr value) fun _ => .ret .none)
  | read (now : ℤ) (key : κ) (defaultValue : V) {ptr : ℕ} (hptr : t.PointsTo ptr key) :
    Stage t (.valueFor now key defaultValue)
      (.call (.second ptr) fun value => .ret (.value (Option.getD value defaultValue)))
  | done (call : Call κ V F) (r : Reply V) : Stage t call (.ret r)

omit [LinearOrder κ] [NeZero n] in
/-- A pointer to the node of a key stays one as the table goes on. -/
theorem PointsTo.follows (h : t.PointsTo ptr key) (ht : Follows t t') : t'.PointsTo ptr key where
  old := h.old.trans_le ht.nextId
  key k htag := h.key k ((ht.tagged htag).resolve_right h.old.not_ge)

omit [LinearOrder κ] [NeZero n] in
/-- A thread stays in its stage as the table goes on. -/
theorem Stage.follows {call : Call κ V F} {p : Prog (ListOp κ V F) ListOp.Answer (Reply V)}
    (h : Stage t call p) (ht : Follows t t') : Stage t' call p := by
  cases h with
  | start => exact .start _
  | push => exact .push _ _ _ _ _ _
  | assign _ _ _ _ _ _ hptr => exact .assign _ _ _ _ _ _ (hptr.follows ht)
  | read _ _ _ hptr => exact .read _ _ _ (hptr.follows ht)
  | done => exact .done _ _

/-- A sound table, and every call at a stage of its own. -/
structure Inv (calls : ι → Call κ V F) (c : Pool ι hasher n V F) : Prop where
  sound : c.store.table.Sound
  stage : ∀ i, Stage c.store.table (calls i) (c.thread i)

omit [LinearOrder κ] [DecidableEq ι] in
/-- In the beginning no thread has done anything. -/
theorem inv_pool (calls : ι → Call κ V F) : Inv calls (pool hasher n calls) where
  sound := sound_init
  stage i := .start (calls i)

/-- A step of one thread. -/
theorem inv_turn {i : ι} {o : ListOp κ V F} {k : o.Answer → Prog (ListOp κ V F) ListOp.Answer (Reply V)}
    (h : Inv calls c) (hi : c.thread i = .call o k) (hnew : PushesNew c i)
    (hstage : Stage (handle o c.store).2.table (calls i) (k (handle o c.store).1)) :
    Inv calls (turn c i) := by
  obtain ⟨hsound, hfollows⟩ := handle_sound h.sound o (by
    rintro now key value ttl onExpired rfl
    exact hnew now key value ttl onExpired k hi)
  unfold turn
  rw [Config.step_thread_of_call hi]
  refine ⟨hsound, fun j => ?_⟩
  by_cases hj : j = i
  · subst hj
    simpa using hstage
  · simpa [Function.update_of_ne hj] using (h.stage j).follows hfollows

/-- What a find answers: the pointer to the node of the key. -/
theorem answer_of_none (h : s.table.nodeOf key = none) (now : ℤ) :
    (handle (.findFirstOf now key) s).1 = none := by
  show (s.table.findEntryFor now key).1.map _ = _
  rw [findEntryFor_fst, h]
  rfl

/-- The pointer of a node that is there is found. -/
theorem answer_of_some {node : TSNode (κ × V) F} (h : s.table.nodeOf key = some node) (now : ℤ) :
    (handle (.findFirstOf now key) s).1 = some node.id := by
  show (s.table.findEntryFor now key).1.map _ = _
  rw [findEntryFor_fst, h]
  rfl

/-- In a sound table, the node of a key is pointed to by its id. -/
theorem Sound.pointsTo (h : t.Sound) {node : TSNode (κ × V) F} (hnode : t.nodeOf key = some node) :
    t.PointsTo node.id key where
  old := h.fresh _ _ (List.mem_map_of_mem (mem_of_nodeOf hnode).1)
  key k htag := by
    obtain ⟨node', hnode', hid⟩ := h.tagged_iff.mp htag
    exact h.eq_of_id hnode' hnode hid

/-- A pointer that is not dead is to the node of its key. -/
theorem PointsTo.nodeOf (h : t.PointsTo ptr key) (ht : t.Sound)
    (hlive : (t.lock ptr).isSome = true) :
    ∃ node, t.nodeOf key = some node ∧ node.id = ptr ∧ t.lock ptr = some node := by
  obtain ⟨node, hlock⟩ := Option.isSome_iff_exists.mp hlive
  obtain ⟨hnode, hid⟩ := ht.lock_eq_some hlock
  obtain rfl := h.key _ (ht.tagged_iff.mpr ⟨node, hnode, hid⟩)
  exact ⟨node, hnode, hid, hlock⟩

/-- Without interruption, `addOrUpdate` is the operation of the table. -/
theorem run_addOrUpdate (s : Shared hasher n V F) (now : ℤ) (key : κ) (value : V) (ttl : ℤ)
    (onExpired : Option F) :
    ((prog (.addOrUpdate now now key value ttl onExpired)).run handle s).2.table
      = s.table.addOrUpdate now key value ttl onExpired := by
  rw [prog, Prog.run_call]
  cases hnode : s.table.nodeOf key with
  | none =>
    rw [answer_of_none hnode, addOrUpdate_of_none hnode]
    rfl
  | some node =>
    rw [answer_of_some hnode, addOrUpdate_of_some hnode]
    rfl

section turn

variable {i : ι} {o : ListOp κ V F} {k : o.Answer → Prog (ListOp κ V F) ListOp.Answer (Reply V)}

/-- A turn answers the operation of its thread. -/
theorem store_turn (hi : c.thread i = .call o k) : (turn c i).store = (handle o c.store).2 := by
  unfold turn
  rw [Config.step_thread_of_call hi]

omit [DecidableEq ι] in
/-- A call is completed when its thread returns. -/
theorem completed_of_ret (hi : c.thread i = .call o k) {r : Reply V}
    (hk : k (handle o c.store).1 = .ret r) : completed calls c i = some (calls i) := by
  simp only [completed, hi, hk]

omit [DecidableEq ι] in
/-- A call is not completed when its thread goes on. -/
theorem completed_of_call (hi : c.thread i = .call o k) {o' : ListOp κ V F}
    {k' : o'.Answer → Prog (ListOp κ V F) ListOp.Answer (Reply V)}
    (hk : k (handle o c.store).1 = .call o' k') : completed calls c i = none := by
  simp only [completed, hi, hk]

end turn

/-- **One turn**: the values change when a call is completed, as the call says. -/
theorem turn_spec {i : ι} (h : Inv calls c) (hnew : PushesNew c i) (hlive : AssignsLive c i) :
    Inv calls (turn c i) ∧ (turn c i).store.table.values
      = (completed calls c i).toList.foldl applyCall c.store.table.values := by
  have hstage := h.stage i
  generalize hi : c.thread i = p at hstage
  generalize hcall : calls i = call at hstage
  -- a find changes no value, whatever it finds
  have hfind : ∀ now key, ((handle (.findFirstOf now key) c.store).2).table.values
      = c.store.table.values := fun now key => values_findEntryFor c.store.table now key
  cases hstage with
  | done _ r =>
    have hrest : turn c i = c := Config.step_thread_of_ret hi
    rw [hrest]
    refine ⟨h, ?_⟩
    simp only [completed, hi, Option.toList_none, List.foldl_nil]
  | start _ =>
    cases call with
    | addOrUpdate now later key value ttl onExpired =>
      cases hnode : c.store.table.nodeOf key with
      | none =>
        have hanswer := answer_of_none hnode now
        refine ⟨inv_turn h hi hnew ?_, ?_⟩
        · rw [hcall, hanswer]
          exact .push now later key value ttl onExpired
        · rw [store_turn hi, hfind, completed_of_call hi (by rw [hanswer])]
          rfl
      | some node =>
        have hanswer := answer_of_some hnode now
        have hptr := (h.sound.pointsTo hnode).follows (Thins.findEntryFor _ now key).follows
        refine ⟨inv_turn h hi hnew ?_, ?_⟩
        · rw [hcall, hanswer]
          exact .assign now later key value ttl onExpired hptr
        · rw [store_turn hi, hfind, completed_of_call hi (by rw [hanswer])]
          rfl
    | valueFor now key defaultValue =>
      cases hnode : c.store.table.nodeOf key with
      | none =>
        have hanswer := answer_of_none hnode now
        refine ⟨inv_turn h hi hnew ?_, ?_⟩
        · rw [hanswer]
          exact .done _ _
        · rw [store_turn hi, hfind, completed_of_ret hi (by rw [hanswer]), hcall]
          rfl
      | some node =>
        have hanswer := answer_of_some hnode now
        have hptr := (h.sound.pointsTo hnode).follows (Thins.findEntryFor _ now key).follows
        refine ⟨inv_turn h hi hnew ?_, ?_⟩
        · rw [hcall, hanswer]
          exact .read now key defaultValue hptr
        · rw [store_turn hi, hfind, completed_of_call hi (by rw [hanswer])]
          rfl
    | hasKey now key =>
      refine ⟨inv_turn h hi hnew (.done _ _), ?_⟩
      rw [store_turn hi, hfind, completed_of_ret hi rfl, hcall]
      rfl
    | remove key =>
      refine ⟨inv_turn h hi hnew (.done _ _), ?_⟩
      rw [store_turn hi, completed_of_ret hi rfl, hcall]
      exact values_eq_update fun _ => nodeOf_remove
  | push now later key value ttl onExpired =>
    refine ⟨inv_turn h hi hnew (.done _ _), ?_⟩
    rw [store_turn hi, completed_of_ret hi rfl, hcall]
    exact values_eq_update fun _ => nodeOf_pushFront value ttl onExpired
  | assign now later key value ttl onExpired hptr =>
    refine ⟨inv_turn h hi hnew (.done _ _), ?_⟩
    obtain ⟨node, hnode, rfl, -⟩ := hptr.nodeOf h.sound (hlive _ _ _ hi)
    rw [store_turn hi, completed_of_ret hi rfl, hcall]
    exact values_write h.sound hnode value
  | read now key defaultValue hptr =>
    refine ⟨inv_turn h hi hnew (.done _ _), ?_⟩
    rw [store_turn hi, completed_of_ret hi rfl, hcall]
    rfl

/-- **A run**: the values are what the completed calls have stored. -/
theorem values_exec {is : List ι} (h : Inv calls c) (hnew : Along turn PushesNew c is)
    (hlive : Along turn AssignsLive c is) :
    Inv calls (exec turn c is) ∧ (exec turn c is).store.table.values
      = (trace turn (completed calls) c is).foldl applyCall c.store.table.values := by
  induction is generalizing c with
  | nil => exact ⟨h, rfl⟩
  | cons i is ih =>
    obtain ⟨hinv, hvalues⟩ := turn_spec h hnew.1 hlive.1
    obtain ⟨hend, hrest⟩ := ih hinv hnew.2 hlive.2
    refine ⟨hend, ?_⟩
    rw [exec_cons, hrest, hvalues, trace_cons, List.foldl_append]

/-! ## What reads see -/

/-- The reads see the values `m`. -/
structure Reads (calls : ι → Call κ V F) (c : Pool ι hasher n V F) (m : κ → Option V) : Prop where
  /-- A `valueFor` from here on that is not interrupted. -/
  valueFor : ∀ now key defaultValue,
    ((prog (.valueFor now key defaultValue)).run handle c.store).1
      = .value ((m key).getD defaultValue)
  /-- A `hasKey`. -/
  hasKey : ∀ now key, ((prog (.hasKey now key)).run handle c.store).1 = .flag (m key).isSome
  /-- A `valueFor` under way, if the node it has found is there. -/
  second : ∀ i now key defaultValue ptr k, calls i = .valueFor now key defaultValue →
    c.thread i = .call (.second ptr) k → (c.store.table.lock ptr).isSome = true →
    (handle (.second ptr) c.store).1 = m key

omit [DecidableEq ι] in
/-- The invariant tells what a call reads. -/
theorem Inv.reads (h : Inv calls c) : Reads calls c c.store.table.values where
  valueFor now key defaultValue := by
    rw [prog, Prog.run_call]
    unfold values
    cases hnode : c.store.table.nodeOf key with
    | none =>
      rw [answer_of_none hnode]
      rfl
    | some node =>
      rw [answer_of_some hnode]
      -- the pointer is locked after the time of the node has been updated
      have hsound := h.sound.thins (.findEntryFor c.store.table now key)
      have hfound : (c.store.table.findEntryFor now key).2.nodeOf key
          = some (node.updateTime now) := by
        rw [nodeOf_findEntryFor, if_pos rfl, hnode, Option.map_some]
      have hlock := hsound.lock_of_nodeOf hfound
      show Reply.value (Option.getD (((c.store.table.findEntryFor now key).2.lock
        (node.updateTime now).id).elim _ _) defaultValue) = _
      rw [hlock]
      rfl
  hasKey now key := by
    rw [prog, Prog.run_call]
    unfold values
    cases hnode : c.store.table.nodeOf key with
    | none =>
      rw [answer_of_none hnode]
      rfl
    | some node =>
      rw [answer_of_some hnode]
      rfl
  second i now key defaultValue ptr k hcall hi hlive := by
    have hstage := h.stage i
    rw [hcall, hi] at hstage
    -- a thread at its second access has a pointer to a node of its key
    have hptr : c.store.table.PointsTo ptr key := by
      generalize hp : Prog.call (ListOp.second ptr) k = p at hstage
      generalize hc : Call.valueFor now key defaultValue = call at hstage
      cases hstage with
      | read _ _ _ hptr =>
        cases hp
        cases hc
        exact hptr
      | start =>
        subst hc
        cases hp
      | _ => cases hp
    obtain ⟨node, hnode, -, hlock⟩ := hptr.nodeOf h.sound hlive
    unfold values
    rw [hnode]
    show (c.store.table.lock ptr).elim _ _ = _
    rw [hlock]
    rfl

/-- **One node for a key, under concurrency**: no bucket ever holds two nodes of a key exactly if
every call that pushes a node still finds none; and the reads see what the completed calls have
stored, if also every call that writes to a node still finds it there. -/
theorem insert_race (calls : ι → Call κ V F) (is : List ι) :
    ((∀ pre post, is = pre ++ post → (exec turn (pool hasher n calls) pre).store.table.OneNode) ↔
      Along turn PushesNew (pool hasher n calls) is) ∧
    (Along turn PushesNew (pool hasher n calls) is → Along turn AssignsLive (pool hasher n calls) is →
      ∀ pre post, is = pre ++ post → Reads calls (exec turn (pool hasher n calls) pre)
        ((trace turn (completed calls) (pool hasher n calls) pre).foldl applyCall fun _ => none)) := by
  refine ⟨oneNode_iff is, ?_⟩
  rintro hnew hlive pre post rfl
  obtain ⟨hinv, hvalues⟩ := values_exec (inv_pool calls) ((along_append _ _ _ _ _).mp hnew).1
    ((along_append _ _ _ _ _).mp hlive).1
  have hreads := hinv.reads
  rw [hvalues] at hreads
  exact hreads

/-! ## Races -/

/-- Two calls that store one key. -/
def twoWriters : Bool → Call ℕ ℕ String
  | false => .addOrUpdate 0 0 1 10 0 none
  | true => .addOrUpdate 0 0 1 20 0 none

/-- Two calls that store one key, and one that removes it. -/
def removedMeanwhile : Fin 3 → Call ℕ ℕ String
  | 0 => .addOrUpdate 0 0 1 10 0 none
  | 1 => .addOrUpdate 0 0 1 20 0 none
  | 2 => .remove 1

/-- **Two races**: both writers find no node, and both push one; a writer writes to a node that has
been removed since it was found, and a read does not see it. -/
theorem insert_race_fails :
    (let c := exec turn (pool (fun key : ℕ => key) 2 twoWriters) [false, true, false, true];
      ¬ c.store.table.OneNode ∧ (c.store.table.buckets 1).map (·.data) = [(1, 20), (1, 10)]) ∧
    (let c₀ := pool (fun key : ℕ => key) 2 removedMeanwhile;
      let c := exec turn c₀ [0, 0, 1, 2, 1];
      trace turn (completed removedMeanwhile) c₀ [0, 0, 1, 2, 1]
          = [removedMeanwhile 0, removedMeanwhile 2, removedMeanwhile 1] ∧
        ((prog (.valueFor 0 1 0)).run handle c.store).1 = .value 0) := by
  constructor
  · intro c
    have hbucket : (c.store.table.buckets 1).map (·.data) = [(1, 20), (1, 10)] := by decide
    refine ⟨fun hone => ?_, hbucket⟩
    have hkeys : ((c.store.table.buckets 1).map (·.data.1)) = [1, 1] := by decide
    exact absurd (hkeys ▸ hone 1) (by decide)
  · exact ⟨rfl, rfl⟩

/-- One call after the other: the second finds the node that the first has pushed. -/
theorem insert_race_in_turn :
    let is := [false, false, true, true]
    (∀ pre post, is = pre ++ post →
        (exec turn (pool (fun key : ℕ => key) 2 twoWriters) pre).store.table.OneNode) ∧
      ∀ pre post, is = pre ++ post →
        Reads twoWriters (exec turn (pool (fun key : ℕ => key) 2 twoWriters) pre)
          ((trace turn (completed twoWriters) (pool (fun key : ℕ => key) 2 twoWriters) pre).foldl
            applyCall fun _ => none) := by
  intro is
  obtain ⟨hone, hreads⟩ :=
    @insert_race ℕ ℕ String _ (fun key => key) 2 _ Bool _ twoWriters is
  have hnew : Along turn PushesNew (pool (fun key : ℕ => key) 2 twoWriters) is := by
    refine ⟨?_, ?_, ?_, ?_, trivial⟩ <;> intro now key value ttl onExpired k hi
    · cases hi
    · -- the only push
      cases hi
      rfl
    · cases hi
    · cases hi
  have hlive : Along turn AssignsLive (pool (fun key : ℕ => key) 2 twoWriters) is := by
    refine ⟨?_, ?_, ?_, ?_, trivial⟩ <;> intro ptr value k hi
    · cases hi
    · cases hi
    · cases hi
    · -- the only write to a node
      cases hi
      rfl
  exact ⟨hone.mpr hnew, hreads hnew hlive⟩

end TSHashtable
