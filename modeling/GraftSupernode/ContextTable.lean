/-
# The table of the global context

Handlers run over `GlobalContextMap`, in which a key has a node or has none.  `Context::Global`
keeps the nodes in the buckets of a hash table.  Here the two are brought together: what handlers
do over the hash table they do over the map.

* `Shows`: the nodes of the map are those of the table;
* `agree_shows`, `envAgree_shows`: the operations answer alike and keep this, and so do the clock
  and the cleanup;
* `exists_exec_of_table`: any run of workers over the table is a run over the map.
-/
import GraftSupernode.FiniteStatus
import GraftSupernode.PoolSimulation
import GraftSupernode.TableMap

open AtomicProgram Runs

namespace GlobalContext

variable {V F : Type} {hasher : String → ℕ} {n : ℕ} [NeZero n]

/-- The hash table of the context, with the second its clock shows. -/
structure ContextTable (hasher : String → ℕ) (n : ℕ) (V F : Type) where
  now : ℕ
  table : TSHashtable hasher n V F

/-- The operation of a handler on the table; handlers give no `onExpired`. -/
def StoreOp.tableOp (now : ℕ) : StoreOp V → TSHashtable.Op String V F
  | .hasKey key => .hasKey now key
  | .get key defval => .valueFor now key defval
  | .set key val ttl => .addOrUpdate now key val ttl none
  | .remove key => .remove key

/-- The operations on the hash table. -/
def handleTable : Meaning (StoreOp V) StoreOp.Reply (ContextTable hasher n V F)
  | .hasKey key, c => ((c.table.hasKey c.now key).1, ⟨c.now, (c.table.hasKey c.now key).2⟩)
  | .get key defval, c =>
    ((c.table.valueFor c.now key defval).1, ⟨c.now, (c.table.valueFor c.now key defval).2⟩)
  | .set key val ttl, c => ((), ⟨c.now, c.table.addOrUpdate c.now key val ttl none⟩)
  | .remove key, c => ((), ⟨c.now, c.table.remove key⟩)

theorem handleTable_snd (o : StoreOp V) (c : ContextTable hasher n V F) :
    (handleTable o c).2 = ⟨c.now, c.table.step (o.tableOp c.now)⟩ := by
  cases o <;> rfl

/-- The clock, and the cleanup, of one bucket or of all, which takes less than a second. -/
inductive TableMaintenance
  | tick (seconds : ℕ)
  | cleanup (all : Bool)

def TableMaintenance.apply (c : ContextTable hasher n V F) :
    TableMaintenance → ContextTable hasher n V F
  | tick seconds => ⟨c.now + seconds, c.table⟩
  | cleanup all => ⟨c.now, (c.table.cleanup (fun _ => c.now) all).table⟩

/-! ## The map that a table shows -/

/-- A node as an entry of the table. -/
def Node.entry (node : Node V) : TimedMap.Entry V F ℤ :=
  ⟨node.data, node.ttl, node.expires.map (↑), none⟩

/-- The nodes of the map are those of the table, at the same second. -/
structure Shows (c : ContextTable hasher n V F) (m : GlobalContextMap V) : Prop where
  now : m.now = c.now
  sound : c.table.Sound
  entries : ∀ key, c.table.entries key = (m.node key).map Node.entry

theorem shows_init : Shows (⟨0, .init⟩ : ContextTable hasher n V F) ⟨0, fun _ => none⟩ where
  now := rfl
  sound := TSHashtable.sound_init
  entries _ := rfl

theorem Node.deadline_eq (now ttl : ℕ) :
    TimedMap.deadline (now : ℤ) (ttl : ℤ)
      = (if ttl = 0 then none else some (now + ttl) : Option ℕ).map (↑) := by
  unfold TimedMap.deadline
  by_cases h : ttl = 0
  · simp [h]
  · simp [h]

/-- An access and a new value, in the node and in the entry. -/
theorem Node.entry_access (now : ℕ) (f : V → V) (node : Node V) :
    Node.entry (F := F) { node.updateTime now with data := f node.data }
      = TimedMap.Entry.access (now : ℤ) f node.entry := by
  unfold TimedMap.Entry.access Node.entry
  dsimp only
  rw [Node.deadline_eq]
  rfl

theorem Node.entry_create (now : ℕ) (val : V) (ttl : ℕ) :
    Node.entry (F := F) ((⟨val, ttl, none⟩ : Node V).updateTime now)
      = .create (now : ℤ) val (ttl : ℤ) none := by
  unfold TimedMap.Entry.create
  rw [Node.deadline_eq]
  rfl

theorem Node.due_entry (now : ℕ) (node : Node V) :
    (Node.entry (F := F) node).due (now : ℤ) = node.expired now := by
  unfold TimedMap.Entry.due Node.entry Node.expired
  cases node.expires <;> simp

/-- What an operation leaves under its key in the table is what it leaves in the map. -/
theorem step_event_key (o : StoreOp V) (t : TSHashtable hasher n V F) (now : ℕ)
    {node : Option (Node V)} (hnode : t.entries o.key = node.map Node.entry) :
    TimedMap.step t.entries (t.event (o.tableOp now))
      = Function.update t.entries o.key ((o.nodeAfter now node).map Node.entry) := by
  cases o with
  | hasKey key | get key _ =>
    -- both only look at the entry
    show Function.update t.entries key ((t.entries key).map _) = _
    rw [show t.entries key = _ from hnode]
    cases node with
    | none => rfl
    | some node =>
      exact congrArg (Function.update t.entries key <| some ·) (node.entry_access now id).symm
  | set key val ttl =>
    simp only [StoreOp.tableOp, TSHashtable.event, TimedMap.step]
    rw [show t.entries key = _ from hnode]
    cases node with
    | none =>
      exact congrArg (Function.update t.entries key <| some ·) (Node.entry_create now val ttl).symm
    | some node =>
      exact congrArg (Function.update t.entries key <| some ·)
        (node.entry_access now fun _ => val).symm
  | remove key => rfl

variable {c : ContextTable hasher n V F} {m : GlobalContextMap V}

/-- The entries after an operation. -/
theorem Shows.step_event (h : Shows c m) (o : StoreOp V) (key : String) :
    TimedMap.step c.table.entries (c.table.event (o.tableOp c.now)) key
      = ((handle o m).2.node key).map Node.entry := by
  rw [step_event_key o c.table c.now (h.entries o.key), handle_snd, ← h.now]
  by_cases hkey : key = o.key
  · rw [hkey, Function.update_self]
    dsimp only
    rw [Function.update_self]
  · rw [Function.update_of_ne hkey, h.entries]
    dsimp only
    rw [Function.update_of_ne hkey]

/-- **The operations answer alike**, and the map goes on to show what the table holds. -/
theorem agree_shows :
    Agree Shows (handleTable : Meaning _ _ (ContextTable hasher n V F)) handle := by
  intro o c m h
  obtain ⟨hstep, hreply, -⟩ := TSHashtable.refines h.sound (o.tableOp c.now)
  refine ⟨?_, ?_⟩
  · cases o with
    | hasKey key =>
      have hflag := TSHashtable.Reply.flag.inj hreply
      rw [h.entries, Option.isSome_map] at hflag
      exact hflag
    | get key defval =>
      have hvalue := TSHashtable.Reply.value.inj hreply
      rw [h.entries] at hvalue
      refine hvalue.trans ?_
      show _ = ((m.node key).map Node.data).getD defval
      cases m.node key <;> rfl
    | set key val ttl => rfl
    | remove key => rfl
  · rw [handleTable_snd]
    refine ⟨?_, h.sound.step _, fun key => ?_⟩
    · rw [handle_snd]
      exact h.now
    · dsimp only
      rw [hstep, h.step_event]

omit [NeZero n] in
/-- A cleanup at one second looks at the keys of the buckets that it visits. -/
theorem visitTime_const (now : ℤ) (k : ℕ) (is : List (Fin n)) (i : Fin n) :
    TSHashtable.visitTime (fun _ => now) k is i = if i ∈ is then some now else none := by
  induction is generalizing k with
  | nil => rfl
  | cons j is ih =>
    rw [TSHashtable.visitTime, ih]
    by_cases hij : i = j
    · simp [hij]
    · simp [hij]

/-- A cleanup of the entry is one of the node. -/
theorem filter_entry (now : ℕ) (visited : Prop) [Decidable visited] (node : Option (Node V)) :
    (node.map (Node.entry (F := F))).filter
        (fun e => !(if visited then some (now : ℤ) else none).any e.due)
      = (node.filter fun n => !(decide visited && n.expired now)).map Node.entry := by
  cases node with
  | none => rfl
  | some node =>
    rw [Option.map_some, Option.filter_some, Option.filter_some]
    by_cases hvisited : visited
    · rw [if_pos hvisited, Option.any_some, node.due_entry, decide_eq_true hvisited, Bool.true_and]
      split <;> rfl
    · rw [if_neg hvisited, decide_eq_false hvisited]
      rfl

theorem Shows.cleanup (h : Shows c m) (all : Bool) :
    ∃ visited, Shows (TableMaintenance.apply c (.cleanup all)) (m.cleanup visited) := by
  let op : TSHashtable.Op String V F := .cleanup (fun _ => c.now) all
  refine ⟨fun key => TSHashtable.getBucket hasher n key ∈ c.table.visited op, h.now,
    h.sound.step op, fun key => ?_⟩
  have hstep := congrFun (TSHashtable.refines h.sound op).1 key
  rw [TSHashtable.event, TimedMap.step_sweep, h.entries, visitTime_const, filter_entry] at hstep
  refine hstep.trans ?_
  show _ = ((m.node key).filter fun node => !(decide _ && node.expired m.now)).map Node.entry
  rw [h.now]
  rfl

end GlobalContext

namespace Request

open GlobalContext

variable {E : Externals} {F : Type} {hasher : String → ℕ} {n : ℕ} [NeZero n]

/-- **The clock and the cleanup** do to the map what they do to the table. -/
theorem envAgree_shows :
    EnvAgree Shows (fun e (c : ContextTable hasher n (Any E) F) => TableMaintenance.apply c e)
      fun e (m : GlobalContextMap (Any E)) => Maintenance.apply m e := by
  intro e c m h
  cases e with
  | tick seconds =>
    refine ⟨.tick seconds, ?_, h.sound, h.entries⟩
    show m.now + seconds = c.now + seconds
    rw [h.now]
  | cleanup all =>
    obtain ⟨visited, hshows⟩ := h.cleanup all
    exact ⟨.cleanup visited, hshows⟩

variable {ι : Type*} [DecidableEq ι]

/-- Workers and the hash table that they share. -/
abbrev TablePool (hasher : String → ℕ) (n : ℕ) (F : Type) (ι : Type*) (E : Externals) : Type _ :=
  Config ι (ContextTable hasher n (Any E) F) (StoreOp (Any E)) StoreOp.Reply
    (Except Fault (Reply E))

/-- A worker performs its next operation on the table, or the clock or the cleanup runs. -/
def tableStep : TablePool hasher n F ι E → Turn ι TableMaintenance → TablePool hasher n F ι E :=
  Config.step handleTable fun e c => e.apply c

/-- **What workers do over the hash table they do over the map**: any run of the one pool is matched
by a run of the other with the same turns of the workers, after which they are at the same points of
their handlers. -/
theorem exists_exec_of_table {c : ContextTable hasher n (Any E) F} {m : GlobalContextMap (Any E)}
    (h : Shows c m) (handlers : ι → Handler E) (ts : List (Turn ι TableMaintenance)) :
    ∃ ts', List.Forall₂ Turn.Like ts ts' ∧
      Config.Simulates Shows (exec tableStep ⟨c, handlers⟩ ts)
        (exec statusStep (⟨m, handlers⟩ : StatusPool ι E) ts') := by
  have hstart : Config.Simulates Shows (⟨c, handlers⟩ : TablePool hasher n F ι E)
      (⟨m, handlers⟩ : StatusPool ι E) := ⟨rfl, h⟩
  exact Config.exists_exec_of_simulates hstart agree_shows envAgree_shows ts

/-- What a handler returns over the hash table, uninterrupted, is what it returns over the map. -/
theorem run_of_table {c : ContextTable hasher n (Any E) F} {m : GlobalContextMap (Any E)}
    (h : Shows c m) (p : Handler E) :
    (p.run handleTable c).1 = (p.run handle m).1 ∧
      Shows (p.run handleTable c).2 (p.run handle m).2 :=
  agree_shows.run p h

end Request
