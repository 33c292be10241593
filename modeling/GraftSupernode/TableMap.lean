/-
# The hash table is a map

What a table holds is the map of its entries (`entries`).  Each operation of the table is one event
of this map (`refines`), so a table behaves as a map whose entries expire, whatever the hash
function and the number of buckets are.
-/
import GraftSupernode.TableCleanup
import GraftSupernode.TimedMap
import Mathlib.Algebra.Ring.Int.Defs

open Runs

namespace TSHashtable

variable {κ V F : Type*} [DecidableEq κ] {hasher : κ → ℕ} {n : ℕ} [NeZero n]
variable {t : TSHashtable hasher n V F} {now : ℤ} {key : κ}

/-! ## Operations -/

variable (κ V F) in
/-- An operation of a table, with the time, or the times, at which it reads the clock. -/
inductive Op
  | addOrUpdate (now : ℤ) (key : κ) (value : V) (ttl : ℤ) (onExpired : Option F)
  | valueFor (now : ℤ) (key : κ) (defaultValue : V)
  | hasKey (now : ℤ) (key : κ)
  | apply (now : ℤ) (key : κ) (f : V → Bool × V)
  | remove (key : κ)
  | cleanup (clock : ℕ → ℤ) (all : Bool)

variable (V) in
/-- What an operation returns. -/
inductive Reply
  | none
  | value (v : V)
  | flag (b : Bool)

/-- The table after an operation. -/
def step (t : TSHashtable hasher n V F) : Op κ V F → TSHashtable hasher n V F
  | .addOrUpdate now key value ttl onExpired => t.addOrUpdate now key value ttl onExpired
  | .valueFor now key defaultValue => (t.valueFor now key defaultValue).2
  | .hasKey now key => (t.hasKey now key).2
  | .apply now key f => (t.apply now key f).2
  | .remove key => t.remove key
  | .cleanup clock all => (t.cleanup clock all).table

/-- What it returns. -/
def reply (t : TSHashtable hasher n V F) : Op κ V F → Reply V
  | .addOrUpdate _ _ _ _ _ => .none
  | .valueFor now key defaultValue => .value (t.valueFor now key defaultValue).1
  | .hasKey now key => .flag (t.hasKey now key).1
  | .apply now key f => .flag (t.apply now key f).1
  | .remove _ => .none
  | .cleanup _ _ => .none

/-- The calls of `onExpired` that it makes. -/
def calls (t : TSHashtable hasher n V F) : Op κ V F → List (ExpiredCall (κ × V) F)
  | .cleanup clock all => (t.cleanup clock all).calls
  | _ => []

/-- The buckets that it cleans up. -/
def visited (t : TSHashtable hasher n V F) : Op κ V F → List (Fin n)
  | .cleanup clock all => (t.cleanup clock all).visited
  | _ => []

/-- **Every operation keeps a table sound**. -/
theorem Sound.step (h : t.Sound) (op : Op κ V F) : (t.step op).Sound := by
  cases op with
  | addOrUpdate now key value ttl onExpired => exact h.addOrUpdate now key value ttl onExpired
  | valueFor now key defaultValue => exact h.thins (.findEntryFor t now key)
  | hasKey now key => exact h.thins (.findEntryFor t now key)
  | apply now key f => exact h.thins (.apply t now key f)
  | remove key => exact h.thins (.remove t key)
  | cleanup clock all => exact h.thins (.cleanup t clock all)

/-- A run keeps the table sound. -/
theorem Sound.exec (h : t.Sound) (ops : List (Op κ V F)) :
    (Runs.exec TSHashtable.step t ops).Sound :=
  exec_of_step (fun _ op h => h.step op) h ops

/-! ## The map of a table -/

/-- The entry that a node stands for. -/
def entryOf (node : TSNode (κ × V) F) : TimedMap.Entry V F ℤ :=
  ⟨node.data.2, node.ttl, node.expires, node.onExpired⟩

/-- The entries of the keys. -/
def entries (t : TSHashtable hasher n V F) : TimedMap κ V F ℤ := fun key =>
  (t.nodeOf key).map entryOf

/-- What an operation is for the map. -/
def event (t : TSHashtable hasher n V F) : Op κ V F → TimedMap.Event κ V F ℤ
  | .addOrUpdate now key value ttl onExpired => .put now key value ttl onExpired
  | .valueFor now key _ => .access now key id
  | .hasKey now key => .access now key id
  | .apply now key f => .access now key fun v => (f v).2
  | .remove key => .remove key
  | .cleanup clock all => .sweep fun key =>
      visitTime clock 0 (t.cleanup clock all).visited (getBucket hasher n key)

/-- What it returns in a map. -/
def mapReply (m : TimedMap κ V F ℤ) : Op κ V F → Reply V
  | .addOrUpdate _ _ _ _ _ => .none
  | .valueFor _ key defaultValue => .value ((m key).elim defaultValue (·.val))
  | .hasKey _ key => .flag (m key).isSome
  | .apply _ key f => .flag ((m key).elim false fun e => (f e.val).1)
  | .remove _ => .none
  | .cleanup _ _ => .none

/-- When the node of one key changes, so does its entry, and no other. -/
theorem entries_eq_update {t' : TSHashtable hasher n V F} {o : Option (TSNode (κ × V) F)}
    (h : ∀ k, t'.nodeOf k = if k = key then o else t.nodeOf k) :
    t'.entries = Function.update t.entries key (o.map entryOf) := by
  funext k
  unfold entries
  rw [h]
  by_cases hk : k = key
  · rw [if_pos hk, hk, Function.update_self]
  · rw [if_neg hk, Function.update_of_ne hk]

/-- `find_entry_for` is an access to the entry of the key. -/
theorem entries_findEntryFor (t : TSHashtable hasher n V F) (now : ℤ) (key : κ) :
    (t.findEntryFor now key).2.entries = TimedMap.step t.entries (.access now key id) := by
  rw [entries_eq_update fun _ => nodeOf_findEntryFor, TimedMap.step, entries, Option.map_map,
    Option.map_map]
  rfl

/-- `addOrUpdate` puts the value under the key. -/
theorem entries_addOrUpdate (h : t.Sound) (value : V) (ttl : ℤ) (onExpired : Option F) :
    (t.addOrUpdate now key value ttl onExpired).entries
      = TimedMap.step t.entries (.put now key value ttl onExpired) := by
  rw [entries_eq_update fun _ => nodeOf_addOrUpdate h value ttl onExpired, TimedMap.step]
  congr 1
  unfold nodeAfterSet entries
  cases t.nodeOf key <;> rfl

omit [DecidableEq κ] in
/-- An entry is due when its node has expired. -/
theorem filter_map_entryOf (node : Option (TSNode (κ × V) F)) (time : Option ℤ) :
    (node.filter fun node => !time.any node.expired).map entryOf
      = (node.map entryOf).filter fun e => !time.any e.due := by
  cases node with
  | none => rfl
  | some node =>
    rw [Option.filter_some, Option.map_some, Option.filter_some,
      show (entryOf node).due = node.expired from rfl]
    split <;> rfl

/-- **An operation of a table is an event of its map**: it changes the map as the event does,
returns what it would return, and calls what the event calls. -/
theorem refines (h : t.Sound) (op : Op κ V F) :
    (t.step op).entries = TimedMap.step t.entries (t.event op) ∧
      t.reply op = mapReply t.entries op ∧
      ∀ key, callsFor key (t.calls op) = TimedMap.calls t.entries (t.event op) key := by
  cases op with
  | addOrUpdate now key value ttl onExpired =>
    exact ⟨entries_addOrUpdate h value ttl onExpired, rfl, fun _ => rfl⟩
  | valueFor now key defaultValue =>
    refine ⟨entries_findEntryFor t now key, ?_, fun _ => rfl⟩
    show Reply.value ((t.findEntryFor now key).1.elim defaultValue (·.data.2)) = _
    rw [findEntryFor_fst, mapReply, entries]
    cases t.nodeOf key <;> rfl
  | hasKey now key =>
    refine ⟨entries_findEntryFor t now key, ?_, fun _ => rfl⟩
    show Reply.flag (t.findEntryFor now key).1.isSome = _
    rw [findEntryFor_fst, mapReply, entries, Option.isSome_map, Option.isSome_map]
  | apply now key f =>
    refine ⟨?_, ?_, fun _ => rfl⟩
    · show (t.apply now key f).2.entries = _
      rw [entries_eq_update fun _ => nodeOf_apply f, event, TimedMap.step, entries, Option.map_map,
        Option.map_map]
      rfl
    · show Reply.flag (TSList.findAndApplyFirstOf _ _ _ _).1 = _
      rw [TSList.findAndApplyFirstOf_fst, mapReply, entries, nodeOf]
      cases TSList.lookup _ key <;> rfl
  | remove key =>
    refine ⟨?_, rfl, fun _ => rfl⟩
    show (t.remove key).entries = _
    rw [entries_eq_update fun _ => nodeOf_remove]
    rfl
  | cleanup clock all =>
    refine ⟨?_, rfl, fun key => ?_⟩
    · funext key
      show ((t.cleanup clock all).table.nodeOf key).map entryOf = _
      rw [(cleanup_spec h clock all key).1, filter_map_entryOf]
      rfl
    · -- the callback of a key is called when its bucket is visited after its time
      show callsFor key (t.cleanup clock all).calls = _
      rw [(cleanup_spec h clock all key).2, event, TimedMap.calls, TimedMap.swept, entries]
      cases visitTime clock 0 (t.cleanup clock all).visited (getBucket hasher n key) with
      | none => cases t.nodeOf key <;> rfl
      | some now =>
        cases t.nodeOf key with
        | none => rfl
        | some node =>
          rw [Option.bind_some, Option.bind_some, callOf, Option.map_some, Option.filter_some,
            Option.any_some, show (entryOf node).due now = node.expired now from rfl]
          split <;> rfl

/-! ## Runs -/

/-- The operation finds the entry of the key `now`. -/
def Op.Finds (now : ℤ) (key : κ) : Op κ V F → Prop
  | addOrUpdate time k _ _ _ => time = now ∧ k = key
  | valueFor time k _ => time = now ∧ k = key
  | hasKey time k => time = now ∧ k = key
  | apply time k _ => time = now ∧ k = key
  | remove _ => False
  | cleanup _ _ => False

/-- An operation that finds a key gives it its `ttl` again, from its own time on. -/
theorem Sound.access (h : t.Sound) {op : Op κ V F} {e : TimedMap.Entry V F ℤ}
    (he : t.entries key = some e) (httl : 0 < e.ttl) (hop : op.Finds now key) :
    ∃ e', (t.step op).entries key = some e' ∧ e'.ttl = e.ttl ∧
      e'.expires = some (now + e.ttl) := by
  have hdeadline : TimedMap.deadline now e.ttl = some (now + e.ttl) := if_neg httl.ne'
  rw [(refines h op).1]
  cases op with
  | addOrUpdate time k value ttl onExpired =>
    obtain ⟨rfl, rfl⟩ := hop
    refine ⟨_, Function.update_self _ _ _, ?_⟩
    rw [he]
    exact ⟨rfl, hdeadline⟩
  | valueFor time k defaultValue =>
    obtain ⟨rfl, rfl⟩ := hop
    exact ⟨_, TimedMap.step_access_of_some he _ _, rfl, hdeadline⟩
  | hasKey time k =>
    obtain ⟨rfl, rfl⟩ := hop
    exact ⟨_, TimedMap.step_access_of_some he _ _, rfl, hdeadline⟩
  | apply time k f =>
    obtain ⟨rfl, rfl⟩ := hop
    exact ⟨_, TimedMap.step_access_of_some he _ _, rfl, hdeadline⟩
  | remove k => exact hop.elim
  | cleanup clock all => exact hop.elim

end TSHashtable
