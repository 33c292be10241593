/-
# The hash table

`TSList` and `TSHashtable` of `graft_utility.hpp`, and the methods of `Context::Global`
(`context.h`) on groups of keys.  The clock is an argument wherever the code reads it, in seconds;
`F` is the type of the callbacks `onExpired`.

A list is a Lean list of its nodes, without the dummy head; loops over `current` and `next` are
recursions over it.  A shared pointer to a node, or to its data, is the `id` of the node: a new
node gets an id that was never used.  A node lives as long as a bucket holds it, and a weak pointer
is its id.

The operations are whole here; the locks between their steps are dealt with in `InsertRace`.
-/
import Mathlib.Algebra.Group.Fin.Basic
import Mathlib.Algebra.GroupWithZero.Nat
import Mathlib.Data.List.FinRange
import Mathlib.Data.Int.Notation
import Mathlib.Logic.Function.Basic
import Mathlib.Order.Defs.LinearOrder

/-- `TSList::node`; `expires = none` is `seconds::max()`. -/
structure TSNode (T F : Type*) where
  id : ℕ
  data : T
  ttl : ℤ
  expires : Option ℤ
  onExpired : Option F
  deriving DecidableEq

namespace TSNode

variable {T F : Type*}

/-- `node::update_time` -/
def updateTime (now : ℤ) (n : TSNode T F) : TSNode T F :=
  { n with expires := if n.ttl = 0 then none else some (now + n.ttl) }

/-- `node::expired` -/
def expired (nowSec : ℤ) (n : TSNode T F) : Bool := n.expires.any (· ≤ nowSec)

/-- The constructor of a node with a value. -/
def create (id : ℕ) (now : ℤ) (value : T) (ttl : ℤ) (onExpired : Option F) : TSNode T F :=
  updateTime now ⟨id, value, ttl, none, onExpired⟩

/-- Another value in the pair of a node, as in `found_entry->second = value`. -/
def setValue {κ V : Type*} (value : V) (n : TSNode (κ × V) F) : TSNode (κ × V) F :=
  { n with data := (n.data.1, value) }

/-- A value that is set keeps the key of the node. -/
@[simp] theorem key_setValue {κ V : Type*} (value : V) (n : TSNode (κ × V) F) :
    (n.setValue value).data.1 = n.data.1 := rfl

/-- A value that is set keeps the id of the node. -/
@[simp] theorem id_setValue {κ V : Type*} (value : V) (n : TSNode (κ × V) F) :
    (n.setValue value).id = n.id := rfl

/-- An access keeps the id of the node. -/
@[simp] theorem id_updateTime (now : ℤ) (n : TSNode T F) : (n.updateTime now).id = n.id := rfl

/-- An access keeps the key and the value of the node. -/
@[simp] theorem data_updateTime (now : ℤ) (n : TSNode T F) : (n.updateTime now).data = n.data :=
  rfl

/-- A new node has the id that is given. -/
@[simp] theorem id_create (id : ℕ) (now : ℤ) (value : T) (ttl : ℤ) (onExpired : Option F) :
    (create id now value ttl onExpired).id = id := rfl

/-- A new node has the key and the value that are given. -/
@[simp] theorem data_create (id : ℕ) (now : ℤ) (value : T) (ttl : ℤ) (onExpired : Option F) :
    (create id now value ttl onExpired).data = value := rfl

end TSNode

/-- `TSList` -/
abbrev TSList (T F : Type*) := List (TSNode T F)

/-- A call that `safe_cleanup` asks for: of the `onExpired` of a node, with its data. -/
structure ExpiredCall (T F : Type*) where
  onExpired : F
  data : T
  deriving DecidableEq

namespace TSList

variable {T F : Type*}

/-- `TSList::findFirstOf`: the node that is found, and the list with its time updated. -/
def findFirstOf (now : ℤ) (p : T → Bool) : TSList T F → Option (TSNode T F) × TSList T F
  | [] => (none, [])
  | next :: rest =>
    if p next.data then (some (next.updateTime now), next.updateTime now :: rest)
    else ((findFirstOf now p rest).1, next :: (findFirstOf now p rest).2)

/-- `TSList::findAndApplyFirstOf` -/
def findAndApplyFirstOf (now : ℤ) (p : T → Bool) (f : T → Bool × T) :
    TSList T F → Bool × TSList T F
  | [] => (false, [])
  | next :: rest =>
    if p next.data then
      ((f next.data).1, { next.updateTime now with data := (f next.data).2 } :: rest)
    else ((findAndApplyFirstOf now p f rest).1, next :: (findAndApplyFirstOf now p f rest).2)

/-- `TSList::removeIf` -/
def removeIf (p : T → Bool) : TSList T F → TSList T F
  | [] => []
  | next :: rest => if p next.data then removeIf p rest else next :: removeIf p rest

/-- `TSList::safe_cleanup`: the calls in the order of the nodes, and the list. -/
def safeCleanup (nowSec : ℤ) : TSList T F → List (ExpiredCall T F) × TSList T F
  | [] => ([], [])
  | next :: rest =>
    let cleaned := safeCleanup nowSec rest
    if next.expired nowSec then
      match next.onExpired with
      | some onExpired => (⟨onExpired, next.data⟩ :: cleaned.1, cleaned.2)
      | none => cleaned
    else (cleaned.1, next :: cleaned.2)

/-- `TSList::forEachNode`, for a function that collects: it goes on as long as it says so. -/
def forEachNode {α : Type*} (f : α → TSNode T F → Bool × α) : TSList T F → α → α
  | [], a => a
  | next :: rest, a =>
    match f a next with
    | (true, a) => forEachNode f rest a
    | (false, a) => a

/-- What is written to a node through a pointer. -/
def write (id : ℕ) (f : TSNode T F → TSNode T F) (l : TSList T F) : TSList T F :=
  l.map fun n => if n.id = id then f n else n

end TSList

/-- `TSHashtable::Group`: the keys in their order, each with its weak pointer. -/
abbrev TSGroup (κ : Type*) := List (κ × ℕ)

/-- `TSHashtable`, for a hash function and a number of buckets. -/
structure TSHashtable {κ : Type*} (hasher : κ → ℕ) (numBuckets : ℕ) (V F : Type*) where
  buckets : Fin numBuckets → TSList (κ × V) F
  bit : Fin numBuckets
  groups : String → Option (TSGroup κ)
  nextId : ℕ

namespace TSHashtable

variable {κ V F : Type*} {hasher : κ → ℕ} {n : ℕ} [NeZero n]

/-- `TSHashtable::TSHashtable` -/
def init : TSHashtable hasher n V F := ⟨fun _ => [], 0, fun _ => none, 0⟩

/-- `TSHashtable::getBucket`: the index of the bucket. -/
def getBucket (hasher : κ → ℕ) (n : ℕ) [NeZero n] (key : κ) : Fin n :=
  Fin.ofNat n (hasher key)

/-- The table with another list in a bucket. -/
def setBucket (t : TSHashtable hasher n V F) (i : Fin n) (l : TSList (κ × V) F) :
    TSHashtable hasher n V F :=
  { t with buckets := Function.update t.buckets i l }

omit [NeZero n] in
/-- A new bucket is in its place, and the others stay. -/
theorem buckets_setBucket (t : TSHashtable hasher n V F) (i j : Fin n) (l : TSList (κ × V) F) :
    (t.setBucket i l).buckets j = if j = i then l else t.buckets j := by
  unfold setBucket
  by_cases h : j = i
  · rw [if_pos h, h]
    exact Function.update_self _ _ _
  · rw [if_neg h]
    exact Function.update_of_ne h _ _

/-- What is written to a node through a pointer. -/
def write (t : TSHashtable hasher n V F) (id : ℕ) (f : TSNode (κ × V) F → TSNode (κ × V) F) :
    TSHashtable hasher n V F :=
  { t with buckets := fun i => (t.buckets i).write id f }

section keys

variable [DecidableEq κ] (t : TSHashtable hasher n V F) (now : ℤ) (key : κ)

/-- `BucketType::findEntryFor` -/
def findEntryFor : Option (TSNode (κ × V) F) × TSHashtable hasher n V F :=
  let i := getBucket hasher n key
  let found := (t.buckets i).findFirstOf now fun item => item.1 = key
  (found.1, t.setBucket i found.2)

/-- `TSHashtable::valueFor` -/
def valueFor (defaultValue : V) : V × TSHashtable hasher n V F :=
  let found := t.findEntryFor now key
  (found.1.elim defaultValue (·.data.2), found.2)

/-- `TSHashtable::hasKey` -/
def hasKey : Bool × TSHashtable hasher n V F :=
  let found := t.findEntryFor now key
  (found.1.isSome, found.2)

/-- `TSList::pushFront` in the bucket of the key. -/
def pushFront (value : V) (ttl : ℤ) (onExpired : Option F) : TSHashtable hasher n V F :=
  let i := getBucket hasher n key
  { t.setBucket i (.create t.nextId now (key, value) ttl onExpired :: t.buckets i) with
    nextId := t.nextId + 1 }

/-- `TSHashtable::addOrUpdate` -/
def addOrUpdate (value : V) (ttl : ℤ) (onExpired : Option F) : TSHashtable hasher n V F :=
  let found := t.findEntryFor now key
  match found.1 with
  | none => found.2.pushFront now key value ttl onExpired
  | some node => found.2.write node.id (.setValue value)

/-- `TSHashtable::remove` -/
def remove : TSHashtable hasher n V F :=
  let i := getBucket hasher n key
  t.setBucket i ((t.buckets i).removeIf fun item => item.1 = key)

/-- `TSHashtable::apply` -/
def apply (f : V → Bool × V) : Bool × TSHashtable hasher n V F :=
  let i := getBucket hasher n key
  let applied := (t.buckets i).findAndApplyFirstOf now (fun item => item.1 = key)
    fun item => ((f item.2).1, (item.1, (f item.2).2))
  (applied.1, t.setBucket i applied.2)

end keys

/-! ## Cleanup -/

/-- The bucket after one, and the first after the last. -/
def nextBucket (i : Fin n) : Fin n := if h : i.val + 1 < n then ⟨i.val + 1, h⟩ else 0

/-- The table with another cursor. -/
def setBit (t : TSHashtable hasher n V F) (bit : Fin n) : TSHashtable hasher n V F :=
  { t with bit := bit }

/-- `TSHashtable::getNextBucket` -/
def getNextBucket (t : TSHashtable hasher n V F) : Fin n × TSHashtable hasher n V F :=
  (t.bit, t.setBit (nextBucket t.bit))

/-- `TSHashtable::cleanup` of one bucket, with the calls it makes. -/
def cleanupBucket (t : TSHashtable hasher n V F) (nowSec : ℤ) (i : Fin n) :
    List (ExpiredCall (κ × V) F) × TSHashtable hasher n V F :=
  let cleaned := (t.buckets i).safeCleanup nowSec
  (cleaned.1, t.setBucket i cleaned.2)

/-- What a cleanup does: the buckets it visits and the calls it makes, in order. -/
structure Cleanup {κ : Type*} (hasher : κ → ℕ) (n : ℕ) (V F : Type*) where
  visited : List (Fin n)
  calls : List (ExpiredCall (κ × V) F)
  table : TSHashtable hasher n V F

/-- The bucket after the last one is the first one. -/
theorem nextBucket_eq (i : Fin n) : nextBucket i = i + 1 := by
  ext
  unfold nextBucket
  rw [Fin.val_add, Fin.coe_ofNat_eq_mod, Nat.add_mod_mod]
  split
  · rename_i h
    rw [Nat.mod_eq_of_lt h]
  · rename_i h
    have hi : i.val + 1 = n := by omega
    rw [hi, Nat.mod_self]
    rfl

omit [NeZero n] in
/-- A cleanup of a bucket leaves the place of the next partial cleanup. -/
@[simp] theorem bit_cleanupBucket (t : TSHashtable hasher n V F) (nowSec : ℤ) (i : Fin n) :
    (t.cleanupBucket nowSec i).2.bit = t.bit := rfl

/-- The loop of `cleanup`: it is at the bucket `i` in its pass `k`, and has begun with `b`.  The
clock is read in each pass. -/
def cleanupLoop (clock : ℕ → ℤ) (all : Bool) (b : Fin n) (k : ℕ) (i : Fin n)
    (t : TSHashtable hasher n V F) : Cleanup hasher n V F :=
  let cleaned := t.cleanupBucket (clock k) i
  if all then
    let next := cleaned.2.getNextBucket
    if next.1 = b then ⟨[i], cleaned.1, next.2⟩
    else
      let rest := cleanupLoop clock all b (k + 1) next.1 next.2
      ⟨i :: rest.visited, cleaned.1 ++ rest.calls, rest.table⟩
  else ⟨[i], cleaned.1, cleaned.2⟩
-- the cursor comes one bucket closer to `b`, where the loop ends
termination_by (b - t.bit).val
decreasing_by
  rename_i hne
  replace hne : b - t.bit ≠ 0 := fun h => hne (sub_eq_zero.mp h).symm
  show (b - nextBucket t.bit).val < (b - t.bit).val
  rw [nextBucket_eq, sub_add_eq_sub_sub, Fin.val_sub_one_of_ne_zero hne]
  have hpos := Nat.pos_of_ne_zero (Fin.val_ne_zero_iff.mpr hne)
  omega

/-- `TSHashtable::cleanup` -/
def cleanup (t : TSHashtable hasher n V F) (clock : ℕ → ℤ) (all : Bool) : Cleanup hasher n V F :=
  let first := t.getNextBucket
  cleanupLoop clock all first.1 0 first.1 first.2

end TSHashtable
