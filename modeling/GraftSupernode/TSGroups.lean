/-
# Groups of keys

`TSHashtable::Group` and the methods of `Context::Global` on groups.  A group holds a weak pointer
to the node of each of its keys.  The pointer is dead when the node has been dropped, also when the
key has been stored again since; dead pointers are removed when they are met.
-/
import GraftSupernode.TableMap

open Runs

namespace TSGroup

variable {κ : Type*} [LinearOrder κ]

/-- `m_map.find` -/
def find (g : TSGroup κ) (key : κ) : Option ℕ := (g.find? (·.1 = key)).map Prod.snd

/-- `m_map.emplace` -/
def emplace (key : κ) (wptr : ℕ) : TSGroup κ → TSGroup κ
  | [] => [(key, wptr)]
  | entry :: rest =>
    if key < entry.1 then (key, wptr) :: entry :: rest
    else if key = entry.1 then entry :: rest
    else entry :: emplace key wptr rest

/-- `m_map.erase` -/
def erase (g : TSGroup κ) (key : κ) : TSGroup κ := g.filter (·.1 ≠ key)

end TSGroup

/-- What `Global::groupSet` writes to a node. -/
def TSNode.assign {κ V F : Type*} (val : V) (ttl : ℤ) (onExpired : Option F)
    (node : TSNode (κ × V) F) : TSNode (κ × V) F :=
  { node.setValue val with ttl := ttl, onExpired := onExpired }

/-- A value that is assigned keeps the key of the node. -/
@[simp] theorem TSNode.key_assign {κ V F : Type*} (val : V) (ttl : ℤ) (onExpired : Option F)
    (node : TSNode (κ × V) F) : (node.assign val ttl onExpired).data.1 = node.data.1 := rfl

/-- A value that is assigned keeps the id of the node. -/
@[simp] theorem TSNode.id_assign {κ V F : Type*} (val : V) (ttl : ℤ) (onExpired : Option F)
    (node : TSNode (κ × V) F) : (node.assign val ttl onExpired).id = node.id := rfl

namespace TSHashtable

variable {κ V F : Type*} [LinearOrder κ] {hasher : κ → ℕ} {n : ℕ} [NeZero n]

/-- `weak_ptr::lock`: the node with the id, while a bucket holds it. -/
def lock (t : TSHashtable hasher n V F) (wptr : ℕ) : Option (TSNode (κ × V) F) :=
  (List.finRange n).findSome? fun i => (t.buckets i).find? (·.id = wptr)

/-- The table with another group, or none, under a name. -/
def setGroup (t : TSHashtable hasher n V F) (gname : String) (g : Option (TSGroup κ)) :
    TSHashtable hasher n V F :=
  { t with groups := Function.update t.groups gname g }

/-! ## `TSHashtable::Group` -/

/-- `Group::get` -/
def groupNode (t : TSHashtable hasher n V F) (g : TSGroup κ) (key : κ) :
    Option (TSNode (κ × V) F) :=
  (g.find key).bind t.lock

/-- `Group::has` -/
def groupHas (t : TSHashtable hasher n V F) (g : TSGroup κ) (key : κ) : Bool :=
  match g.find key with
  | none => false
  | some wptr => (t.lock wptr).isSome

/-- The rest of `Group::add`, when the key has no living node in the group. -/
def groupAddNode (t : TSHashtable hasher n V F) (g : TSGroup κ) (key : κ) : Bool × TSGroup κ :=
  (t.buckets (getBucket hasher n key)).forEachNode
    (fun a ptr => if ptr.data.1 = key then (false, (true, a.2.emplace key ptr.id)) else (true, a))
    (false, g)

/-- `Group::add` -/
def groupAdd (t : TSHashtable hasher n V F) (g : TSGroup κ) (key : κ) : Bool × TSGroup κ :=
  match g.find key with
  | none => t.groupAddNode g key
  | some wptr => if (t.lock wptr).isSome then (false, g) else t.groupAddNode (g.erase key) key

/-- What `Group::forEachUnsafe` leaves: the keys whose pointers are dead, what it has given to the
function, and the table. -/
structure Visited {κ : Type*} (hasher : κ → ℕ) (n : ℕ) (V F : Type*) where
  invalidKeys : List κ
  delivered : List (κ × V)
  table : TSHashtable hasher n V F

/-- `Group::forEachUnsafe`, for a function that may give the value another one, and says whether to
go on. -/
def forEachUnsafe (f : κ → V → Bool × V) :
    TSGroup κ → TSHashtable hasher n V F → Visited hasher n V F
  | [], t => ⟨[], [], t⟩
  | (key, wptr) :: rest, t =>
    match t.lock wptr with
    | none =>
      let visited := forEachUnsafe f rest t
      { visited with invalidKeys := key :: visited.invalidKeys }
    | some ptr =>
      let res := f key ptr.data.2
      let t := t.write ptr.id (.setValue res.2)
      if res.1 then
        let visited := forEachUnsafe f rest t
        { visited with delivered := (key, ptr.data.2) :: visited.delivered }
      else ⟨[], [(key, ptr.data.2)], t⟩

/-! ## `Context::Global` -/

section global

variable (t : TSHashtable hasher n V F) (gname : String) (key : κ)

/-- `Global::createGroup` -/
def createGroup : Bool × TSHashtable hasher n V F :=
  match t.groups gname with
  | none => (true, t.setGroup gname (some []))
  | some _ => (false, t)

/-- `Global::deleteGroup` -/
def deleteGroup : Bool × TSHashtable hasher n V F :=
  ((t.groups gname).isSome, t.setGroup gname none)

/-- `Global::groupAddKey` -/
def groupAddKey : Bool × TSHashtable hasher n V F :=
  match t.groups gname with
  | none => (false, t)
  | some g => ((t.groupAdd g key).1, t.setGroup gname (some (t.groupAdd g key).2))

/-- `Global::groupHasKey` -/
def groupHasKey : Bool :=
  match t.groups gname with
  | none => false
  | some g => t.groupHas g key

/-- `Global::groupRemoveKey` -/
def groupRemoveKey : Bool × TSHashtable hasher n V F :=
  match t.groups gname with
  | none => (false, t)
  | some g => ((g.find key).isSome, t.setGroup gname (some (g.erase key)))

/-- `Global::groupSet` -/
def groupSet (val : V) (ttl : ℤ) (onExpired : Option F) : Bool × TSHashtable hasher n V F :=
  match (t.groups gname).bind (t.groupNode · key) with
  | none => (false, t)
  | some nptr => (true, t.write nptr.id (.assign val ttl onExpired))

/-- `Global::groupGet`; `none` for the exception of `any_cast`. -/
def groupGet {α : Type*} (anyCast : V → Option α) (defval : α) : Option α :=
  match (t.groups gname).bind (t.groupNode · key) with
  | none => some defval
  | some nptr => anyCast nptr.data.2

/-- `Global::get`; the default is put into a `std::any`. -/
def get {α : Type*} (now : ℤ) (anyCast : V → Option α) (any : α → V) (defval : α) :
    Option α × TSHashtable hasher n V F :=
  (anyCast (t.valueFor now key (any defval)).1, (t.valueFor now key (any defval)).2)

/-- `Global::groupForEach`: whether there is the group, what it has given to the function, and the
table. -/
def groupForEach (f : κ → V → Bool × V) : Bool × List (κ × V) × TSHashtable hasher n V F :=
  match t.groups gname with
  | none => (false, [], t)
  | some g =>
    let visited := forEachUnsafe f g t
    let g := visited.invalidKeys.foldl TSGroup.erase g
    (true, visited.delivered, visited.table.setGroup gname (some g))

end global

/-! ## Runs -/

variable (κ V F) in
/-- What happens to a table and its groups.  `groupHasKey` and `groupGet` change nothing. -/
inductive Event
  | op (o : Op κ V F)
  | createGroup (gname : String)
  | deleteGroup (gname : String)
  | groupAddKey (gname : String) (key : κ)
  | groupRemoveKey (gname : String) (key : κ)
  | groupSet (gname : String) (key : κ) (val : V) (ttl : ℤ) (onExpired : Option F)
  | groupForEach (gname : String) (f : κ → V → Bool × V)

/-- One event. -/
def act (t : TSHashtable hasher n V F) : Event κ V F → TSHashtable hasher n V F
  | .op o => t.step o
  | .createGroup gname => (t.createGroup gname).2
  | .deleteGroup gname => (t.deleteGroup gname).2
  | .groupAddKey gname key => (t.groupAddKey gname key).2
  | .groupRemoveKey gname key => (t.groupRemoveKey gname key).2
  | .groupSet gname key val ttl onExpired => (t.groupSet gname key val ttl onExpired).2
  | .groupForEach gname f => (t.groupForEach gname f).2.2

/-- The tables that come about. -/
def Reachable (t : TSHashtable hasher n V F) : Prop := ∃ es, exec act init es = t

end TSHashtable
