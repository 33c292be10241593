/-
# What a bounded queue can do

`Does` is one successful operation on a bounded queue, `Replays` a list of them.  The operations
conserve the items (`Replays.items_eq`): what was in the queue and was pushed is what was popped and
is in the queue, in this order.
-/
import GraftSupernode.BoundedQueue

namespace BoundedQueue

variable {α : Type*}

/-- An operation that succeeds: it pushes a value, or it pops one. -/
inductive Done (α : Type*)
  | push (a : α)
  | pop (a : α)
  deriving DecidableEq

/-- The value of a push. -/
def Done.pushed? : Done α → Option α
  | .push a => some a
  | .pop _ => none

/-- The value of a pop. -/
def Done.popped? : Done α → Option α
  | .push _ => none
  | .pop a => some a

/-- The queue `q` takes the operation and becomes `q'`. -/
def Does (q : BoundedQueue α) : Done α → BoundedQueue α → Prop
  | .push a, q' => q.push a = some q'
  | .pop a, q' => q.pop = some (a, q')

/-- The queue `q` takes the operations one after the other and becomes `q'`. -/
inductive Replays (q : BoundedQueue α) : List (Done α) → BoundedQueue α → Prop
  | nil : Replays q [] q
  | concat {ds : List (Done α)} {d : Done α} {q' q'' : BoundedQueue α}
      (h : Replays q ds q') (hd : Does q' d q'') : Replays q (ds ++ [d]) q''

/-- An operation leaves the size of the queue. -/
theorem Does.size_eq {q q' : BoundedQueue α} {d : Done α} (h : Does q d q') :
    q'.size = q.size := by
  cases d with
  | push a => exact (push_eq_some h).2
  | pop a => exact (pop_eq_some h).2

/-- What is pushed comes last, and what is popped was first. -/
theorem Does.items_eq {q q' : BoundedQueue α} {d : Done α} (h : Does q d q') :
    q.items ++ d.pushed?.toList = d.popped?.toList ++ q'.items := by
  cases d with
  | push a =>
    rw [(push_eq_some h).1]
    rfl
  | pop a =>
    rw [(pop_eq_some h).1]
    exact List.append_nil _

/-- Without an operation the queue stays. -/
theorem Replays.eq_of_nil {q q' : BoundedQueue α} (h : Replays q [] q') : q' = q := by
  generalize hds : ([] : List (Done α)) = ds at h
  cases h with
  | nil => rfl
  | concat h hd => exact absurd hds.symm (by simp)

/-- A list of one operation is this operation. -/
theorem Replays.does {q q' : BoundedQueue α} {d : Done α} (h : Replays q [d] q') :
    Does q d q' := by
  generalize hds : [d] = ds at h
  cases h with
  | nil => cases hds
  | @concat ds d' q₁ _ h hd =>
    obtain ⟨rfl, rfl⟩ : ds = [] ∧ d' = d := by
      have hsplit : ([] : List (Done α)) ++ [d] = ds ++ [d'] := hds
      obtain ⟨hnil, hd'⟩ := List.append_inj' hsplit rfl
      exact ⟨hnil.symm, (List.singleton_inj.mp hd').symm⟩
    rwa [h.eq_of_nil] at hd

/-- Operations leave the size of the queue. -/
theorem Replays.size_eq {q q' : BoundedQueue α} {ds : List (Done α)} (h : Replays q ds q') :
    q'.size = q.size := by
  induction h with
  | nil => rfl
  | concat _ hd ih => rw [hd.size_eq, ih]

/-- More operations may follow. -/
theorem Replays.append {q q' q'' : BoundedQueue α} {ds ds' : List (Done α)} (h : Replays q ds q')
    (h' : Replays q' ds' q'') : Replays q (ds ++ ds') q'' := by
  induction h' with
  | nil => rwa [List.append_nil]
  | concat _ hd ih =>
    rw [← List.append_assoc]
    exact .concat ih hd

/-- **The items are conserved**, in their order. -/
theorem Replays.items_eq {q q' : BoundedQueue α} {ds : List (Done α)} (h : Replays q ds q') :
    q.items ++ ds.filterMap Done.pushed? = ds.filterMap Done.popped? ++ q'.items := by
  induction h with
  | nil => exact List.append_nil _
  | @concat ds d q' q'' h hd ih =>
    have hone (f : Done α → Option α) : [d].filterMap f = (f d).toList := by
      cases hf : f d <;> simp [hf]
    rw [List.filterMap_append, List.filterMap_append, hone, hone, ← List.append_assoc, ih,
      List.append_assoc, hd.items_eq, List.append_assoc]

/-- A push with room left. -/
theorem does_push {q q' : BoundedQueue α} {a : α} (hroom : q.items.length < q.size)
    (hitems : q'.items = q.items ++ [a]) (hsize : q'.size = q.size) : Does q (.push a) q' := by
  obtain ⟨size, items, hle⟩ := q'
  obtain rfl : items = _ := hitems
  obtain rfl : size = _ := hsize
  exact dif_pos hroom

/-- A pop of the first item. -/
theorem does_pop {q q' : BoundedQueue α} {a : α} (hitems : q.items = a :: q'.items)
    (hsize : q'.size = q.size) : Does q (.pop a) q' := by
  obtain ⟨size, items, hle⟩ := q
  obtain ⟨size', items', hle'⟩ := q'
  obtain rfl : items = _ := hitems
  obtain rfl : size' = _ := hsize
  rfl

end BoundedQueue
