/-
# Bounded queues

A FIFO queue that has room for `size` items.  `push` fails when it is full, `pop` when it is
empty.
-/
import Mathlib.Data.List.Basic

/-- A queue with room for `size` items, first in first. -/
structure BoundedQueue (α : Type*) where
  size : ℕ
  items : List α
  length_le : items.length ≤ size

namespace BoundedQueue

variable {α : Type*}

/-- The queue without items. -/
def empty (size : ℕ) : BoundedQueue α := ⟨size, [], Nat.zero_le size⟩

/-- There is no room left. -/
def Full (q : BoundedQueue α) : Prop := q.items.length = q.size

instance (q : BoundedQueue α) : Decidable q.Full :=
  inferInstanceAs (Decidable (q.items.length = q.size))

/-- The queue with another item; `none` when it is full. -/
def push (q : BoundedQueue α) (a : α) : Option (BoundedQueue α) :=
  if h : q.items.length < q.size then
    some ⟨q.size, q.items ++ [a], by rw [List.length_append]; exact h⟩
  else none

/-- The first item and the others; `none` when there is none. -/
def pop (q : BoundedQueue α) : Option (α × BoundedQueue α) :=
  match h : q.items with
  | [] => none
  | a :: l => some (a, ⟨q.size, l, by
      have := q.length_le
      rw [h, List.length_cons] at this
      omega⟩)

/-- A new queue has no items. -/
@[simp] theorem items_empty (size : ℕ) : (empty size : BoundedQueue α).items = [] := rfl

/-- A new queue has the size it is given. -/
@[simp] theorem size_empty (size : ℕ) : (empty size : BoundedQueue α).size = size := rfl

/-- An item that is taken comes last. -/
theorem push_eq_some {q q' : BoundedQueue α} {a : α} (h : q.push a = some q') :
    q'.items = q.items ++ [a] ∧ q'.size = q.size := by
  unfold push at h
  split at h
  · cases h
    exact ⟨rfl, rfl⟩
  · cases h

/-- **A push fails** exactly when the queue is full. -/
theorem push_eq_none {q : BoundedQueue α} {a : α} : q.push a = none ↔ q.Full := by
  have := q.length_le
  unfold push Full
  split
  · simp only [reduceCtorEq, false_iff]
    omega
  · simp only [true_iff]
    omega

/-- What is popped was the first item. -/
theorem pop_eq_some {q q' : BoundedQueue α} {a : α} (h : q.pop = some (a, q')) :
    q.items = a :: q'.items ∧ q'.size = q.size := by
  unfold pop at h
  split at h
  · cases h
  · rename_i hitems
    cases h
    exact ⟨hitems, rfl⟩

/-- A pop fails on an empty queue only. -/
theorem pop_eq_none {q : BoundedQueue α} : q.pop = none ↔ q.items = [] := by
  unfold pop
  split <;> simp [*]

end BoundedQueue
