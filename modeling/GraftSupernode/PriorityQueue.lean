/-
# Priority queues

A priority queue over a linear order, as the list of its items from the largest to the
smallest: the order in which `top` and `pop` yield them.
-/
import Mathlib.Data.List.Sort

/-- A priority queue that yields its largest item first. -/
structure PriorityQueue (α : Type*) [LinearOrder α] where
  items : List α
  sorted : items.Pairwise (· ≥ ·)

namespace PriorityQueue

variable {α : Type*} [LinearOrder α]

instance : Membership α (PriorityQueue α) := ⟨fun q a => a ∈ q.items⟩

/-- The queue without items. -/
def empty : PriorityQueue α := ⟨[], .nil⟩

/-- The largest item. -/
def top (q : PriorityQueue α) : Option α := q.items.head?

/-- The queue without its largest item. -/
def pop (q : PriorityQueue α) : PriorityQueue α := ⟨q.items.tail, q.sorted.tail⟩

/-- The queue with another item. -/
def push (q : PriorityQueue α) (a : α) : PriorityQueue α :=
  ⟨q.items.orderedInsert (· ≥ ·) a, q.sorted.orderedInsert a q.items⟩

/-- What is in a queue is among its items. -/
theorem mem_def {q : PriorityQueue α} {a : α} : a ∈ q ↔ a ∈ q.items := Iff.rfl

/-- Nothing is in an empty queue. -/
@[simp] theorem not_mem_empty (a : α) : a ∉ (empty : PriorityQueue α) := List.not_mem_nil

/-- What is pushed is in the queue, with what was there. -/
@[simp] theorem mem_push {q : PriorityQueue α} {a b : α} : a ∈ q.push b ↔ a = b ∨ a ∈ q :=
  List.mem_orderedInsert (· ≥ ·)

/-- What is in the queue after `pop` was there before. -/
theorem mem_of_mem_pop {q : PriorityQueue α} {a : α} (h : a ∈ q.pop) : a ∈ q :=
  List.mem_of_mem_tail h

/-- The queue is its top followed by the rest. -/
theorem items_eq_of_top {q : PriorityQueue α} {a : α} (h : q.top = some a) :
    q.items = a :: q.pop.items := by
  obtain ⟨l, hl⟩ := List.head?_eq_some_iff.mp h
  have hpop : q.pop.items = l := congrArg List.tail hl
  rw [hpop, hl]

/-- The top is in the queue. -/
theorem mem_of_top {q : PriorityQueue α} {a : α} (h : q.top = some a) : a ∈ q := by
  rw [mem_def, items_eq_of_top h]
  exact List.mem_cons_self

/-- An item is the top or is left after it. -/
theorem eq_top_or_mem_pop {q : PriorityQueue α} {a b : α} (h : q.top = some a) (hb : b ∈ q) :
    b = a ∨ b ∈ q.pop := by
  rw [mem_def, items_eq_of_top h] at hb
  exact List.mem_cons.mp hb

/-- **The top is the largest item**. -/
theorem le_top {q : PriorityQueue α} {a b : α} (h : q.top = some a) (hb : b ∈ q) : b ≤ a := by
  rcases eq_top_or_mem_pop h hb with rfl | hb
  · exact le_rfl
  · have hsorted := q.sorted
    rw [items_eq_of_top h, List.pairwise_cons] at hsorted
    exact hsorted.1 b hb

/-- A queue without a top is empty. -/
theorem not_mem_of_top_eq_none {q : PriorityQueue α} (h : q.top = none) (a : α) : a ∉ q := by
  rw [mem_def, List.head?_eq_none_iff.mp h]
  exact List.not_mem_nil

end PriorityQueue
