/-
# The lock-free queue

`MPMCBoundedQueue` (`mpmc_bounded_queue.hpp`): a ring of cells, each with a sequence number, and
two positions.  `push` and `pop` claim a position with a compare and swap, then fill or empty the
cell of it, and store the sequence number that lets the next one in.

* `construct`: the queue that its constructor makes;
* `Event`, `next`, `step`: the atomic steps of the calls of any number of threads, in any order.
  A weak compare and swap can fail for no reason;
* `claimed`, `returned`, `refused`: what happens in a step.

A position is a word of 64 bits.  What a move leaves behind in the place it is from is `moved`.
-/
import GraftSupernode.QueueReplay
import GraftSupernode.ResultQueue
import Mathlib.Data.Int.Notation
import Mathlib.Logic.Function.Basic

namespace MPMCBoundedQueue

variable {ι α : Type*}

/-- A `size_t` -/
def word (n : ℕ) : ℕ := n % 2 ^ 64

/-- `(intptr_t)n` -/
def intptr (n : ℕ) : ℤ := if n < 2 ^ 63 then n else n - 2 ^ 64

/-- `(intptr_t)seq - (intptr_t)pos` -/
def dif (seq pos : ℕ) : ℤ := intptr seq - intptr pos

/-- `MPMCBoundedQueue::Cell` -/
structure Cell (α : Type*) where
  sequence : ℕ
  data : α

/-- What a call is for. -/
inductive Op (α : Type*)
  | push (data : α)
  | pop

/-- How far the call of a thread has come: the next step of it, and its local variables. -/
inductive Pc (α : Type*)
  | idle
  /-- `m_enqueue_pos.load` -/
  | pushLoad (data : α)
  /-- `cell->sequence.load`, and the comparison with `pos` -/
  | pushSeq (data : α) (pos : ℕ)
  /-- `m_enqueue_pos.compare_exchange_weak` -/
  | pushSwap (data : α) (pos : ℕ)
  /-- `cell->data = std::forward<U>(data)` -/
  | pushData (data : α) (pos : ℕ)
  /-- `cell->sequence.store` -/
  | pushStore (data : α) (pos : ℕ)
  /-- `m_dequeue_pos.load` -/
  | popLoad
  /-- `cell->sequence.load`, and the comparison with `pos + 1` -/
  | popSeq (pos : ℕ)
  /-- `m_dequeue_pos.compare_exchange_weak` -/
  | popSwap (pos : ℕ)
  /-- `data = std::move(cell->data)` -/
  | popData (pos : ℕ)
  /-- `cell->sequence.store`; `data` is what was popped. -/
  | popStore (data : α) (pos : ℕ)

/-- The queue, and the calls of the threads. -/
structure State (ι α : Type*) where
  buffer : ℕ → Cell α
  bufferMask : ℕ
  enqueuePos : ℕ
  dequeuePos : ℕ
  pc : ι → Pc α

/-- `MPMCBoundedQueue::MPMCBoundedQueue`; the items of a new buffer are `default`. -/
def construct [Inhabited α] (size : ℕ) : Except String (State ι α) :=
  if 2 ≤ size ∧ size &&& (size - 1) = 0 then
    .ok ⟨fun i => ⟨i, default⟩, size - 1, 0, 0, fun _ => .idle⟩
  else .error "buffer size should be a power of 2"

namespace State

variable [DecidableEq ι] (s : State ι α)

/-- `pos & m_buffer_mask` -/
def index (pos : ℕ) : ℕ := pos &&& s.bufferMask

/-- The cell of a position. -/
def cell (pos : ℕ) : Cell α := s.buffer (s.index pos)

/-- A thread goes on to its next step. -/
def goto (i : ι) (pc : Pc α) : State ι α := { s with pc := Function.update s.pc i pc }

/-- Another sequence number in the cell of a position. -/
def setSequence (pos sequence : ℕ) : State ι α :=
  { s with buffer := Function.update s.buffer (s.index pos) ⟨sequence, (s.cell pos).data⟩ }

/-- Another value in the cell of a position. -/
def setData (pos : ℕ) (data : α) : State ι α :=
  { s with buffer := Function.update s.buffer (s.index pos) ⟨(s.cell pos).sequence, data⟩ }

end State

/-- A thread without a call calls `push` or `pop`, or a thread takes the next step of its call;
a `spurious` one fails to swap what it compares. -/
inductive Event (ι α : Type*)
  | call (i : ι) (op : Op α)
  | next (i : ι) (spurious : Bool)

variable [DecidableEq ι] (moved : α → α)

/-- The next step of `push` or `pop`. -/
def next (s : State ι α) (i : ι) (spurious : Bool) : State ι α :=
  match s.pc i with
  | .idle => s
  | .pushLoad data => s.goto i (.pushSeq data s.enqueuePos)
  | .pushSeq data pos =>
    let dif := dif (s.cell pos).sequence pos
    if dif = 0 then s.goto i (.pushSwap data pos)
    else if dif < 0 then s.goto i .idle
    else s.goto i (.pushLoad data)
  | .pushSwap data pos =>
    if s.enqueuePos = pos ∧ spurious = false then
      { s with enqueuePos := word (pos + 1) }.goto i (.pushData data pos)
    else s.goto i (.pushSeq data s.enqueuePos)
  | .pushData data pos => (s.setData pos data).goto i (.pushStore data pos)
  | .pushStore _ pos => (s.setSequence pos (word (pos + 1))).goto i .idle
  | .popLoad => s.goto i (.popSeq s.dequeuePos)
  | .popSeq pos =>
    let dif := dif (s.cell pos).sequence (word (pos + 1))
    if dif = 0 then s.goto i (.popSwap pos)
    else if dif < 0 then s.goto i .idle
    else s.goto i .popLoad
  | .popSwap pos =>
    if s.dequeuePos = pos ∧ spurious = false then
      { s with dequeuePos := word (pos + 1) }.goto i (.popData pos)
    else s.goto i (.popSeq s.dequeuePos)
  | .popData pos =>
    (s.setData pos (moved (s.cell pos).data)).goto i (.popStore (s.cell pos).data pos)
  | .popStore _ pos => (s.setSequence pos (word (pos + s.bufferMask + 1))).goto i .idle

/-- One step of a thread. -/
def step (s : State ι α) : Event ι α → State ι α
  | .call i op =>
    match s.pc i with
    | .idle => s.goto i (match op with | .push data => .pushLoad data | .pop => .popLoad)
    | _ => s
  | .next i spurious => next moved s i spurious

/-! ## What happens in a step -/

open BoundedQueue

/-- The compare and swap succeeds: what is claimed with it. -/
def claimed (s : State ι α) : Event ι α → Option (ι × Done α)
  | .call _ _ => none
  | .next i spurious =>
    match s.pc i with
    | .pushSwap data pos =>
      if s.enqueuePos = pos ∧ spurious = false then some (i, .push data) else none
    | .popSwap pos =>
      if s.dequeuePos = pos ∧ spurious = false then some (i, .pop (s.cell pos).data) else none
    | _ => none

/-- A call returns `true`. -/
def returned (s : State ι α) : Event ι α → Option (ι × Done α)
  | .call _ _ => none
  | .next i _ =>
    match s.pc i with
    | .pushStore data _ => some (i, .push data)
    | .popStore data _ => some (i, .pop data)
    | _ => none

/-- A call returns `false`. -/
def refused (s : State ι α) : Event ι α → Option (ι × Op α)
  | .call _ _ => none
  | .next i _ =>
    match s.pc i with
    | .pushSeq data pos => if dif (s.cell pos).sequence pos < 0 then some (i, .push data) else none
    | .popSeq pos =>
      if dif (s.cell pos).sequence (word (pos + 1)) < 0 then some (i, .pop) else none
    | _ => none

/-- What a thread has claimed and has not returned from. -/
def inFlight (s : State ι α) (i : ι) : List (Done α) :=
  match s.pc i with
  | .pushData data _ => [.push data]
  | .pushStore data _ => [.push data]
  | .popData pos => [.pop (s.cell pos).data]
  | .popStore data _ => [.pop data]
  | _ => []

end MPMCBoundedQueue
