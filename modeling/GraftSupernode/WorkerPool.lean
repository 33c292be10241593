/-
# The workers of the thread pool

Each slot of the pool has a queue and a worker, a thread in `WorkerT::threadFunc` that takes jobs
from its queue, or from the queue of the next slot.  The thread that owns the pool calls
`expelWorkers` now and then: a worker that has been in one job for too long loses its slot to a new
one, and leaves when it is done.  `~ThreadPoolImpl` stops the workers one after the other and waits
for all.

A step is one atomic operation of one thread, but for two kinds.  An operation on a queue is one
step: what a queue does in a run of overlapping calls is what it does when they come one after the
other, but a call may also be refused because of another that has not finished.  `State.expel` is
one step for all that `expelWorkers` does to a slot once `m_running_flag` is cleared: it detaches the
thread, puts a new worker in its place, counts and starts it.  No other thread reads any of this, so
what one does meanwhile it can as well do afterwards.

* `posted`, `took`, `finished`: what happens to a job in a step.
-/
import GraftSupernode.BoundedQueue
import Mathlib.Logic.Function.Basic
import Mathlib.Algebra.GroupWithZero.Nat
import Mathlib.Data.Finset.Card
import Mathlib.Data.Finset.Range

open Function

namespace WorkerPool

variable {τ : Type*}

/-- Where a thread is in `WorkerT::threadFunc`: before it reads `m_running_flag`; before it pops
from its queue, or from the other one; with a job in `handler`, before it sets `m_timePoint`; in
`handler()`; before it sets `m_timePoint` back; before `--activeCount`; past it, with nothing left
but to return. -/
inductive Pc (τ : Type*)
  | check
  | pop
  | steal
  | arm (job : τ)
  | run (job : τ)
  | disarm
  | leave
  | left

/-- The job in `handler` that is not done. -/
def Pc.job? : Pc τ → Option τ
  | .arm job => some job
  | .run job => some job
  | _ => none

/-- The thread has counted itself out. -/
def Pc.isLeft : Pc τ → Bool
  | .left => true
  | _ => false

/-- `WorkerT`, with the slot it was started for; no `timePoint` is `maxTimePoint()`. -/
structure Worker (τ : Type*) where
  id : ℕ
  runningFlag : Bool
  timePoint : Option ℕ
  pc : Pc τ

/-- `std::make_shared<Worker>()`, started for the slot `i`. -/
def Worker.new (i : ℕ) : Worker τ := ⟨i, true, none, .check⟩

/-- Where the thread that owns the pool is: in none of the pool's functions; in `expelWorkers`,
before it reads `m_timePoint` of the worker in a slot, or before it expels it; in the destructor,
before it stops the worker in a slot, before it has joined it, or in the loop that waits for the
others; past the destructor. -/
inductive Owner
  | idle
  | scan (now i : ℕ)
  | mark (now i : ℕ)
  | stop (i : ℕ)
  | join (i : ℕ)
  | drain
  | destroyed
  deriving DecidableEq

/-- The owner is in the destructor, or past it. -/
def Owner.stopping : Owner → Bool
  | .stop _ => true
  | .join _ => true
  | .drain => true
  | .destroyed => true
  | _ => false

/-- `ThreadPoolImpl`: `workers` has the number of the worker in each slot, `threads` all the workers
that have been started; and the clock. -/
structure State (τ : Type*) where
  size : ℕ
  defaultPeriodMs : ℕ
  queues : ℕ → BoundedQueue τ
  workers : ℕ → ℕ
  threads : ℕ → Worker τ
  started : ℕ
  nextWorker : ℕ
  activeCount : ℕ
  expelledCount : ℕ
  now : ℕ
  owner : Owner

/-- How many threads have not counted themselves out. -/
def State.alive (s : State τ) : ℕ :=
  ((Finset.range s.started).filter fun w => (s.threads w).pc.isLeft = false).card

/-- `ThreadPoolImpl::ThreadPoolImpl` -/
def init (threadCount queueSize expellingIntervalMs now : ℕ) : State τ where
  size := threadCount
  defaultPeriodMs := expellingIntervalMs
  queues _ := .empty queueSize
  workers i := i
  threads := Worker.new
  started := threadCount
  nextWorker := 0
  activeCount := threadCount
  expelledCount := 0
  now := now
  owner := .idle

/-- What happens: time passes; a thread that is in a job, or the owner of the pool, posts a job; a
thread does its next step, which ends a job when it is in one; the owner calls `expelWorkers`, or
the destructor, or does its next step.  A queue may refuse a call because of another one. -/
inductive Event (τ : Type*)
  | tick (d : ℕ)
  | tryPost (caller : Option ℕ) (job : τ) (refuse : Bool)
  | turn (w : ℕ) (refuse : Bool)
  | expelWorkers
  | destroy
  | owner

namespace State

def setThread (s : State τ) (w : ℕ) (t : Worker τ) : State τ :=
  { s with threads := update s.threads w t }

/-- The thread `w` goes on at `pc`. -/
def goto (s : State τ) (w : ℕ) (pc : Pc τ) : State τ :=
  s.setThread w { s.threads w with pc := pc }

def setQueue (s : State τ) (k : ℕ) (q : BoundedQueue τ) : State τ :=
  { s with queues := update s.queues k q }

/-- `queue.pop(handler)` -/
def popFrom (s : State τ) (k : ℕ) (refuse : Bool) : Option (τ × BoundedQueue τ) :=
  if refuse then none else (s.queues k).pop

/-- The queue of the next slot: `steal_queue`. -/
def stealQueue (s : State τ) (w : ℕ) : ℕ := ((s.threads w).id + 1) % s.size

/-- One step of `WorkerT::threadFunc`. -/
def turn (s : State τ) (w : ℕ) (refuse : Bool) : State τ :=
  match (s.threads w).pc with
  | .check => s.goto w (if (s.threads w).runningFlag then .pop else .leave)
  | .pop =>
    match s.popFrom (s.threads w).id refuse with
    | some (job, q) => (s.setQueue (s.threads w).id q).goto w (.arm job)
    | none => s.goto w .steal
  | .steal =>
    match s.popFrom (s.stealQueue w) refuse with
    | some (job, q) => (s.setQueue (s.stealQueue w) q).goto w (.arm job)
    | none => s.goto w .check
  | .arm job =>
    s.setThread w
      { s.threads w with timePoint := some (s.now + s.defaultPeriodMs), pc := .run job }
  | .run _ => s.goto w .disarm
  | .disarm => s.setThread w { s.threads w with timePoint := none, pc := .check }
  | .leave => { s.goto w .left with activeCount := s.activeCount - 1 }
  | .left => s

/-- `m_running_flag = false` -/
def clearFlag (s : State τ) (w : ℕ) : State τ :=
  s.setThread w { s.threads w with runningFlag := false }

/-- The slot gets a new worker, which is started. -/
def expel (s : State τ) (i : ℕ) : State τ :=
  let s' := s.clearFlag (s.workers i)
  { s' with
    workers := update s.workers i s.started
    threads := update s'.threads s.started (.new i)
    started := s.started + 1
    activeCount := s.activeCount + 1
    expelledCount := s.expelledCount + 1 }

/-- One step of the owner in `ThreadPoolImpl::expelWorkers` or `~ThreadPoolImpl`. -/
def ownerStep (s : State τ) : State τ :=
  match s.owner with
  | .idle => s
  | .scan now i =>
    if i < s.size then
      match (s.threads (s.workers i)).timePoint with
      | some t => { s with owner := if now < t then .scan now (i + 1) else .mark now i }
      | none => { s with owner := .scan now (i + 1) }
    else { s with owner := .idle }
  | .mark now i => { s.expel i with owner := .scan now (i + 1) }
  | .stop i =>
    if i < s.size then { s.clearFlag (s.workers i) with owner := .join i }
    else { s with owner := .drain }
  | .join i =>
    if (s.threads (s.workers i)).pc.isLeft then { s with owner := .stop (i + 1) } else s
  | .drain => if s.activeCount = 0 then { s with owner := .destroyed } else s
  | .destroyed => s

/-- Whether the caller can post: the owner of the pool when it is in none of its functions, a worker
when it is in a job. -/
def canPost (s : State τ) : Option ℕ → Bool
  | none => s.owner == .idle
  | some w =>
    match (s.threads w).pc with
    | .run _ => decide (w < s.started)
    | _ => false

/-- `getWorkerIdForCurrentThread()`; a thread that is no worker has `-1u`. -/
def workerId (s : State τ) : Option ℕ → ℕ
  | none => 2 ^ 32 - 1
  | some w => (s.threads w).id

/-- `ThreadPoolImpl::getWorkerIdx` -/
def getWorkerIdx (s : State τ) (caller : Option ℕ) : ℕ :=
  if s.size < s.workerId caller then s.nextWorker % s.size else s.workerId caller

/-- `getWorkerIdx` takes the next worker in turn when the caller is none. -/
def countPost (s : State τ) (caller : Option ℕ) : State τ :=
  if s.size < s.workerId caller then { s with nextWorker := (s.nextWorker + 1) % 2 ^ 64 } else s

/-- `queue.push(handler)` -/
def pushTo (s : State τ) (k : ℕ) (job : τ) (refuse : Bool) : Option (BoundedQueue τ) :=
  if refuse then none else (s.queues k).push job

/-- `ThreadPoolImpl::tryPost` -/
def tryPost (s : State τ) (caller : Option ℕ) (job : τ) (refuse : Bool) : State τ :=
  match s.pushTo (s.getWorkerIdx caller) job refuse with
  | some q => (s.countPost caller).setQueue (s.getWorkerIdx caller) q
  | none => s.countPost caller

end State

open State

/-- One step. -/
def step (s : State τ) : Event τ → State τ
  | .tick d => { s with now := s.now + d }
  | .tryPost caller job refuse => if s.canPost caller then s.tryPost caller job refuse else s
  | .turn w refuse => if w < s.started then s.turn w refuse else s
  | .expelWorkers => if s.owner = .idle then { s with owner := .scan s.now 0 } else s
  | .destroy => if s.owner = .idle then { s with owner := .stop 0 } else s
  | .owner => s.ownerStep

/-! ## What happens to a job -/

/-- The queue and the job of a `tryPost` that says `true`. -/
def posted (s : State τ) : Event τ → Option (ℕ × τ)
  | .tryPost caller job refuse =>
    if s.canPost caller then
      (s.pushTo (s.getWorkerIdx caller) job refuse).map fun _ => (s.getWorkerIdx caller, job)
    else none
  | _ => none

/-- The worker, the queue and the job of a `pop` that says `true`. -/
def took (s : State τ) : Event τ → Option (ℕ × ℕ × τ)
  | .turn w refuse =>
    if w < s.started then
      match (s.threads w).pc with
      | .pop => (s.popFrom (s.threads w).id refuse).map fun p => (w, (s.threads w).id, p.1)
      | .steal => (s.popFrom (s.stealQueue w) refuse).map fun p => (w, s.stealQueue w, p.1)
      | _ => none
    else none
  | _ => none

/-- The worker and the job of a `handler()` that returns. -/
def finished (s : State τ) : Event τ → Option (ℕ × τ)
  | .turn w _ =>
    if w < s.started then
      match (s.threads w).pc with
      | .run job => some (w, job)
      | _ => none
    else none
  | _ => none

/-- The job that the worker `w` has and that is not done. -/
def State.held (s : State τ) (w : ℕ) : Option τ :=
  if w < s.started then (s.threads w).pc.job? else none

/-- The job posted to the queue `k`. -/
def postedTo (k : ℕ) (s : State τ) (e : Event τ) : Option τ :=
  ((posted s e).filter (·.1 = k)).map (·.2)

/-- The job taken from the queue `k`. -/
def takenFrom (k : ℕ) (s : State τ) (e : Event τ) : Option τ :=
  ((took s e).filter (·.2.1 = k)).map (·.2.2)

/-- The job taken by the worker `w`. -/
def takenBy (w : ℕ) (s : State τ) (e : Event τ) : Option τ :=
  ((took s e).filter (·.1 = w)).map (·.2.2)

/-- The job done by the worker `w`. -/
def finishedBy (w : ℕ) (s : State τ) (e : Event τ) : Option τ :=
  ((finished s e).filter (·.1 = w)).map (·.2)

end WorkerPool
