/-
# Strands

`StrandImpl` (`strand.hpp`): handlers that run one after the other in a thread pool.  `post` pushes
the handler to the queue of the strand and posts a job to the pool; the job is `invokeCall`.  A call
of it that finds the counter at zero runs handlers until it has brought it back to zero; any other
call only counts.

* `State`: the strand, its pool, and how far the calls of `post` and of `invokeCall` have come;
* `Event`, `step`: the atomic steps, in any order, on any number of threads.

A handler goes by the number of the call of `post` that it is passed to.  These calls have their
numbers in the order of their pushes.
-/
import GraftSupernode.Runs
import GraftSupernode.ThreadPool

namespace ThreadPool

variable {τ : Type*}

/-- `ThreadPoolImpl::tryPost`: a worker posts to its own queue. -/
def tryPostFrom (p : ThreadPool τ) (worker : Option ℕ) (job : τ) : Bool × ThreadPool τ :=
  match worker with
  | none => p.tryPost job
  | some id =>
    match p.queues[id]?.bind fun q => q.push job with
    | some q => (true, { p with queues := p.queues.set id q })
    | none => (false, p)

/-- The loop of `ThreadPoolImpl::post`. -/
def postFromLoop (worker : Option ℕ) (job : τ) : ℕ → ThreadPool τ → Bool × ThreadPool τ
  | 0, p => (false, p)
  | tries + 1, p =>
    match p.tryPostFrom worker job with
    | (true, p) => (true, p)
    | (false, p) => postFromLoop worker job tries p

/-- `ThreadPoolImpl::post` of a thread; `false` is the exception "thread pool queue is full". -/
def postFrom (p : ThreadPool τ) (worker : Option ℕ) (job : τ) (toAnyQueue : Bool) :
    Bool × ThreadPool τ :=
  postFromLoop worker job (if toAnyQueue then p.queues.length else 1) p

/-- A job that is posted waits in the pool; one that is refused leaves the queues as they are. -/
theorem tryPostFrom_spec (p : ThreadPool τ) (worker : Option ℕ) (job : τ) :
    (p.tryPostFrom worker job).2.jobs.Perm
      (if (p.tryPostFrom worker job).1 then job :: p.jobs else p.jobs) := by
  cases worker with
  | none =>
    rw [tryPostFrom]
    cases htry : p.tryPost job with
    | mk ok p' =>
      cases ok with
      | true => exact (tryPost_spec htry).1
      | false =>
        obtain ⟨rfl, -⟩ := tryPost_fail htry
        exact .refl _
  | some id =>
    rw [tryPostFrom]
    split
    · rename_i q' hpush
      obtain ⟨q, hq, hpush⟩ := Option.bind_eq_some_iff.mp hpush
      obtain ⟨before, after, hjobs, hset⟩ := exists_split hq
      obtain ⟨hitems, -⟩ := BoundedQueue.push_eq_some hpush
      rw [if_pos rfl, (hset q' _).1, hjobs, hitems, List.append_assoc, ← List.append_assoc before,
        ← List.append_assoc before]
      exact List.perm_middle
    · exact .refl _

theorem postFromLoop_spec (worker : Option ℕ) (job : τ) (tries : ℕ) (p : ThreadPool τ) :
    (postFromLoop worker job tries p).2.jobs.Perm
      (if (postFromLoop worker job tries p).1 then job :: p.jobs else p.jobs) := by
  induction tries generalizing p with
  | zero => exact .refl _
  | succ tries ih =>
    have hone := p.tryPostFrom_spec worker job
    rw [postFromLoop]
    split
    · rename_i p' htry
      rwa [htry] at hone
    · rename_i p' htry
      rw [htry] at hone
      refine (ih p').trans ?_
      split
      · exact hone.cons job
      · exact hone

theorem postFrom_spec (p : ThreadPool τ) (worker : Option ℕ) (job : τ) (toAnyQueue : Bool) :
    (p.postFrom worker job toAnyQueue).2.jobs.Perm
      (if (p.postFrom worker job toAnyQueue).1 then job :: p.jobs else p.jobs) :=
  postFromLoop_spec worker job _ p

end ThreadPool

namespace Strand

/-- A size that the constructor of `MPMCBoundedQueue` takes: a power of two. -/
structure QueueSize where
  size : ℕ
  valid : 2 ≤ size ∧ size &&& (size - 1) = 0
  bounded : size < 2 ^ 64

/-- The counter of the strand can hold one more than there is room for. -/
theorem QueueSize.succ_lt (q : QueueSize) : q.size + 1 < 2 ^ 64 := by
  have hne : q.size ≠ 2 ^ 64 - 1 := by
    intro h
    have hvalid := q.valid.2
    rw [h] at hvalid
    exact absurd hvalid (by decide)
  have := q.bounded
  omega

/-- A job of the pool: `invokeCall` of the strand, or something else. -/
inductive Job
  | invokeCall
  | other
  deriving DecidableEq

/-- How a call of `post` ends. -/
inductive Outcome
  | pending
  | returned
  | threw
  deriving DecidableEq

/-- A call of `post` after its push: whether there was room for the handler, how it has ended. -/
structure Post where
  queued : Bool
  outcome : Outcome
  deriving DecidableEq

/-- A call of `invokeCall`: it is before `fetch_add`, before `pop`, before `fetch_sub`, or over.
The variable `handler` holds the handler of the last `pop` that did not fail. -/
inductive Call
  | entered
  | popping (handler : Option ℕ)
  | running (handler : Option ℕ)
  | returned
  deriving DecidableEq

namespace Call

def isEntered : Call → Bool
  | entered => true
  | _ => false

def isPopping : Call → Bool
  | popping _ => true
  | _ => false

def isRunning : Call → Bool
  | running _ => true
  | _ => false

end Call

/-- A strand and its pool.  `started` lists the handlers in the order in which they are called. -/
structure State where
  queue : BoundedQueue ℕ
  deferredCallsCount : BitVec 64
  pool : ThreadPool Job
  posts : List Post
  calls : List Call
  started : List ℕ
  failedPops : ℕ

/-- `StrandImpl::StrandImpl`, with a new pool. -/
def init (threadCount poolQueueSize : ℕ) (queueSize : QueueSize) : State where
  queue := .empty queueSize.size
  deferredCallsCount := 0
  pool := .init threadCount poolQueueSize
  posts := []
  calls := []
  started := []
  failedPops := 0

/-- A step of some thread.  A thread is a worker, or it has no queue of its own. -/
inductive Event
  | push
  | poolPost (call : ℕ) (worker : Option ℕ) (toAnyQueue : Bool)
  | otherPost (worker : Option ℕ) (toAnyQueue : Bool)
  | take (worker : ℕ)
  | fetchAdd (call : ℕ)
  | popRun (call : ℕ)
  | fetchSub (call : ℕ)

/-- The first line of `post`.  What `push` answers is not looked at. -/
def push (s : State) : State :=
  match s.queue.push s.posts.length with
  | some queue => { s with queue := queue, posts := s.posts ++ [⟨true, .pending⟩] }
  | none => { s with posts := s.posts ++ [⟨false, .pending⟩] }

/-- The second line of `post`; it throws when the pool does. -/
def poolPost (s : State) (n : ℕ) (worker : Option ℕ) (toAnyQueue : Bool) : State :=
  match s.posts[n]? with
  | some ⟨queued, .pending⟩ =>
    match s.pool.postFrom worker .invokeCall toAnyQueue with
    | (true, pool) => { s with pool := pool, posts := s.posts.set n ⟨queued, .returned⟩ }
    | (false, pool) => { s with pool := pool, posts := s.posts.set n ⟨queued, .threw⟩ }
  | _ => s

/-- A worker takes a job and calls it. -/
def take (s : State) (worker : ℕ) : State :=
  match s.pool.take worker with
  | some (.invokeCall, pool) => { s with pool := pool, calls := s.calls ++ [.entered] }
  | some (.other, pool) => { s with pool := pool }
  | none => s

/-- `m_deferred_calls_count.fetch_add(1)` -/
def fetchAdd (s : State) (j : ℕ) : State :=
  match s.calls[j]? with
  | some .entered =>
    { s with
      deferredCallsCount := s.deferredCallsCount + 1
      calls := s.calls.set j (if s.deferredCallsCount = 0 then .popping none else .returned) }
  | _ => s

/-- `m_queue.pop(handler)`, and the call of the handler.  The assertion is not compiled in: when
`pop` fails, the handler is called that was popped before.  An empty one throws, which is
suppressed. -/
def popRun (s : State) (j : ℕ) : State :=
  match s.calls[j]? with
  | some (.popping handler) =>
    match s.queue.pop with
    | some (n, queue) =>
      { s with
        queue := queue
        calls := s.calls.set j (.running (some n))
        started := s.started ++ [n] }
    | none =>
      { s with
        calls := s.calls.set j (.running handler)
        started := s.started ++ handler.toList
        failedPops := s.failedPops + 1 }
  | _ => s

/-- The handler is over: `m_deferred_calls_count.fetch_sub(1)`. -/
def fetchSub (s : State) (j : ℕ) : State :=
  match s.calls[j]? with
  | some (.running handler) =>
    { s with
      deferredCallsCount := s.deferredCallsCount - 1
      calls := s.calls.set j
        (if 1 < s.deferredCallsCount.toNat then .popping handler else .returned) }
  | _ => s

def step (s : State) : Event → State
  | .push => push s
  | .poolPost n worker toAnyQueue => poolPost s n worker toAnyQueue
  | .otherPost worker toAnyQueue =>
    { s with pool := (s.pool.postFrom worker .other toAnyQueue).2 }
  | .take worker => take s worker
  | .fetchAdd j => fetchAdd s j
  | .popRun j => popRun s j
  | .fetchSub j => fetchSub s j

/-- The call `j` of `invokeCall` runs a handler. -/
def State.Runs (s : State) (j : ℕ) : Prop := ∃ handler, s.calls[j]? = some (.running handler)

/-- All that is posted has been processed: no call of `post` is between its lines, no job of the
strand is left in the pool, and no call of `invokeCall` is under way. -/
def State.Settled (s : State) : Prop :=
  (∀ p ∈ s.posts, p.outcome ≠ .pending) ∧ .invokeCall ∉ s.pool.jobs ∧ ∀ c ∈ s.calls, c = .returned

instance (s : State) : Decidable s.Settled := inferInstanceAs (Decidable (_ ∧ _ ∧ _))

/-- The handlers that there was room for, in the order of their pushes. -/
def queuedOf (posts : List Post) : List ℕ :=
  (List.range posts.length).filter fun n => posts[n]?.any Post.queued

end Strand
