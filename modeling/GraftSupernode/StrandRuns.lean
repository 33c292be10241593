/-
# What a strand guarantees

A call of `post` adds a handler to the queue of the strand and a job to the pool.  As long as it
adds both or neither, there is one handler for each job (`Inv.books`): the handlers that wait or run
are as many as the jobs that are still to be posted, to be taken, to be counted, or counted.  So the
call of `invokeCall` that runs handlers finds one for each time that was counted; and it is the only
one, as it is there when the counter is not zero (`Inv.single`).

* `Inv.step`: no step of any thread breaks the invariant;
* `serialised`: what holds as long as each push and each post to the pool succeeds;
* `allOrNothing_of_matched`: a call of `post` is all or nothing as long as the pool takes its job
  exactly when there was room for its handler; `not_allOrNothing`: else it is not.
-/
import GraftSupernode.Strand
import Mathlib.Data.List.Nodup
import Mathlib.Data.List.Range

open Runs

namespace Strand

variable {s : State}

/-! ## Counting -/

/-- How the number of the items of a kind changes with one item. -/
theorem countP_set_add {α : Type*} (p : α → Bool) {l : List α} {i : ℕ} {a : α}
    (h : l[i]? = some a) (b : α) :
    (l.set i b).countP p + (p a).toNat = l.countP p + (p b).toNat := by
  obtain ⟨hi, rfl⟩ := List.getElem?_eq_some_iff.mp h
  have hle : (if p l[i] then 1 else 0) ≤ l.countP p := List.boole_getElem_le_countP hi
  rw [List.countP_set hi]
  cases hold : p l[i] with
  | true =>
    rw [hold, if_pos rfl] at hle
    cases p b <;> simp <;> omega
  | false => cases p b <;> simp

/-- A call of `post` that has pushed a handler and still owes its job. -/
def Post.owes (p : Post) : Bool := p.queued && p.outcome = .pending

/-- The calls of `post` that owe a job. -/
def State.owing (s : State) : ℕ := s.posts.countP Post.owes

/-- The jobs of the strand in the pool. -/
def State.tokens (s : State) : ℕ := s.pool.jobs.count .invokeCall

/-- The calls of `invokeCall` in a phase. -/
def State.inPhase (s : State) (phase : Call → Bool) : ℕ := s.calls.countP phase

/-- A call of `invokeCall` goes on to another phase. -/
theorem inPhase_set {j : ℕ} {a : Call} (h : s.calls[j]? = some a) (b : Call)
    (phase : Call → Bool) :
    (s.calls.set j b).countP phase + (phase a).toNat = s.inPhase phase + (phase b).toNat :=
  countP_set_add phase h b

/-- A call of `post` returns when its handler was pushed, and throws when it was not. -/
def Post.Fair (p : Post) : Prop :=
  (p.outcome = .returned → p.queued = true) ∧ (p.outcome = .threw → p.queued = false)

theorem Post.fair_pending (queued : Bool) : Post.Fair ⟨queued, .pending⟩ :=
  ⟨nofun, nofun⟩

/-- **The invariant of a strand.** -/
structure Inv (s : State) : Prop where
  books : s.queue.items.length + s.inPhase Call.isRunning
    = s.owing + s.tokens + s.inPhase Call.isEntered + s.deferredCallsCount.toNat
  single : s.inPhase Call.isPopping + s.inPhase Call.isRunning
    = if s.deferredCallsCount.toNat = 0 then 0 else 1
  order : s.started ++ s.queue.items = queuedOf s.posts
  popped : s.failedPops = 0
  bounded : s.queue.size + 1 < 2 ^ 64
  fair : ∀ p ∈ s.posts, p.Fair

theorem inv_init (threadCount poolQueueSize : ℕ) (queueSize : QueueSize) :
    Inv (init threadCount poolQueueSize queueSize) where
  books := by simp [init, State.inPhase, State.owing, State.tokens]
  single := by simp [init, State.inPhase]
  order := rfl
  popped := rfl
  bounded := queueSize.succ_lt
  fair := fun p h => by cases h

/-! ## The handlers that were pushed -/

theorem queuedOf_append (posts : List Post) (p : Post) :
    queuedOf (posts ++ [p]) = queuedOf posts ++ if p.queued then [posts.length] else [] := by
  have hold : (List.range posts.length).filter (fun n => (posts ++ [p])[n]?.any Post.queued)
      = queuedOf posts := by
    refine List.filter_congr fun n hn => ?_
    rw [List.getElem?_append_left (List.mem_range.mp hn)]
  rw [queuedOf, List.length_append, List.length_singleton, List.range_succ, List.filter_append,
    hold]
  congr 1
  cases hp : p.queued <;> simp [hp]

/-- How a call ends changes nothing about what was pushed. -/
theorem queuedOf_set {posts : List Post} {n : ℕ} {queued : Bool} {o : Outcome}
    (h : posts[n]? = some ⟨queued, o⟩) (o' : Outcome) :
    queuedOf (posts.set n ⟨queued, o'⟩) = queuedOf posts := by
  rw [queuedOf, List.length_set]
  refine List.filter_congr fun k _ => ?_
  by_cases hk : n = k
  · subst hk
    obtain ⟨hn, -⟩ := List.getElem?_eq_some_iff.mp h
    rw [List.getElem?_set_self hn, h]
    rfl
  · rw [List.getElem?_set_ne hk]

theorem pairwise_queuedOf (posts : List Post) : (queuedOf posts).Pairwise (· < ·) :=
  List.pairwise_lt_range.filter _

theorem mem_queuedOf {posts : List Post} {n : ℕ} :
    n ∈ queuedOf posts ↔ ∃ p, posts[n]? = some p ∧ p.queued = true := by
  rw [queuedOf, List.mem_filter, List.mem_range, Option.any_eq_true]
  constructor
  · rintro ⟨-, hp⟩
    exact hp
  · rintro ⟨p, hp, hqueued⟩
    exact ⟨(List.getElem?_eq_some_iff.mp hp).1, p, hp, hqueued⟩

/-- A call of `post` is in step: the pool takes its job exactly when there was room for the
handler. -/
def Matched (s : State) : Event → Prop
  | .poolPost n worker toAnyQueue => ∀ queued, s.posts[n]? = some ⟨queued, .pending⟩ →
      (s.pool.postFrom worker .invokeCall toAnyQueue).1 = queued
  | _ => True

instance (s : State) : (e : Event) → Decidable (Matched s e)
  | .poolPost _ _ _ => inferInstanceAs (Decidable (∀ _, _ → _))
  | .push | .otherPost _ _ | .take _ | .fetchAdd _ | .popRun _ | .fetchSub _ => isTrue trivial

namespace Inv

/-- The first line of `post`. -/
theorem push (h : Inv s) : Inv (push s) := by
  have hbooks := h.books
  have hfair (queued : Bool) : ∀ p ∈ s.posts ++ [⟨queued, .pending⟩], p.Fair := by
    intro p hp
    rcases List.mem_append.mp hp with hp | hp
    · exact h.fair p hp
    · rw [List.mem_singleton.mp hp]
      exact Post.fair_pending queued
  rw [Strand.push]
  split
  · rename_i queue hpush
    obtain ⟨hitems, hsize⟩ := BoundedQueue.push_eq_some hpush
    constructor
    · simp only [State.owing, State.inPhase, State.tokens] at hbooks ⊢
      rw [hitems, List.length_append, List.length_singleton, List.countP_append,
        List.countP_singleton, if_pos (by rfl)]
      omega
    · exact h.single
    · dsimp only
      rw [queuedOf_append, if_pos rfl, hitems, ← h.order, List.append_assoc]
    · exact h.popped
    · dsimp only
      rw [hsize]
      exact h.bounded
    · exact hfair true
  · -- there is no room, and no job is owed
    constructor
    · simp only [State.owing, State.inPhase, State.tokens] at hbooks ⊢
      rw [List.countP_append, List.countP_singleton, if_neg (by decide)]
      exact hbooks
    · exact h.single
    · dsimp only
      rw [queuedOf_append, if_neg Bool.false_ne_true, List.append_nil]
      exact h.order
    · exact h.popped
    · exact h.bounded
    · exact hfair false

/-- The second line of `post`. -/
theorem poolPost (h : Inv s) {n : ℕ} {worker : Option ℕ} {toAnyQueue : Bool}
    (hmatched : Matched s (.poolPost n worker toAnyQueue)) :
    Inv (poolPost s n worker toAnyQueue) := by
  have hbooks := h.books
  have hjobs := s.pool.postFrom_spec worker .invokeCall toAnyQueue
  have hfair {queued : Bool} {o : Outcome} (ho : Post.Fair ⟨queued, o⟩) :
      ∀ p ∈ s.posts.set n ⟨queued, o⟩, p.Fair := by
    intro p hp
    rcases List.mem_or_eq_of_mem_set hp with hp | rfl
    · exact h.fair p hp
    · exact ho
  rw [Strand.poolPost]
  split
  · rename_i queued hn
    split
    · -- the pool takes the job, so there was room for the handler
      rename_i pool hpost
      obtain rfl : queued = true := (hmatched queued hn).symm.trans (congrArg Prod.fst hpost)
      rw [hpost] at hjobs
      have hcount : (s.posts.set n ⟨true, .returned⟩).countP Post.owes + 1
          = s.posts.countP Post.owes + 0 := countP_set_add _ hn _
      have htokens : pool.jobs.count .invokeCall = s.pool.jobs.count .invokeCall + 1 := by
        rw [hjobs.count_eq, if_pos rfl, List.count_cons_self]
      constructor
      · simp only [State.owing, State.inPhase, State.tokens] at hbooks ⊢
        omega
      · exact h.single
      · dsimp only
        rw [queuedOf_set hn]
        exact h.order
      · exact h.popped
      · exact h.bounded
      · exact hfair ⟨fun _ => rfl, nofun⟩
    · -- the pool throws, so no handler was pushed
      rename_i pool hpost
      obtain rfl : queued = false := (hmatched queued hn).symm.trans (congrArg Prod.fst hpost)
      rw [hpost] at hjobs
      have hcount : (s.posts.set n ⟨false, .threw⟩).countP Post.owes + 0
          = s.posts.countP Post.owes + 0 := countP_set_add _ hn _
      have htokens : pool.jobs.count .invokeCall = s.pool.jobs.count .invokeCall := by
        rw [hjobs.count_eq, if_neg Bool.false_ne_true]
      constructor
      · simp only [State.owing, State.inPhase, State.tokens] at hbooks ⊢
        omega
      · exact h.single
      · dsimp only
        rw [queuedOf_set hn]
        exact h.order
      · exact h.popped
      · exact h.bounded
      · exact hfair ⟨nofun, fun _ => rfl⟩
  · exact h

/-- Another job is posted. -/
theorem otherPost (h : Inv s) (worker : Option ℕ) (toAnyQueue : Bool) :
    Inv { s with pool := (s.pool.postFrom worker .other toAnyQueue).2 } := by
  have htokens : (s.pool.postFrom worker .other toAnyQueue).2.jobs.count .invokeCall
      = s.pool.jobs.count .invokeCall := by
    rw [(s.pool.postFrom_spec worker .other toAnyQueue).count_eq]
    split
    · rw [List.count_cons_of_ne (by decide)]
    · rfl
  have hbooks := h.books
  refine ⟨?_, h.single, h.order, h.popped, h.bounded, h.fair⟩
  simp only [State.owing, State.inPhase, State.tokens] at hbooks ⊢
  rw [htokens]
  exact hbooks

/-- A worker takes a job. -/
theorem take (h : Inv s) (worker : ℕ) : Inv (take s worker) := by
  have hbooks := h.books
  have hsingle := h.single
  rw [Strand.take]
  split
  · rename_i pool htake
    have htokens := (ThreadPool.take_spec htake).1.count_eq .invokeCall
    rw [List.count_cons_self] at htokens
    refine ⟨?_, ?_, h.order, h.popped, h.bounded, h.fair⟩
    · simp only [State.owing, State.inPhase, State.tokens] at hbooks ⊢
      simp only [List.countP_append, List.countP_singleton]
      rw [if_neg (by decide), if_pos (by rfl)]
      omega
    · simp only [State.inPhase] at hsingle ⊢
      simp only [List.countP_append, List.countP_singleton]
      rw [if_neg (by decide), if_neg (by decide)]
      exact hsingle
  · rename_i pool htake
    have htokens := (ThreadPool.take_spec htake).1.count_eq .invokeCall
    rw [List.count_cons_of_ne (by decide)] at htokens
    refine ⟨?_, h.single, h.order, h.popped, h.bounded, h.fair⟩
    simp only [State.owing, State.inPhase, State.tokens] at hbooks ⊢
    omega
  · exact h

/-- A call of `invokeCall` is counted; the first one goes on. -/
theorem fetchAdd (h : Inv s) (j : ℕ) : Inv (fetchAdd s j) := by
  have hbooks := h.books
  have hsingle := h.single
  rw [Strand.fetchAdd]
  split
  · rename_i hj
    have hcapacity := s.queue.length_le
    have hbounded := h.bounded
    -- a call that is not counted yet has a handler that waits or runs
    have hsum : (s.deferredCallsCount + 1).toNat = s.deferredCallsCount.toNat + 1 := by
      have hone : (s.calls.set j .returned).countP Call.isEntered + 1
          = s.inPhase Call.isEntered + 0 := inPhase_set hj .returned _
      rw [BitVec.toNat_add]
      refine Nat.mod_eq_of_lt ?_
      change s.deferredCallsCount.toNat + 1 < 2 ^ 64
      split at hsingle <;> omega
    by_cases hzero : s.deferredCallsCount.toNat = 0
    · have hentered : (s.calls.set j (.popping none)).countP Call.isEntered + 1
          = s.inPhase Call.isEntered + 0 := inPhase_set hj _ _
      have hpopping : (s.calls.set j (.popping none)).countP Call.isPopping + 0
          = s.inPhase Call.isPopping + 1 := inPhase_set hj _ _
      have hrunning : (s.calls.set j (.popping none)).countP Call.isRunning + 0
          = s.inPhase Call.isRunning + 0 := inPhase_set hj _ _
      rw [if_pos (BitVec.eq_of_toNat_eq hzero)]
      rw [if_pos hzero] at hsingle
      refine ⟨?_, ?_, h.order, h.popped, h.bounded, h.fair⟩
      · simp only [State.inPhase, State.owing, State.tokens] at *
        omega
      · dsimp only
        rw [hsum, if_neg (Nat.succ_ne_zero _)]
        simp only [State.inPhase] at *
        omega
    · have hentered : (s.calls.set j .returned).countP Call.isEntered + 1
          = s.inPhase Call.isEntered + 0 := inPhase_set hj _ _
      have hpopping : (s.calls.set j .returned).countP Call.isPopping + 0
          = s.inPhase Call.isPopping + 0 := inPhase_set hj _ _
      have hrunning : (s.calls.set j .returned).countP Call.isRunning + 0
          = s.inPhase Call.isRunning + 0 := inPhase_set hj _ _
      rw [if_neg fun heq => hzero (by rw [heq]; rfl)]
      rw [if_neg hzero] at hsingle
      refine ⟨?_, ?_, h.order, h.popped, h.bounded, h.fair⟩
      · simp only [State.inPhase, State.owing, State.tokens] at *
        omega
      · dsimp only
        rw [hsum, if_neg (Nat.succ_ne_zero _)]
        simp only [State.inPhase] at *
        omega
  · exact h

/-- There is a handler for the call that runs handlers. -/
theorem length_pos (h : Inv s) {j : ℕ} {handler : Option ℕ}
    (hj : s.calls[j]? = some (.popping handler)) : 0 < s.queue.items.length := by
  have hbooks := h.books
  have hsingle := h.single
  have hpopping : (s.calls.set j .returned).countP Call.isPopping + 1
      = s.inPhase Call.isPopping + 0 := inPhase_set hj _ _
  split at hsingle <;> omega

/-- The next handler is called. -/
theorem popRun (h : Inv s) (j : ℕ) : Inv (popRun s j) := by
  have hbooks := h.books
  have hsingle := h.single
  rw [Strand.popRun]
  split
  · rename_i handler hj
    have hpos := h.length_pos hj
    split
    · rename_i n queue hpop
      obtain ⟨hitems, hsize⟩ := BoundedQueue.pop_eq_some hpop
      have hentered : (s.calls.set j (.running (some n))).countP Call.isEntered + 0
          = s.inPhase Call.isEntered + 0 := inPhase_set hj _ _
      have hpopping : (s.calls.set j (.running (some n))).countP Call.isPopping + 1
          = s.inPhase Call.isPopping + 0 := inPhase_set hj _ _
      have hrunning : (s.calls.set j (.running (some n))).countP Call.isRunning + 0
          = s.inPhase Call.isRunning + 1 := inPhase_set hj _ _
      constructor
      · rw [hitems, List.length_cons] at hbooks
        simp only [State.inPhase, State.owing, State.tokens] at *
        omega
      · dsimp only
        simp only [State.inPhase] at *
        omega
      · rw [← h.order, hitems]
        exact (List.append_cons _ _ _).symm
      · exact h.popped
      · dsimp only
        rw [hsize]
        exact h.bounded
      · exact h.fair
    · rename_i hpop
      rw [BoundedQueue.pop_eq_none.mp hpop] at hpos
      exact absurd hpos (lt_irrefl _)
  · exact h

/-- A handler is over. -/
theorem fetchSub (h : Inv s) (j : ℕ) : Inv (fetchSub s j) := by
  have hbooks := h.books
  have hsingle := h.single
  rw [Strand.fetchSub]
  split
  · rename_i handler hj
    have hone : (s.calls.set j .returned).countP Call.isRunning + 1
        = s.inPhase Call.isRunning + 0 := inPhase_set hj _ _
    -- the call is counted itself
    have hpos : s.deferredCallsCount.toNat ≠ 0 := by
      intro hzero
      rw [if_pos hzero] at hsingle
      omega
    have hdiff : (s.deferredCallsCount - 1).toNat = s.deferredCallsCount.toNat - 1 := by
      bv_omega
    rw [if_neg hpos] at hsingle
    by_cases hmore : 1 < s.deferredCallsCount.toNat
    · have hentered : (s.calls.set j (.popping handler)).countP Call.isEntered + 0
          = s.inPhase Call.isEntered + 0 := inPhase_set hj _ _
      have hpopping : (s.calls.set j (.popping handler)).countP Call.isPopping + 0
          = s.inPhase Call.isPopping + 1 := inPhase_set hj _ _
      have hrunning : (s.calls.set j (.popping handler)).countP Call.isRunning + 1
          = s.inPhase Call.isRunning + 0 := inPhase_set hj _ _
      rw [if_pos hmore]
      refine ⟨?_, ?_, h.order, h.popped, h.bounded, h.fair⟩
      · simp only [State.inPhase, State.owing, State.tokens] at *
        omega
      · dsimp only
        rw [hdiff, if_neg (by omega)]
        simp only [State.inPhase] at *
        omega
    · have hentered : (s.calls.set j .returned).countP Call.isEntered + 0
          = s.inPhase Call.isEntered + 0 := inPhase_set hj _ _
      have hpopping : (s.calls.set j .returned).countP Call.isPopping + 0
          = s.inPhase Call.isPopping + 0 := inPhase_set hj _ _
      rw [if_neg hmore]
      refine ⟨?_, ?_, h.order, h.popped, h.bounded, h.fair⟩
      · simp only [State.inPhase, State.owing, State.tokens] at *
        omega
      · dsimp only
        rw [hdiff, if_pos (by omega)]
        simp only [State.inPhase] at *
        omega
  · exact h

/-- **No step breaks the invariant**, when a call of `post` is in step. -/
theorem step (h : Inv s) {e : Event} (hmatched : Matched s e) : Inv (step s e) := by
  cases e with
  | push => exact h.push
  | poolPost n worker toAnyQueue => exact h.poolPost hmatched
  | otherPost worker toAnyQueue => exact h.otherPost worker toAnyQueue
  | take worker => exact h.take worker
  | fetchAdd j => exact h.fetchAdd j
  | popRun j => exact h.popRun j
  | fetchSub j => exact h.fetchSub j

end Inv

/-! ## One handler at a time -/

/-- **When all has been processed** each handler that was pushed has been called. -/
theorem Inv.started_of_settled (h : Inv s) (hsettled : s.Settled) :
    s.started = queuedOf s.posts := by
  obtain ⟨hposts, hpool, hcalls⟩ := hsettled
  have howing : s.owing = 0 := by
    refine List.countP_eq_zero.mpr fun p hp => ?_
    simp [Post.owes, hposts p hp]
  have htokens : s.tokens = 0 := List.count_eq_zero.mpr hpool
  have hphase (phase : Call → Bool) (hphase : phase .returned = false) : s.inPhase phase = 0 := by
    refine List.countP_eq_zero.mpr fun c hc => ?_
    rw [hcalls c hc, hphase]
    exact Bool.false_ne_true
  have hbooks := h.books
  have hsingle := h.single
  rw [howing, htokens, hphase _ rfl, hphase _ rfl] at hbooks
  rw [hphase _ rfl, hphase _ rfl] at hsingle
  have hempty : s.queue.items = [] := by
    rw [← List.length_eq_zero_iff]
    split at hsingle <;> omega
  rw [← h.order, hempty, List.append_nil]

/-- The queue of the strand has room, and the pool takes the job. -/
def Accepted (s : State) : Event → Prop
  | .push => ¬ s.queue.Full
  | .poolPost n worker toAnyQueue => ∀ queued, s.posts[n]? = some ⟨queued, .pending⟩ →
      (s.pool.postFrom worker .invokeCall toAnyQueue).1 = true
  | _ => True

instance (s : State) : (e : Event) → Decidable (Accepted s e)
  | .push => inferInstanceAs (Decidable (¬ _))
  | .poolPost _ _ _ => inferInstanceAs (Decidable (∀ _, _ → _))
  | .otherPost _ _ | .take _ | .fetchAdd _ | .popRun _ | .fetchSub _ => isTrue trivial

/-- All handlers have been pushed. -/
def AllQueued (s : State) : Prop := ∀ p ∈ s.posts, p.queued = true

theorem AllQueued.step (h : AllQueued s) {e : Event} (haccepted : Accepted s e) :
    AllQueued (step s e) := by
  cases e with
  | push =>
    intro p hp
    rw [Strand.step, push] at hp
    split at hp
    · rcases List.mem_append.mp hp with hp | hp
      · exact h p hp
      · rw [List.mem_singleton.mp hp]
    · rename_i hpush
      exact absurd (BoundedQueue.push_eq_none.mp hpush) haccepted
  | poolPost n worker toAnyQueue =>
    intro p hp
    rw [Strand.step, poolPost] at hp
    split at hp
    · rename_i queued hn
      have hqueued : queued = true := h _ (List.mem_of_getElem? hn)
      split at hp <;> rcases List.mem_or_eq_of_mem_set hp with hp | rfl
      · exact h p hp
      · exact hqueued
      · exact h p hp
      · exact hqueued
    · exact h p hp
  | otherPost => exact h
  | take worker =>
    rw [Strand.step, take]
    split <;> exact h
  | fetchAdd j =>
    rw [Strand.step, fetchAdd]
    split <;> exact h
  | popRun j =>
    rw [Strand.step, popRun]
    split
    · split <;> exact h
    · exact h
  | fetchSub j =>
    rw [Strand.step, fetchSub]
    split <;> exact h

/-- Room for two handlers. -/
def sampleQueueSize : QueueSize := ⟨2, by decide, by decide⟩

/-- What a call of `post` should do: when it returns, its handler is run once by the time that all
has been processed; when it throws, its handler is not run; and no handler is run twice. -/
structure AllOrNothing (s : State) : Prop where
  returned : ∀ n p, s.posts[n]? = some p → p.outcome = .returned → s.Settled →
    s.started.count n = 1
  threw : ∀ n p, s.posts[n]? = some p → p.outcome = .threw → n ∉ s.started
  once : ∀ n, s.started.count n ≤ 1

/-- **A call of `post` is all or nothing** in every run in which the pool takes the job of a call
exactly when there was room for its handler. -/
theorem allOrNothing_of_matched (threadCount poolQueueSize : ℕ) (queueSize : QueueSize)
    (es : List Event) (h : Along step Matched (init threadCount poolQueueSize queueSize) es) :
    AllOrNothing (exec step (init threadCount poolQueueSize queueSize) es) := by
  have hinv : Inv (exec step (init threadCount poolQueueSize queueSize) es) :=
    exec_invariant (fun s e hs he => hs.step he)
      (inv_init threadCount poolQueueSize queueSize) h
  generalize exec step (init threadCount poolQueueSize queueSize) es = s at hinv
  have hfirst : s.started <+: queuedOf s.posts := by
    rw [← hinv.order]
    exact List.prefix_append _ _
  have hnodup : (queuedOf s.posts).Nodup := (pairwise_queuedOf s.posts).imp fun h => h.ne
  constructor
  · intro n p hn hreturned hsettled
    rw [hinv.started_of_settled hsettled]
    refine List.count_eq_one_of_mem hnodup (mem_queuedOf.mpr ⟨p, hn, ?_⟩)
    exact (hinv.fair p (List.mem_of_getElem? hn)).1 hreturned
  · intro n p hn hthrew hstarted
    obtain ⟨p', hn', hqueued⟩ := mem_queuedOf.mp (hfirst.subset hstarted)
    obtain rfl := Option.some.inj (hn.symm.trans hn')
    rw [(hinv.fair p (List.mem_of_getElem? hn)).2 hthrew] at hqueued
    cases hqueued
  · intro n
    exact List.nodup_iff_count_le_one.mp (hnodup.sublist hfirst.sublist) n

/-- A worker takes a job of the strand and runs one handler. -/
def round (j : ℕ) : List Event := [.take 0, .fetchAdd j, .popRun j, .fetchSub j]

/-- Three calls of `post` and two workers: the second one leaves its handler to the first. -/
def matchedRun : List Event :=
  [.push, .push, .poolPost 1 none false, .poolPost 0 none false, .take 1, .take 0, .fetchAdd 0,
    .fetchAdd 1, .popRun 0, .push, .fetchSub 0, .poolPost 2 none false, .popRun 0, .fetchSub 0,
    .take 1, .fetchAdd 2, .popRun 2, .fetchSub 2]

theorem allOrNothing_of_matched_sample :
    let s := exec step (init 2 4 sampleQueueSize) matchedRun
    AllOrNothing s ∧ s.Settled ∧ s.started = [0, 1, 2] := by
  have hmatched : Along step Matched (init 2 4 sampleQueueSize) matchedRun := by decide +kernel
  exact ⟨allOrNothing_of_matched 2 4 sampleQueueSize _ hmatched, by decide +kernel⟩

/-- Three handlers, and room for two of them. -/
def lostRun : List Event :=
  [.push, .push, .push, .poolPost 0 none false, .poolPost 1 none false, .poolPost 2 none false]
    ++ round 0 ++ round 1 ++ round 2

/-- The same, with a worker for each job.  The call that runs the handlers finds none for the last
job, and runs the one before once more. -/
def repeatedRun : List Event :=
  [.push, .push, .push, .poolPost 0 none false, .poolPost 1 none false, .poolPost 2 none false,
    .take 0, .take 1, .take 2, .fetchAdd 0, .fetchAdd 1, .fetchAdd 2, .popRun 0, .fetchSub 0,
    .popRun 0, .fetchSub 0, .popRun 0, .fetchSub 0]

/-- The pool is full when the first job is posted, and has room again when the second one is. -/
def keptRun : List Event :=
  [.otherPost none false, .otherPost none false, .push, .poolPost 0 none false, .take 0, .take 0,
    .push, .poolPost 1 none false] ++ round 0

/-- **Else it is not**: a handler for which there is no room is lost though `post` returns, or has
another one run twice; a handler whose job is refused is run though `post` throws. -/
theorem not_allOrNothing :
    ¬ AllOrNothing (exec step (init 1 4 sampleQueueSize) lostRun) ∧
      ¬ AllOrNothing (exec step (init 3 4 sampleQueueSize) repeatedRun) ∧
      ¬ AllOrNothing (exec step (init 1 2 sampleQueueSize) keptRun) := by
  refine ⟨fun h => ?_, fun h => ?_, fun h => ?_⟩
  · have hone := h.returned 2 ⟨false, .returned⟩ (by decide +kernel) rfl (by decide +kernel)
    revert hone
    decide +kernel
  · have hone := h.once 1
    revert hone
    decide +kernel
  · have hno := h.threw 0 ⟨true, .threw⟩ (by decide +kernel) rfl
    revert hno
    decide +kernel

end Strand
