/-
# The thread pool

`ThreadPoolImpl` (`thread_pool.hpp`), over any type of jobs: a bounded queue for each worker.  The
IO thread posts a job to the queues in turn, until one of them has room; a worker takes a job from
its own queue or from that of its neighbour.  A worker that is expelled finishes its job while
another one serves the queue, so any number of jobs can be running.

* `post_isSome`: a job finds room while there are fewer jobs than room for them;
* `nextPow2`: the size that is chosen for the queue of results.
-/
import GraftSupernode.BoundedQueue
import Mathlib.Algebra.BigOperators.Group.List.Basic
import Mathlib.Algebra.GroupWithZero.Nat
import Mathlib.Algebra.Order.BigOperators.Group.List

/-- `ThreadPoolImpl`: the queues of the workers, and the worker whose turn it is. -/
structure ThreadPool (τ : Type*) where
  queues : List (BoundedQueue τ)
  nextWorker : ℕ

namespace ThreadPool

variable {τ : Type*}

/-- `ThreadPoolImpl::ThreadPoolImpl` -/
def init (threadCount queueSize : ℕ) : ThreadPool τ :=
  ⟨List.replicate threadCount (.empty queueSize), 0⟩

/-- `ThreadPoolImpl::getWorkerIdx`, for a thread that is not a worker. -/
def getWorkerIdx (p : ThreadPool τ) : ℕ := p.nextWorker % p.queues.length

/-- `ThreadPoolImpl::tryPost` -/
def tryPost (p : ThreadPool τ) (job : τ) : Bool × ThreadPool τ :=
  let i := p.getWorkerIdx
  let p := { p with nextWorker := p.nextWorker + 1 }
  match p.queues[i]?.bind fun q => q.push job with
  | some q => (true, { p with queues := p.queues.set i q })
  | none => (false, p)

/-- The loop of `ThreadPoolImpl::post`, for `tries` rounds. -/
def postLoop (job : τ) : ℕ → ThreadPool τ → Option (ThreadPool τ)
  | 0, _ => none
  | tries + 1, p =>
    match p.tryPost job with
    | (true, p) => some p
    | (false, p) => postLoop job tries p

/-- `ThreadPoolImpl::post` to any queue; `none` is the exception "thread pool queue is full". -/
def post (p : ThreadPool τ) (job : τ) : Option (ThreadPool τ) := postLoop job p.queues.length p

/-- The worker `i` takes a job, `WorkerT::threadFunc`. -/
def take (p : ThreadPool τ) (i : ℕ) : Option (τ × ThreadPool τ) :=
  let pop (i : ℕ) := p.queues[i]?.bind fun q =>
    q.pop.map fun (job, q) => (job, { p with queues := p.queues.set i q })
  (pop i).or (pop ((i + 1) % p.queues.length))

/-- The jobs that wait in a queue. -/
def jobs (p : ThreadPool τ) : List τ := (p.queues.map BoundedQueue.items).flatten

/-- How many jobs there is room for. -/
def capacity (p : ThreadPool τ) : ℕ := (p.queues.map BoundedQueue.size).sum

@[simp] theorem jobs_init (threadCount queueSize : ℕ) :
    (init threadCount queueSize : ThreadPool τ).jobs = [] := by
  simp [init, jobs]

@[simp] theorem capacity_init (threadCount queueSize : ℕ) :
    (init threadCount queueSize : ThreadPool τ).capacity = threadCount * queueSize := by
  simp [init, capacity]

/-! ## One queue changes -/

/-- The jobs around those of the queue `i`; the room stays the same when the queue's does. -/
theorem exists_split {p : ThreadPool τ} {i : ℕ} {q : BoundedQueue τ} (h : p.queues[i]? = some q) :
    ∃ before after, p.jobs = before ++ (q.items ++ after) ∧ ∀ q' n,
      (⟨p.queues.set i q', n⟩ : ThreadPool τ).jobs = before ++ (q'.items ++ after) ∧
      (q'.size = q.size → (⟨p.queues.set i q', n⟩ : ThreadPool τ).capacity = p.capacity) := by
  obtain ⟨hi, rfl⟩ := List.getElem?_eq_some_iff.mp h
  have hsplit : p.queues = p.queues.take i ++ p.queues[i] :: p.queues.drop (i + 1) := by
    rw [List.getElem_cons_drop, List.take_append_drop]
  refine ⟨((p.queues.take i).map BoundedQueue.items).flatten,
    ((p.queues.drop (i + 1)).map BoundedQueue.items).flatten, ?_, fun q' n => ⟨?_, fun hsize => ?_⟩⟩
  · rw [← List.flatten_cons, ← List.map_cons, ← List.flatten_append, ← List.map_append, ← hsplit,
      jobs]
  · rw [← List.flatten_cons, ← List.map_cons, ← List.flatten_append, ← List.map_append, jobs,
      List.set_eq_take_append_cons_drop, if_pos hi]
  · have hmap : (p.queues.set i q').map BoundedQueue.size = p.queues.map BoundedQueue.size := by
      have hi' : i < (p.queues.map BoundedQueue.size).length := by rwa [List.length_map]
      rw [List.map_set, hsize, ← List.getElem_map BoundedQueue.size (h := hi'),
        List.set_getElem_self]
    rw [capacity, hmap, capacity]

/-- **A job that is posted** waits in the pool, whose room stays the same. -/
theorem tryPost_spec {p p' : ThreadPool τ} {job : τ} (h : p.tryPost job = (true, p')) :
    p'.jobs.Perm (job :: p.jobs) ∧ p'.capacity = p.capacity ∧
      p'.queues.length = p.queues.length := by
  unfold tryPost at h
  dsimp only at h
  split at h
  · rename_i q' hpush
    obtain ⟨q, hq, hpush⟩ := Option.bind_eq_some_iff.mp hpush
    obtain ⟨before, after, hjobs, hset⟩ := exists_split hq
    obtain ⟨hitems, hsize⟩ := BoundedQueue.push_eq_some hpush
    obtain rfl : _ = p' := (Prod.mk.inj h).2
    refine ⟨?_, (hset q' _).2 hsize, by simp⟩
    rw [(hset q' _).1, hjobs, hitems, List.append_assoc, ← List.append_assoc before,
      ← List.append_assoc before]
    exact List.perm_middle
  · exact absurd (Prod.mk.inj h).1 (by simp)

/-- A try that fails moves on to the next worker. -/
theorem tryPost_fail {p p' : ThreadPool τ} {job : τ} (h : p.tryPost job = (false, p')) :
    p' = { p with nextWorker := p.nextWorker + 1 } ∧
      ∀ q, p.queues[p.getWorkerIdx]? = some q → q.Full := by
  unfold tryPost at h
  dsimp only at h
  split at h
  · exact absurd (Prod.mk.inj h).1 (by simp)
  · rename_i hpush
    refine ⟨(Prod.mk.inj h).2.symm, fun q hq => ?_⟩
    rw [hq, Option.bind_some] at hpush
    exact BoundedQueue.push_eq_none.mp hpush

theorem postLoop_spec {p p' : ThreadPool τ} {job : τ} {tries : ℕ}
    (h : postLoop job tries p = some p') :
    p'.jobs.Perm (job :: p.jobs) ∧ p'.capacity = p.capacity ∧
      p'.queues.length = p.queues.length := by
  induction tries generalizing p with
  | zero => cases h
  | succ tries ih =>
    unfold postLoop at h
    split at h
    · rename_i htry
      cases h
      exact tryPost_spec htry
    · rename_i htry
      obtain ⟨rfl, -⟩ := tryPost_fail htry
      exact ih (p := { p with nextWorker := p.nextWorker + 1 }) h

theorem post_spec {p p' : ThreadPool τ} {job : τ} (h : p.post job = some p') :
    p'.jobs.Perm (job :: p.jobs) ∧ p'.capacity = p.capacity ∧
      p'.queues.length = p.queues.length := postLoop_spec h

/-- **A job that is taken** was in the pool. -/
theorem take_spec {p p' : ThreadPool τ} {i : ℕ} {job : τ} (h : p.take i = some (job, p')) :
    p.jobs.Perm (job :: p'.jobs) ∧ p'.capacity = p.capacity ∧
      p'.queues.length = p.queues.length := by
  have hpop {i : ℕ} (h : (p.queues[i]?.bind fun q =>
      q.pop.map fun (job, q) => (job, { p with queues := p.queues.set i q })) = some (job, p')) :
      p.jobs.Perm (job :: p'.jobs) ∧ p'.capacity = p.capacity ∧
        p'.queues.length = p.queues.length := by
    obtain ⟨q, hq, hmap⟩ := Option.bind_eq_some_iff.mp h
    obtain ⟨⟨job', q'⟩, hpop, heq⟩ := Option.map_eq_some_iff.mp hmap
    obtain ⟨before, after, hjobs, hset⟩ := exists_split hq
    obtain ⟨hitems, hsize⟩ := BoundedQueue.pop_eq_some hpop
    cases heq
    refine ⟨?_, (hset q' _).2 hsize, by simp⟩
    rw [(hset q' _).1, hjobs, hitems]
    exact List.perm_middle
  rcases Option.or_eq_some_iff.mp h with h | ⟨-, h⟩
  · exact hpop h
  · exact hpop h

/-! ## A job finds room -/

/-- Some queue has room while there are fewer jobs than the queues have room for. -/
theorem exists_not_full {l : List (BoundedQueue τ)}
    (h : ((l.map BoundedQueue.items).flatten).length < (l.map BoundedQueue.size).sum) :
    ∃ q ∈ l, ¬ q.Full := by
  by_contra hfull
  push Not at hfull
  have heq : l.map (List.length ∘ BoundedQueue.items) = l.map BoundedQueue.size :=
    List.map_congr_left fun q hq => hfull q hq
  rw [List.length_flatten, List.map_map, heq] at h
  exact h.false

/-- The tries come to a queue that has room. -/
theorem postLoop_isSome {job : τ} {tries : ℕ} {p : ThreadPool τ} {i : ℕ} {q : BoundedQueue τ}
    (hi : i < tries) (hq : p.queues[(p.nextWorker + i) % p.queues.length]? = some q)
    (hfull : ¬ q.Full) : (postLoop job tries p).isSome := by
  induction tries generalizing p i with
  | zero => exact absurd hi (Nat.not_lt_zero i)
  | succ tries ih =>
    unfold postLoop
    split
    · rfl
    · rename_i htry
      obtain ⟨rfl, hall⟩ := tryPost_fail htry
      cases i with
      | zero => exact absurd (hall q hq) hfull
      | succ i =>
        refine ih (i := i) (by omega) ?_
        rwa [Nat.add_right_comm]

/-- **A job finds room** while there are fewer jobs than the pool has room for. -/
theorem post_isSome {p : ThreadPool τ} (job : τ) (h : p.jobs.length < p.capacity) :
    (p.post job).isSome := by
  obtain ⟨q, hmem, hfull⟩ := exists_not_full h
  obtain ⟨j, hj, rfl⟩ := List.getElem_of_mem hmem
  have hpos : 0 < p.queues.length := by omega
  have hlt := Nat.mod_lt p.nextWorker hpos
  -- the try that comes to the queue `j`
  have hmod : (p.nextWorker + (j + p.queues.length - p.nextWorker % p.queues.length) %
      p.queues.length) % p.queues.length = j := by
    rw [Nat.add_mod_mod, ← Nat.mod_add_mod]
    rw [show p.nextWorker % p.queues.length +
      (j + p.queues.length - p.nextWorker % p.queues.length) = j + p.queues.length by omega,
      Nat.add_mod_right, Nat.mod_eq_of_lt hj]
  refine postLoop_isSome (i := (j + p.queues.length - p.nextWorker % p.queues.length) %
    p.queues.length) (Nat.mod_lt _ hpos) ?_ hfull
  rw [hmod, List.getElem?_eq_getElem hj]

end ThreadPool

/-! ## The queue of results -/

/-- `TaskManager::next_pow2`, on words of 64 bits. -/
def nextPow2 (val : ℕ) : ℕ :=
  let val := (val + (2 ^ 64 - 1)) % 2 ^ 64
  ([1, 2, 4, 8, 16, 32].foldl (fun val i => val ||| val >>> i) val + 1) % 2 ^ 64

/-- The bits that are set in the loop of `next_pow2` make the value larger, in the same width. -/
theorem le_foldl_shift {n : ℕ} (l : List ℕ) {v : ℕ} (hv : v < 2 ^ n) :
    v ≤ l.foldl (fun v i => v ||| v >>> i) v ∧ l.foldl (fun v i => v ||| v >>> i) v < 2 ^ n := by
  induction l generalizing v with
  | nil => exact ⟨le_rfl, hv⟩
  | cons i l ih =>
    have hshift : v >>> i < 2 ^ n := (Nat.shiftRight_le v i).trans_lt hv
    obtain ⟨hle, hlt⟩ := ih (Nat.or_lt_two_pow hv hshift)
    exact ⟨Nat.left_le_or.trans hle, hlt⟩

/-- **The queue of results** is not smaller than the pool. -/
theorem le_nextPow2 {val : ℕ} (h : val ≤ 2 ^ 63) : val ≤ nextPow2 val := by
  rcases Nat.eq_zero_or_pos val with rfl | hpos
  · exact Nat.zero_le _
  · have hpred : (val + (2 ^ 64 - 1)) % 2 ^ 64 = val - 1 := by omega
    obtain ⟨hle, hlt⟩ := le_foldl_shift (n := 63) [1, 2, 4, 8, 16, 32] (v := val - 1) (by omega)
    rw [nextPow2, hpred, Nat.mod_eq_of_lt (by omega)]
    omega
