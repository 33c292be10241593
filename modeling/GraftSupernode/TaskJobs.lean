/-
# The jobs of the thread pool

The task manager counts the jobs that it has sent to the pool and those that are done
(`m_cntJobSent`, `m_cntJobDone`); the difference is the number of jobs with the pool
(`Jobs`).  A dispatch that may send a job has found room for it when it started, and no other
dispatch sends one in between (`Room`).
-/
import GraftSupernode.TaskPlaces

open StateMachine

namespace TaskManager

variable {υ κ : Type*} [LinearOrder υ]

/-- What concerns the thread pool. -/
def State.pool (m : State υ κ) : ℕ × ℕ × ThreadPool ℕ × List ℕ × BoundedQueue ℕ :=
  (m.cntJobSent, m.cntJobDone, m.threadPool, m.running, m.resQueue)

variable (P : Params υ κ) {m m' : State υ κ} {t : ℕ}

/-- The counters of jobs agree with the jobs, and there are no more than the pool takes. -/
structure Jobs (m : State υ κ) : Prop where
  count : m.cntJobSent = m.cntJobDone + m.jobs.length
  le : m.jobs.length ≤ P.threadPoolInputSize
  capacity : m.threadPool.capacity = P.threadPoolInputSize
  size : m.resQueue.size = P.resQueueSize

/-- The states from which a dispatch can come to `runWorkerAction`. -/
def beforeJob : StateMachine.State → Bool
  | .preAction | .chkPreAction | .workerAction | .workerActionDone => true
  | _ => false

/-- A dispatch that can send a job has room for it. -/
def Room (m : State υ κ) (t : ℕ) (s : StateMachine.State) : Prop :=
  beforeJob s = true → m.heldAt t s = some t → (m.task t).h3.workerAction = true →
    m.jobs.length < P.threadPoolInputSize

/-! ## What does not concern the pool -/

/-- The jobs are those of the pool and its queue. -/
theorem State.jobs_of_pool (h : m'.pool = m.pool) : m'.jobs = m.jobs := by
  simp only [pool, Prod.mk.injEq] at h
  obtain ⟨-, -, hthreads, hrunning, hres⟩ := h
  simp only [jobs, hthreads, hrunning, hres]

/-- An answer leaves the pool. -/
@[simp] theorem State.pool_respondAndDie (body : String) (die : Bool) :
    (m.respondAndDie P t body die).pool = m.pool := by
  rw [respondAndDie_eq]
  rfl

/-- The check for an overflow leaves the pool. -/
@[simp] theorem State.pool_checkThreadPoolOverflow :
    (m.checkThreadPoolOverflow P t).pool = m.pool := by
  unfold checkThreadPoolOverflow
  split
  · exact pool_respondAndDie P _ _
  · rfl

/-- A postponed task leaves the pool. -/
@[simp] theorem State.pool_postponeTask : (m.postponeTask P t).pool = m.pool := by
  unfold postponeTask
  dsimp only
  split <;> rfl

/-- A task that goes on leaves the pool. -/
@[simp] theorem State.pool_resumeNext : (m.resumeNext t).pool = m.pool := by
  unfold resumeNext
  dsimp only
  split
  · rfl
  · split <;> rfl

/-- `processOk` leaves the pool. -/
@[simp] theorem State.pool_processOk : (m.processOk P t).pool = m.pool :=
  (pool_respondAndDie P _ _).trans pool_resumeNext

/-- Expired tasks leave the pool. -/
@[simp] theorem State.pool_expireTasks (fuel : ℕ) : (m.expireTasks P fuel).pool = m.pool :=
  State.expireTasks_invariant P (I := fun m' => m'.pool = m.pool)
    (fun _ _ _ h _ => (pool_respondAndDie P _ _).trans h) (fun _ _ h => h) fuel rfl

/-- Only the worker action concerns the pool. -/
theorem State.pool_perform [DecidableEq κ] {a : Action} {o : Option (Outcome υ)}
    (ha : a ≠ .runWorkeraction) (hm : m.perform P t o a = some m') : m'.pool = m.pool := by
  cases performed P hm with
  | posted => exact absurd rfl ha
  | rest | called | sent => rfl
  | overflow => exact pool_respondAndDie P _ _
  | answered | ok | postponed => simp

/-- A row without the worker action leaves the pool. -/
theorem State.pool_elim [DecidableEq κ] {a : Option Action} {o : Option (Outcome υ)}
    (ha : a ≠ some .runWorkeraction) (hm : a.elim (some m) (m.perform P t o) = some m') :
    m'.pool = m.pool := by
  cases a with
  | none =>
    cases hm
    rfl
  | some a => exact pool_perform P (fun e => ha (congrArg some e)) hm

/-- The pre action leaves the handlers of the task. -/
theorem State.h3_runPreAction {o : Option (Outcome υ)} (hm : m.runPreAction t o = some m') :
    (m'.task t).h3 = (m.task t).h3 := by
  cases handled_runPreAction hm with
  | rest => rfl
  | called f hf =>
    rw [modify_task_self]
    exact hf.h3 _

/-! ## One step of a dispatch -/

variable {P}

/-- The jobs are right as long as the pool stays. -/
theorem Jobs.of_pool (h : Jobs P m) (hpool : m'.pool = m.pool) : Jobs P m' := by
  have hjobs := State.jobs_of_pool hpool
  simp only [State.pool, Prod.mk.injEq] at hpool
  obtain ⟨hsent, hdone, hthreads, -, hres⟩ := hpool
  exact ⟨by rw [hsent, hdone, hjobs]; exact h.count, by rw [hjobs]; exact h.le,
    by rw [hthreads]; exact h.capacity, by rw [hres]; exact h.size⟩

/-- The jobs may move. -/
theorem Jobs.of_perm (h : Jobs P m) (hperm : m'.jobs.Perm m.jobs)
    (hcnt : m'.cntJobSent = m.cntJobSent ∧ m'.cntJobDone = m.cntJobDone)
    (hcapacity : m'.threadPool.capacity = m.threadPool.capacity)
    (hsize : m'.resQueue.size = m.resQueue.size) : Jobs P m' :=
  ⟨by rw [hcnt.1, hcnt.2, hperm.length_eq]; exact h.count, hperm.length_eq ▸ h.le,
    hcapacity.trans h.capacity, hsize.trans h.size⟩

/-- A job moves from the threads' queues to a thread. -/
theorem Jobs.workerStart (h : Jobs P m) (i : ℕ) :
    Jobs P (m.workerStart i) ∧ (m.workerStart i).jobs.Perm m.jobs := by
  unfold State.workerStart
  split
  · exact ⟨h, .refl _⟩
  · rename_i t pool htake
    obtain ⟨hperm, hcapacity, -⟩ := ThreadPool.take_spec htake
    have hjobs : (pool.jobs ++ t :: m.running ++ m.resQueue.items).Perm m.jobs := by
      refine List.Perm.append_right m.resQueue.items ?_
      exact List.perm_middle.trans (hperm.symm.append_right m.running)
    exact ⟨h.of_perm hjobs ⟨rfl, rfl⟩ hcapacity rfl, hjobs⟩

/-- **The result queue** has room for the jobs that are being run. -/
theorem Jobs.resQueue_not_full (h : Jobs P m) (ht : t ∈ m.running) : ¬ m.resQueue.Full := by
  have hpos := List.length_pos_of_mem ht
  have hle := h.le
  have hsize := h.size
  have hres : P.threadPoolInputSize ≤ P.resQueueSize := le_nextPow2 P.inputSize_le
  simp only [State.jobs, List.length_append] at hle
  unfold BoundedQueue.Full
  omega

/-- A job that is done: nothing else changes than its own task. -/
theorem Jobs.workerDone {o : Option (Outcome υ)} (h : Jobs P m) (ht : t ∈ m.running)
    (hm : m.workerDone t o = some m') :
    Jobs P m' ∧ m'.jobs.Perm m.jobs ∧ m'.created = m.created ∧
      (m'.task t).h3 = (m.task t).h3 ∧ ∀ t' ≠ t, m'.task t' = m.task t' := by
  have hroom := h.resQueue_not_full ht
  obtain ⟨m₁, hrun, rfl⟩ := Option.map_eq_some_iff.mp hm
  obtain ⟨o, -, rfl⟩ := Option.map_eq_some_iff.mp hrun
  dsimp only
  split
  · rename_i resQueue hpush
    obtain ⟨hitems, hsize⟩ := BoundedQueue.push_eq_some hpush
    have hperm : (m.threadPool.jobs ++ m.running.erase t ++ resQueue.items).Perm m.jobs := by
      rw [hitems, State.jobs, List.append_assoc, List.append_assoc]
      refine List.Perm.append_left m.threadPool.jobs ?_
      rw [← List.append_assoc]
      refine (List.perm_append_singleton t _).trans ?_
      exact (List.perm_cons_erase ht).symm.append_right m.resQueue.items
    refine ⟨h.of_perm hperm ⟨rfl, rfl⟩ rfl hsize, hperm, rfl, ?_, fun t' ht' => ?_⟩
    · simp [State.modify, State.note]
    · simp [State.modify, State.note, ht']
  · rename_i hpush
    exact absurd (BoundedQueue.push_eq_none.mp hpush) hroom

/-- No room is needed where no job comes. -/
theorem room_of_not_beforeJob {s : StateMachine.State} (h : beforeJob s = false) :
    Room P m t s := fun hs => by simp [h] at hs

/-- Room stays when the pool and the handlers of the task do not change. -/
theorem Room.of_pool {s s' : StateMachine.State} (h : Room P m t s) (hs : beforeJob s = true)
    (hheld : m.heldAt t s = some t) (hpool : m'.pool = m.pool)
    (hh3 : (m'.task t).h3 = (m.task t).h3) : Room P m' t s' := fun _ _ hworker => by
  rw [State.jobs_of_pool hpool]
  exact h hs hheld (hh3 ▸ hworker)

/-- A job that is sent is one more with the pool. -/
theorem Jobs.runWorkerAction (h : Jobs P m) (hroom : Room P m t .workerAction)
    (hm : m.runWorkerAction t = some m') : Jobs P m' := by
  obtain ⟨hworker, pool, hpost, rfl⟩ | ⟨-, rfl⟩ := State.runWorkerAction_cases hm
  · obtain ⟨hperm, hcapacity, -⟩ := ThreadPool.post_spec hpost
    have hlen := hperm.length_eq
    have hlt := hroom rfl (State.heldAt_of_ne m (by simp) (by simp)) hworker
    have hcount := h.count
    simp only [State.jobs, List.length_append] at hlt hcount
    refine ⟨?_, ?_, hcapacity.trans h.capacity, h.size⟩ <;>
      simp only [State.jobs, List.length_append, hlen, List.length_cons] <;> omega
  · exact h

/-- **A job that is sent finds its room**. -/
theorem Jobs.runWorkerAction_isSome (h : Jobs P m) (hroom : Room P m t .workerAction) :
    (m.runWorkerAction t).isSome := by
  unfold State.runWorkerAction
  split
  · rename_i hworker
    have hlt := hroom rfl (State.heldAt_of_ne m (by simp) (by simp)) hworker
    rw [Option.isSome_map]
    refine ThreadPool.post_isSome t ?_
    rw [h.capacity]
    simp only [State.jobs, List.length_append] at hlt
    omega
  · rfl

/-- A task that is not refused has room for its job. -/
theorem room_checkThreadPoolOverflow (h : Jobs P m) :
    Room P (m.checkThreadPoolOverflow P t) t .preAction := by
  intro _ hheld hworker
  rw [State.jobs_of_pool (State.pool_checkThreadPoolOverflow P)]
  unfold State.checkThreadPoolOverflow at hheld hworker
  split at hheld
  · rw [State.heldAt_preAction, State.respondAndDie_task, if_pos rfl, Task.answered_status,
      State.setLastStatus, State.modify_task_self, if_pos rfl] at hheld
    cases hheld
  · rename_i hfull
    rw [if_neg hfull] at hworker
    have hcount := h.count
    have hle := h.le
    have : m.cntJobSent - m.cntJobDone ≠ P.threadPoolInputSize := fun e => hfull ⟨hworker, e⟩
    omega

/-- **The accounts of the pool are kept** by each row of the state machine. -/
theorem Jobs.perform [DecidableEq κ] {s target : StateMachine.State} {a : Option Action}
    {o : Option (Outcome υ)} (h : Jobs P m) (hroom : Room P m t s)
    (hrow : StateMachine.process s (m.task t).status (m.task t).h3 = some (a, target))
    (hm : a.elim (some m) (m.perform P t o) = some m') : Jobs P m' ∧ Room P m' t target := by
  -- only the action of `workerAction` sends a job
  have hpool (ha : a ≠ some .runWorkeraction) : m'.pool = m.pool := State.pool_elim P ha hm
  cases s with
  | execute =>
    rw [process_execute] at hrow
    cases hrow
    cases hm
    -- the overflow check leaves room for one job, or makes the task busy
    exact ⟨h.of_pool (by simp), room_checkThreadPoolOverflow h⟩
  | preAction =>
    obtain ⟨-, rfl, rfl⟩ | ⟨hst, rfl, rfl⟩ := process_preAction_cases hrow
    · cases hm
      exact ⟨h, room_of_not_beforeJob rfl⟩
    · refine ⟨h.of_pool (hpool (by simp)), hroom.of_pool rfl ?_ (hpool (by simp)) ?_⟩
      · rw [State.heldAt_preAction, if_neg hst]
      · exact State.h3_runPreAction hm
  | chkPreAction =>
    have hheld : m.heldAt t .chkPreAction = some t := State.heldAt_of_ne m (by simp) (by simp)
    obtain ⟨-, rfl, rfl⟩ | ⟨rfl, htarget⟩ | ⟨-, ha, rfl⟩ := process_chkPreAction_cases hrow
    · cases hm
      refine ⟨h.of_pool (hpool (by simp)), hroom.of_pool rfl hheld (hpool (by simp)) ?_⟩
      rw [State.respondAndDie_task, if_pos rfl, Task.answered_h3]
    · cases hm
      exact ⟨h, hroom.of_pool rfl hheld rfl rfl⟩
    · rcases ha with rfl | rfl <;> exact ⟨h.of_pool (hpool (by simp)), room_of_not_beforeJob rfl⟩
  | workerAction =>
    rw [process_workerAction] at hrow
    cases hrow
    exact ⟨h.runWorkerAction hroom hm, room_of_not_beforeJob rfl⟩
  | chkWorkerAction =>
    rw [process_chkWorkerAction] at hrow
    cases hrow
    cases hm
    refine ⟨h, room_of_not_beforeJob ?_⟩
    split <;> rfl
  | workerActionDone =>
    have hheld : m.heldAt t .workerActionDone = some t := State.heldAt_of_ne m (by simp) (by simp)
    obtain ⟨-, rfl, rfl⟩ | ⟨rfl, rfl⟩ := process_workerActionDone_cases hrow
    · cases hm
      refine ⟨h.of_pool (hpool (by simp)), hroom.of_pool rfl hheld (hpool (by simp)) ?_⟩
      rw [State.respondAndDie_task, if_pos rfl, Task.answered_h3]
    · cases hm
      exact ⟨h, room_of_not_beforeJob rfl⟩
  | postAction =>
    rw [process_postAction] at hrow
    cases hrow
    exact ⟨h.of_pool (hpool (by simp)), room_of_not_beforeJob rfl⟩
  | chkPostAction =>
    obtain ⟨-, rfl, rfl⟩ | ⟨-, rfl, rfl⟩ | ⟨-, rfl, rfl⟩ | ⟨-, rfl | rfl, rfl⟩ | ⟨-, rfl, rfl⟩ :=
      process_chkPostAction_cases hrow
    all_goals exact ⟨h.of_pool (hpool (by simp)), room_of_not_beforeJob rfl⟩
  | again => rw [process_again] at hrow; cases hrow
  | exit => rw [process_exit] at hrow; cases hrow

end TaskManager
