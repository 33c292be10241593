/-
# Runs of the task manager

What holds in every state that the event loop comes to.

* `tasks_conserved`: a live task is in one place, a client gets one answer, and the counters count
  the clients that are still there;
* `jobs_conserved`: the pool has room for every job that it is given, and for its result.
-/
import GraftSupernode.TableComplete

open StateMachine

namespace TaskManager

variable {υ κ : Type*} [LinearOrder υ] [Fintype κ]

/-- Where a task can be. -/
inductive Place
  | dispatch
  | pool
  | upstream
  | postponed
  | ready
  | timer
  deriving DecidableEq, Repr

/-- How often the task `t` is at a place: in a dispatch, with the pool (sent and not done), with
the upstream manager (in flight or queued), in `m_postponedTasks`, in `m_readyToResume`, in
`m_timerList`. -/
def Looper.occurrences (P : Params υ κ) (l : Looper υ κ) (t : ℕ) : Place → ℕ
  | .dispatch => l.held.toList.count t
  | .pool => l.manager.jobs.count t
  | .upstream => l.manager.upstreams t
  | .postponed => (l.manager.postponedTasks (P.uuid t)).toList.count t
  | .ready => l.manager.readyToResume.count t
  | .timer => l.manager.timerList.count t

variable {P : Params υ κ} {l : Looper υ κ} {t : ℕ}

/-- **A task that has not ended is in one place**, once. -/
theorem Conserved.exists_place (h : Conserved P l) (hself : (l.manager.task t).self = true) :
    ∃ p, l.occurrences P t p = 1 ∧ ∀ q ≠ p, l.occurrences P t q = 0 := by
  have hplaces := h.placed.places t
  rw [hself, Bool.toNat_true, State.stored] at hplaces
  have hone : l.occurrences P t .dispatch = 1 ∨ l.occurrences P t .pool = 1 ∨
      l.occurrences P t .upstream = 1 ∨ l.occurrences P t .postponed = 1 ∨
      l.occurrences P t .ready = 1 ∨ l.occurrences P t .timer = 1 := by
    simp only [Looper.occurrences]
    omega
  obtain hp | hp | hp | hp | hp | hp := hone
  all_goals
    refine ⟨_, hp, fun q hq => ?_⟩
    cases q <;> simp only [Looper.occurrences, ne_eq, not_true_eq_false] at hp hq ⊢ <;> omega

/-- A task that has ended is nowhere. -/
theorem Conserved.no_place (h : Conserved P l) (hself : (l.manager.task t).self = false)
    (p : Place) : l.occurrences P t p = 0 := by
  have hplaces := h.placed.places t
  rw [hself, Bool.toNat_false, State.stored] at hplaces
  cases p <;> simp only [Looper.occurrences] <;> omega

variable [DecidableEq κ]

theorem Conserved.exec_of (h : Conserved P l) (es : List (Event υ κ)) :
    Conserved P (Runs.exec (Looper.step P) l es) :=
  Runs.exec_of_step (fun _ e h => h.step e) h es

theorem Conserved.exec (es : List (Event υ κ)) :
    Conserved P (Runs.exec (Looper.step P) (Looper.init P) es) := .exec_of .init es

/-- **Tasks are conserved** in every run whose handlers answer, and in which no pre-action returns
`Again`. -/
theorem tasks_conserved {es : List (Event υ κ)}
    (hes : Runs.Along (Looper.step P) (fun l e => Answers P l e ∧ NoPreAgain l e)
      (Looper.init P) es) :
    let l := Runs.exec (Looper.step P) (Looper.init P) es
    let m := l.manager
    l.terminated = false ∧
      -- a live task is in one place, and one that has ended is nowhere
      (∀ t, (m.task t).self = true →
        ∃ p, l.occurrences P t p = 1 ∧ ∀ q ≠ p, l.occurrences P t q = 0) ∧
      (∀ t, (m.task t).self = false → ∀ p, l.occurrences P t p = 0) ∧
      (∀ t, 0 < l.occurrences P t .timer → (m.task t).kind = .periodic) ∧
      (∀ u t, m.postponedTasks u = some t → u = P.uuid t) ∧
      -- a client task
      (∀ t, m.log.countP (Note.isRespond t) ≤ 1) ∧
      (∀ t, (m.task t).kind = .client →
        m.log.countP (Note.isClientDone t) = if (m.task t).self then 0 else 1) ∧
      (∀ t st, .clientDone t st ∈ m.log → st ≠ .again) ∧
      (m.log.Pairwise fun later earlier =>
        ∀ t, later.isHandler t = true → earlier.isClientDone t = false) ∧
      m.cntBaseTask - m.cntBaseTaskDone = m.liveClients.card ∧
      -- a periodic task
      ∀ t < m.created, (m.task t).kind = .periodic → (m.task t).self = false →
        (m.task t).status = .stop := by
  have h := Conserved.exec (P := P) es
  refine ⟨(dispatch_completes hes).1, fun t => h.exists_place, fun t => h.no_place,
    fun t ht => h.placed.timerKind t (List.count_pos_iff.mp ht), h.placed.postponed,
    fun t => (Nat.le_add_right _ _).trans (h.books.responses t), fun t hkind => ?_,
    h.books.status, h.books.handlers, ?_, h.books.stopped⟩
  · have hdone := h.books.done t hkind
    split
    · rename_i hself
      rw [hself, Bool.toNat_true] at hdone
      omega
    · rename_i hself
      rw [Bool.not_eq_true] at hself
      rwa [hself] at hdone
  · have hcounters := h.books.counters
    omega

/-- A client that is answered with `Ok`. -/
theorem tasks_conserved_ok : (Runs.exec (Looper.step smallParams) (Looper.init smallParams)
    (requestRun ⟨true, false, false⟩ (List.replicate 8 .ok))).terminated = false := by
  refine (tasks_conserved (P := smallParams) ?_).1
  refine along_requestRun (fun l => ⟨.inl rfl, trivial⟩) fun l st hst => ?_
  cases List.eq_of_mem_replicate hst
  exact ⟨answers_returns l (by simp [Status.IsAnswer]), by simp [NoPreAgain, Outcome.returns]⟩

/-! ## The thread pool -/

/-- A job is sent: the dispatch is at the worker action of a task that has one. -/
def Looper.sends (l : Looper υ κ) (t : ℕ) : Prop :=
  (l.manager.task t).h3.workerAction = true ∧
    ∃ after, l.phase = .dispatching t .workerAction after

omit [Fintype κ] in
@[simp] theorem Looper.pool_finish (m : State υ κ) (after : After κ) :
    (l.finish P m after).manager.pool = m.pool := by
  cases after <;> rfl

omit [Fintype κ] in
/-- Between two dispatches the pool changes when a result is taken. -/
theorem Looper.pool_idleStep {e : Event υ κ} (he : e ≠ .jobReady) :
    (l.idleStep P e).manager.pool = l.manager.pool := by
  cases e with
  | jobReady => exact absurd rfl he
  | upstreamReply i reply =>
    simp only [idleStep]
    split
    · rfl
    · unfold upstreamDone
      dsimp only
      split
      · exact pool_finish _ _
      · exact (pool_finish _ _).trans (State.pool_respondAndDie P _ _)
      · split
        · rfl
        · exact pool_finish _ _
  | checkUpstreamBlocking n output =>
    simp only [idleStep]
    split
    · rfl
    · rename_i m hm
      obtain ⟨um, -, rfl⟩ := Option.map_eq_some_iff.mp hm
      rfl
  | timer t =>
    simp only [idleStep]
    split <;> rfl
  | resume =>
    simp only [idleStep]
    split <;> rfl
  | expire =>
    simp only [idleStep]
    split
    · exact State.pool_expireTasks P _
    · rfl
  | _ => rfl

omit [Fintype κ] in
/-- A row sends a job, or leaves the pool as it is. -/
theorem Looper.jobs_process {s : StateMachine.State} {after : After κ}
    (hphase : l.phase = .dispatching t s after) (hnot : ¬ l.sends t) (o : Option (Outcome υ)) :
    (l.process P t s after o).manager.jobs = l.manager.jobs := by
  unfold process
  split
  · rfl
  · rename_i a target hrow
    split
    · rfl
    · rename_i m hm
      have hjobs : (if target = .exit then l.finish P m after
          else l.dispatch m t target after).manager.jobs = m.jobs := by
        split
        · exact State.jobs_of_pool (pool_finish m after)
        · rfl
      rw [hjobs]
      by_cases ha : a = some .runWorkeraction
      · subst ha
        cases start_runWorkeraction hrow
        obtain ⟨hworker, -⟩ | ⟨-, rfl⟩ := State.runWorkerAction_cases hm
        · exact absurd ⟨hworker, after, hphase⟩ hnot
        · rfl
      · exact State.jobs_of_pool (State.pool_elim P ha hm)

/-- **An accepted job is posted and counted.** -/
theorem Conserved.send (h : Conserved P l) (hlive : l.terminated = false) (hsends : l.sends t)
    (o : Option (Outcome υ)) :
    let m' := (l.step P (.process o)).manager
    l.manager.threadPool.post t = some m'.threadPool ∧
      m'.cntJobSent = l.manager.cntJobSent + 1 ∧ m'.cntJobDone = l.manager.cntJobDone ∧
        m'.jobs.Perm (t :: l.manager.jobs) := by
  obtain ⟨hworker, after, hphase⟩ := hsends
  have hroom := h.jobs.runWorkerAction_isSome (h.dispatch t _ after hphase).room
  rw [State.runWorkerAction, if_pos hworker, Option.isSome_map] at hroom
  obtain ⟨pool, hpool⟩ := Option.isSome_iff_exists.mp hroom
  have hstep : (l.step P (.process o)).manager
      = { l.manager with cntJobSent := l.manager.cntJobSent + 1, threadPool := pool } := by
    simp only [Looper.step, hlive, Bool.false_eq_true, if_false, hphase, Looper.process,
      process_workerAction, Option.elim, State.perform, State.runWorkerAction, hworker, if_true,
      hpool, Option.map_some]
    rfl
  dsimp only
  rw [hstep]
  exact ⟨hpool, rfl, rfl, ((ThreadPool.post_spec hpool).1.append_right _).append_right _⟩

/-- **No job is lost**: an event that sends none moves jobs within the pool, or takes one whose
result is there. -/
theorem Conserved.jobs_step (h : Conserved P l) {e : Event υ κ}
    (hnot : ∀ t o, e = .process o → ¬ l.sends t) :
    (l.step P e).manager.jobs.Perm l.manager.jobs ∨
      ∃ t, e = .jobReady ∧ l.manager.jobs.Perm (t :: (l.step P e).manager.jobs) ∧
        (l.step P e).phase = .dispatching t .workerActionDone .done := by
  unfold Looper.step
  split
  · exact .inl (.refl _)
  · split
    · exact .inl (.refl _)
    · exact .inl (.refl _)
    · split
      · exact .inl (h.jobs.workerStart _).2
      · exact .inl (.refl _)
    · split
      · rename_i ht
        split
        · exact .inl (.refl _)
        · rename_i hm
          exact .inl (h.jobs.workerDone ht hm).2.1
      · exact .inl (.refl _)
    · split
      · exact .inl (.refl _)
      · rename_i hphase
        exact .inl (.of_eq (Looper.jobs_process hphase (hnot _ _ rfl) _))
    · split
      · by_cases he : e = .jobReady
        · subst he
          simp only [Looper.idleStep]
          split
          · exact .inl (.refl _)
          · rename_i t resQueue hres
            refine .inr ⟨t, trivial, ?_, rfl⟩
            simp only [Looper.dispatch, State.jobs, (BoundedQueue.pop_eq_some hres).1]
            exact List.perm_middle
        · exact .inl (by rw [State.jobs_of_pool (Looper.pool_idleStep he)])
      · exact .inl (.refl _)

/-- **The limit**: at the start of a dispatch a task that has a worker action becomes `Busy`, and
is answered so, if the limit is reached; else nothing happens. -/
theorem Conserved.busy_iff (h : Conserved P l) (hlive : l.terminated = false) {after : After κ}
    (hphase : l.phase = .dispatching t .execute after)
    (hworker : (l.manager.task t).h3.workerAction = true) (o : Option (Outcome υ)) :
    let m := l.manager
    let m' := (l.step P (.process o)).manager
    ((m'.task t).status = .busy ↔ m.cntJobSent - m.cntJobDone = P.threadPoolInputSize) ∧
      m'.log = (if m.cntJobSent - m.cntJobDone = P.threadPoolInputSize
        then (m.setLastStatus t .busy).replies t "Thread pool overflow" else []) ++ m.log := by
  have hstep : (l.step P (.process o)).manager = l.manager.checkThreadPoolOverflow P t := by
    simp only [Looper.step, hlive, Bool.false_eq_true, if_false, hphase, Looper.process,
      process_execute, Option.elim, State.perform]
    rfl
  have hstatus := (h.dispatch t _ after hphase).busy rfl
  dsimp only
  rw [hstep]
  unfold State.checkThreadPoolOverflow
  by_cases hfull : l.manager.cntJobSent - l.manager.cntJobDone = P.threadPoolInputSize
  · rw [if_pos ⟨hworker, hfull⟩, if_pos hfull]
    refine ⟨iff_of_true ?_ hfull, ?_⟩
    · rw [State.respondAndDie_task, if_pos rfl, Task.answered_status, State.setLastStatus,
        State.modify_task_self]
    · rw [State.respondAndDie_eq]
      rfl
  · rw [if_neg fun hcond => hfull hcond.2, if_neg hfull]
    exact ⟨iff_of_false hstatus hfull, rfl⟩

omit [DecidableEq κ] in
/-- A result is put into the result queue. -/
theorem Conserved.push_result (h : Conserved P l) (ht : t ∈ l.manager.running) (o : Outcome υ) :
    ∃ m, l.manager.workerDone t (some o) = some m ∧
      m.resQueue.items = l.manager.resQueue.items ++ [t] := by
  obtain ⟨resQueue, hpush⟩ : ∃ resQueue, l.manager.resQueue.push t = some resQueue := by
    by_contra hnone
    push Not at hnone
    exact h.jobs.resQueue_not_full ht
      (BoundedQueue.push_eq_none.mp (Option.eq_none_iff_forall_ne_some.mpr hnone))
  refine ⟨_, rfl, ?_⟩
  dsimp only [State.modify, State.note]
  rw [hpush]
  exact (BoundedQueue.push_eq_some hpush).1

/-- **The pool has room** in every state that the loop comes to, whatever the workers do: for the
jobs that are sent, and for their results. -/
theorem jobs_conserved (es : List (Event υ κ)) :
    let l := Runs.exec (Looper.step P) (Looper.init P) es
    let m := l.manager
    m.cntJobDone ≤ m.cntJobSent ∧ m.cntJobSent - m.cntJobDone ≤ P.threadPoolInputSize ∧
      -- what has been accepted is with the pool until its result is taken
      m.cntJobSent - m.cntJobDone = m.jobs.length ∧
      -- an accepted job is posted and counted, and no other event loses or adds one
      (∀ t o, l.terminated = false → l.sends t →
        let m' := (l.step P (.process o)).manager
        m.threadPool.post t = some m'.threadPool ∧ m'.cntJobSent = m.cntJobSent + 1 ∧
          m'.cntJobDone = m.cntJobDone ∧ m'.jobs.Perm (t :: m.jobs)) ∧
      (∀ e, (∀ t o, e = .process o → ¬ l.sends t) →
        (l.step P e).manager.jobs.Perm m.jobs ∨
          ∃ t, e = .jobReady ∧ m.jobs.Perm (t :: (l.step P e).manager.jobs) ∧
            (l.step P e).phase = .dispatching t .workerActionDone .done) ∧
      -- the pushes of the results
      (∀ t ∈ m.running, ∀ o, ∃ m', m.workerDone t (some o) = some m' ∧
        m'.resQueue.items = m.resQueue.items ++ [t]) ∧
      -- the refusals
      ∀ t after o, l.terminated = false → l.phase = .dispatching t .execute after →
        (m.task t).h3.workerAction = true →
        let m' := (l.step P (.process o)).manager
        ((m'.task t).status = .busy ↔ m.cntJobSent - m.cntJobDone = P.threadPoolInputSize) ∧
          m'.log = (if m.cntJobSent - m.cntJobDone = P.threadPoolInputSize
            then (m.setLastStatus t .busy).replies t "Thread pool overflow" else []) ++ m.log := by
  have h := Conserved.exec (P := P) es
  have hcount := h.jobs.count
  have hle := h.jobs.le
  exact ⟨by omega, by omega, by omega, fun t o hlive hsends => h.send hlive hsends o,
    fun e hnot => h.jobs_step hnot, fun t ht o => h.push_result ht o,
    fun t after o hlive hphase hworker => h.busy_iff hlive hphase hworker o⟩

end TaskManager
