/-
# Tasks are conserved

No run of the event loop loses a task or doubles one.  The parts are put together here: where the
tasks are (`Placed`), the jobs of the pool (`Jobs`), and what is seen of the tasks (`Books`).
`Conserved` is their conjunction for the loop, with what a dispatch relies on (`Dispatch`);
every event keeps it (`Conserved.step`).
-/
import GraftSupernode.TaskBooks
import GraftSupernode.TaskJobs

open StateMachine

namespace TaskManager

variable {υ κ : Type*} [LinearOrder υ] [Fintype κ]
variable (P : Params υ κ) {m m' : State υ κ} {t : ℕ} {s : StateMachine.State}

/-! ## What a dispatch relies on -/

/-- A dispatch in the state `s` has room for the job it may send; it starts with a task that is
not `Busy`; and the task at the pre-action has no job. -/
structure Dispatch (m : State υ κ) (t : ℕ) (s : StateMachine.State) : Prop where
  room : Room P m t s
  busy : s = .execute → (m.task t).status ≠ .busy
  created : t < m.created
  preAction : s = .preAction → t ∉ m.jobs

variable {P}

omit [Fintype κ] in
/-- **What happens in the background** of a dispatch does not concern it. -/
theorem Dispatch.background (h : Dispatch P m t s) (hh3 : (m'.task t).h3 = (m.task t).h3)
    (hstatus : (m'.task t).status = (m.task t).status ∨ s ≠ .execute ∧ s ≠ .preAction)
    (hcreated : m.created ≤ m'.created) (hlen : m'.jobs.length ≤ m.jobs.length)
    (hjobs : t ∈ m'.jobs → t ∈ m.jobs) :
    Dispatch P m' t s ∧ m'.heldAt t s = m.heldAt t s := by
  have hheld : m'.heldAt t s = m.heldAt t s := by
    rcases hstatus with hst | ⟨-, hpre⟩
    · simp only [State.heldAt, hh3, hst]
    · simp [State.heldAt, hh3, hpre]
  refine ⟨⟨fun hs hsome hworker => ?_, fun hs => ?_, h.created.trans_le hcreated,
    fun hs => mt hjobs (h.preAction hs)⟩, hheld⟩
  · exact hlen.trans_lt (h.room hs (hheld ▸ hsome) (hh3 ▸ hworker))
  · rcases hstatus with hst | ⟨hne, -⟩
    · rw [hst]
      exact h.busy hs
    · exact absurd hs hne

theorem Placed.not_mem_jobs (h : Placed P (some t) m) : t ∉ m.jobs := by
  have := h.stored_hand
  rw [← List.count_eq_zero]
  simp only [State.stored] at this
  omega

omit [Fintype κ] in
@[simp] theorem State.created_respondAndDie (body : String) (die : Bool) :
    (m.respondAndDie P t body die).created = m.created := by
  rw [respondAndDie_eq]

omit [Fintype κ] in
theorem State.created_perform [DecidableEq κ] {a : Action} {o : Option (Outcome υ)}
    (hm : m.perform P t o a = some m') : m'.created = m.created := by
  cases performed P hm with
  | rest | called | posted | sent => rfl
  | overflow => exact created_respondAndDie _ _
  | answered => exact created_respondAndDie _ _
  | ok =>
    refine (created_respondAndDie _ _).trans ?_
    unfold resumeNext
    dsimp only
    split
    · rfl
    · split <;> rfl
  | postponed =>
    unfold postponeTask
    dsimp only
    split <;> rfl

/-- **One row of the state machine** keeps what the dispatch relies on. -/
theorem Dispatch.perform [DecidableEq κ] {target : StateMachine.State} {a : Option Action}
    {o : Option (Outcome υ)} (h : Dispatch P m t s) (hplaced : Placed P (m.heldAt t s) m)
    (hroom : Room P m' t target)
    (hrow : StateMachine.process s (m.task t).status (m.task t).h3 = some (a, target))
    (hm : a.elim (some m) (m.perform P t o) = some m') : Dispatch P m' t target := by
  refine ⟨hroom, fun htarget => absurd htarget (target_ne_execute hrow), ?_, ?_⟩
  · cases a with
    | none =>
      cases hm
      exact h.created
    | some a =>
      rw [State.created_perform hm]
      exact h.created
  · rintro rfl
    have hheld : m.heldAt t s = some t := by
      rcases target_preAction hrow with ⟨rfl, -⟩ | ⟨rfl, -⟩ <;>
        exact State.heldAt_of_ne m (by simp) (by simp)
    rw [hheld] at hplaced
    have hpool : m'.pool = m.pool := by
      rcases target_preAction hrow with ⟨-, rfl⟩ | ⟨-, rfl⟩ <;>
        exact State.pool_elim P (by simp) hm
    rw [State.jobs_of_pool hpool]
    exact hplaced.not_mem_jobs

/-- **One row of the state machine** keeps the books. -/
theorem Books.perform [DecidableEq κ] {target : StateMachine.State} {a : Option Action}
    {o : Option (Outcome υ)} (h : Books m) (hplaced : Placed P (m.heldAt t s) m)
    (hrow : StateMachine.process s (m.task t).status (m.task t).h3 = some (a, target))
    (hm : a.elim (some m) (m.perform P t o) = some m') : Books m' := by
  -- a task in hand is alive
  have hself (hpre : s ≠ .preAction) (hchk : s ≠ .chkWorkerAction) :
      (m.task t).self = true := by
    rw [State.heldAt_of_ne m hpre hchk] at hplaced
    exact hplaced.self_hand
  cases s with
  | execute =>
    rw [process_execute] at hrow
    cases hrow
    cases hm
    unfold State.checkThreadPoolOverflow
    split
    · -- an overflow answers the task with the status `busy`
      have hbusy : Books (m.setLastStatus t .busy) :=
        h.modify rfl rfl le_rfl (.inr (hself (by simp) (by simp)))
      refine hbusy.respondAndDie ?_ _ ?_
      · simpa [State.setLastStatus] using hself (by simp) (by simp)
      · simp [State.setLastStatus]
    · exact h
  | preAction =>
    obtain ⟨-, rfl, rfl⟩ | ⟨hst, rfl, rfl⟩ := process_preAction_cases hrow
    · cases hm
      exact h
    · rw [State.heldAt_preAction, if_neg hst] at hplaced
      exact h.runPreAction hplaced.self_hand hm
  | chkPreAction =>
    have hself := hself (by simp) (by simp)
    obtain ⟨hst, rfl, rfl⟩ | ⟨rfl, -⟩ | ⟨hst, rfl | rfl, rfl⟩ := process_chkPreAction_cases hrow
    all_goals cases hm
    · exact h.respondAndDie hself _ (by simp [hst])
    · exact h
    · exact h.respondAndDie hself _ (by simp [hst])
    · exact h.respondAndDie hself _ (by simp [hst])
  | workerAction =>
    rw [process_workerAction] at hrow
    cases hrow
    obtain ⟨-, pool, -, rfl⟩ | ⟨-, rfl⟩ := State.runWorkerAction_cases hm
    · exact h.of_eq rfl rfl rfl rfl rfl
    · exact h
  | chkWorkerAction =>
    rw [process_chkWorkerAction] at hrow
    cases hrow
    cases hm
    exact h
  | workerActionDone =>
    have hself := hself (by simp) (by simp)
    obtain ⟨hst, rfl, rfl⟩ | ⟨rfl, rfl⟩ := process_workerActionDone_cases hrow
    all_goals cases hm
    · exact h.respondAndDie hself _ (by simp [hst])
    · exact h
  | postAction =>
    rw [process_postAction] at hrow
    cases hrow
    exact h.runPostAction (hself (by simp) (by simp)) hm
  | chkPostAction =>
    have hself := hself (by simp) (by simp)
    -- each row answers at most once, and lets the task die unless it says `Again`
    obtain ⟨hst, rfl, rfl⟩ | ⟨hst, rfl, rfl⟩ | ⟨hst, rfl, rfl⟩ | ⟨hst, rfl | rfl, rfl⟩ |
      ⟨hst, rfl, rfl⟩ := process_chkPostAction_cases hrow
    · cases hm
      exact h.respondAndDie hself _ (by simp [hst])
    · obtain ⟨um, -, rfl⟩ := Option.map_eq_some_iff.mp hm
      exact h.of_eq rfl rfl rfl rfl rfl
    all_goals cases hm
    · exact h.processOk hself (by simp [hst])
    · exact h.respondAndDie hself _ (by simp [hst])
    · exact h.respondAndDie hself _ (by simp [hst])
    · exact h.postponeTask t
  | again => rw [process_again] at hrow; cases hrow
  | exit => rw [process_exit] at hrow; cases hrow

theorem State.stored_pos_of_postponed (h : m.postponedTasks (P.uuid t) = some t) :
    0 < m.stored P t := by
  simp only [stored, h, Option.toList_some, List.count_singleton_self]
  omega

/-- The tasks that expire are still there. -/
theorem Books.expireTasks (fuel : ℕ) (h : Books m) (hplaced : Placed P none m) :
    Books (m.expireTasks P fuel) := by
  refine (State.expireTasks_invariant P (I := fun m => Books m ∧ Placed P none m)
    (fun m u t h hpost => ?_) (fun m q h => ?_) fuel ⟨h, hplaced⟩).1
  · obtain ⟨hbooks, hplaced⟩ := h
    rw [hplaced.postponed u t hpost] at hpost
    exact ⟨hbooks.expireTask (hplaced.self_of_stored (State.stored_pos_of_postponed hpost)),
      hplaced.expireTask hpost⟩
  · obtain ⟨hbooks, h⟩ := h
    exact ⟨hbooks.of_eq rfl rfl rfl rfl rfl, h.places, h.fresh, h.postponed, h.postponedStatus,
      h.readyStatus, h.upstreamStatus, h.timerKind⟩

/-! ## The loop -/

/-- The task that is in hand. -/
def Looper.held (l : Looper υ κ) : Option ℕ :=
  match l.phase with
  | .idle => none
  | .dispatching t s _ => l.manager.heldAt t s

variable (P) in
/-- **The invariant of the loop**. -/
structure Conserved (l : Looper υ κ) : Prop where
  placed : Placed P l.held l.manager
  books : Books l.manager
  jobs : Jobs P l.manager
  dispatch : ∀ t s after, l.phase = .dispatching t s after → Dispatch P l.manager t s

namespace Conserved

variable {l : Looper υ κ} {after : After κ}

theorem init : Conserved P (Looper.init P) where
  placed := by
    refine ⟨fun t => ?_, fun _ _ => rfl, fun _ _ h => ?_, fun _ h => ?_, fun _ h => ?_,
      fun t h => ?_, fun _ h => ?_⟩
    · simp [State.stored, State.jobs, State.upstreams, Looper.init, State.init, Looper.held,
        Task.absent]
    · cases h
    · cases h
    · cases h
    · simp [State.upstreams, Looper.init, State.init] at h
    · cases h
  books := by
    refine ⟨fun _ => Nat.zero_le _, fun _ h => ?_, fun _ _ => rfl, fun _ _ h => ?_, .nil,
      fun _ h => absurd h (Nat.not_lt_zero _), rfl, fun _ _ => ⟨rfl, rfl⟩⟩ <;> cases h
  jobs := ⟨by simp [State.jobs, Looper.init, State.init], by simp [State.jobs, Looper.init,
    State.init], ThreadPool.capacity_init _ _, rfl⟩
  dispatch _ _ _ h := by cases h

theorem placed_of_dispatching (h : Conserved P l) (hphase : l.phase = .dispatching t s after) :
    Placed P (l.manager.heldAt t s) l.manager := by
  have := h.placed
  rwa [Looper.held, hphase] at this

/-- A dispatch that acts has its task in hand. -/
theorem hand_of_action (h : Conserved P l) (hphase : l.phase = .dispatching t s after)
    {a : Action} {target : StateMachine.State}
    (hrow : StateMachine.process s (l.manager.task t).status (l.manager.task t).h3
      = some (some a, target)) : Placed P (some t) l.manager := by
  rw [← State.heldAt_of_action hrow]
  exact h.placed_of_dispatching hphase

/-- A dispatch lets its task go when it has been sent to the pool, or answered because the pool is
full. -/
theorem hand_of_ne (h : Conserved P l) (hphase : l.phase = .dispatching t s after)
    (hpre : s ≠ .preAction) (hchk : s ≠ .chkWorkerAction) : Placed P (some t) l.manager := by
  rw [← State.heldAt_of_ne l.manager hpre hchk]
  exact h.placed_of_dispatching hphase

/-- A dispatch is over: nothing is in hand. -/
theorem finish [DecidableEq κ] (hplaced : Placed P none m) (hbooks : Books m) (hjobs : Jobs P m) :
    Conserved P (l.finish P m after) := by
  cases after with
  | done => exact ⟨hplaced, hbooks, hjobs, fun _ _ _ h => by cases h⟩
  | next sender client =>
    refine ⟨hplaced.upstream fun t => ?_, hbooks.of_eq rfl rfl rfl rfl rfl, hjobs.of_pool rfl,
      fun _ _ _ h => by cases h⟩
    exact UpstreamManager.holds_next _ _ _ _ _ _ _

/-- A dispatch starts with a task that has been taken up. -/
theorem dispatch_start (hplaced : Placed P (some t) m) (hbooks : Books m) (hjobs : Jobs P m)
    (hs : s = .execute ∧ (m.task t).status ≠ .busy ∨
      s = .workerActionDone ∧ m.jobs.length < P.threadPoolInputSize) :
    Conserved P (l.dispatch m t s after) := by
  have hheld : m.heldAt t s = some t := by
    rcases hs with ⟨rfl, -⟩ | ⟨rfl, -⟩ <;> exact State.heldAt_of_ne m (by simp) (by simp)
  refine ⟨?_, hbooks, hjobs, fun _ _ _ h => ?_⟩
  · show Placed P (m.heldAt t s) m
    rwa [hheld]
  · cases h
    refine ⟨fun hbefore _ _ => ?_, fun he => ?_, ?_, fun he => ?_⟩
    · rcases hs with ⟨rfl, -⟩ | ⟨-, hroom⟩
      · cases hbefore
      · exact hroom
    · rcases hs with ⟨-, hbusy⟩ | ⟨rfl, -⟩
      · exact hbusy
      · cases he
    · by_contra hle
      have := hplaced.fresh t (not_lt.mp hle)
      rw [hplaced.self_hand] at this
      cases this
    · rcases hs with ⟨rfl, -⟩ | ⟨rfl, -⟩ <;> cases he

/-- **One row** of the state machine. -/
theorem process [DecidableEq κ] (h : Conserved P l) (hphase : l.phase = .dispatching t s after)
    (o : Option (Outcome υ)) : Conserved P (l.process P t s after o) := by
  have hplaced := h.placed_of_dispatching hphase
  have hdispatch := h.dispatch t s after hphase
  have hterminated : Conserved P { l with terminated := true } :=
    ⟨h.placed, h.books, h.jobs, h.dispatch⟩
  unfold Looper.process
  split
  · exact hterminated
  · rename_i a target hrow
    split
    · exact hterminated
    · rename_i m hm
      have hplaced' := hplaced.perform P hrow hdispatch.busy hm
      have hbooks' := h.books.perform hplaced hrow hm
      obtain ⟨hjobs', hroom'⟩ := h.jobs.perform hdispatch.room hrow hm
      split
      · rename_i hexit
        rw [if_pos hexit] at hplaced'
        exact finish hplaced' hbooks' hjobs'
      · rename_i hexit
        rw [if_neg hexit] at hplaced'
        refine ⟨hplaced', hbooks', hjobs', fun _ _ _ heq => ?_⟩
        cases heq
        exact hdispatch.perform hplaced hroom' hrow hm

/-- **What happens in the background**. -/
theorem background (hplaced : Placed P l.held m) (hbooks : Books m) (hjobs : Jobs P m)
    (hdispatch : ∀ t s after, l.phase = .dispatching t s after →
      Dispatch P m t s ∧ m.heldAt t s = l.manager.heldAt t s) :
    Conserved P { l with manager := m } := by
  refine ⟨?_, hbooks, hjobs, fun t s after hphase => (hdispatch t s after hphase).1⟩
  have hheld : Looper.held { l with manager := m } = l.held := by
    unfold Looper.held
    dsimp only
    split
    · rfl
    · rename_i t s after hphase
      exact (hdispatch t s after hphase).2
  rwa [hheld]

/-- The loop is idle. -/
theorem of_idle (hphase : l.phase = .idle) (hplaced : Placed P none m) (hbooks : Books m)
    (hjobs : Jobs P m) : Conserved P { l with manager := m } :=
  ⟨by rwa [Looper.held, hphase], hbooks, hjobs, fun _ _ _ heq => by rw [hphase] at heq; cases heq⟩

theorem placed_of_idle (h : Conserved P l) (hphase : l.phase = .idle) :
    Placed P none l.manager := by
  have := h.placed
  rwa [Looper.held, hphase] at this

/-- A worker has run a job. -/
theorem workerDone {o : Option (Outcome υ)} (h : Conserved P l) (ht : t ∈ l.manager.running)
    (hm : l.manager.workerDone t o = some m) : Conserved P { l with manager := m } := by
  have hmem : t ∈ l.manager.jobs := by
    simp only [State.jobs, List.mem_append]
    exact .inl (.inr ht)
  have hcount : 0 < l.manager.jobs.count t := List.count_pos_iff.mpr hmem
  have hstored : 0 < l.manager.stored P t := by
    simp only [State.stored]
    omega
  have hself := h.placed.self_of_stored hstored
  obtain ⟨hjobs, hperm, hcreated, hh3, htask⟩ := h.jobs.workerDone ht hm
  refine background (h.placed.workerDone ht (h.jobs.resQueue_not_full ht) hm)
    (h.books.workerDone hself hm) hjobs fun t' s after hphase => ?_
  have hdispatch := h.dispatch t' s after hphase
  by_cases heq : t' = t
  · -- the task has a job, so it is not in hand: the dispatch has just sent it
    subst heq
    have hnot : l.held ≠ some t' := fun hheld => by
      have := h.placed
      rw [hheld] at this
      exact this.not_mem_jobs hmem
    have hs : s ≠ .execute ∧ s ≠ .preAction := by
      refine ⟨?_, fun hs => hdispatch.preAction hs hmem⟩
      rintro rfl
      rw [Looper.held, hphase] at hnot
      exact hnot (State.heldAt_of_ne _ (by simp) (by simp))
    exact hdispatch.background hh3 (.inr hs) hcreated.ge hperm.length_eq.le hperm.mem_iff.mp
  · have htask' := htask t' heq
    exact hdispatch.background (by rw [htask']) (.inl (by rw [htask'])) hcreated.ge
      hperm.length_eq.le hperm.mem_iff.mp

/-- **A reply from upstream** answers the task, or starts it again. -/
theorem upstreamDone [DecidableEq κ] {i : ℕ} {sender : UpstreamSender SentTask κ}
    (h : Conserved P l) (hphase : l.phase = .idle)
    (hi : l.manager.upstreamManager.senders[i]? = some sender) (reply : Option Input) :
    Conserved P (l.upstreamDone P i sender reply) := by
  have hplaced := h.placed_of_idle hphase
  have htaken := hplaced.finishUpstream hi
  have hbooks : Books { l.manager with
      upstreamManager := l.manager.upstreamManager.finish i } := h.books.of_eq rfl rfl rfl rfl rfl
  have hjobs : Jobs P { l.manager with
      upstreamManager := l.manager.upstreamManager.finish i } := h.jobs.of_pool rfl
  unfold Looper.upstreamDone
  dsimp only
  split
  · rename_i n output _ hbt
    rw [hbt] at htaken
    exact finish (htaken.note _) (hbooks.note rfl) (hjobs.of_pool rfl)
  · rename_i t hbt
    rw [hbt] at htaken
    have herror := htaken.modify_hand (f := fun bt => { bt with status := .error }) rfl rfl
    have hbooks' := hbooks.modify (t := t) (f := fun bt => { bt with status := .error }) rfl rfl
      le_rfl (.inr htaken.self_hand)
    refine finish (herror.respondAndDie _ true) (hbooks'.respondAndDie herror.self_hand _ ?_)
      (hjobs.of_pool (State.pool_respondAndDie P _ _))
    rw [State.modify_task_self]
    simp
  · rename_i t input hbt
    rw [hbt] at htaken
    have hforward := hplaced.status_of_sent hi hbt
    have hreply := htaken.modify_hand (f := fun bt => { bt with input := input }) rfl rfl
    have hbooks' := hbooks.modify (t := t) (f := fun bt => { bt with input := input }) rfl rfl
      le_rfl (.inl rfl)
    split
    · refine dispatch_start hreply hbooks' (hjobs.of_pool rfl) (.inl ⟨rfl, ?_⟩)
      simp [State.setReply, State.modify, hforward]
    · rename_i hself
      exact absurd hreply.self_hand hself

/-- **The events of the IO thread**. -/
theorem idleStep [DecidableEq κ] (h : Conserved P l) (hphase : l.phase = .idle)
    (e : Event υ κ) : Conserved P (l.idleStep P e) := by
  have hplaced := h.placed_of_idle hphase
  cases e with
  | newClient h3 input =>
    -- a new task is dispatched from its start
    refine dispatch_start (hplaced.onNewClient h3 input) ?_ (h.jobs.of_pool rfl) (.inl ⟨rfl, ?_⟩)
    · exact h.books.create (b := .newClient h3 input) rfl rfl ⟨rfl, rfl, rfl, rfl⟩
    · simp [State.onNewClient, Task.newClient]
  | closeClient t =>
    exact of_idle hphase (hplaced.closeClient t) (h.books.closeClient t) (h.jobs.of_pool rfl)
  | timer t =>
    simp only [Looper.idleStep]
    split
    · rename_i ht
      have hhand := hplaced.onTimer ht
      -- a task that waits for its timer is alive
      have hself : (l.manager.task t).self = true := by
        refine hplaced.self_of_stored ?_
        have : 0 < l.manager.timerList.count t := List.count_pos_iff.mpr ht
        simp only [State.stored]
        omega
      refine dispatch_start hhand ?_ (h.jobs.of_pool rfl) (.inl ⟨rfl, ?_⟩)
      · have hbooks : Books { l.manager with timerList := l.manager.timerList.erase t } :=
          h.books.of_eq rfl rfl rfl rfl rfl
        exact hbooks.modify (f := fun bt => { bt with status := .none }) rfl rfl le_rfl
          (.inr hself)
      · simp [State.onTimer, State.setLastStatus]
    · exact h
  | checkUpstreamBlocking n output =>
    simp only [Looper.idleStep]
    split
    · exact ⟨h.placed, h.books, h.jobs, h.dispatch⟩
    · rename_i m hm
      obtain ⟨um, hsend, rfl⟩ := Option.map_eq_some_iff.mp hm
      refine of_idle hphase (hplaced.upstream fun t => ?_) (h.books.of_eq rfl rfl rfl rfl rfl)
        (h.jobs.of_pool rfl)
      simpa using UpstreamManager.holds_send P.upstream (SentTask.isBase t) hsend
  | jobReady =>
    simp only [Looper.idleStep]
    split
    · exact h
    · rename_i t resQueue hres
      obtain ⟨hitems, hsize⟩ := BoundedQueue.pop_eq_some hres
      -- the job that is taken over is one less for the pool
      have hlen : l.manager.jobs.length =
          (l.manager.threadPool.jobs ++ l.manager.running ++ resQueue.items).length + 1 := by
        rw [State.jobs, hitems]
        simp only [List.length_append, List.length_cons]
        omega
      have hcount := h.jobs.count
      have hle := h.jobs.le
      refine dispatch_start (hplaced.jobReady hres) (h.books.of_eq rfl rfl rfl rfl rfl)
        ⟨?_, ?_, h.jobs.capacity, hsize.trans h.jobs.size⟩ (.inr ⟨rfl, ?_⟩)
      all_goals simp only [State.jobs] at *; omega
  | upstreamReply i reply =>
    simp only [Looper.idleStep]
    split
    · exact h
    · rename_i sender hi
      exact h.upstreamDone hphase hi reply
  | closeIdle k client =>
    exact of_idle hphase (hplaced.upstream fun t => UpstreamManager.holds_closeIdle _ _ _ _)
      (h.books.of_eq rfl rfl rfl rfl rfl) (h.jobs.of_pool rfl)
  | resume =>
    simp only [Looper.idleStep]
    split
    · exact h
    · rename_i t readyToResume hready
      -- it goes on with the status that it was postponed with
      have hstatus := hplaced.readyStatus t (hready ▸ List.mem_cons_self)
      exact dispatch_start (hplaced.resume hready) (h.books.of_eq rfl rfl rfl rfl rfl)
        (h.jobs.of_pool rfl) (.inl ⟨rfl, by simp [hstatus]⟩)
  | expire =>
    simp only [Looper.idleStep]
    split
    · exact of_idle hphase (hplaced.expireTasks _) (h.books.expireTasks _ hplaced)
        (h.jobs.of_pool (by simp))
    · exact h
  | _ => exact h

/-- **Every event** keeps the invariant. -/
theorem step [DecidableEq κ] (h : Conserved P l) (e : Event υ κ) : Conserved P (l.step P e) := by
  unfold Looper.step
  split
  · exact h
  · split
    · rename_i d
      refine background (m := { l.manager with now := l.manager.now + d }) ?_
        (h.books.of_eq rfl rfl rfl rfl rfl) (h.jobs.of_pool rfl) fun t s after hphase => ?_
      · exact h.placed.move rfl rfl (fun _ => rfl) (fun _ _ => .inl) (fun _ => .inl)
          (fun _ => .inl) fun _ => .inl
      · exact (h.dispatch t s after hphase).background rfl (.inl rfl) le_rfl le_rfl id
    · rename_i h3
      refine background (h.placed.addPeriodicTask h3) ?_ (h.jobs.of_pool rfl)
        fun t s after hphase => ?_
      · exact h.books.create (b := .newPeriodic h3) rfl rfl ⟨rfl, rfl, rfl, rfl⟩
      · have hdispatch := h.dispatch t s after hphase
        have htask : (l.manager.addPeriodicTask h3).task t = l.manager.task t :=
          State.create_task_of_ne _ _ hdispatch.created.ne
        exact hdispatch.background (by rw [htask]) (.inl (by rw [htask])) (Nat.le_succ _) le_rfl id
    · split
      · rename_i i _
        obtain ⟨hjobs, hperm⟩ := h.jobs.workerStart i
        have htask : (l.manager.workerStart i).task = l.manager.task ∧
            (l.manager.workerStart i).created = l.manager.created ∧
            (l.manager.workerStart i).cntBaseTask = l.manager.cntBaseTask ∧
            (l.manager.workerStart i).cntBaseTaskDone = l.manager.cntBaseTaskDone ∧
            (l.manager.workerStart i).log = l.manager.log := by
          unfold State.workerStart
          split <;> exact ⟨rfl, rfl, rfl, rfl, rfl⟩
        obtain ⟨htask, hcreated, hcnt, hdone, hlog⟩ := htask
        refine background (h.placed.workerStart i) (h.books.of_eq htask hcreated hcnt hdone hlog)
          hjobs fun t' s after hphase => ?_
        exact (h.dispatch t' s after hphase).background (by rw [htask]) (.inl (by rw [htask]))
          hcreated.ge hperm.length_eq.le hperm.mem_iff.mp
      · exact h
    · split
      · rename_i t o ht
        split
        · exact ⟨h.placed, h.books, h.jobs, h.dispatch⟩
        · rename_i m hm
          exact h.workerDone ht hm
      · exact h
    · split
      · exact h
      · rename_i o _ t s after hphase
        exact h.process hphase o
    · split
      · rename_i hphase
        exact h.idleStep hphase _
      · exact h

end Conserved

end TaskManager
