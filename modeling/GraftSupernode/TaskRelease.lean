/-
# The release of tasks

A task object holds itself (`SelfHolder`, `self_holder.h`) from its creation until its `finalize`
lets it go: a client task with its final answer, a periodic task when it has stopped.  For an
`UpstreamTask` there is a `finalize` too, but `upstreamDoneProcess` (`task.cpp`) returns as
soon as it has set the promise, and nothing else calls it.

* `Ages`: what an event can do to the tasks of the task manager;
* `Holders`: the loop with the `UpstreamTask`s that hold themselves;
* `Released`: the tasks that have ended hold themselves no longer;
* `released_iff`: this is so in every state of a run iff no blocking request has been answered.
-/
import GraftSupernode.BlockingRequests
import GraftSupernode.TaskRuns

open StateMachine

namespace TaskManager

variable {υ κ : Type*} [LinearOrder υ]

/-! ## What an event does to the tasks -/

/-- A task keeps its kind, and when it holds itself no longer this stays so; none is scheduled
that has stopped. -/
structure Ages (m m' : State υ κ) : Prop where
  created : m.created ≤ m'.created
  kind : ∀ t < m.created, (m'.task t).kind = (m.task t).kind
  self : ∀ t < m.created, (m'.task t).self = true → (m.task t).self = true
  timer : ∀ t ∈ m'.timerList, (m'.task t).status = .stop →
    t ∈ m.timerList ∧ (m.task t).status = .stop

namespace Ages

variable {P : Params υ κ} {m m' m'' : State υ κ} {t : ℕ}

/-- With the same tasks and timers, nothing has aged. -/
theorem of_eq (htask : m'.task = m.task) (hcreated : m'.created = m.created)
    (htimer : m'.timerList = m.timerList) : Ages m m' := by
  constructor
  · exact hcreated.ge
  · intro t _
    rw [htask]
  · intro t _ hself
    rwa [htask] at hself
  · intro t ht hstop
    rw [htimer] at ht
    rw [htask] at hstop
    exact ⟨ht, hstop⟩

/-- A state has come about from itself. -/
theorem refl (m : State υ κ) : Ages m m := of_eq rfl rfl rfl

/-- What ages twice ages. -/
theorem trans (h : Ages m m') (h' : Ages m' m'') : Ages m m'' := by
  constructor
  · exact h.created.trans h'.created
  · intro t ht
    exact (h'.kind t (ht.trans_le h.created)).trans (h.kind t ht)
  · intro t ht hself
    exact h.self t ht (h'.self t (ht.trans_le h.created) hself)
  · intro t ht hstop
    obtain ⟨ht', hstop'⟩ := h'.timer t ht hstop
    exact h.timer t ht' hstop'

/-- **A change of one task**: it is not in the timer list, or does not stop. -/
theorem modify {f : Task υ → Task υ} (hkind : (f (m.task t)).kind = (m.task t).kind)
    (hself : (f (m.task t)).self = (m.task t).self)
    (hstop : t ∈ m.timerList → (f (m.task t)).status = .stop → (m.task t).status = .stop) :
    Ages m (m.modify t f) := by
  have htask (t' : ℕ) : t' = t ∧ (m.modify t f).task t' = f (m.task t) ∨
      (m.modify t f).task t' = m.task t' := by
    by_cases heq : t' = t
    · subst heq
      exact .inl ⟨rfl, m.modify_task_self t' f⟩
    · exact .inr (m.modify_task_of_ne heq f)
  refine ⟨le_rfl, fun t' _ => ?_, fun t' _ h => ?_, fun t' ht' h => ⟨ht', ?_⟩⟩
  all_goals obtain ⟨rfl, heq⟩ | heq := htask t'
  · rw [heq, hkind]
  · rw [heq]
  · rwa [heq, hself] at h
  · rwa [heq] at h
  · rw [heq] at h
    exact hstop ht' h
  · rwa [heq] at h

/-- Tasks only age when one is answered. -/
theorem respondAndDie (body : String) (die : Bool) : Ages m (m.respondAndDie P t body die) := by
  have htask := State.respondAndDie_task P m t body die
  rw [State.respondAndDie_eq] at *
  refine ⟨le_rfl, fun t' _ => ?_, fun t' _ hself => ?_, fun t' ht' hstop => ?_⟩
  · rw [htask]
    split <;> simp [*]
  · rw [htask] at hself
    split at hself
    · rename_i heq
      subst heq
      rw [Task.answered_self, Bool.and_eq_true] at hself
      exact hself.1
    · exact hself
  · have hstatus : (m.task t').status = .stop := by
      rw [htask] at hstop
      split at hstop
      · rename_i heq
        subst heq
        rwa [Task.answered_status] at hstop
      · exact hstop
    refine ⟨?_, hstatus⟩
    dsimp only at ht'
    split at ht'
    · rename_i hpush
      rcases List.mem_cons.mp ht' with rfl | ht'
      · exact absurd hstatus hpush.2.2
      · exact ht'
    · exact ht'

/-- Tasks only age when one gets a new input. -/
theorem resumeTask (t : ℕ) (input : Input) : Ages m (m.resumeTask t input) := by
  have hnote : Ages m (m.note (.resume t input)) := of_eq rfl rfl rfl
  have hmod : Ages (m.note (.resume t input))
      ((m.note (.resume t input)).modify t fun bt => { bt with input := input }) :=
    modify rfl rfl fun _ hstop => hstop
  exact (hnote.trans hmod).trans (of_eq rfl rfl rfl)

/-- Tasks only age when a connection is closed. -/
theorem closeClient (t : ℕ) : Ages m (m.closeClient t) :=
  modify (f := fun bt => { bt with client := false }) rfl rfl fun _ hstop => hstop

/-- Tasks only age when a reply comes. -/
theorem setReply (bt : SentTask) (input : Input) : Ages m (m.setReply bt input) := by
  cases bt with
  | base t => exact modify (f := fun bt => { bt with input := input }) rfl rfl fun _ hstop => hstop
  | upstream n output => exact refl m

/-- Tasks only age when one is postponed. -/
theorem postponeTask : Ages m (m.postponeTask P t) := by
  unfold State.postponeTask
  dsimp only
  split
  · refine trans ?_ (resumeTask t _)
    exact of_eq rfl rfl rfl
  · exact of_eq rfl rfl rfl

/-- Tasks only age when one goes on. -/
theorem resumeNext : Ages m (m.resumeNext t) := by
  unfold State.resumeNext
  dsimp only
  split
  · exact refl m
  · split
    · exact of_eq rfl rfl rfl
    · exact (resumeTask _ _).trans (of_eq rfl rfl rfl)

/-- Tasks only age when one expires. -/
theorem expireTask : Ages m (m.expireTask P t) := by
  have hnote : Ages m (m.note (.expire t m.now)) := of_eq rfl rfl rfl
  have hset : Ages (m.note (.expire t m.now)) ((m.note (.expire t m.now)).setLastStatus t .error) :=
    modify rfl rfl fun _ hstop => by cases hstop
  exact (hnote.trans hset).trans (respondAndDie _ _)

/-- Tasks only age when some expire. -/
theorem expireTasks (fuel : ℕ) : Ages m (m.expireTasks P fuel) :=
  State.expireTasks_invariant P (I := Ages m) (fun _ _ _ h _ => h.trans expireTask)
    (fun _ _ h => h.trans (of_eq rfl rfl rfl)) fuel (refl m)

/-- A new task has not stopped. -/
theorem create (bt : Task υ) (htimer : ∀ t ∈ m.timerList, t ≠ m.created) (hbt : bt.status ≠ .stop)
    (htask : m'.task = (m.create bt).task) (hcreated : m'.created = m.created + 1)
    (hlist : ∀ t ∈ m'.timerList, t ∈ m.timerList ∨ t = m.created) : Ages m m' := by
  have hold {t : ℕ} (ht : t ≠ m.created) : m'.task t = m.task t := by
    rw [htask, State.create_task_of_ne m bt ht]
  refine ⟨by omega, fun t ht => by rw [hold ht.ne], fun t ht hself => ?_, fun t ht hstop => ?_⟩
  · rwa [hold ht.ne] at hself
  · rcases hlist t ht with ht | rfl
    · rw [hold (htimer t ht)] at hstop
      exact ⟨ht, hstop⟩
    · rw [htask, State.create_task_self] at hstop
      exact absurd hstop hbt

/-- **An action of the state machine**, for a task that is not scheduled. -/
theorem perform [DecidableEq κ] {a : Action} {o : Option (Outcome υ)} (ht : t ∉ m.timerList)
    (hm : m.perform P t o a = some m') : Ages m m' := by
  cases State.performed P hm with
  | rest => exact refl m
  | overflow =>
    have hset : Ages m (m.setLastStatus t .busy) := modify rfl rfl fun _ hstop => by cases hstop
    exact hset.trans (respondAndDie _ _)
  | called _ f hf =>
    have hnote : Ages m (m.note (.handler t)) := of_eq rfl rfl rfl
    -- the status may change, but the task has no timer
    exact hnote.trans (modify (hf.kind _) (hf.self _) fun hmem => absurd hmem ht)
  | posted | sent => exact of_eq rfl rfl rfl
  | answered => exact respondAndDie _ _
  | ok => exact resumeNext.trans (respondAndDie _ _)
  | postponed => exact postponeTask

end Ages

namespace Conserved

variable [Fintype κ] {P : Params υ κ} {m : State υ κ} {l : Looper υ κ}

/-- What is scheduled has been created. -/
theorem lt_created_of_mem_timerList (h : Conserved P l) {t : ℕ} (ht : t ∈ l.manager.timerList) :
    t < l.manager.created := by
  by_contra hle
  have hstored : 0 < l.manager.stored P t := by
    have hcount : 0 < l.manager.timerList.count t := List.count_pos_iff.mpr ht
    rw [State.stored]
    omega
  have hself := h.placed.self_of_stored hstored
  rw [h.placed.fresh t (not_lt.mp hle)] at hself
  cases hself

/-- A task that is with the pool is not scheduled. -/
theorem not_mem_timerList_of_running (h : Conserved P l) {t : ℕ} (ht : t ∈ l.manager.running) :
    t ∉ l.manager.timerList := by
  intro hmem
  have hjobs : 0 < l.manager.jobs.count t := by
    rw [List.count_pos_iff, State.jobs]
    exact List.mem_append_left _ (List.mem_append_right _ ht)
  have htimer : 0 < l.manager.timerList.count t := List.count_pos_iff.mpr hmem
  have hplaces := h.placed.places t
  have hle := Bool.toNat_le (l.manager.task t).self
  rw [State.stored] at hplaces
  omega

omit [Fintype κ] in
/-- Tasks only age at the end of a dispatch. -/
theorem ages_finish [DecidableEq κ] (after : After κ) : Ages m (l.finish P m after).manager := by
  cases after <;> exact .of_eq rfl rfl rfl

variable [DecidableEq κ]

/-- Tasks only age in a step of a dispatch. -/
theorem ages_process (h : Conserved P l) {t : ℕ} {s : StateMachine.State} {after : After κ}
    (hphase : l.phase = .dispatching t s after) (o : Option (Outcome υ)) :
    Ages l.manager (l.process P t s after o).manager := by
  unfold Looper.process
  split
  · exact .refl _
  · rename_i a target hrow
    split
    · exact .refl _
    · rename_i m hm
      have hperform : Ages l.manager m := by
        cases a with
        | none =>
          cases hm
          exact .refl _
        | some a =>
          have hzero := (h.hand_of_action hphase hrow).stored_hand
          refine Ages.perform (fun hmem => ?_) hm
          have hcount : 0 < l.manager.timerList.count t := List.count_pos_iff.mpr hmem
          rw [State.stored] at hzero
          omega
      split
      · exact hperform.trans (ages_finish after)
      · exact hperform

omit [Fintype κ] in
/-- Tasks only age with the reply of a node. -/
theorem ages_upstreamDone (i : ℕ) (s : UpstreamSender SentTask κ) (reply : Option Input) :
    Ages l.manager (l.upstreamDone P i s reply).manager := by
  have hfinish : Ages l.manager
      { l.manager with upstreamManager := l.manager.upstreamManager.finish i } := .of_eq rfl rfl rfl
  unfold Looper.upstreamDone
  dsimp only
  split
  · refine Ages.trans ?_ (ages_finish _)
    exact .of_eq rfl rfl rfl
  · refine Ages.trans (hfinish.trans ?_) (ages_finish _)
    refine Ages.trans ?_ (.respondAndDie _ _)
    exact .modify rfl rfl fun _ hstop => by cases hstop
  · rename_i t input _
    have hreply := hfinish.trans (.setReply (.base t) input)
    split
    · exact hreply
    · exact hreply.trans (ages_finish _)

/-- Tasks only age in a step of the idle loop. -/
theorem ages_idleStep (h : Conserved P l) (e : Event υ κ) :
    Ages l.manager (l.idleStep P e).manager := by
  unfold Looper.idleStep
  cases e with
  | newClient h3 input =>
    exact .create (.newClient h3 input) (fun t ht => (h.lt_created_of_mem_timerList ht).ne)
      (by simp [Task.newClient]) rfl rfl fun t ht => .inl ht
  | closeClient t => exact .closeClient t
  | timer t =>
    dsimp only
    split
    · refine ⟨le_rfl, fun t' ht' => ?_, fun t' ht' hself => ?_, fun t' ht' hstop => ?_⟩
      all_goals
        have hmod : Ages l.manager (l.manager.setLastStatus t .none) :=
          .modify rfl rfl fun _ hstop => by cases hstop
      · exact hmod.kind t' ht'
      · exact hmod.self t' ht' hself
      · exact hmod.timer t' (List.mem_of_mem_erase ht') hstop
    · exact .refl _
  | checkUpstreamBlocking n output =>
    dsimp only
    split
    · exact .refl _
    · rename_i m hm
      obtain ⟨um, -, rfl⟩ := Option.map_eq_some_iff.mp hm
      exact .of_eq rfl rfl rfl
  | jobReady =>
    dsimp only
    split
    · exact .refl _
    · exact .of_eq rfl rfl rfl
  | upstreamReply i reply =>
    dsimp only
    split
    · exact .refl _
    · exact ages_upstreamDone i _ reply
  | closeIdle k client => exact .of_eq rfl rfl rfl
  | resume =>
    dsimp only
    split
    · exact .refl _
    · exact .of_eq rfl rfl rfl
  | expire =>
    dsimp only
    split
    · exact .expireTasks _
    · exact .refl _
  | tick | addPeriodicTask | workerStart | workerDone | process => exact .refl _

/-- **What an event does to the tasks**. -/
theorem ages_step (h : Conserved P l) (e : Event υ κ) : Ages l.manager (l.step P e).manager := by
  unfold Looper.step
  split
  · exact .refl _
  · split
    · exact .of_eq rfl rfl rfl
    · rename_i h3
      refine .create (.newPeriodic h3) (fun t ht => (h.lt_created_of_mem_timerList ht).ne)
        (by simp [Task.newPeriodic]) rfl rfl fun t ht => ?_
      exact (List.mem_cons.mp ht).symm
    · split
      · show Ages l.manager (l.manager.workerStart _)
        unfold State.workerStart
        split <;> exact .of_eq rfl rfl rfl
      · exact .refl _
    · split
      · rename_i t o ht
        split
        · exact .refl _
        · rename_i m hm
          obtain ⟨m₁, hrun, rfl⟩ := Option.map_eq_some_iff.mp hm
          obtain ⟨o, -, rfl⟩ := Option.map_eq_some_iff.mp hrun
          have hnote : Ages l.manager (l.manager.note (.handler t)) := .of_eq rfl rfl rfl
          have hmod := hnote.trans (.modify (t := t)
            (f := fun bt => { bt with
              status := o.status, output := o.output, nextUuid := o.nextUuid
              input := if o.status = .ok ∧ bt.h3.postAction ∨ o.status = .forward
                then bt.input.assign o.output else bt.input }) rfl rfl
            fun hmem => absurd hmem (h.not_mem_timerList_of_running ht))
          dsimp only
          split <;> exact hmod.trans (.of_eq rfl rfl rfl)
      · exact .refl _
    · split
      · exact .refl _
      · exact h.ages_process (by assumption) _
    · split
      · exact h.ages_idleStep _
      · exact .refl _

end Conserved

/-! ## The tasks that hold themselves -/

/-- A task object: a task of the task manager, or the `UpstreamTask` that comes with a promise. -/
inductive TaskObject
  | base (t : ℕ)
  | upstream (promise : ℕ)

/-- The loop, with the promises of the `UpstreamTask`s that hold themselves. -/
structure Holders (υ κ : Type*) [LinearOrder υ] where
  loop : BlockingLoop υ κ
  upstreamTasks : List ℕ

namespace Holders

def init (P : Params υ κ) : Holders υ κ := ⟨.init P, []⟩

/-- One event: an `UpstreamTask` is created for what `checkUpstreamBlockingIO` sends, and nothing
lets one go. -/
def step [DecidableEq κ] (P : Params υ κ) (s : Holders υ κ) (e : BlockingEvent υ κ) :
    Holders υ κ where
  loop := s.loop.step P e
  upstreamTasks := s.upstreamTasks ++
    ((s.loop.step P e).sent.drop s.loop.sent.length).map PromiseItem.promise

/-- The task object has been created. -/
def Created (s : Holders υ κ) : TaskObject → Prop
  | .base t => t < s.loop.looper.manager.created
  | .upstream n => n ∈ s.loop.sent.map PromiseItem.promise

/-- The task object holds itself. -/
def Live (s : Holders υ κ) : TaskObject → Prop
  | .base t => (s.loop.looper.manager.task t).self = true
  | .upstream n => n ∈ s.upstreamTasks

end Holders

/-- No work is outstanding: no dispatch, no job, no upstream request. -/
def Looper.Resting (l : Looper υ κ) : Prop :=
  l.phase = .idle ∧ l.manager.jobs = [] ∧ l.manager.upstreamManager.senders = [] ∧
    ∀ k, (l.manager.upstreamManager.item k).taskQueue = []

/-- The tasks that have ended hold themselves no longer. -/
structure Released [Fintype κ] (P : Params υ κ) (s : Holders υ κ) : Prop where
  /-- A client task is let go with its final answer. -/
  client : ∀ t, s.Created (.base t) → (s.loop.looper.manager.task t).kind = .client →
    (s.Live (.base t) ↔ s.loop.looper.manager.log.countP (Note.isClientDone t) = 0)
  /-- A periodic task is let go when it has stopped, as soon as it has been dealt with. -/
  periodic : ∀ t, s.Created (.base t) → (s.loop.looper.manager.task t).kind = .periodic →
    (¬ s.Live (.base t) → (s.loop.looper.manager.task t).status = .stop) ∧
    (s.Live (.base t) → (s.loop.looper.manager.task t).status = .stop →
      s.loop.looper.occurrences P t .dispatch = 1 ∨ s.loop.looper.occurrences P t .pool = 1)
  /-- An `UpstreamTask` is let go with its promise. -/
  upstream : ∀ n, s.Created (.upstream n) →
    (s.Live (.upstream n) ↔ n ∉ s.loop.fulfilled.map Prod.fst)
  /-- Then what is left is scheduled, or waits. -/
  resting : s.loop.looper.Resting → ∀ x, s.Live x →
    ∃ t, x = .base t ∧ (s.loop.looper.occurrences P t .timer = 1 ∨
      s.loop.looper.occurrences P t .postponed = 1 ∨ s.loop.looper.occurrences P t .ready = 1)

/-- Every task object is released, and once only. -/
def ReleasesTasks [Fintype κ] [DecidableEq κ] (P : Params υ κ) (es : List (BlockingEvent υ κ)) :
    Prop :=
  (∀ pre, pre <+: es → Released P (Runs.exec (Holders.step P) (.init P) pre)) ∧
  ∀ pre post, es = pre ++ post → ∀ x, (Runs.exec (Holders.step P) (.init P) pre).Created x →
    ¬ (Runs.exec (Holders.step P) (.init P) pre).Live x →
    ¬ (Runs.exec (Holders.step P) (.init P) es).Live x

/-! ## Runs -/

variable {P : Params υ κ}

namespace BlockingLoop

variable [DecidableEq κ] {st : BlockingLoop υ κ}

/-- The loop makes a step of its own, or none. -/
theorem looper_step (st : BlockingLoop υ κ) (e : BlockingEvent υ κ) :
    (st.step P e).looper = st.looper ∨ ∃ e', (st.step P e).looper = st.looper.step P e' := by
  have hmove := move_step (P := P) st e
  generalize st.step P e = st' at hmove
  cases hmove with
  | rest | call => exact .inl rfl
  | drain item => exact .inr ⟨.checkUpstreamBlocking item.promise item.output, rfl⟩
  | loop e' => exact .inr ⟨e', rfl⟩

/-- The event is no reply to a blocking request. -/
def NoBlockingReply (st : BlockingLoop υ κ) : BlockingEvent υ κ → Prop
  | .loop (.upstreamReply i _) => st.looper.isFree = true →
      ∀ u, st.looper.manager.upstreamManager.senders[i]? = some u → u.bt.items = []
  | _ => True

/-- A loop that is busy takes no reply. -/
theorem step_of_not_free {l : Looper υ κ} (hfree : l.isFree = false) (i : ℕ)
    (reply : Option Input) : l.step P (.upstreamReply i reply) = l := by
  unfold Looper.isFree at hfree
  unfold Looper.step
  split
  · rfl
  · rename_i hlive
    split at hfree
    · simp [hlive] at hfree
    · rename_i hphase
      rw [hphase]

/-- Without a reply to a blocking request no promise is fulfilled. -/
theorem NoBlockingReply.fulfilled {e : BlockingEvent υ κ} (he : st.NoBlockingReply e)
    (h : PromisesKept P.upstream st.sent st.fulfilled st.looper.manager.upstreamManager) :
    (st.step P e).fulfilled = st.fulfilled := by
  have hmove := move_step (P := P) st e
  generalize st.step P e = st' at hmove
  cases hmove with
  | rest | call => rfl
  | drain item promiseQueue _ hfree _ => exact (step_checkUpstreamBlocking hfree item h.unlimited).1
  | loop e' hloop he' =>
    show (st.looper.step P e').manager.fulfilled = st.looper.manager.fulfilled
    cases Looper.change_step (l := st.looper) (P := P) he' with
    | quiet _ hfulfilled => exact hfulfilled
    | reply i reply u hreply hu _ hfulfilled =>
      subst hloop hreply
      cases hfree : st.looper.isFree with
      | false => rw [step_of_not_free hfree]
      | true =>
        rw [hfulfilled, he hfree u hu]
        rfl

/-- **A reply to a blocking request** fulfils its promise. -/
theorem fulfilled_of_reply {i : ℕ} (reply : Option Input) {u : UpstreamSender SentTask κ} {n : ℕ}
    {output : Output} (hfree : st.looper.isFree = true)
    (hu : st.looper.manager.upstreamManager.senders[i]? = some u) (hbt : u.bt = .upstream n output) :
    (st.step P (.loop (.upstreamReply i reply))).fulfilled = (n, reply) :: st.fulfilled := by
  have hphase : st.looper.phase = .idle ∧ st.looper.terminated = false := by
    unfold Looper.isFree at hfree
    split at hfree
    · exact ⟨by assumption, by simpa using hfree⟩
    · cases hfree
  show (st.looper.step P (.upstreamReply i reply)).manager.fulfilled = _
  have hstep : st.looper.step P (.upstreamReply i reply)
      = st.looper.upstreamDone P i u reply := by
    simp only [Looper.step, hphase.1, hphase.2, Looper.idleStep, hu, Bool.false_eq_true, if_false]
  rw [hstep]
  unfold Looper.upstreamDone
  rw [hbt]
  exact (Looper.quiet_finish _ _).2

end BlockingLoop

namespace Holders

variable [Fintype κ] {s : Holders υ κ}

/-- What is kept in every run. -/
structure Kept (P : Params υ κ) (s : Holders υ κ) : Prop where
  conserved : Conserved P s.loop.looper
  upstream : PromisesKept P.upstream s.loop.sent s.loop.fulfilled
    s.loop.looper.manager.upstreamManager
  tasks : s.upstreamTasks = s.loop.sent.map PromiseItem.promise
  timer : ∀ t ∈ s.loop.looper.manager.timerList, (s.loop.looper.manager.task t).status ≠ .stop

/-- In the beginning there are no tasks and no promises. -/
theorem Kept.init (hmax : P.upstream.maxConnections P.upstream.default = 0) :
    Kept P (.init P) where
  conserved := .init
  upstream := (BlockingLoop.Kept.init hmax).upstream
  tasks := rfl
  timer _ ht := absurd ht List.not_mem_nil

/-- An `UpstreamTask` that has been created is never let go. -/
theorem Kept.live_upstream (h : Kept P s) {n : ℕ} (hn : s.Created (.upstream n)) :
    s.Live (.upstream n) := by
  show n ∈ s.upstreamTasks
  rw [h.tasks]
  exact hn

variable [DecidableEq κ]

/-- Tasks only age, whatever happens. -/
theorem Kept.ages (h : Kept P s) (e : BlockingEvent υ κ) :
    Ages s.loop.looper.manager (s.step P e).loop.looper.manager := by
  show Ages _ (s.loop.step P e).looper.manager
  obtain hsame | ⟨e', hstep⟩ := BlockingLoop.looper_step (P := P) s.loop e
  · rw [hsame]
    exact .refl _
  · rw [hstep]
    exact h.conserved.ages_step e'

/-- Every event keeps what `Kept` says. -/
theorem Kept.step (h : Kept P s) (e : BlockingEvent υ κ) : Kept P (s.step P e) where
  conserved := by
    show Conserved P (s.loop.step P e).looper
    obtain hsame | ⟨e', hstep⟩ := BlockingLoop.looper_step (P := P) s.loop e
    · rw [hsame]
      exact h.conserved
    · rw [hstep]
      exact h.conserved.step e'
  upstream := BlockingLoop.promisesKept_step h.upstream
  tasks := by
    obtain ⟨new, hnew⟩ := (BlockingLoop.prefix_step (P := P) s.loop e).2
    show s.upstreamTasks ++ ((s.loop.step P e).sent.drop s.loop.sent.length).map _
      = (s.loop.step P e).sent.map PromiseItem.promise
    rw [← hnew, List.drop_left, h.tasks, List.map_append]
  timer t ht hstop := by
    obtain ⟨ht, hstop⟩ := (h.ages e).timer t ht hstop
    exact h.timer t ht hstop

/-- Every run keeps what `Kept` says. -/
theorem Kept.exec (h : Kept P s) (es : List (BlockingEvent υ κ)) :
    Kept P (Runs.exec (Holders.step P) s es) :=
  Runs.exec_of_step (fun _ e h => h.step e) h es

/-- Tasks only age in a run. -/
theorem Kept.ages_exec (h : Kept P s) (es : List (BlockingEvent υ κ)) :
    Ages s.loop.looper.manager (Runs.exec (Holders.step P) s es).loop.looper.manager := by
  induction es generalizing s with
  | nil => exact .refl _
  | cons e es ih => exact (h.ages e).trans (ih (h.step e))

omit [DecidableEq κ] in
/-- A periodic task that has stopped is being dealt with, or is with the pool. -/
theorem Kept.occurrences_of_stopped (h : Kept P s) {t : ℕ} (hself : s.Live (.base t))
    (hstop : (s.loop.looper.manager.task t).status = .stop) :
    s.loop.looper.occurrences P t .dispatch = 1 ∨ s.loop.looper.occurrences P t .pool = 1 := by
  have hplaced := h.conserved.placed
  obtain ⟨p, hp, -⟩ := h.conserved.exists_place hself
  -- at every other place a task has another status
  cases p with
  | dispatch => exact .inl hp
  | pool => exact .inr hp
  | upstream =>
    have hp : s.loop.looper.manager.upstreams t = 1 := hp
    have hforward := hplaced.upstreamStatus t (by omega)
    rw [hstop] at hforward
    cases hforward
  | postponed =>
    have hp : ((s.loop.looper.manager.postponedTasks (P.uuid t)).toList).count t = 1 := hp
    have hmem : t ∈ (s.loop.looper.manager.postponedTasks (P.uuid t)).toList :=
      List.count_pos_iff.mp (by omega)
    have hpostpone := hplaced.postponedStatus t (Option.mem_toList.mp hmem)
    rw [hstop] at hpostpone
    cases hpostpone
  | ready =>
    have hp : s.loop.looper.manager.readyToResume.count t = 1 := hp
    have hpostpone := hplaced.readyStatus t (List.count_pos_iff.mp (by omega))
    rw [hstop] at hpostpone
    cases hpostpone
  | timer =>
    have hp : s.loop.looper.manager.timerList.count t = 1 := hp
    exact absurd hstop (h.timer t (List.count_pos_iff.mp (by omega)))

omit [DecidableEq κ] in
/-- When nothing is under way, a task is scheduled or waits. -/
theorem Kept.occurrences_of_resting (h : Kept P s) (hrest : s.loop.looper.Resting) {t : ℕ}
    (hlive : s.Live (.base t)) :
    s.loop.looper.occurrences P t .timer = 1 ∨ s.loop.looper.occurrences P t .postponed = 1 ∨
      s.loop.looper.occurrences P t .ready = 1 := by
  obtain ⟨hphase, hjobs, hsenders, hqueues⟩ := hrest
  obtain ⟨p, hp, -⟩ := h.conserved.exists_place hlive
  cases p with
  | dispatch =>
    have hp : s.loop.looper.held.toList.count t = 1 := hp
    rw [Looper.held, hphase] at hp
    cases hp
  | pool =>
    have hp : s.loop.looper.manager.jobs.count t = 1 := hp
    rw [hjobs] at hp
    cases hp
  | upstream =>
    have hp : s.loop.looper.manager.upstreams t = 1 := hp
    rw [State.upstreams, UpstreamManager.holds, hsenders] at hp
    simp [hqueues] at hp
  | postponed => exact .inr (.inl hp)
  | ready => exact .inr (.inr hp)
  | timer => exact .inl hp

omit [DecidableEq κ] in
/-- **As long as no promise is fulfilled**, the tasks that have ended are let go. -/
theorem Kept.released (h : Kept P s) (hnone : s.loop.fulfilled = []) : Released P s where
  client t _ hkind := by
    have hdone := h.conserved.books.done t hkind
    show (s.loop.looper.manager.task t).self = true ↔ _
    cases hself : (s.loop.looper.manager.task t).self with
    | false =>
      rw [hself, Bool.toNat_false] at hdone
      exact iff_of_false Bool.false_ne_true (by omega)
    | true =>
      rw [hself, Bool.toNat_true] at hdone
      exact iff_of_true rfl (by omega)
  periodic t ht hkind :=
    ⟨fun hself => h.conserved.books.stopped t ht hkind (Bool.not_eq_true _ ▸ hself),
      h.occurrences_of_stopped⟩
  upstream n hn := by
    rw [hnone]
    exact iff_of_true (h.live_upstream hn) List.not_mem_nil
  resting hrest x hlive := by
    cases x with
    | base t => exact ⟨t, rfl, h.occurrences_of_resting hrest hlive⟩
    | upstream n =>
      -- it would have to be in flight
      obtain ⟨-, -, hsenders, -⟩ := hrest
      have hperm := h.upstream.perm
      rw [hnone, inFlight, hsenders] at hperm
      have hmem : n ∈ s.upstreamTasks := hlive
      rw [h.tasks] at hmem
      exact absurd (hperm.mem_iff.mpr hmem) List.not_mem_nil

/-- **A reply to a blocking request** fulfils the promise of an `UpstreamTask`, which goes on
holding itself. -/
theorem Kept.not_released_of_reply (h : Kept P s) {e : BlockingEvent υ κ}
    (hreply : ¬ s.loop.NoBlockingReply e) : ¬ Released P (s.step P e) := by
  intro hreleased
  obtain ⟨i, reply, rfl⟩ : ∃ i reply, e = .loop (.upstreamReply i reply) := by
    by_contra hne
    push Not at hne
    refine hreply ?_
    unfold BlockingLoop.NoBlockingReply
    split
    · exact absurd rfl (hne _ _)
    · trivial
  simp only [BlockingLoop.NoBlockingReply, not_forall] at hreply
  obtain ⟨hfree, u, hu, hitems⟩ := hreply
  cases hbt : u.bt with
  | base t =>
    rw [hbt] at hitems
    exact hitems rfl
  | upstream n output =>
    have hfulfilled := BlockingLoop.fulfilled_of_reply (P := P) reply hfree hu hbt
    have hkept := h.step (.loop (.upstreamReply i reply))
    have hn : n ∈ (s.step P (.loop (.upstreamReply i reply))).loop.fulfilled.map Prod.fst := by
      show n ∈ (BlockingLoop.fulfilled (BlockingLoop.step P _ _)).map Prod.fst
      rw [hfulfilled]
      exact List.mem_cons_self
    have hcreated := hkept.upstream.perm.subset (List.mem_append_left _ hn)
    exact (hreleased.upstream n hcreated).mp (hkept.live_upstream hcreated) hn

omit [Fintype κ] in
/-- Nothing lets an `UpstreamTask` go. -/
theorem live_upstream_exec {n : ℕ} (h : s.Live (.upstream n)) (es : List (BlockingEvent υ κ)) :
    (Runs.exec (Holders.step P) s es).Live (.upstream n) :=
  Runs.exec_of_step (I := fun s : Holders υ κ => s.Live (.upstream n))
    (fun _ _ h => List.mem_append_left _ h) h es

omit [Fintype κ] in
/-- The holders do not change what the loop does. -/
theorem loop_exec (es : List (BlockingEvent υ κ)) :
    (Runs.exec (Holders.step P) s es).loop = Runs.exec (BlockingLoop.step P) s.loop es := by
  induction es generalizing s with
  | nil => rfl
  | cons e es ih => exact ih

/-- **Every task is released iff no blocking request has been answered**. -/
theorem released_iff (hmax : P.upstream.maxConnections P.upstream.default = 0)
    (es : List (BlockingEvent υ κ)) :
    ReleasesTasks P es ↔
      Runs.Along (BlockingLoop.step P) BlockingLoop.NoBlockingReply (BlockingLoop.init P) es := by
  have hkept (es : List (BlockingEvent υ κ)) :
      Kept P (Runs.exec (Holders.step P) (.init P) es) := (Kept.init hmax).exec es
  constructor
  · rintro ⟨hreleased, -⟩
    refine Runs.along_of_at_step fun pre e post hes => ?_
    by_contra hreply
    have hpre : pre ++ [e] <+: es := ⟨post, by rw [hes, List.append_assoc, List.singleton_append]⟩
    have hafter := hreleased _ hpre
    rw [Runs.exec_append, Runs.exec_cons, Runs.exec_nil] at hafter
    have hloop : (Runs.exec (Holders.step P) (.init P) pre).loop
        = Runs.exec (BlockingLoop.step P) (.init P) pre := loop_exec pre
    rw [← hloop] at hreply
    exact (hkept pre).not_released_of_reply hreply hafter
  · intro hes
    refine ⟨fun pre hpre => ?_, ?_⟩
    · obtain ⟨post, rfl⟩ := hpre
      refine (hkept pre).released ?_
      rw [loop_exec pre]
      have hinv := Runs.exec_invariant_prefix (I := fun st : BlockingLoop υ κ =>
        PromisesKept P.upstream st.sent st.fulfilled st.looper.manager.upstreamManager ∧
          st.fulfilled = [])
        (fun st e h he => ⟨BlockingLoop.promisesKept_step h.1, (he.fulfilled h.1).trans h.2⟩)
        ⟨(Kept.init hmax).upstream, rfl⟩ hes
      exact hinv.2
    · rintro pre post rfl x hx hlive
      rw [Runs.exec_append]
      cases x with
      | base t => exact fun hself => hlive (((hkept pre).ages_exec post).self t hx hself)
      | upstream n => exact absurd ((hkept pre).live_upstream hx) hlive

/-! ## A blocking request that is answered -/

/-- The request is answered, and then the job is done and its client gets its answer. -/
def answeredCall : List (BlockingEvent ℕ Unit) :=
  BlockingLoop.oneCall ++ [.loop (.upstreamReply 0 (some {}))] ++
    (Event.workerDone 0 (some (.returns .ok)) :: .jobReady ::
      List.replicate 4 (.process (some (.returns .ok)))).map .loop

/-- No reply comes in the run of one call. -/
theorem noBlockingReply_oneCall : Runs.Along (BlockingLoop.step smallParams)
    BlockingLoop.NoBlockingReply (BlockingLoop.init smallParams) BlockingLoop.oneCall := by
  refine Runs.along_of_at_step fun pre e post hes => ?_
  have hmem : e ∈ BlockingLoop.oneCall := by
    rw [hes]
    exact List.mem_append_right _ List.mem_cons_self
  unfold BlockingLoop.NoBlockingReply
  split
  · simp [BlockingLoop.oneCall, BlockingLoop.jobRun, requestRun] at hmem
  · trivial

/-- In the run of one call, every task is released. -/
theorem released_oneCall : ReleasesTasks smallParams BlockingLoop.oneCall :=
  (released_iff (P := smallParams) rfl _).mpr noBlockingReply_oneCall

/-- When the call has been answered, nothing is under way. -/
theorem answeredCall_resting :
    (Runs.exec (Holders.step smallParams) (.init smallParams) answeredCall).loop.looper.Resting :=
  ⟨rfl, rfl, rfl, fun _ => rfl⟩

/-- When the call has been answered, its `UpstreamTask` is alive. -/
theorem answeredCall_live : (0 : ℕ) ∈
    (Runs.exec (Holders.step smallParams) (.init smallParams) answeredCall).upstreamTasks :=
  List.mem_singleton.mpr rfl

/-- When the call has been answered, its promise is fulfilled. -/
theorem answeredCall_fulfilled : (Runs.exec (Holders.step smallParams) (.init smallParams)
    answeredCall).loop.fulfilled.map Prod.fst = [0] := rfl

/-- **An `UpstreamTask` stays**: its promise is fulfilled, its client has been answered, nothing is
under way, and it holds itself, whatever comes. -/
theorem upstreamTask_stays :
    let s := Runs.exec (Holders.step smallParams) (.init smallParams) answeredCall
    s.loop.looper.Resting ∧ 0 ∈ s.loop.fulfilled.map Prod.fst ∧
      (∀ es, (Runs.exec (Holders.step smallParams) s es).Live (.upstream 0)) ∧
      ¬ ReleasesTasks smallParams answeredCall := by
  intro s
  have hrest : s.loop.looper.Resting := answeredCall_resting
  have hlive : s.Live (.upstream 0) := answeredCall_live
  have hfulfilled : s.loop.fulfilled.map Prod.fst = [0] := answeredCall_fulfilled
  refine ⟨hrest, hfulfilled ▸ List.mem_cons_self, fun es => live_upstream_exec hlive es, ?_⟩
  · rintro ⟨hreleased, -⟩
    obtain ⟨t, ht, -⟩ := (hreleased _ (List.prefix_refl _)).resting hrest _ hlive
    cases ht

end Holders

end TaskManager
