/-
# Where a task is

Between two dispatches a task waits in one of the containers of the task manager: a job of the
pool, the upstream manager, `m_postponedTasks`, `m_readyToResume`, the timer list.  `stored` counts
how often a task is in one of them.  A dispatch holds a task in hand, takes it from one container
and leaves it in another.

`Placed` says that a task that holds itself is in hand or stored, once, and that others are not.
Every member function of the task manager keeps it, and either keeps the task in hand or lets
it go (`Placed.respondAndDie`, `Placed.postponeTask`, …).
-/
import GraftSupernode.Looper

open StateMachine

namespace TaskManager

variable {υ κ : Type*} [LinearOrder υ]

/-- The task `t`, as something that is sent. -/
def SentTask.isBase (t : ℕ) : SentTask → Bool
  | .base t' => t' = t
  | .upstream _ _ => false

@[simp] theorem SentTask.isBase_base (t t' : ℕ) : isBase t (.base t') = decide (t' = t) := rfl

@[simp] theorem SentTask.isBase_upstream (t n : ℕ) (output : Output) :
    isBase t (.upstream n output) = false := rfl

namespace State

variable (P : Params υ κ) (m : State υ κ) (t : ℕ)

/-- The jobs that have been sent and are not done. -/
def jobs : List ℕ := m.threadPool.jobs ++ m.running ++ m.resQueue.items

/-- `t` is in `m_postponedTasks`. -/
def IsPostponed : Prop := m.postponedTasks (P.uuid t) = some t

variable [Fintype κ]

/-- How often `t` is with the upstream manager, in flight or queued. -/
def upstreams : ℕ := m.upstreamManager.holds (SentTask.isBase t)

/-- How often `t` waits somewhere. -/
def stored : ℕ :=
  m.jobs.count t + m.upstreams t + (m.postponedTasks (P.uuid t)).toList.count t +
    m.readyToResume.count t + m.timerList.count t

end State

variable [Fintype κ] (P : Params υ κ) {hand : Option ℕ} {m m' : State υ κ} {t : ℕ}

/-- Every task that holds itself is in one place, the one in hand included; what is postponed is
found under its own id, and has the status with which it came. -/
structure Placed (hand : Option ℕ) (m : State υ κ) : Prop where
  places : ∀ t, m.stored P t + hand.toList.count t = (m.task t).self.toNat
  fresh : ∀ t, m.created ≤ t → (m.task t).self = false
  postponed : ∀ u t, m.postponedTasks u = some t → u = P.uuid t
  postponedStatus : ∀ t, m.IsPostponed P t → (m.task t).status = .postpone
  readyStatus : ∀ t ∈ m.readyToResume, (m.task t).status = .postpone
  upstreamStatus : ∀ t, 0 < m.upstreams t → (m.task t).status = .forward
  timerKind : ∀ t ∈ m.timerList, (m.task t).kind = .periodic

namespace Placed

variable {P}

/-- **What is in hand is nowhere else**. -/
theorem stored_hand (h : Placed P (some t) m) : m.stored P t = 0 := by
  have := h.places t
  have := Bool.toNat_le (m.task t).self
  rw [Option.toList_some, List.count_singleton_self] at *
  omega

theorem self_hand (h : Placed P (some t) m) : (m.task t).self = true := by
  have := h.places t
  rw [Option.toList_some, List.count_singleton_self] at this
  by_contra hself
  rw [Bool.not_eq_true] at hself
  simp [hself] at this

theorem self_of_stored (h : Placed P hand m) (ht : 0 < m.stored P t) : (m.task t).self = true := by
  have := h.places t
  by_contra hself
  rw [Bool.not_eq_true] at hself
  simp only [hself, Bool.toNat_false] at this
  omega

theorem not_isPostponed (h : Placed P (some t) m) : ¬ m.IsPostponed P t := by
  intro hpost
  have := h.stored_hand
  rw [State.IsPostponed] at hpost
  simp only [State.stored, hpost, Option.toList_some, List.count_singleton_self] at this
  omega

/-- **A move**: tasks do not change, and what comes into a container has the status for it. -/
theorem move {hand' : Option ℕ} (h : Placed P hand m) (htask : m'.task = m.task)
    (hcreated : m'.created = m.created)
    (hplaces : ∀ t, m'.stored P t + hand'.toList.count t = m.stored P t + hand.toList.count t)
    (hpostponed : ∀ u t, m'.postponedTasks u = some t → m.postponedTasks u = some t ∨
      u = P.uuid t ∧ (m.task t).status = .postpone)
    (hready : ∀ t ∈ m'.readyToResume, t ∈ m.readyToResume ∨ (m.task t).status = .postpone)
    (hupstream : ∀ t, 0 < m'.upstreams t → 0 < m.upstreams t ∨ (m.task t).status = .forward)
    (htimer : ∀ t ∈ m'.timerList, t ∈ m.timerList ∨ (m.task t).kind = .periodic) :
    Placed P hand' m' where
  places t := by rw [htask, hplaces t, h.places t]
  fresh t ht := by rw [htask]; exact h.fresh t (hcreated ▸ ht)
  postponed u t hu := (hpostponed u t hu).elim (h.postponed u t) And.left
  postponedStatus t ht := by
    rw [htask]
    exact (hpostponed _ t ht).elim (h.postponedStatus t) And.right
  readyStatus t ht := by rw [htask]; exact (hready t ht).elim (h.readyStatus t) id
  upstreamStatus t ht := by rw [htask]; exact (hupstream t ht).elim (h.upstreamStatus t) id
  timerKind t ht := by rw [htask]; exact (htimer t ht).elim (h.timerKind t) id

/-- **A change of one task** that keeps its kind and whether it holds itself; its status may
change if it does not wait for something. -/
theorem modify (h : Placed P hand m) {f : Task υ → Task υ}
    (hkind : (f (m.task t)).kind = (m.task t).kind) (hself : (f (m.task t)).self = (m.task t).self)
    (hstatus : (f (m.task t)).status = (m.task t).status ∨
      ¬ m.IsPostponed P t ∧ t ∉ m.readyToResume ∧ m.upstreams t = 0) :
    Placed P hand (m.modify t f) := by
  have hk : ∀ t', ((m.modify t f).task t').kind = (m.task t').kind := fun t' => by
    simp only [State.modify, Function.update_apply]
    split <;> simp [*]
  have hs : ∀ t', ((m.modify t f).task t').self = (m.task t').self := fun t' => by
    simp only [State.modify, Function.update_apply]
    split <;> simp [*]
  have hst : ∀ t', ((m.modify t f).task t').status = (m.task t').status ∨
      ¬ m.IsPostponed P t' ∧ t' ∉ m.readyToResume ∧ m.upstreams t' = 0 := fun t' => by
    by_cases ht : t' = t
    · subst ht
      simpa only [State.modify, Function.update_self] using hstatus
    · exact .inl (by simp only [State.modify, Function.update_of_ne ht])
  refine ⟨fun t' => ?_, fun t' ht' => ?_, h.postponed, fun t' ht' => ?_, fun t' ht' => ?_,
    fun t' ht' => ?_, fun t' ht' => ?_⟩
  · rw [hs]; exact h.places t'
  · rw [hs]; exact h.fresh t' ht'
  · exact (hst t').elim (fun e => e.trans (h.postponedStatus t' ht')) fun e => absurd ht' e.1
  · exact (hst t').elim (fun e => e.trans (h.readyStatus t' ht')) fun e => absurd ht' e.2.1
  · exact (hst t').elim (fun e => e.trans (h.upstreamStatus t' ht')) fun e => absurd e.2.2 ht'.ne'
  · rw [hk]; exact h.timerKind t' ht'

/-- The task in hand may change its status. -/
theorem modify_hand (h : Placed P (some t) m) {f : Task υ → Task υ}
    (hkind : (f (m.task t)).kind = (m.task t).kind)
    (hself : (f (m.task t)).self = (m.task t).self) : Placed P (some t) (m.modify t f) := by
  have hstored := h.stored_hand
  simp only [State.stored] at hstored
  refine h.modify hkind hself (.inr ⟨h.not_isPostponed, ?_, by omega⟩)
  rw [← List.count_eq_zero]
  omega

/-- What is seen does not matter. -/
theorem note (h : Placed P hand m) (n : Note) : Placed P hand (m.note n) :=
  ⟨h.places, h.fresh, h.postponed, h.postponedStatus, h.readyStatus, h.upstreamStatus,
    h.timerKind⟩

/-! ## Letting the task go -/

/-- Another task is where it was. -/
theorem stored_respondAndDie_of_ne {t' : ℕ} (ht : t' ≠ t) (body : String) (die : Bool) :
    (m.respondAndDie P t body die).stored P t' = m.stored P t' := by
  have huuid : P.uuid t' ≠ P.uuid t := fun h => ht (P.uuid_injective h)
  rw [State.respondAndDie_eq]
  simp only [State.stored, State.jobs, State.upstreams, Function.update_of_ne huuid]
  congr 1
  split
  · rw [List.count_cons_of_ne ht.symm]
  · rfl

/-- The task in hand waits for its timer, or nowhere. -/
theorem stored_respondAndDie (h : Placed P (some t) m) (body : String) (die : Bool) :
    (m.respondAndDie P t body die).stored P t =
      if die ∧ (m.task t).kind = .periodic ∧ (m.task t).status ≠ .stop then 1 else 0 := by
  have hstored := h.stored_hand
  rw [State.respondAndDie_eq]
  simp only [State.stored, State.jobs, State.upstreams, Function.update_self, Option.toList_none,
    List.count_nil] at hstored ⊢
  split
  · rw [List.count_cons_self]
    omega
  · omega

/-- **A task that is answered** is in hand as before, or it is gone, or it waits for its
timer. -/
theorem respondAndDie (h : Placed P (some t) m) (body : String) (die : Bool) :
    Placed P (if die then none else some t) (m.respondAndDie P t body die) := by
  -- what is still postponed is another task
  have hpost {u : υ} {t' : ℕ} (hu : Function.update m.postponedTasks (P.uuid t) none u = some t') :
      t' ≠ t ∧ m.postponedTasks u = some t' := by
    rw [Function.update_apply] at hu
    split at hu
    · cases hu
    · rename_i hne
      refine ⟨fun heq => hne ?_, hu⟩
      rw [h.postponed u t' hu, heq]
  have htask := State.respondAndDie_task P m t body die
  have hstatus (t' : ℕ) :
      ((m.respondAndDie P t body die).task t').status = (m.task t').status := by
    rw [htask]
    split <;> simp [*]
  refine ⟨fun t' => ?_, fun t' ht' => ?_, fun u t' hu => ?_, fun t' ht' => ?_, fun t' ht' => ?_,
    fun t' ht' => ?_, fun t' ht' => ?_⟩
  · by_cases ht : t' = t
    · -- a task that lives on is in hand or in the timer list, as its kind and status say
      subst ht
      rw [h.stored_respondAndDie, htask, if_pos rfl, Task.answered_self, h.self_hand]
      cases die <;> cases hkind : (m.task t').kind <;>
        by_cases hstop : (m.task t').status = .stop <;> simp [hstop]
    · have hplaces := h.places t'
      rw [stored_respondAndDie_of_ne ht, htask, if_neg ht, ← hplaces]
      cases die <;> simp [Ne.symm ht]
  · rw [htask]
    split
    · rename_i heq
      rw [State.respondAndDie_eq] at ht'
      have := h.fresh t' ht'
      rw [heq, h.self_hand] at this
      cases this
    · rw [State.respondAndDie_eq] at ht'
      exact h.fresh t' ht'
  · rw [State.respondAndDie_eq] at hu
    exact h.postponed u t' (hpost hu).2
  · rw [State.IsPostponed, State.respondAndDie_eq] at ht'
    exact (hstatus t').trans (h.postponedStatus t' (hpost ht').2)
  · rw [State.respondAndDie_eq] at ht'
    exact (hstatus t').trans (h.readyStatus t' ht')
  · rw [State.upstreams, State.respondAndDie_eq] at ht'
    exact (hstatus t').trans (h.upstreamStatus t' ht')
  · have hkind : ((m.respondAndDie P t body die).task t').kind = (m.task t').kind := by
      rw [htask]
      split <;> simp [*]
    rw [State.respondAndDie_eq] at ht'
    dsimp only at ht'
    rw [hkind]
    split at ht'
    · rename_i hcond
      exact (List.mem_cons.mp ht').elim (fun e => e ▸ hcond.2.1) (h.timerKind t')
    · exact h.timerKind t' ht'

/-- The task in hand is put into `m_readyToResume`. -/
theorem resumeTask (h : Placed P (some t) m) (hstatus : (m.task t).status = .postpone)
    (input : Input) : Placed P none (m.resumeTask t input) := by
  have hmod := (h.note (.resume t input)).modify_hand
    (f := fun bt => { bt with input := input }) rfl rfl
  refine hmod.move rfl rfl (fun t' => ?_) (fun _ _ => .inl) (fun t' ht' => ?_) (fun _ => .inl)
    fun _ => .inl
  · simp only [State.stored, State.resumeTask, State.jobs, State.upstreams, State.modify,
      State.note, List.count_append, Option.toList_some, Option.toList_none, List.count_nil]
    omega
  · rcases List.mem_append.mp ht' with ht' | ht'
    · exact .inl ht'
    · rw [List.mem_singleton] at ht'
      subst ht'
      simp [State.modify, State.note, hstatus]

/-- `postponeTask` leaves the task in `m_postponedTasks` or in `m_readyToResume`. -/
theorem postponeTask (h : Placed P (some t) m) (hstatus : (m.task t).status = .postpone) :
    Placed P none (m.postponeTask P t) := by
  unfold State.postponeTask
  dsimp only
  split
  · have hfuture : Placed P (some t) { m with
        futurePostponeUuids := (m.futurePostponeUuids.extract m.now fun e => e.1 = P.uuid t).2 } :=
      ⟨h.places, h.fresh, h.postponed, h.postponedStatus, h.readyStatus, h.upstreamStatus,
        h.timerKind⟩
    exact hfuture.resumeTask hstatus _
  · refine h.move rfl rfl (fun t' => ?_) (fun u t' hu => ?_) (fun _ => .inl) (fun _ => .inl)
      fun _ => .inl
    · simp only [State.stored, State.note, State.jobs, State.upstreams]
      by_cases ht : t' = t
      · subst ht
        have := h.stored_hand
        simp only [State.stored, State.jobs, State.upstreams] at this
        simp only [Function.update_self, Option.toList_some, Option.toList_none, List.count_nil,
          List.count_singleton_self]
        omega
      · have huuid : P.uuid t' ≠ P.uuid t := fun e => ht (P.uuid_injective e)
        simp [Function.update_of_ne huuid, Ne.symm ht]
    · dsimp only [State.note] at hu
      rw [Function.update_apply] at hu
      split at hu
      · rename_i heq
        rw [Option.some.injEq] at hu
        exact .inr ⟨by rw [heq, hu], hu ▸ hstatus⟩
      · exact .inl hu

/-- The task that waits for `u` moves to `m_readyToResume`. -/
theorem resumePostponed {next : ℕ} {u : υ} (h : Placed P hand m)
    (hnext : m.postponedTasks u = some next) (input : Input) :
    Placed P hand ((m.resumeTask next input).erasePostponed u) := by
  obtain rfl := h.postponed u next hnext
  have hmod := (h.note (.resume next input)).modify (t := next)
    (f := fun bt => { bt with input := input }) rfl rfl (.inl rfl)
  refine hmod.move rfl rfl (fun t' => ?_) (fun u' t' hu => ?_) (fun t' ht' => ?_) (fun _ => .inl)
    fun _ => .inl
  · simp only [State.stored, State.resumeTask, State.erasePostponed, State.jobs, State.upstreams,
      State.modify, State.note, List.count_append]
    by_cases ht : t' = next
    · subst ht
      simp only [Function.update_self, hnext, Option.toList_some, Option.toList_none,
        List.count_nil, List.count_singleton_self]
      omega
    · have huuid : P.uuid t' ≠ P.uuid next := fun e => ht (P.uuid_injective e)
      simp only [Function.update_of_ne huuid, List.count_singleton, beq_iff_eq, Ne.symm ht,
        if_false, Nat.add_zero]
  · dsimp only [State.erasePostponed] at hu
    rw [Function.update_apply] at hu
    split at hu
    · cases hu
    · exact .inl hu
  · rcases List.mem_append.mp ht' with ht' | ht'
    · exact .inl ht'
    · rw [List.mem_singleton] at ht'
      subst ht'
      have := h.postponedStatus t' hnext
      simp [State.modify, State.note, this]

theorem resumeNext (h : Placed P hand m) (t : ℕ) : Placed P hand (m.resumeNext t) := by
  unfold State.resumeNext
  dsimp only
  split
  · exact h
  · split
    · exact ⟨h.places, h.fresh, h.postponed, h.postponedStatus, h.readyStatus, h.upstreamStatus,
        h.timerKind⟩
    · rename_i hnext
      exact h.resumePostponed hnext _

/-- `processOk` answers the task, after another one may have been resumed. -/
theorem processOk (h : Placed P (some t) m) : Placed P none (m.processOk P t) :=
  (h.resumeNext t).respondAndDie _ true

/-- A task that is taken out of `m_postponedTasks` is in hand. -/
theorem erasePostponed (h : Placed P none m) (hpost : m.IsPostponed P t) :
    Placed P (some t) (m.erasePostponed (P.uuid t)) := by
  rw [State.IsPostponed] at hpost
  refine h.move rfl rfl (fun t' => ?_) (fun u t' hu => ?_) (fun _ => .inl) (fun _ => .inl)
    fun _ => .inl
  · simp only [State.stored, State.erasePostponed, State.jobs, State.upstreams]
    by_cases ht : t' = t
    · subst ht
      simp only [Function.update_self, hpost, Option.toList_some, Option.toList_none,
        List.count_nil, List.count_singleton_self]
      omega
    · have huuid : P.uuid t' ≠ P.uuid t := fun e => ht (P.uuid_injective e)
      simp [Function.update_of_ne huuid, Ne.symm ht]
  · dsimp only [State.erasePostponed] at hu
    rw [Function.update_apply] at hu
    split at hu
    · cases hu
    · exact .inl hu

/-- A postponed task that has expired is answered. -/
theorem expireTask (h : Placed P none m) (hpost : m.IsPostponed P t) :
    Placed P none (m.expireTask P t) := by
  have hhand := ((h.erasePostponed hpost).note (.expire t m.now)).modify_hand
    (f := fun bt => { bt with status := .error }) rfl rfl
  have hdie := hhand.respondAndDie "Postpone task response timeout" true
  rw [State.respondAndDie_eq] at hdie
  rw [State.expireTask, State.respondAndDie_eq]
  simpa [State.erasePostponed, State.modify, State.note, State.setLastStatus, State.replies]
    using hdie

/-- Entries of `m_expireTaskQueue` do not matter. -/
theorem expireTasks (fuel : ℕ) (h : Placed P none m) : Placed P none (m.expireTasks P fuel) := by
  refine State.expireTasks_invariant P (I := Placed P none) (fun m u t h hpost => ?_)
    (fun m q h => ?_) fuel h
  · rw [h.postponed u t hpost] at hpost
    exact h.expireTask hpost
  · exact ⟨h.places, h.fresh, h.postponed, h.postponedStatus, h.readyStatus, h.upstreamStatus,
      h.timerKind⟩

/-- `checkThreadPoolOverflow` answers the task, which is then `Busy`, or does nothing. -/
theorem checkThreadPoolOverflow (h : Placed P (some t) m) (hstatus : (m.task t).status ≠ .busy) :
    Placed P (if ((m.checkThreadPoolOverflow P t).task t).status = .busy then none else some t)
      (m.checkThreadPoolOverflow P t) := by
  unfold State.checkThreadPoolOverflow
  by_cases hfull : (m.task t).h3.workerAction ∧
      m.cntJobSent - m.cntJobDone = P.threadPoolInputSize
  · have hbusy := (h.modify_hand (f := fun bt => { bt with status := .busy }) rfl rfl).respondAndDie
      "Thread pool overflow" true
    rw [if_pos hfull, State.respondAndDie_task, if_pos rfl, Task.answered_status]
    simpa [State.setLastStatus, State.modify] using hbusy
  · rw [if_neg hfull, if_neg hstatus]
    exact h

/-! ## Handlers and jobs -/

/-- A handler is called with the task in hand. -/
theorem handled (h : Placed P (some t) m) (hm : m.Handled t m') : Placed P (some t) m' := by
  cases hm with
  | rest => exact h
  | called f hf => exact (h.note _).modify_hand (hf.kind _) (hf.self _)

theorem runPreAction {o : Option (Outcome υ)} (h : Placed P (some t) m)
    (hm : m.runPreAction t o = some m') : Placed P (some t) m' :=
  h.handled (State.handled_runPreAction hm)

theorem runPostAction {o : Option (Outcome υ)} (h : Placed P (some t) m)
    (hm : m.runPostAction t o = some m') : Placed P (some t) m' :=
  h.handled (State.handled_runPostAction hm)

/-- `runWorkerAction` leaves the task with the pool, if it has a job for it. -/
theorem runWorkerAction (h : Placed P (some t) m) (hm : m.runWorkerAction t = some m') :
    Placed P (if (m.task t).h3.workerAction then none else some t) m' := by
  obtain ⟨hworker, pool, hpost, rfl⟩ | ⟨hworker, rfl⟩ := State.runWorkerAction_cases hm
  · have hperm := (ThreadPool.post_spec hpost).1
    rw [if_pos hworker]
    refine h.move rfl rfl (fun t' => ?_) (fun _ _ => .inl) (fun _ => .inl) (fun _ => .inl)
      fun _ => .inl
    have hcount := hperm.count_eq t'
    rw [← List.singleton_append, List.count_append] at hcount
    simp only [State.stored, State.jobs, State.upstreams, List.count_append,
      Option.toList_some, Option.toList_none, List.count_nil]
    omega
  · rw [if_neg (by simp [hworker])]
    exact h

/-- `processForward` leaves the task with the upstream manager. -/
theorem processForward [DecidableEq κ] (h : Placed P (some t) m)
    (hstatus : (m.task t).status = .forward) (hm : m.processForward P t = some m') :
    Placed P none m' := by
  obtain ⟨um, hsend, rfl⟩ := Option.map_eq_some_iff.mp hm
  have hholds (t' : ℕ) := UpstreamManager.holds_send P.upstream (SentTask.isBase t') hsend
  refine h.move rfl rfl (fun t' => ?_) (fun _ _ => .inl) (fun _ => .inl) (fun t' ht' => ?_)
    fun _ => .inl
  · have := hholds t'
    simp only [SentTask.isBase_base, decide_eq_true_eq] at this
    simp only [State.stored, State.jobs, State.upstreams, Option.toList_some, Option.toList_none,
      List.count_nil, List.count_singleton, beq_iff_eq]
    omega
  · have := hholds t'
    simp only [State.upstreams, SentTask.isBase_base, decide_eq_true_eq] at this ht' ⊢
    split at this
    · rename_i heq
      exact .inr (heq ▸ hstatus)
    · exact .inl (by omega)

end Placed

/-! ## Taking a task up -/

namespace Placed

variable {P}

theorem stored_created (h : Placed P hand m) : m.stored P m.created = 0 := by
  have := h.places m.created
  rw [h.fresh _ le_rfl, Bool.toNat_false] at this
  omega

/-- **A task is created**: it was nowhere, and is in hand or waits for its timer. -/
theorem create {hand' : Option ℕ} (h : Placed P hand m) {bt : Task υ} (hself : bt.self = true)
    {l : List ℕ}
    (hplaces : ∀ t, l.count t + hand'.toList.count t =
      m.timerList.count t + hand.toList.count t + [m.created].count t)
    (htimer : ∀ t ∈ l, t ∈ m.timerList ∨ t = m.created ∧ bt.kind = .periodic) :
    Placed P hand' { m.create bt with timerList := l } := by
  have hne (t' : ℕ) (ht' : 0 < m.stored P t') : (m.create bt).task t' = m.task t' :=
    Function.update_of_ne (fun heq => by rw [heq, h.stored_created] at ht'; exact ht'.false) _ _
  refine ⟨fun t' => ?_, fun t' ht' => ?_, h.postponed, fun t' ht' => ?_, fun t' ht' => ?_,
    fun t' ht' => ?_, fun t' ht' => ?_⟩
  · have hold := h.places t'
    have hnew := hplaces t'
    simp only [State.stored, State.jobs, State.upstreams, State.create] at hold ⊢
    by_cases ht : t' = m.created
    · subst ht
      rw [h.fresh _ le_rfl, Bool.toNat_false] at hold
      rw [Function.update_self, hself, Bool.toNat_true]
      rw [List.count_singleton_self] at hnew
      omega
    · rw [List.count_singleton, if_neg (by simpa using Ne.symm ht)] at hnew
      rw [Function.update_of_ne ht]
      omega
  · have hle : m.created + 1 ≤ t' := ht'
    have hcreated : t' ≠ m.created := by omega
    show ((Function.update m.task m.created bt) t').self = false
    rw [Function.update_of_ne hcreated]
    exact h.fresh t' (by omega)
  · refine (congrArg Task.status (hne t' ?_)).trans (h.postponedStatus t' ht')
    have heq : m.postponedTasks (P.uuid t') = some t' := ht'
    simp only [State.stored, heq, Option.toList_some, List.count_singleton_self]
    omega
  · refine (congrArg Task.status (hne t' ?_)).trans (h.readyStatus t' ht')
    have : 0 < m.readyToResume.count t' := List.count_pos_iff.mpr ht'
    simp only [State.stored]
    omega
  · refine (congrArg Task.status (hne t' ?_)).trans (h.upstreamStatus t' ht')
    have : 0 < m.upstreams t' := ht'
    simp only [State.stored]
    omega
  · show ((Function.update m.task m.created bt) t').kind = .periodic
    by_cases ht : t' = m.created
    · subst ht
      rw [Function.update_self]
      rcases htimer _ ht' with ht' | ht'
      · have : 0 < m.timerList.count m.created := List.count_pos_iff.mpr ht'
        have hzero := h.stored_created
        simp only [State.stored] at hzero
        omega
      · exact ht'.2
    · rw [Function.update_of_ne ht]
      exact h.timerKind t' ((htimer t' ht').resolve_right fun e => ht e.1)

theorem onNewClient (h : Placed P none m) (h3 : Handler3) (input : Input) :
    Placed P (some m.created) (m.onNewClient h3 input) := by
  have hnew : Placed P (some m.created) (m.create (.newClient h3 input)) :=
    h.create rfl (l := m.timerList) (fun t' => by simp) fun _ => .inl
  exact ⟨hnew.places, hnew.fresh, hnew.postponed, hnew.postponedStatus, hnew.readyStatus,
    hnew.upstreamStatus, hnew.timerKind⟩

theorem addPeriodicTask (h : Placed P hand m) (h3 : Handler3) :
    Placed P hand (m.addPeriodicTask h3) :=
  h.create rfl (l := m.created :: m.timerList)
    (fun t' => by rw [← List.singleton_append, List.count_append]; omega)
    fun t' ht' => (List.mem_cons.mp ht').symm.imp id fun e => ⟨e, rfl⟩

theorem closeClient (h : Placed P hand m) (t : ℕ) : Placed P hand (m.closeClient t) :=
  h.modify rfl rfl (.inl rfl)

theorem onTimer (h : Placed P none m) (ht : t ∈ m.timerList) :
    Placed P (some t) (m.onTimer t) := by
  have htake : Placed P (some t) { m with timerList := m.timerList.erase t } := by
    refine h.move rfl rfl (fun t' => ?_) (fun _ _ => .inl) (fun _ => .inl) (fun _ => .inl)
      fun t' ht' => .inl (List.mem_of_mem_erase ht')
    have := (List.perm_cons_erase ht).count_eq t'
    rw [← List.singleton_append, List.count_append] at this
    simp only [State.stored, State.jobs, State.upstreams, Option.toList_some, Option.toList_none,
      List.count_nil]
    omega
  exact htake.modify_hand (f := fun bt => { bt with status := .none }) rfl rfl

/-- A job moves within the pool. -/
theorem workerStart (h : Placed P hand m) (i : ℕ) : Placed P hand (m.workerStart i) := by
  unfold State.workerStart
  split
  · exact h
  · rename_i t pool htake
    refine h.move rfl rfl (fun t' => ?_) (fun _ _ => .inl) (fun _ => .inl) (fun _ => .inl)
      fun _ => .inl
    have hcount := (ThreadPool.take_spec htake).1.count_eq t'
    rw [← List.singleton_append, List.count_append] at hcount
    simp only [State.stored, State.jobs, State.upstreams, List.count_append]
    rw [← List.singleton_append (l := m.running), List.count_append]
    omega

/-- A job that is done finds room in the result queue. -/
theorem workerDone {o : Option (Outcome υ)} (h : Placed P hand m) (ht : t ∈ m.running)
    (hroom : ¬ m.resQueue.Full) (hm : m.workerDone t o = some m') :
    Placed P hand m' := by
  obtain ⟨m₁, hrun, rfl⟩ := Option.map_eq_some_iff.mp hm
  obtain ⟨o, -, rfl⟩ := Option.map_eq_some_iff.mp hrun
  have hcount : 0 < m.running.count t := List.count_pos_iff.mpr ht
  have hplaces := h.places t
  have hself := Bool.toNat_le (m.task t).self
  simp only [State.stored, State.jobs, List.count_append] at hplaces
  have hmod := (h.note (.handler t)).modify (t := t)
    (f := fun bt => { bt with
      status := o.status, output := o.output, nextUuid := o.nextUuid
      input := if o.status = .ok ∧ bt.h3.postAction ∨ o.status = .forward
        then bt.input.assign o.output else bt.input }) rfl rfl (.inr ⟨fun hpost => ?_, ?_, ?_⟩)
  · dsimp only
    split
    · rename_i resQueue hpush
      have hitems := (BoundedQueue.push_eq_some hpush).1
      refine hmod.move rfl rfl (fun t' => ?_) (fun _ _ => .inl) (fun _ => .inl) (fun _ => .inl)
        fun _ => .inl
      have hperm := (List.perm_cons_erase ht).count_eq t'
      rw [← List.singleton_append, List.count_append] at hperm
      simp only [State.modify, State.note] at hitems
      simp only [State.stored, State.modify, State.note, State.jobs, State.upstreams, hitems,
        List.count_append]
      omega
    · rename_i hpush
      exact absurd (BoundedQueue.push_eq_none.mp hpush) hroom
  · have heq : m.postponedTasks (P.uuid t) = some t := hpost
    rw [heq, Option.toList_some, List.count_singleton_self] at hplaces
    omega
  · show t ∉ m.readyToResume
    rw [← List.count_eq_zero]
    omega
  · show m.upstreams t = 0
    omega

/-- The result of a job is taken. -/
theorem jobReady {resQueue : BoundedQueue ℕ} (h : Placed P none m)
    (hres : m.resQueue.pop = some (t, resQueue)) :
    Placed P (some t)
      { m with resQueue := resQueue, cntJobDone := m.cntJobDone + 1 } := by
  refine h.move rfl rfl (fun t' => ?_) (fun _ _ => .inl) (fun _ => .inl) (fun _ => .inl)
    fun _ => .inl
  have : m.resQueue.items.count t' = [t].count t' + resQueue.items.count t' := by
    rw [(BoundedQueue.pop_eq_some hres).1, ← List.singleton_append, List.count_append]
  simp only [State.stored, State.jobs, State.upstreams, List.count_append, Option.toList_some,
    Option.toList_none, List.count_nil]
  omega

theorem resume {readyToResume : List ℕ} (h : Placed P none m)
    (hready : m.readyToResume = t :: readyToResume) :
    Placed P (some t) { m with readyToResume := readyToResume } := by
  refine h.move rfl rfl (fun t' => ?_) (fun _ _ => .inl)
    (fun t' ht' => .inl (hready ▸ List.mem_cons_of_mem t ht')) (fun _ => .inl) fun _ => .inl
  have : m.readyToResume.count t' = [t].count t' + readyToResume.count t' := by
    rw [hready, ← List.singleton_append, List.count_append]
  simp only [State.stored, State.jobs, State.upstreams, Option.toList_some, Option.toList_none,
    List.count_nil]
  omega

/-! ## Upstream -/

variable [DecidableEq κ]

omit [DecidableEq κ] in
/-- The request of a task is done: the task is in hand. -/
theorem finishUpstream {i : ℕ} {s : UpstreamSender SentTask κ} (h : Placed P none m)
    (hi : m.upstreamManager.senders[i]? = some s) :
    Placed P (match s.bt with | .base t => some t | .upstream _ _ => none)
      { m with upstreamManager := m.upstreamManager.finish i } := by
  have hholds (t' : ℕ) := UpstreamManager.holds_finish (SentTask.isBase t') hi
  refine h.move rfl rfl (fun t' => ?_) (fun _ _ => .inl) (fun _ => .inl) (fun t' ht' => ?_)
    fun _ => .inl
  · have := hholds t'
    simp only [State.stored, State.jobs, State.upstreams, Option.toList_none, List.count_nil]
    split
    · rename_i t hbt
      rw [hbt, SentTask.isBase_base] at this
      simp only [decide_eq_true_eq] at this
      rw [Option.toList_some, List.count_singleton]
      simp only [beq_iff_eq]
      omega
    · rename_i hbt
      rw [hbt, SentTask.isBase_upstream, if_neg (by simp)] at this
      rw [Option.toList_none, List.count_nil]
      omega
  · have := hholds t'
    simp only [State.upstreams] at this ht' ⊢
    exact .inl (by omega)

omit [DecidableEq κ] in
/-- A task whose request is under way has been forwarded. -/
theorem status_of_sent {i t : ℕ} {s : UpstreamSender SentTask κ} (h : Placed P hand m)
    (hi : m.upstreamManager.senders[i]? = some s) (hbt : s.bt = .base t) :
    (m.task t).status = .forward := by
  have hholds := UpstreamManager.holds_finish (SentTask.isBase t) hi
  rw [hbt, SentTask.isBase_base, if_pos (by simp)] at hholds
  refine h.upstreamStatus t ?_
  rw [State.upstreams]
  omega

omit [DecidableEq κ] in
/-- What the upstream manager does without taking a task or giving one back. -/
theorem upstream (h : Placed P hand m) {um : UpstreamManager SentTask κ}
    (hum : ∀ t, um.holds (SentTask.isBase t) = m.upstreamManager.holds (SentTask.isBase t)) :
    Placed P hand { m with upstreamManager := um } := by
  refine h.move rfl rfl (fun t' => ?_) (fun _ _ => .inl) (fun _ => .inl) (fun t' ht' => ?_)
    fun _ => .inl
  · simp only [State.stored, State.jobs, State.upstreams, hum]
  · simp only [State.upstreams, hum] at ht' ⊢
    exact .inl ht'

end Placed

/-! ## One step of a dispatch -/

/-- What a dispatch holds: a task that has been sent to the pool, or answered because the pool is
full, is in hand no longer. -/
def State.heldAt (m : State υ κ) (t : ℕ) (s : StateMachine.State) : Option ℕ :=
  if s = .chkWorkerAction ∧ (m.task t).h3.workerAction ∨
      s = .preAction ∧ (m.task t).status = .busy then none
  else some t

omit [Fintype κ] in
theorem State.heldAt_of_ne (m : State υ κ) {s : StateMachine.State} (hpre : s ≠ .preAction)
    (hchk : s ≠ .chkWorkerAction) : m.heldAt t s = some t := by
  simp [heldAt, hpre, hchk]

omit [Fintype κ] in
theorem State.heldAt_preAction (m : State υ κ) :
    m.heldAt t .preAction = if (m.task t).status = .busy then none else some t := by
  simp [heldAt]

omit [Fintype κ] in
theorem State.heldAt_chkWorkerAction (m : State υ κ) :
    m.heldAt t .chkWorkerAction = if (m.task t).h3.workerAction then none else some t := by
  simp [heldAt]

omit [Fintype κ] in
/-- **An action is done with a task in hand**. -/
theorem State.heldAt_of_action {s target : StateMachine.State} {a : Action}
    (hrow : StateMachine.process s (m.task t).status (m.task t).h3 = some (some a, target)) :
    m.heldAt t s = some t := by
  refine if_neg ?_
  rintro (⟨rfl, -⟩ | ⟨rfl, hbusy⟩)
  · rw [process_chkWorkerAction] at hrow
    cases hrow
  · rw [hbusy, process_preAction] at hrow
    cases hrow

omit [Fintype κ] in
theorem State.runWorkerAction_task (m : State υ κ) (hm : m.runWorkerAction t = some m') :
    m'.task = m.task := by
  obtain ⟨-, pool, -, rfl⟩ | ⟨-, rfl⟩ := runWorkerAction_cases hm <;> rfl

/-- **One row of the state machine**: its action keeps the task in hand, or leaves it
somewhere, as the next state says. -/
theorem Placed.perform [DecidableEq κ] {s target : StateMachine.State} {a : Option Action}
    {o : Option (Outcome υ)} (h : Placed P (m.heldAt t s) m)
    (hrow : StateMachine.process s (m.task t).status (m.task t).h3 = some (a, target))
    (hbusy : s = .execute → (m.task t).status ≠ .busy)
    (hm : a.elim (some m) (m.perform P t o) = some m') :
    Placed P (if target = .exit then none else m'.heldAt t target) m' := by
  cases s with
  | execute =>
    rw [process_execute] at hrow
    cases hrow
    cases hm
    rw [State.heldAt_of_ne m (by simp) (by simp)] at h
    rw [if_neg (by simp), State.heldAt_preAction]
    exact h.checkThreadPoolOverflow (hbusy rfl)
  | preAction =>
    rw [State.heldAt_preAction] at h
    obtain ⟨hst, rfl, rfl⟩ | ⟨hst, rfl, rfl⟩ := process_preAction_cases hrow
    · -- the overflow has answered the task, and its dispatch ends
      cases hm
      simpa [hst] using h
    · rw [if_neg hst] at h
      rw [if_neg (by simp), State.heldAt_of_ne _ (by simp) (by simp)]
      exact h.runPreAction hm
  | chkPreAction =>
    rw [State.heldAt_of_ne m (by simp) (by simp)] at h
    -- `Again` keeps the task in hand, an error lets go of it, and the rest goes on
    obtain ⟨hst, rfl, rfl⟩ | ⟨rfl, rfl | rfl⟩ | ⟨-, rfl | rfl, rfl⟩ :=
      process_chkPreAction_cases hrow
    · cases hm
      rw [if_neg (by simp), State.heldAt_preAction, State.respondAndDie_task, if_pos rfl,
        Task.answered_status, hst, if_neg (by simp)]
      exact h.respondAndDie _ false
    all_goals cases hm
    · rwa [if_neg (by simp), State.heldAt_of_ne m (by simp) (by simp)]
    · rwa [if_neg (by simp), State.heldAt_of_ne m (by simp) (by simp)]
    · exact h.respondAndDie _ true
    · exact h.respondAndDie _ true
  | workerAction =>
    rw [process_workerAction] at hrow
    cases hrow
    rw [State.heldAt_of_ne m (by simp) (by simp)] at h
    rw [if_neg (by simp), State.heldAt_chkWorkerAction, State.runWorkerAction_task m hm]
    exact h.runWorkerAction hm
  | chkWorkerAction =>
    rw [process_chkWorkerAction] at hrow
    cases hrow
    cases hm
    rw [State.heldAt_chkWorkerAction] at h
    -- a task with a worker action is with the pool from here on
    split at h
    · rename_i hworker
      rw [if_pos (by simp [hworker])]
      exact h
    · rename_i hworker
      rwa [if_neg (by simp [hworker]), if_neg hworker, State.heldAt_of_ne m (by simp) (by simp)]
  | workerActionDone =>
    rw [State.heldAt_of_ne m (by simp) (by simp)] at h
    obtain ⟨hst, rfl, rfl⟩ | ⟨rfl, rfl⟩ := process_workerActionDone_cases hrow
    · cases hm
      rw [if_neg (by simp), State.heldAt_of_ne _ (by simp) (by simp)]
      exact h.respondAndDie _ false
    · cases hm
      rwa [if_neg (by simp), State.heldAt_of_ne m (by simp) (by simp)]
  | postAction =>
    rw [process_postAction] at hrow
    cases hrow
    rw [State.heldAt_of_ne m (by simp) (by simp)] at h
    rw [if_neg (by simp), State.heldAt_of_ne _ (by simp) (by simp)]
    exact h.runPostAction hm
  | chkPostAction =>
    rw [State.heldAt_of_ne m (by simp) (by simp)] at h
    -- again, forwarded, answered, dropped or answered with an error, postponed
    obtain ⟨hst, rfl, rfl⟩ | ⟨hst, rfl, rfl⟩ | ⟨hst, rfl, rfl⟩ | ⟨-, rfl | rfl, rfl⟩ |
      ⟨hst, rfl, rfl⟩ := process_chkPostAction_cases hrow
    · cases hm
      rw [if_neg (by simp), State.heldAt_of_ne _ (by simp) (by simp)]
      exact h.respondAndDie _ false
    · exact h.processForward hst hm
    all_goals cases hm
    · exact h.processOk
    · exact h.respondAndDie _ true
    · exact h.respondAndDie _ true
    · exact h.postponeTask hst
  | again => rw [process_again] at hrow; cases hrow
  | exit => rw [process_exit] at hrow; cases hrow

end TaskManager
