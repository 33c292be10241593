/-
# The rows that a run needs

The table of the state machine has a row for every state and status that a dispatch comes to,
unless a pre-action returns `Again`: the table answers such a task and sends it back to
`preAction`, where no row takes the status `Again`.

* `Expected`: the statuses with which a dispatch can be in a state;
* `Expected.exists_row`, `Expected.next`: there is a row, and what it leads to is expected again;
* `work`: how many rows are left before the exit; every `Again` of a post-action adds two;
* `Rows`: the invariant of the loop.
-/
import GraftSupernode.TaskConservation

open StateMachine

namespace StateMachine

/-- The handler has an action. -/
def Handler3.HasAction (h3 : Handler3) : Prop :=
  h3.preAction = true ∨ h3.workerAction = true ∨ h3.postAction = true

/-- The statuses that an action may return. -/
def Status.IsAnswer (st : Status) : Prop := st ≠ .none ∧ st ≠ .busy

/-- The statuses with which a dispatch comes to a state, if no pre-action returns `Again`. -/
def Expected (h3 : Handler3) : State → Status → Prop
  | .execute, st => st = .none ∨ st = .forward ∨ st = .postpone
  | .preAction, st => st = .none ∨ st = .forward ∨ st = .postpone ∨ st = .busy
  | .chkPreAction, st =>
    if h3.preAction then st.IsAnswer ∧ st ≠ .again else st = .none ∨ st = .forward ∨ st = .postpone
  | .workerAction, st =>
    st ≠ .busy ∧ (st = .none → h3.preAction = false) ∧ (st = .again → h3.workerAction = true)
  -- the job may be done already
  | .chkWorkerAction, st =>
    h3.workerAction = true ∨ st ≠ .busy ∧ (st = .none → h3.preAction = false) ∧ st ≠ .again
  | .workerActionDone, st => st.IsAnswer ∧ h3.workerAction = true
  | .postAction, st =>
    st ≠ .busy ∧ (st = .none → h3.preAction = false ∧ h3.workerAction = false) ∧
      (st = .again → h3.postAction = true)
  | .chkPostAction, st => st.IsAnswer ∧ (st = .again → h3.postAction = true)
  | .again, _ | .exit, _ => False

/-- What an action does to the status; `o` is what the handler returns. -/
def StatusAfter (h3 : Handler3) (o : Option Status) (st st' : Status) : Option Action → Prop
  | some .checkOverflow => st' = st ∨ st' = .busy
  | some .runPreaction => if h3.preAction then o = some st' else st' = st
  | some .runPostaction => if h3.postAction then st' = .forward ∨ o = some st' else st' = st
  | _ => st' = st

/-- How many rows are left, at most. -/
def rank : State → ℕ
  | .execute => 7
  | .preAction => 6
  | .chkPreAction | .workerActionDone => 5
  | .workerAction => 4
  | .chkWorkerAction => 3
  | .postAction => 2
  | .chkPostAction => 1
  | .again | .exit => 0

/-- How many rows are left when no action returns `Again` any more. -/
def work (s : State) (st : Status) : ℕ :=
  rank s + if s = .chkPostAction ∧ st = .again then 2 else 0

section

variable {h3 : Handler3} {s target : State} {st st' : Status} {a : Option Action}
  {o : Option Status}

/-- **The table has a row**. -/
theorem Expected.exists_row (h : Expected h3 s st) : ∃ r, process s st h3 = some r := by
  obtain ⟨pre, worker, post⟩ := h3
  cases s with
  | execute => exact ⟨_, process_execute _ _⟩
  | preAction =>
    rw [process_preAction]
    obtain rfl | rfl | rfl | rfl := h <;> exact ⟨_, rfl⟩
  | chkPreAction =>
    rw [process_chkPreAction]
    cases pre <;> cases st <;> simp_all [Expected, Status.IsAnswer]
  | workerAction => exact ⟨_, process_workerAction _ _⟩
  | chkWorkerAction => exact ⟨_, process_chkWorkerAction _ _⟩
  | workerActionDone =>
    rw [process_workerActionDone]
    cases st <;> exact ⟨_, rfl⟩
  | postAction => exact ⟨_, process_postAction _ _⟩
  | chkPostAction =>
    rw [process_chkPostAction]
    cases st <;> simp_all [Expected, Status.IsAnswer]
  | again | exit => exact h.elim

/-- A job is sent in `workerAction`, and a request is forwarded by the last check. -/
theorem start_runWorkeraction (h : process s st h3 = some (some .runWorkeraction, target)) :
    s = .workerAction := by
  obtain ⟨r, hr, rfl, haction, -⟩ := exists_row h
  revert r
  simp [initTable]

theorem start_runForward (h : process s st h3 = some (some .runForward, target)) :
    s = .chkPostAction ∧ st = .forward := by
  have hs : s = .chkPostAction := by
    obtain ⟨r, hr, rfl, haction, -⟩ := exists_row h
    revert r
    simp [initTable]
  subst hs
  obtain ⟨-, ha, -⟩ | ⟨hst, -, -⟩ | ⟨-, ha, -⟩ | ⟨-, ha | ha, -⟩ | ⟨-, ha, -⟩ :=
    process_chkPostAction_cases h
  · cases ha
  · exact ⟨rfl, hst⟩
  all_goals cases ha

/-- A row forward is one less. -/
theorem work_lt_of_rank (htarget : target ≠ .chkPostAction) (h : rank target < rank s) (n : ℕ) :
    work target st' + 1 ≤ work s st + n := by
  simp only [work, htarget, false_and, if_false]
  omega

/-- **What a row leads to**: the status is expected in the next state, and there is less to do,
unless the action has returned `Again`. -/
theorem Expected.next (h : Expected h3 s st) (hh3 : h3.HasAction)
    (hrow : process s st h3 = some (a, target)) (hafter : StatusAfter h3 o st st' a)
    (ho : ∀ x ∈ o, x.IsAnswer) (hpre : s = .preAction → h3.preAction = true → o ≠ some .again) :
    target = .exit ∨ Expected h3 target st' ∧
      work target st' + 1 ≤ work s st + if o = some .again then 2 else 0 := by
  cases s with
  | execute =>
    rw [process_execute] at hrow
    cases hrow
    -- the thread pool may be full, which makes the status `busy`
    refine .inr ⟨?_, work_lt_of_rank (by simp) (by decide) _⟩
    obtain rfl | rfl := hafter
    · obtain rfl | rfl | rfl := h <;> simp [Expected]
    · simp [Expected]
  | preAction =>
    obtain ⟨-, -, rfl⟩ | ⟨hst, rfl, rfl⟩ := process_preAction_cases hrow
    · exact .inl rfl
    · refine .inr ⟨?_, work_lt_of_rank (by simp) (by decide) _⟩
      simp only [StatusAfter] at hafter
      simp only [Expected]
      split
      · rename_i hp
        rw [if_pos hp] at hafter
        refine ⟨ho st' hafter, fun heq => hpre rfl hp ?_⟩
        rw [hafter, heq]
      · rename_i hp
        rw [if_neg hp] at hafter
        subst hafter
        simpa [Expected, hst] using h
  | chkPreAction =>
    obtain ⟨rfl, rfl, rfl⟩ | ⟨rfl, htarget⟩ | ⟨-, -, rfl⟩ := process_chkPreAction_cases hrow
    · -- a status `again` here is what a pre-action has returned
      cases hp : h3.preAction <;> simp [Expected, hp] at h
    · have hafter : st' = st := hafter
      subst hafter
      have hrank : target ≠ .chkPostAction ∧ rank target < rank .chkPreAction := by
        rcases htarget with rfl | rfl <;> decide
      refine .inr ⟨?_, work_lt_of_rank hrank.1 hrank.2 _⟩
      rw [process_chkPreAction] at hrow
      cases hp : h3.preAction <;> cases st' <;>
        simp_all [Expected, Status.IsAnswer] <;> subst target <;> simp_all
    · exact .inl rfl
  | workerAction =>
    rw [process_workerAction] at hrow
    cases hrow
    have hafter : st' = st := hafter
    subst hafter
    refine .inr ⟨?_, work_lt_of_rank (by simp) (by decide) _⟩
    obtain ⟨hbusy, hnone, hagain⟩ := h
    -- without a worker action the next check takes the status as it is
    cases hw : h3.workerAction with
    | true => exact .inl hw
    | false => exact .inr ⟨hbusy, hnone, fun e => by simpa [hw] using hagain e⟩
  | chkWorkerAction =>
    rw [process_chkWorkerAction] at hrow
    cases hrow
    have hafter : st' = st := hafter
    subst hafter
    cases hw : h3.workerAction with
    | true => exact .inl rfl
    | false =>
      obtain hworker | ⟨hbusy, hnone, hagain⟩ := h
      · rw [hw] at hworker
        cases hworker
      · exact .inr ⟨⟨hbusy, fun e => ⟨hnone e, hw⟩, fun e => absurd e hagain⟩,
          work_lt_of_rank (by simp) (by decide) _⟩
  | workerActionDone =>
    obtain ⟨⟨hnone, hbusy⟩, hworker⟩ := h
    obtain ⟨hst, rfl, rfl⟩ | ⟨rfl, rfl⟩ := process_workerActionDone_cases hrow
    all_goals have hafter : st' = st := hafter
    all_goals subst hafter
    · exact .inr ⟨⟨hbusy, fun e => absurd e hnone, fun _ => hworker⟩,
        work_lt_of_rank (by simp) (by decide) _⟩
    · refine .inr ⟨⟨hbusy, fun e => absurd e hnone, fun e => ?_⟩,
        work_lt_of_rank (by simp) (by decide) _⟩
      rw [process_workerActionDone, e] at hrow
      cases hrow
  | postAction =>
    rw [process_postAction] at hrow
    cases hrow
    obtain ⟨hbusy, hnone, hagain⟩ := h
    simp only [StatusAfter] at hafter
    cases hpost : h3.postAction with
    | true =>
      rw [if_pos hpost] at hafter
      -- the post-action may say `Again`, which adds two rows
      refine .inr ⟨⟨?_, fun _ => hpost⟩, ?_⟩
      · obtain rfl | hafter := hafter
        · simp [Status.IsAnswer]
        · exact ho st' hafter
      · obtain rfl | rfl := hafter
        · simp [work, rank]
        · by_cases heq : st' = .again <;> simp [work, rank, heq]
    | false =>
      rw [if_neg (by simp [hpost])] at hafter
      subst hafter
      have hagain' : st' ≠ .again := fun e => by simpa [hpost] using hagain e
      refine .inr ⟨⟨⟨fun e => ?_, hbusy⟩, fun e => absurd e hagain'⟩, by simp [work, rank, hagain']⟩
      -- a handler without any action is excluded
      obtain ⟨hp, hw⟩ := hnone e
      simp [Handler3.HasAction, hp, hw, hpost] at hh3
  | chkPostAction =>
    obtain ⟨-, hagain⟩ := h
    obtain ⟨hst, rfl, rfl⟩ | ⟨-, rfl, rfl⟩ | ⟨-, rfl, rfl⟩ | ⟨-, -, rfl⟩ | ⟨-, rfl, rfl⟩ :=
      process_chkPostAction_cases hrow
    · have hafter : st' = st := hafter
      subst hafter
      subst hst
      exact .inr ⟨⟨by simp, by simp, fun _ => hagain rfl⟩, by simp [work, rank]⟩
    all_goals exact .inl rfl
  | again | exit => exact h.elim

end

end StateMachine

namespace TaskManager

variable {υ κ : Type*} [LinearOrder υ] (P : Params υ κ) {m m' : State υ κ} {t : ℕ}

/-! ## What a row does to the status -/

/-- What does not change the handlers of a task, nor its status. -/
def State.SameStatus (m m' : State υ κ) (t : ℕ) : Prop :=
  (m'.task t).h3 = (m.task t).h3 ∧ (m'.task t).status = (m.task t).status

theorem State.sameStatus_respondAndDie (body : String) (die : Bool) (t' : ℕ) :
    m.SameStatus (m.respondAndDie P t body die) t' := by
  simp only [SameStatus, respondAndDie_task]
  split <;> simp [*]

theorem State.sameStatus_resumeTask (input : Input) (t' : ℕ) :
    m.SameStatus (m.resumeTask t input) t' := by
  simp only [SameStatus, resumeTask_task]
  split <;> simp [*]

theorem State.sameStatus_postponeTask (t' : ℕ) : m.SameStatus (m.postponeTask P t) t' := by
  unfold postponeTask
  dsimp only
  split
  · exact sameStatus_resumeTask (m := { m with futurePostponeUuids := _ }) _ t'
  · exact ⟨rfl, rfl⟩

theorem State.sameStatus_processOk (t' : ℕ) : m.SameStatus (m.processOk P t) t' := by
  obtain ⟨input, hnext⟩ := m.resumeNext_task t t'
  obtain ⟨hh3, hstatus⟩ :=
    sameStatus_respondAndDie P (m := m.resumeNext t) (t := t) (m.task t).output.data true t'
  rw [hnext] at hh3 hstatus
  exact ⟨hh3, hstatus⟩

/-- **The status after a row**, and the other tasks. -/
theorem State.status_perform [DecidableEq κ] {a : Option Action} {o : Option (Outcome υ)}
    (hm : a.elim (some m) (m.perform P t o) = some m') :
    StatusAfter (m.task t).h3 (o.map Outcome.status) (m.task t).status (m'.task t).status a ∧
      (m'.task t).h3 = (m.task t).h3 ∧ ∀ t' ≠ t, m.SameStatus m' t' := by
  -- most actions leave all statuses alone
  have hsame (h : ∀ t', m.SameStatus m' t') :
      (m'.task t).status = (m.task t).status ∧ (m'.task t).h3 = (m.task t).h3 ∧
        ∀ t' ≠ t, m.SameStatus m' t' := ⟨(h t).2, (h t).1, fun t' _ => h t'⟩
  rcases a with _ | a
  · cases hm
    exact hsame fun t' => ⟨rfl, rfl⟩
  cases a with
  | checkOverflow =>
    cases hm
    unfold checkThreadPoolOverflow
    split
    · -- the overflow makes the status `busy`
      have h (t' : ℕ) := sameStatus_respondAndDie P (m := m.setLastStatus t .busy) (t := t)
        "Thread pool overflow" true t'
      refine ⟨.inr ?_, ?_, fun t' ht' => ?_⟩
      · rw [(h t).2, setLastStatus, modify_task_self]
      · rw [(h t).1, setLastStatus, modify_task_self]
      · obtain ⟨hh3, hstatus⟩ := h t'
        rw [setLastStatus, modify_task_of_ne m ht'] at hh3 hstatus
        exact ⟨hh3, hstatus⟩
    · exact ⟨.inl rfl, rfl, fun t' _ => ⟨rfl, rfl⟩⟩
  | runPreaction =>
    have hm : m.runPreAction t o = some m' := hm
    unfold runPreAction at hm
    simp only [StatusAfter]
    split at hm
    · rename_i hpre
      obtain ⟨o, rfl, rfl⟩ := Option.map_eq_some_iff.mp hm
      rw [if_pos hpre, modify_task_self]
      exact ⟨rfl, rfl, fun t' ht' => by simp [SameStatus, modify, note, ht']⟩
    · rename_i hpre
      cases hm
      rw [if_neg hpre]
      exact ⟨rfl, rfl, fun t' _ => ⟨rfl, rfl⟩⟩
  | runWorkeraction =>
    exact hsame fun t' => by
      rw [SameStatus, runWorkerAction_task m hm]
      exact ⟨rfl, rfl⟩
  | runPostaction =>
    have hm : m.runPostAction t o = some m' := hm
    unfold runPostAction at hm
    simp only [StatusAfter]
    split at hm
    · rename_i hpost
      obtain ⟨o, rfl, rfl⟩ := Option.map_eq_some_iff.mp hm
      rw [if_pos hpost, modify_task_self]
      -- a request to the upstream makes the status `forward`, else it is what was returned
      refine ⟨?_, ?_, fun t' ht' => by simp [SameStatus, modify, note, ht']⟩
      · dsimp only
        split
        · exact .inl (by assumption)
        · exact .inr rfl
      · dsimp only
        split <;> rfl
    · rename_i hpost
      cases hm
      rw [if_neg hpost]
      exact ⟨rfl, rfl, fun t' _ => ⟨rfl, rfl⟩⟩
  | runResponse | runErrorResponse | runDrop =>
    cases hm
    exact hsame (sameStatus_respondAndDie P _ _)
  | runForward =>
    obtain ⟨um, -, rfl⟩ := Option.map_eq_some_iff.mp hm
    exact hsame fun t' => ⟨rfl, rfl⟩
  | runOkResponse =>
    cases hm
    exact hsame (sameStatus_processOk P)
  | runPostpone =>
    cases hm
    exact hsame (sameStatus_postponeTask P)

/-! ## The invariant of the loop -/

/-- Every task has an action, the jobs are jobs of a worker action, and those that are done have
a status for it. -/
structure Prepared (m : State υ κ) : Prop where
  hasAction : ∀ t < m.created, (m.task t).h3.HasAction
  worker : ∀ t ∈ m.jobs, (m.task t).h3.workerAction = true
  done : ∀ t ∈ m.resQueue.items, (m.task t).status.IsAnswer

/-- The loop is in a state of a dispatch with a status that the state expects. -/
structure Rows (l : Looper υ κ) : Prop where
  prepared : Prepared l.manager
  expected : ∀ t s after, l.phase = .dispatching t s after →
    Expected (l.manager.task t).h3 s (l.manager.task t).status

/-- What is asked of the handlers: there is one, it returns, and neither with `None` nor with
`Busy`; and what is forwarded goes to a node that is configured. -/
def Answers [DecidableEq κ] (l : Looper υ κ) : Event υ κ → Prop
  | .newClient h3 _ | .addPeriodicTask h3 => h3.HasAction
  | .workerDone _ o => ∃ x, o = some x ∧ x.status.IsAnswer
  | .process o => (∃ x, o = some x ∧ x.status.IsAnswer) ∧
      ∀ t after, l.phase = .dispatching t .chkPostAction after →
        (l.manager.task t).status = .forward →
          (P.upstream.connItem (l.manager.task t).output.uri).isSome
  | _ => True

/-- No pre-action returns `Again`. -/
def NoPreAgain (l : Looper υ κ) : Event υ κ → Prop
  | .process o => ∀ t after, l.phase = .dispatching t .preAction after →
      (l.manager.task t).h3.preAction = true → ∀ x ∈ o, x.status ≠ .again
  | _ => True

variable {P}

theorem State.mem_jobs_of_mem_resQueue (h : t ∈ m.resQueue.items) : t ∈ m.jobs :=
  List.mem_append_right _ h

namespace Prepared

theorem of_pool (h : Prepared m) (hcreated : m'.created = m.created) (hpool : m'.pool = m.pool)
    (hsame : ∀ t, (m'.task t).h3 = (m.task t).h3 ∧
      (t ∈ m.resQueue.items → (m'.task t).status = (m.task t).status)) : Prepared m' := by
  have hjobs := State.jobs_of_pool hpool
  have hres : m'.resQueue = m.resQueue := congrArg (fun p => p.2.2.2.2) hpool
  refine ⟨fun t ht => ?_, fun t ht => ?_, fun t ht => ?_⟩
  · rw [(hsame t).1]
    exact h.hasAction t (hcreated ▸ ht)
  · rw [(hsame t).1]
    exact h.worker t (hjobs ▸ ht)
  · rw [hres] at ht
    rw [(hsame t).2 ht]
    exact h.done t ht

/-- A job is sent. -/
theorem runWorkerAction (h : Prepared m) (hm : m.runWorkerAction t = some m') : Prepared m' := by
  obtain ⟨hworker, pool, hpost, rfl⟩ | ⟨-, rfl⟩ := State.runWorkerAction_cases hm
  · obtain ⟨hperm, -⟩ := ThreadPool.post_spec hpost
    refine ⟨h.hasAction, fun t' ht' => ?_, h.done⟩
    simp only [State.jobs, List.mem_append, hperm.mem_iff, List.mem_cons] at ht'
    by_cases heq : t' = t
    · exact heq ▸ hworker
    · refine h.worker t' ?_
      simp only [State.jobs, List.mem_append]
      tauto
  · exact h

/-- A task that is not a job changes, but for its handlers. -/
theorem modify (h : Prepared m) {f : Task υ → Task υ} (hh3 : (f (m.task t)).h3 = (m.task t).h3)
    (hstatus : (f (m.task t)).status = (m.task t).status ∨ t ∉ m.jobs) :
    Prepared (m.modify t f) := by
  refine h.of_pool rfl rfl fun t' => ?_
  by_cases heq : t' = t
  · subst heq
    rw [State.modify_task_self]
    exact ⟨hh3, fun hres =>
      hstatus.resolve_right (not_not.mpr (State.mem_jobs_of_mem_resQueue hres))⟩
  · rw [State.modify_task_of_ne m heq]
    exact ⟨rfl, fun _ => rfl⟩

theorem respondAndDie (h : Prepared m) (body : String) (die : Bool) :
    Prepared (m.respondAndDie P t body die) :=
  h.of_pool (State.created_respondAndDie _ _) (State.pool_respondAndDie P _ _) fun t' =>
    ⟨(State.sameStatus_respondAndDie P body die t').1,
      fun _ => (State.sameStatus_respondAndDie P body die t').2⟩

/-- A task is created; what is in the pool is older. -/
theorem create (h : Prepared m) {b : Task υ} (hb : b.h3.HasAction)
    (hlt : ∀ t ∈ m.jobs, t < m.created) : Prepared (m.create b) := by
  refine ⟨fun t ht => ?_, fun t ht => ?_, fun t ht => ?_⟩
  · by_cases heq : t = m.created
    · rw [heq, State.create_task_self]
      exact hb
    · rw [State.create_task_of_ne m b heq]
      exact h.hasAction t (lt_of_le_of_ne (Nat.le_of_lt_succ ht) heq)
  · rw [State.create_task_of_ne m b (hlt t ht).ne]
    exact h.worker t ht
  · rw [State.create_task_of_ne m b (hlt t (State.mem_jobs_of_mem_resQueue ht)).ne]
    exact h.done t ht

variable [Fintype κ] [DecidableEq κ] {s target : StateMachine.State} {a : Option Action}
  {o : Option (Outcome υ)}

/-- **One row** keeps the tasks prepared. -/
theorem perform (h : Prepared m) (hplaced : Placed P (m.heldAt t s) m)
    (hrow : StateMachine.process s (m.task t).status (m.task t).h3 = some (a, target))
    (hm : a.elim (some m) (m.perform P t o) = some m') : Prepared m' := by
  rcases a with _ | a
  · cases hm
    exact h
  by_cases ha : a = .runWorkeraction
  · subst ha
    exact h.runWorkerAction hm
  obtain ⟨-, hh3, hsame⟩ := State.status_perform P hm
  refine h.of_pool (State.created_perform hm) (State.pool_perform P ha hm) fun t' => ?_
  by_cases ht : t' = t
  · subst ht
    refine ⟨hh3, fun hres => ?_⟩
    have hjob := State.mem_jobs_of_mem_resQueue hres
    rw [State.heldAt_of_action hrow] at hplaced
    exact absurd hjob hplaced.not_mem_jobs
  · exact ⟨(hsame t' ht).1, fun _ => (hsame t' ht).2⟩

end Prepared

namespace Rows

variable [Fintype κ] [DecidableEq κ] {l : Looper υ κ} {s : StateMachine.State} {after : After κ}
  {o : Option (Outcome υ)}

omit [Fintype κ] in
/-- A dispatch is over. -/
theorem finish (h : Prepared m) : Rows (l.finish P m after) := by
  cases after with
  | done => exact ⟨h, fun _ _ _ heq => by cases heq⟩
  | next sender client =>
    exact ⟨h.of_pool rfl rfl fun _ => ⟨rfl, fun _ => rfl⟩, fun _ _ _ heq => by cases heq⟩

omit [Fintype κ] [DecidableEq κ] in
/-- A dispatch starts. -/
theorem dispatch (h : Prepared m) (hs : Expected (m.task t).h3 s (m.task t).status) :
    Rows (l.dispatch m t s after) :=
  ⟨h, fun _ _ _ heq => by cases heq; exact hs⟩

omit [Fintype κ] [DecidableEq κ] in
theorem of_idle (hphase : l.phase = .idle) (h : Prepared m) : Rows { l with manager := m } :=
  ⟨h, fun _ _ _ heq => by rw [hphase] at heq; cases heq⟩

/-- **The row that is taken does not throw** when the handlers answer. -/
theorem perform_isSome {a : Option Action} {target : StateMachine.State} (hc : Conserved P l)
    (hphase : l.phase = .dispatching t s after) (he : Answers P l (.process o))
    (hrow : StateMachine.process s (l.manager.task t).status (l.manager.task t).h3
      = some (a, target)) : ∃ m', a.elim (some l.manager) (l.manager.perform P t o) = some m' := by
  obtain ⟨⟨x, rfl, -⟩, huri⟩ := he
  rcases a with _ | a
  · exact ⟨_, rfl⟩
  cases a with
  | runPreaction =>
    show ∃ m', l.manager.runPreAction t (some x) = some m'
    unfold State.runPreAction
    split <;> exact ⟨_, rfl⟩
  | runPostaction =>
    show ∃ m', l.manager.runPostAction t (some x) = some m'
    unfold State.runPostAction
    split <;> exact ⟨_, rfl⟩
  | runWorkeraction =>
    have hs := start_runWorkeraction hrow
    subst hs
    exact Option.isSome_iff_exists.mp
      (hc.jobs.runWorkerAction_isSome (hc.dispatch t _ after hphase).room)
  | runForward =>
    obtain ⟨rfl, hst⟩ := start_runForward hrow
    refine Option.isSome_iff_exists.mp ?_
    show (l.manager.sendUpstream P (.base t)).isSome = true
    rw [State.sendUpstream, Option.isSome_map, UpstreamManager.send, Option.isSome_map]
    exact huri t after hphase hst
  | _ => exact ⟨_, rfl⟩

/-- **One row**: the table has it, it does not throw, and the status that it leaves is expected,
with less to do. -/
theorem process (h : Rows l) (hc : Conserved P l) (hphase : l.phase = .dispatching t s after)
    (he : Answers P l (.process o)) (hpre : NoPreAgain l (.process o)) :
    Rows (l.process P t s after o) ∧ (l.process P t s after o).terminated = l.terminated ∧
      ((l.process P t s after o).phase = .idle ∨ ∃ s', s' ≠ .exit ∧
        (l.process P t s after o).phase = .dispatching t s' after ∧
        work s' ((l.process P t s after o).manager.task t).status + 1 ≤
          work s (l.manager.task t).status +
            if o.map Outcome.status = some .again then 2 else 0) := by
  have hplaced := hc.placed_of_dispatching hphase
  have hexpected := h.expected t s after hphase
  obtain ⟨⟨a, target⟩, hrow⟩ := hexpected.exists_row
  obtain ⟨m', hm⟩ := perform_isSome hc hphase he hrow
  have hprepared := h.prepared.perform hplaced hrow hm
  obtain ⟨hafter, hh3, -⟩ := State.status_perform P hm
  have hnext := hexpected.next (h.prepared.hasAction t (hc.dispatch t s after hphase).created)
    hrow hafter (fun st hst => ?_) (fun hs hp heq => ?_)
  · simp only [Looper.process, hrow, hm]
    split
    · refine ⟨finish hprepared, ?_, .inl ?_⟩ <;> cases after <;> rfl
    · rename_i hexit
      obtain ⟨hexpected', hwork⟩ := hnext.resolve_left hexit
      exact ⟨dispatch hprepared (hh3 ▸ hexpected'), rfl, .inr ⟨target, hexit, rfl, hwork⟩⟩
  · obtain ⟨⟨x, rfl, hx⟩, -⟩ := he
    cases hst
    exact hx
  · obtain ⟨⟨x, rfl, -⟩, -⟩ := he
    subst hs
    exact hpre t after hphase hp x rfl (Option.some.inj heq)

omit [DecidableEq κ] in
/-- **What happens in the background**: only the task of a job that is being run changes. -/
theorem background (h : Rows l) (hc : Conserved P l) (hprepared : Prepared m)
    (hsame : ∀ t' < l.manager.created, (m.task t').h3 = (l.manager.task t').h3 ∧
      ((m.task t').status = (l.manager.task t').status ∨
        t' ∈ l.manager.jobs)) : Rows { l with manager := m } := by
  refine ⟨hprepared, fun t' s after hphase => ?_⟩
  have hexpected := h.expected t' s after hphase
  have hdispatch := hc.dispatch t' s after hphase
  obtain ⟨hh3, hstatus⟩ := hsame t' hdispatch.created
  show Expected (m.task t').h3 s (m.task t').status
  rw [hh3]
  rcases hstatus with hst | hjob
  · rwa [hst]
  · -- the dispatch has just sent the job: it looks at the status no more
    have hworker := h.prepared.worker t' hjob
    by_cases hheld : l.manager.heldAt t' s = some t'
    · have hplaced := hc.placed_of_dispatching hphase
      rw [hheld] at hplaced
      exact absurd hjob hplaced.not_mem_jobs
    · simp only [State.heldAt, ite_eq_right_iff, not_forall] at hheld
      obtain ⟨⟨rfl, -⟩ | ⟨rfl, -⟩, -⟩ := hheld
      · exact .inl hworker
      · exact absurd hjob (hdispatch.preAction rfl)

omit [DecidableEq κ] in
/-- A worker has run a job. -/
theorem workerDone (h : Rows l) (hc : Conserved P l) (ht : t ∈ l.manager.running)
    (hm : l.manager.workerDone t o = some m) (ho : ∃ x, o = some x ∧ x.status.IsAnswer) :
    Rows { l with manager := m } := by
  obtain ⟨x, rfl, hx⟩ := ho
  have hjob : t ∈ l.manager.jobs := by
    simp only [State.jobs, List.mem_append]
    exact .inl (.inr ht)
  obtain ⟨-, hperm, hcreated, hh3, htask⟩ := hc.jobs.workerDone ht hm
  have hstatus : (m.task t).status = x.status ∧
      ∀ t' ∈ m.resQueue.items, t' ∈ l.manager.resQueue.items ∨ t' = t := by
    obtain ⟨m₁, hrun, rfl⟩ := Option.map_eq_some_iff.mp hm
    cases hrun
    dsimp only
    split
    · rename_i resQueue hpush
      refine ⟨by simp, fun t' ht' => ?_⟩
      rw [(BoundedQueue.push_eq_some hpush).1] at ht'
      simpa [State.modify, State.note] using ht'
    · exact ⟨by simp, fun t' ht' => .inl ht'⟩
  have hh3' (t' : ℕ) : (m.task t').h3 = (l.manager.task t').h3 := by
    by_cases heq : t' = t
    · exact heq ▸ hh3
    · rw [htask t' heq]
  refine background h hc ⟨fun t' ht' => ?_, fun t' ht' => ?_, fun t' ht' => ?_⟩ fun t' _ => ?_
  · rw [hh3']
    exact h.prepared.hasAction t' (hcreated ▸ ht')
  · rw [hh3']
    exact h.prepared.worker t' (hperm.mem_iff.mp ht')
  · by_cases heq : t' = t
    · subst heq
      rw [hstatus.1]
      exact hx
    · rw [htask t' heq]
      exact h.prepared.done t' ((hstatus.2 t' ht').resolve_right heq)
  · refine ⟨hh3' t', ?_⟩
    by_cases heq : t' = t
    · exact .inr (heq ▸ hjob)
    · exact .inl (by rw [htask t' heq])

omit [DecidableEq κ] in
theorem lt_created_of_mem_jobs (hc : Conserved P l) (ht : t ∈ l.manager.jobs) :
    t < l.manager.created := by
  by_contra hle
  have hcount : 0 < l.manager.jobs.count t := List.count_pos_iff.mpr ht
  have hself := hc.placed.self_of_stored (t := t) (by simp only [State.stored]; omega)
  rw [hc.placed.fresh t (not_lt.mp hle)] at hself
  cases hself

/-- **A reply from upstream**. -/
theorem upstreamDone {i : ℕ} {sender : UpstreamSender SentTask κ} (h : Rows l)
    (hc : Conserved P l) (hphase : l.phase = .idle)
    (hi : l.manager.upstreamManager.senders[i]? = some sender) (reply : Option Input) :
    Rows (l.upstreamDone P i sender reply) ∧
      (l.upstreamDone P i sender reply).terminated = l.terminated := by
  have hplaced := hc.placed_of_idle hphase
  have htaken := hplaced.finishUpstream hi
  have hprepared : Prepared { l.manager with
      upstreamManager := l.manager.upstreamManager.finish i } :=
    h.prepared.of_pool rfl rfl fun _ => ⟨rfl, fun _ => rfl⟩
  have hterminated (m : State υ κ) (after : After κ) :
      (l.finish P m after).terminated = l.terminated := by
    cases after <;> rfl
  unfold Looper.upstreamDone
  dsimp only
  split
  · refine ⟨finish (hprepared.of_pool rfl rfl fun _ => ⟨rfl, fun _ => rfl⟩), hterminated _ _⟩
  · rename_i t hbt
    rw [hbt] at htaken
    refine ⟨finish (Prepared.respondAndDie ?_ _ true), hterminated _ _⟩
    exact hprepared.modify rfl (.inr htaken.not_mem_jobs)
  · rename_i t input hbt
    rw [hbt] at htaken
    have hforward := hplaced.status_of_sent hi hbt
    have hreply : Prepared (State.setReply { l.manager with
        upstreamManager := l.manager.upstreamManager.finish i } (.base t) input) :=
      hprepared.modify (f := fun bt => { bt with input := input }) rfl (.inl rfl)
    split
    · refine ⟨dispatch hreply (.inr (.inl ?_)), rfl⟩
      simp [State.setReply, State.modify, hforward]
    · exact ⟨finish hreply, hterminated _ _⟩

/-- **The events of the IO thread**. -/
theorem idleStep (h : Rows l) (hc : Conserved P l) (hphase : l.phase = .idle)
    (hlive : l.terminated = false) {e : Event υ κ} (he : Answers P l e) :
    Rows (l.idleStep P e) ∧ (l.idleStep P e).terminated = false := by
  have hplaced := hc.placed_of_idle hphase
  cases e with
  | newClient h3 input =>
    refine ⟨dispatch ?_ (.inl ?_), hlive⟩
    · exact (h.prepared.create (b := .newClient h3 input) he
        fun t => lt_created_of_mem_jobs hc).of_pool rfl rfl fun _ => ⟨rfl, fun _ => rfl⟩
    · simp [State.onNewClient, Task.newClient]
  | closeClient t => exact ⟨of_idle hphase (h.prepared.modify rfl (.inl rfl)), hlive⟩
  | timer t =>
    simp only [Looper.idleStep]
    split
    · rename_i ht
      -- the task is out of the timer list, and no job of it is left
      have hhand : t ∉ ({ l.manager with timerList := l.manager.timerList.erase t } :
          State υ κ).jobs := (hplaced.onTimer ht).not_mem_jobs
      have hprepared : Prepared { l.manager with timerList := l.manager.timerList.erase t } :=
        h.prepared.of_pool rfl rfl fun _ => ⟨rfl, fun _ => rfl⟩
      have hnew := hprepared.modify (f := fun bt => { bt with status := .none }) rfl (.inr hhand)
      refine ⟨dispatch hnew (.inl ?_), hlive⟩
      simp [State.onTimer, State.setLastStatus]
    · exact ⟨h, hlive⟩
  | checkUpstreamBlocking n output =>
    simp only [Looper.idleStep, State.sendUpstream, State.uri, UpstreamManager.send,
      UpstreamConfig.connItem, Option.map_map]
    exact ⟨of_idle hphase (h.prepared.of_pool rfl rfl fun _ => ⟨rfl, fun _ => rfl⟩), hlive⟩
  | jobReady =>
    simp only [Looper.idleStep]
    split
    · exact ⟨h, hlive⟩
    · rename_i t resQueue hres
      obtain ⟨hitems, -⟩ := BoundedQueue.pop_eq_some hres
      have hmem : t ∈ l.manager.resQueue.items := hitems ▸ List.mem_cons_self
      -- a job that is done has left the status that the next row takes
      refine ⟨dispatch ⟨h.prepared.hasAction, fun t' ht' => ?_, fun t' ht' => ?_⟩
        ⟨h.prepared.done t hmem, h.prepared.worker t (State.mem_jobs_of_mem_resQueue hmem)⟩, hlive⟩
      · refine h.prepared.worker t' ?_
        simp only [State.jobs, hitems, List.mem_append, List.mem_cons] at ht' ⊢
        tauto
      · exact h.prepared.done t' (hitems ▸ List.mem_cons_of_mem t ht')
  | upstreamReply i reply =>
    simp only [Looper.idleStep]
    split
    · exact ⟨h, hlive⟩
    · rename_i sender hi
      obtain ⟨hrows, hterminated⟩ := h.upstreamDone hc hphase hi reply
      exact ⟨hrows, hterminated.trans hlive⟩
  | closeIdle k client =>
    exact ⟨of_idle hphase (h.prepared.of_pool rfl rfl fun _ => ⟨rfl, fun _ => rfl⟩), hlive⟩
  | resume =>
    simp only [Looper.idleStep]
    split
    · exact ⟨h, hlive⟩
    · rename_i t readyToResume hready
      have hstatus := hplaced.readyStatus t (hready ▸ List.mem_cons_self)
      exact ⟨dispatch (h.prepared.of_pool rfl rfl fun _ => ⟨rfl, fun _ => rfl⟩)
        (.inr (.inr hstatus)), hlive⟩
  | expire =>
    simp only [Looper.idleStep]
    split
    · -- each task that expires was postponed: it is answered, and not dispatched
      refine ⟨of_idle hphase (State.expireTasks_invariant P
        (I := fun m => Prepared m ∧ Placed P none m) (fun m u t h hpost => ?_) (fun m q h => ?_) _
        ⟨h.prepared, hplaced⟩).1, hlive⟩
      · obtain ⟨hprepared, hplaced⟩ := h
        rw [hplaced.postponed u t hpost] at hpost
        refine ⟨Prepared.respondAndDie ?_ _ true, hplaced.expireTask hpost⟩
        refine Prepared.modify (m := m.note (.expire t m.now))
          (hprepared.of_pool rfl rfl fun _ => ⟨rfl, fun _ => rfl⟩) rfl (.inr ?_)
        exact (hplaced.erasePostponed hpost).not_mem_jobs
      · obtain ⟨hprepared, h⟩ := h
        exact ⟨hprepared.of_pool rfl rfl fun _ => ⟨rfl, fun _ => rfl⟩, h.places, h.fresh,
          h.postponed, h.postponedStatus, h.readyStatus, h.upstreamStatus, h.timerKind⟩
    · exact ⟨h, hlive⟩
  | _ => exact ⟨h, hlive⟩

/-- **Every event** keeps the invariant, and nothing throws, when the handlers answer and no
pre-action returns `Again`. -/
theorem step (h : Rows l) (hc : Conserved P l) (hlive : l.terminated = false) {e : Event υ κ}
    (he : Answers P l e) (hpre : NoPreAgain l e) :
    Rows (l.step P e) ∧ (l.step P e).terminated = false := by
  unfold Looper.step
  rw [if_neg (by simp [hlive])]
  split
  · exact ⟨h.background hc (h.prepared.of_pool rfl rfl fun _ => ⟨rfl, fun _ => rfl⟩)
      fun _ _ => ⟨rfl, .inl rfl⟩, hlive⟩
  · -- a new periodic task
    rename_i h3
    refine ⟨h.background hc ?_ fun t' ht' => ?_, hlive⟩
    · exact (h.prepared.create (b := .newPeriodic h3) he
        fun t => lt_created_of_mem_jobs hc).of_pool rfl rfl fun _ => ⟨rfl, fun _ => rfl⟩
    · have htask : (l.manager.addPeriodicTask h3).task t' = l.manager.task t' :=
        State.create_task_of_ne _ _ ht'.ne
      rw [htask]
      exact ⟨rfl, .inl rfl⟩
  · split
    · -- a worker takes a job, which leaves all statuses alone
      rename_i i _
      obtain ⟨-, hperm⟩ := hc.jobs.workerStart i
      have htask : (l.manager.workerStart i).task = l.manager.task ∧
          (l.manager.workerStart i).created = l.manager.created ∧
          (l.manager.workerStart i).resQueue = l.manager.resQueue := by
        unfold State.workerStart
        split <;> exact ⟨rfl, rfl, rfl⟩
      obtain ⟨htask, hcreated, hres⟩ := htask
      refine ⟨h.background hc ⟨fun t' ht' => ?_, fun t' ht' => ?_, fun t' ht' => ?_⟩ fun t' _ => ?_,
        hlive⟩
      · rw [htask]
        exact h.prepared.hasAction t' (hcreated ▸ ht')
      · rw [htask]
        exact h.prepared.worker t' (hperm.mem_iff.mp ht')
      · rw [htask]
        exact h.prepared.done t' (hres ▸ ht')
      · rw [htask]
        exact ⟨rfl, .inl rfl⟩
    · exact ⟨h, hlive⟩
  · split
    · -- a worker is done, with an answer
      rename_i t o ht
      obtain ⟨x, rfl, hx⟩ := he
      split
      · rename_i hnone
        simp [State.workerDone, State.runWorkerActionFromTheThreadPool] at hnone
      · rename_i m hm
        exact ⟨h.workerDone hc ht hm ⟨x, rfl, hx⟩, hlive⟩
    · exact ⟨h, hlive⟩
  · split
    · exact ⟨h, hlive⟩
    · -- the dispatch goes on
      rename_i o _ t s after hphase
      obtain ⟨hrows, hterminated, -⟩ := h.process hc hphase he hpre
      exact ⟨hrows, hterminated.trans hlive⟩
  · split
    · rename_i hphase
      exact h.idleStep hc hphase hlive he
    · exact ⟨h, hlive⟩

end Rows

end TaskManager
