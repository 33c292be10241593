/-
# The postponed tasks of a run

What the task manager keeps of its postponed tasks (`m_postponedTasks`, `m_expireTaskQueue`,
`m_futurePostponeUuids`, and what is seen of them) is a rendezvous: an event of the loop does to
it what `Looper.waitingEvent` says, and no other event touches it (`Conserved.waiting_step`).
-/
import GraftSupernode.Rendezvous
import GraftSupernode.TaskConservation

open StateMachine

namespace TaskManager

variable {υ κ : Type*} [LinearOrder υ]

/-- What a note says of tasks that wait. -/
def Note.waiting : Note → Option (Rendezvous.Note Input)
  | .postpone t time => some (.postpone t time)
  | .resume t input => some (.resume t input)
  | .expire t time => some (.expire t time)
  | _ => none

/-- The part of the state that concerns postponed tasks. -/
def State.waiting (m : State υ κ) : Rendezvous.Waiting υ Input where
  now := m.now
  postponedTasks := m.postponedTasks
  expireTaskQueue := m.expireTaskQueue
  futurePostponeUuids := m.futurePostponeUuids
  log := m.log.filterMap Note.waiting

/-- What an event is for the postponed tasks: a task returns `Postpone`, a task that names a next
one ends with `Ok`, or `executePostponedTasks` looks for expired ones. -/
def Looper.waitingEvent (l : Looper υ κ) (e : Event υ κ) : Option (Rendezvous.Event υ Input) :=
  if l.terminated then none
  else
    match e, l.phase with
    | .tick d, _ => some (.tick d)
    | .expire, .idle => if l.manager.readyToResume = [] then some .expire else none
    | .process _, .dispatching t .chkPostAction _ =>
      match (l.manager.task t).status with
      | .postpone => some (.postpone t)
      | .ok => (l.manager.task t).nextUuid.map fun u => .callback u (l.manager.task t).input
      | _ => none
    | _, _ => none

variable {P : Params υ κ} {m m' : State υ κ} {t : ℕ}

/-! ## The member functions -/

theorem State.waiting_of_eq (hnow : m'.now = m.now) (hpost : m'.postponedTasks = m.postponedTasks)
    (hqueue : m'.expireTaskQueue = m.expireTaskQueue)
    (hfuture : m'.futurePostponeUuids = m.futurePostponeUuids) {notes : List Note}
    (hlog : m'.log = notes ++ m.log) (hnotes : ∀ n ∈ notes, n.waiting = none) :
    m'.waiting = m.waiting := by
  have hnone : notes.filterMap Note.waiting = [] := List.filterMap_eq_nil_iff.mpr hnotes
  simp only [State.waiting, hnow, hpost, hqueue, hfuture, hlog, List.filterMap_append, hnone,
    List.nil_append]

theorem State.waiting_replies {body : String} {n : Note} (hn : n ∈ m.replies t body) :
    n.waiting = none := by
  unfold replies at hn
  split at hn
  · rcases List.mem_append.mp hn with hn | hn
    · split at hn
      · rw [List.mem_singleton.mp hn]
        rfl
      · cases hn
    · split at hn
      · rw [List.mem_singleton.mp hn]
        rfl
      · cases hn
  · cases hn

variable [Fintype κ]

/-- No entry is under the id of a task in hand. -/
theorem Placed.postponedTasks_hand (h : Placed P (some t) m) :
    m.postponedTasks (P.uuid t) = none := by
  cases hpost : m.postponedTasks (P.uuid t) with
  | none => rfl
  | some t' =>
    have heq := P.uuid_injective (h.postponed _ t' hpost)
    subst heq
    exact absurd hpost h.not_isPostponed

/-- The answer to a task in hand. -/
theorem Placed.waiting_respondAndDie (h : Placed P (some t) m) (body : String) (die : Bool) :
    (m.respondAndDie P t body die).waiting = m.waiting := by
  rw [State.respondAndDie_eq]
  refine State.waiting_of_eq rfl ?_ rfl rfl rfl fun n hn => State.waiting_replies hn
  exact Function.update_eq_self_iff.mpr h.postponedTasks_hand.symm

omit [Fintype κ] in
theorem State.waiting_postponeTask :
    (m.postponeTask P t).waiting =
      Rendezvous.postpone P.uuid P.httpConnectionTimeout m.waiting t := by
  unfold postponeTask Rendezvous.postpone
  dsimp only [State.waiting]
  cases (m.futurePostponeUuids.extract m.now fun e => decide (e.1 = P.uuid t)).1 <;> rfl

omit [Fintype κ] in
theorem State.waiting_resumeNext :
    (m.resumeNext t).waiting = match (m.task t).nextUuid with
      | none => m.waiting
      | some u => Rendezvous.callback m.waiting u (m.task t).input := by
  unfold resumeNext Rendezvous.callback
  cases (m.task t).nextUuid with
  | none => rfl
  | some u =>
    dsimp only [State.waiting]
    cases m.postponedTasks u <;> rfl

/-- A task that expires. -/
theorem Placed.waiting_expireTask (h : Placed P none m) (hpost : m.IsPostponed P t) :
    (m.expireTask P t).waiting = { m.waiting with
      postponedTasks := Function.update m.postponedTasks (P.uuid t) none
      log := .expire t m.now :: m.waiting.log } := by
  have hhand := ((h.erasePostponed hpost).note (.expire t m.now)).modify_hand
    (f := fun bt => { bt with status := .error }) rfl rfl
  have hwaiting := hhand.waiting_respondAndDie "Postpone task response timeout" true
  rw [State.respondAndDie_eq] at hwaiting
  rw [State.expireTask, State.respondAndDie_eq]
  simpa [State.waiting, State.erasePostponed, State.modify, State.note, State.setLastStatus,
    State.replies, Note.waiting] using hwaiting

theorem Placed.waiting_expireTasks (h : Placed P none m) (fuel : ℕ) :
    (m.expireTasks P fuel).waiting = Rendezvous.expireLoop fuel m.waiting := by
  induction fuel generalizing m with
  | zero => rfl
  | succ fuel ih =>
    unfold State.expireTasks Rendezvous.expireLoop
    rw [show m.waiting.expireTaskQueue = m.expireTaskQueue from rfl,
      show m.waiting.now = m.now from rfl]
    cases htop : m.expireTaskQueue.top with
    | none => rfl
    | some e =>
      dsimp only
      split
      · rfl
      · have hdrop {m' : State υ κ} (h : Placed P none m') :
            Placed P none { m' with expireTaskQueue := m'.expireTaskQueue.pop } :=
          ⟨h.places, h.fresh, h.postponed, h.postponedStatus, h.readyStatus, h.upstreamStatus,
            h.timerKind⟩
        unfold Rendezvous.expireTop
        rw [show m.waiting.postponedTasks = m.postponedTasks from rfl]
        cases hpost : m.postponedTasks (ofLex e).2 with
        | none => exact ih (hdrop h)
        | some t =>
          have heq := h.postponed _ t hpost
          rw [heq] at hpost ⊢
          refine (ih (hdrop (h.expireTask hpost))).trans (congrArg _ ?_)
          show { (m.expireTask P t).waiting with
            expireTaskQueue := (m.expireTask P t).waiting.expireTaskQueue.pop } = _
          rw [h.waiting_expireTask hpost]
          rfl

/-! ## The events -/

variable [DecidableEq κ] {l : Looper υ κ}

omit [Fintype κ] in
@[simp] theorem Looper.waiting_finish (m : State υ κ) (after : After κ) :
    (l.finish P m after).manager.waiting = m.waiting := by
  cases after <;> rfl

/-- The actions that neither start a wait nor end one. -/
theorem Placed.waiting_perform {s target : StateMachine.State} {a : Option Action}
    {o : Option (Outcome υ)} (h : Placed P (m.heldAt t s) m)
    (hrow : StateMachine.process s (m.task t).status (m.task t).h3 = some (a, target))
    (hok : a ≠ some .runOkResponse) (hpostpone : a ≠ some .runPostpone)
    (hm : a.elim (some m) (m.perform P t o) = some m') : m'.waiting = m.waiting := by
  rcases a with _ | a
  · cases hm
    rfl
  have hhand : Placed P (some t) m := by rwa [State.heldAt_of_action hrow] at h
  cases State.performed P hm with
  | rest | called | posted | sent => rfl
  | overflow =>
    have hbusy : Placed P (some t) (m.setLastStatus t .busy) := hhand.modify_hand rfl rfl
    exact hbusy.waiting_respondAndDie _ true
  | answered => exact hhand.waiting_respondAndDie _ _
  | ok => exact absurd rfl hok
  | postponed => exact absurd rfl hpostpone

/-- A wait starts and ends in the last check. -/
theorem start_waiting {s target : StateMachine.State} {st : Status} {h3 : Handler3}
    (h : StateMachine.process s st h3 = some (some .runOkResponse, target) ∨
      StateMachine.process s st h3 = some (some .runPostpone, target)) : s = .chkPostAction := by
  rcases h with h | h
  all_goals
    obtain ⟨r, hr, rfl, haction, -⟩ := exists_row h
    revert r
    simp [initTable]

omit [Fintype κ] [DecidableEq κ] in
/-- What a row of the last check is for the postponed tasks. -/
theorem Looper.waitingEvent_process {s : StateMachine.State} {after : After κ}
    (hlive : l.terminated = false) (hphase : l.phase = .dispatching t s after)
    (o : Option (Outcome υ)) :
    l.waitingEvent (.process o) = if s = .chkPostAction then
      match (l.manager.task t).status with
      | .postpone => some (.postpone t)
      | .ok => (l.manager.task t).nextUuid.map fun u => .callback u (l.manager.task t).input
      | _ => none
    else none := by
  simp only [waitingEvent, hlive, Bool.false_eq_true, if_false, hphase]
  cases s <;> rfl

/-- **One row**. -/
theorem Conserved.waiting_process {s : StateMachine.State} {after : After κ} (h : Conserved P l)
    (hlive : l.terminated = false) (hphase : l.phase = .dispatching t s after)
    (o : Option (Outcome υ)) :
    (l.process P t s after o).manager.waiting = match l.waitingEvent (.process o) with
      | none => l.manager.waiting
      | some a => Rendezvous.step P.uuid P.httpConnectionTimeout l.manager.waiting a := by
  have hplaced := h.placed_of_dispatching hphase
  -- only an OK and a postponement touch the tasks that wait
  have hrest {a : Option Action} {target : StateMachine.State} (hrow : StateMachine.process s
      (l.manager.task t).status (l.manager.task t).h3 = some (a, target))
      (hok : a ≠ some .runOkResponse) (hpostpone : a ≠ some .runPostpone) :
      (l.process P t s after o).manager.waiting = l.manager.waiting := by
    simp only [Looper.process, hrow]
    split
    · rfl
    · rename_i m hm
      have hwaiting := hplaced.waiting_perform hrow hok hpostpone hm
      split
      · rw [Looper.waiting_finish, hwaiting]
      · exact hwaiting
  rw [Looper.waitingEvent_process hlive hphase]
  -- both are actions of the last check
  by_cases hs : s = .chkPostAction
  · subst hs
    rw [if_pos rfl]
    rw [State.heldAt_of_ne _ (by simp) (by simp)] at hplaced
    have hrow := process_chkPostAction (l.manager.task t).status (l.manager.task t).h3
    cases hst : (l.manager.task t).status with
    | postpone =>
      rw [hst] at hrow
      simp only [Looper.process, hst, hrow, Option.elim, State.perform, if_true,
        Looper.waiting_finish]
      exact State.waiting_postponeTask
    | ok =>
      rw [hst] at hrow
      simp only [Looper.process, hst, hrow, Option.elim, State.perform, if_true,
        Looper.waiting_finish, State.processOk]
      rw [(hplaced.resumeNext t).waiting_respondAndDie, State.waiting_resumeNext]
      cases (l.manager.task t).nextUuid <;> rfl
    | none | busy =>
      rw [hst] at hrow
      simp only [Looper.process, hst, hrow]
    | again => exact hrest (by rw [hst, process_chkPostAction]) (by simp) (by simp)
    | forward => exact hrest (by rw [hst, process_chkPostAction]) (by simp) (by simp)
    | drop => exact hrest (by rw [hst, process_chkPostAction]) (by simp) (by simp)
    | error | internalError | stop =>
      exact hrest (by rw [hst, process_chkPostAction]) (by simp) (by simp)
  · rw [if_neg hs]
    cases hrow : StateMachine.process s (l.manager.task t).status (l.manager.task t).h3 with
    | none => simp only [Looper.process, hrow]
    | some row =>
      obtain ⟨a, target⟩ := row
      refine hrest hrow ?_ ?_
      · rintro rfl
        exact hs (start_waiting (.inl hrow))
      · rintro rfl
        exact hs (start_waiting (.inr hrow))

/-- **A reply from upstream** starts no wait, nor does it end one. -/
theorem Conserved.waiting_upstreamDone {i : ℕ} {sender : UpstreamSender SentTask κ}
    (h : Conserved P l) (hphase : l.phase = .idle)
    (hi : l.manager.upstreamManager.senders[i]? = some sender) (reply : Option Input) :
    (l.upstreamDone P i sender reply).manager.waiting = l.manager.waiting := by
  have htaken := (h.placed_of_idle hphase).finishUpstream hi
  unfold Looper.upstreamDone
  dsimp only
  split
  · exact Looper.waiting_finish _ _
  · rename_i t hbt
    rw [hbt] at htaken
    exact (Looper.waiting_finish _ _).trans ((htaken.modify_hand
      (f := fun bt => { bt with status := .error }) rfl rfl).waiting_respondAndDie _ true)
  · split
    · rfl
    · exact Looper.waiting_finish _ _

/-- The events between two dispatches. -/
theorem Conserved.waiting_idleStep (h : Conserved P l) (hphase : l.phase = .idle) {e : Event υ κ}
    (he : e ≠ .expire) : (l.idleStep P e).manager.waiting = l.manager.waiting := by
  cases e with
  | expire => exact absurd rfl he
  | timer t =>
    simp only [Looper.idleStep]
    split <;> rfl
  | checkUpstreamBlocking n output =>
    simp only [Looper.idleStep]
    split
    · rfl
    · rename_i m hm
      obtain ⟨um, -, rfl⟩ := Option.map_eq_some_iff.mp hm
      rfl
  | jobReady =>
    simp only [Looper.idleStep]
    split <;> rfl
  | upstreamReply i reply =>
    simp only [Looper.idleStep]
    split
    · rfl
    · rename_i hi
      exact h.waiting_upstreamDone hphase hi reply
  | resume =>
    simp only [Looper.idleStep]
    split <;> rfl
  | _ => rfl

/-- **Every event** does to the postponed tasks what `waitingEvent` says. -/
theorem Conserved.waiting_step (h : Conserved P l) (e : Event υ κ) :
    (l.step P e).manager.waiting = match l.waitingEvent e with
      | none => l.manager.waiting
      | some a => Rendezvous.step P.uuid P.httpConnectionTimeout l.manager.waiting a := by
  cases hlive : l.terminated with
  | true => simp only [Looper.step, Looper.waitingEvent, hlive, if_true]
  | false =>
    have hlive' : ¬ l.terminated = true := by simp [hlive]
    -- of the events of an idle loop only the expiry has an event of the rendezvous
    have hidle (hphase : l.phase = .idle) (he : e ≠ .expire) :
        (l.idleStep P e).manager.waiting = l.manager.waiting := h.waiting_idleStep hphase he
    unfold Looper.step
    rw [if_neg hlive']
    cases e with
    | tick d =>
      simp only [Looper.waitingEvent, if_neg hlive']
      rfl
    | addPeriodicTask h3 =>
      simp only [Looper.waitingEvent, if_neg hlive']
      rfl
    | workerStart i =>
      simp only [Looper.waitingEvent, if_neg hlive']
      split
      · dsimp only
        unfold State.workerStart
        split <;> rfl
      · rfl
    | workerDone t o =>
      simp only [Looper.waitingEvent, if_neg hlive']
      split
      · split
        · rfl
        · rename_i m hm
          obtain ⟨m₁, hrun, rfl⟩ := Option.map_eq_some_iff.mp hm
          obtain ⟨o, -, rfl⟩ := Option.map_eq_some_iff.mp hrun
          dsimp only
          split <;> rfl
      · rfl
    | process o =>
      cases hphase : l.phase with
      | idle => simp only [Looper.waitingEvent, if_neg hlive', hphase]
      | dispatching t s after => exact h.waiting_process hlive hphase o
    | expire =>
      cases hphase : l.phase with
      | dispatching t s after => simp only [Looper.waitingEvent, if_neg hlive', hphase]
      | idle =>
        simp only [Looper.waitingEvent, if_neg hlive', hphase, Looper.idleStep]
        -- tasks that are ready to be resumed come first
        by_cases hready : l.manager.readyToResume = []
        · rw [if_pos hready, if_pos hready]
          exact (h.placed_of_idle hphase).waiting_expireTasks _
        · rw [if_neg hready, if_neg hready]
    | _ =>
      cases hphase : l.phase with
      | dispatching t s after => simp only [Looper.waitingEvent, if_neg hlive']
      | idle =>
        simp only [Looper.waitingEvent, if_neg hlive']
        exact hidle hphase (by simp)

/-- **A run of the loop** is a run of its postponed tasks. -/
theorem waiting_exec (l : Looper υ κ) (h : Conserved P l) (es : List (Event υ κ)) :
    (Runs.exec (Looper.step P) l es).manager.waiting =
      Runs.exec (Rendezvous.step P.uuid P.httpConnectionTimeout) l.manager.waiting
        (Runs.trace (Looper.step P) Looper.waitingEvent l es) := by
  refine (Runs.simulation (R := fun l w => Conserved P l ∧ l.manager.waiting = w)
    (Q := fun _ _ => True) (fun l w e h he => ?_) (fun l w e a h he => ?_) ⟨h, rfl⟩ es).1.2
  · obtain ⟨h, rfl⟩ := h
    exact ⟨h.step e, by rw [h.waiting_step, he]⟩
  · obtain ⟨h, rfl⟩ := h
    exact ⟨trivial, h.step e, by rw [h.waiting_step, he]⟩

end TaskManager
