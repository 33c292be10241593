/-
# Tasks with a worker action only

What a periodic task does that has a worker action and nothing else.  Its handler returns a status;
the status is acted upon (`Looper.Due`) when the job is taken over from the result queue: a task
that says `Forward` is sent upstream, one that says `Stop` is let go.

* `Alike`: what does not concern a task;
* `Effect`: what an event does to the task, unless its handler runs;
* `Conserved.effect_step`: no event does anything else.
-/
import GraftSupernode.TaskRelease

open StateMachine

namespace TaskManager

variable {υ κ : Type*} [LinearOrder υ] [Fintype κ]
variable {P : Params υ κ} {m m' m'' : State υ κ} {l l' : Looper υ κ} {t t' : ℕ}

/-- `Handler3(nullptr, h_worker, nullptr)` -/
def workerOnly : Handler3 := ⟨false, true, false⟩

/-! ## What does not concern a task -/

/-- The task keeps its handlers; its result, if it waits in the queue, stays there, with the status;
and it is upstream as before. -/
structure Alike (m m' : State υ κ) (t : ℕ) : Prop where
  h3 : (m'.task t).h3 = (m.task t).h3
  result : t ∈ m'.resQueue.items ↔ t ∈ m.resQueue.items
  status : t ∈ m.resQueue.items → (m'.task t).status = (m.task t).status
  upstreams : m'.upstreams t = m.upstreams t

namespace Alike

theorem refl (m : State υ κ) (t : ℕ) : Alike m m t := ⟨rfl, .rfl, fun _ => rfl, rfl⟩

theorem trans (h : Alike m m' t) (h' : Alike m' m'' t) : Alike m m'' t where
  h3 := h'.h3.trans h.h3
  result := h'.result.trans h.result
  status := fun ht => (h'.status (h.result.mpr ht)).trans (h.status ht)
  upstreams := h'.upstreams.trans h.upstreams

/-- Neither the task nor the places of its result change. -/
theorem of_eq (htask : m'.task = m.task) (hpool : m'.resQueue = m.resQueue)
    (hupstream : m'.upstreamManager = m.upstreamManager) : Alike m m' t where
  h3 := by rw [htask]
  result := by rw [hpool]
  status := fun _ => by rw [htask]
  upstreams := by rw [State.upstreams, State.upstreams, hupstream]

/-- Tasks change, but for their handlers; this one has no result, or keeps its status. -/
theorem of_sameStatus (hh3 : (m'.task t).h3 = (m.task t).h3) (hpool : m'.pool = m.pool)
    (hstatus : t ∈ m.resQueue.items → (m'.task t).status = (m.task t).status)
    (hupstream : m'.upstreams t = m.upstreams t) : Alike m m' t where
  h3 := hh3
  result := by
    have hres : m'.resQueue = m.resQueue := congrArg (fun p => p.2.2.2.2) hpool
    rw [hres]
  status := hstatus
  upstreams := hupstream

theorem respondAndDie (body : String) (die : Bool) :
    Alike m (m.respondAndDie P t' body die) t := by
  obtain ⟨hh3, hstatus⟩ := State.sameStatus_respondAndDie (m := m) P body die (t := t') t
  refine of_sameStatus hh3 (State.pool_respondAndDie P _ _) (fun _ => hstatus) ?_
  rw [State.upstreams, (Untouched.respondAndDie body die).manager, State.upstreams]

/-- A change of a task that has no result. -/
theorem modify {f : Task υ → Task υ} (hh3 : (f (m.task t')).h3 = (m.task t').h3)
    (hstatus : (f (m.task t')).status = (m.task t').status ∨ t ≠ t' ∨ t ∉ m.resQueue.items) :
    Alike m (m.modify t' f) t := by
  by_cases ht : t = t'
  · subst ht
    refine of_sameStatus ?_ rfl (fun hres => ?_) rfl
    · rw [State.modify_task_self, hh3]
    · rw [State.modify_task_self]
      rcases hstatus with hst | hne | hno
      · exact hst
      · exact absurd rfl hne
      · exact absurd hres hno
  · have htask := m.modify_task_of_ne ht f
    exact of_sameStatus (by rw [htask]) rfl (fun _ => by rw [htask]) rfl

/-- Another task is created. -/
theorem create (ht : t < m.created) (bt : Task υ) : Alike m (m.create bt) t := by
  have htask := m.create_task_of_ne bt ht.ne
  exact of_sameStatus (by rw [htask]) rfl (fun _ => by rw [htask]) rfl

/-- The end of a dispatch. -/
theorem finish [DecidableEq κ] (after : After κ) : Alike m (l.finish P m after).manager t := by
  cases after with
  | done => exact refl m t
  | next s client =>
    refine of_sameStatus rfl rfl (fun _ => rfl) ?_
    exact UpstreamManager.holds_next _ _ _ _ _ _ _

/-- What an action sends upstream: its own task, if it is forwarded. -/
theorem upstreams_perform [DecidableEq κ] {a : Action} {o : Option (Outcome υ)}
    (hm : m.perform P t' o a = some m') :
    m'.upstreams t = m.upstreams t + if a = .runForward ∧ t = t' then 1 else 0 := by
  by_cases ha : a = .runForward
  · subst ha
    obtain ⟨um, hsend, rfl⟩ := Option.map_eq_some_iff.mp hm
    have hholds := UpstreamManager.holds_send P.upstream (SentTask.isBase t) hsend
    rw [SentTask.isBase_base] at hholds
    show um.holds (SentTask.isBase t) = _
    rw [hholds]
    by_cases ht : t = t'
    · simp [State.upstreams, ht]
    · simp [State.upstreams, ht, Ne.symm ht]
  · have hmanager : m'.upstreamManager = m.upstreamManager := by
      cases State.performed P hm with
      | rest | called | posted => rfl
      | overflow | answered => exact (Untouched.respondAndDie _ _).manager
      | ok => exact Untouched.processOk.manager
      | postponed => exact Untouched.postponeTask.manager
      | sent => exact absurd rfl ha
    rw [if_neg fun h => ha h.1, State.upstreams, hmanager, Nat.add_zero, State.upstreams]

omit [Fintype κ] in
/-- An action does not touch the results. -/
theorem resQueue_perform [DecidableEq κ] {a : Action} {o : Option (Outcome υ)}
    (hm : m.perform P t' o a = some m') : m'.resQueue = m.resQueue := by
  by_cases ha : a = .runWorkeraction
  · subst ha
    obtain ⟨-, pool, -, rfl⟩ | ⟨-, rfl⟩ := State.runWorkerAction_cases hm <;> rfl
  · exact congrArg (fun p => p.2.2.2.2) (State.pool_perform P ha hm)

/-- **An action**, for another task, or for this one when it has no result and is not forwarded. -/
theorem perform [DecidableEq κ] {a : Option Action} {o : Option (Outcome υ)}
    (ht : t ≠ t' ∨ (a ≠ none → t ∉ m.resQueue.items) ∧ a ≠ some .runForward)
    (hm : a.elim (some m) (m.perform P t' o) = some m') : Alike m m' t := by
  obtain ⟨-, hown, hsame⟩ := State.status_perform P hm
  cases a with
  | none =>
    cases hm
    exact refl m t
  | some a =>
    have hresult : m'.resQueue = m.resQueue := resQueue_perform hm
    have hup := upstreams_perform (t := t) hm
    rcases ht with ht | ⟨hno, ha⟩
    · obtain ⟨hh3, hstatus⟩ := hsame t ht
      rw [if_neg fun h => ht h.2] at hup
      exact ⟨hh3, by rw [hresult], fun _ => hstatus, hup⟩
    · rw [if_neg fun h => ha (congrArg some h.1)] at hup
      refine ⟨?_, by rw [hresult], fun hres => absurd hres (hno nofun), hup⟩
      by_cases ht : t = t'
      · exact ht ▸ hown
      · exact (hsame t ht).1

/-- **Tasks that expire** have no result. -/
theorem expireTasks (hplaced : Placed P none m) (fuel : ℕ) :
    Alike m (m.expireTasks P fuel) t := by
  refine (State.expireTasks_invariant P (I := fun m' => Alike m m' t ∧ Placed P none m')
    (fun m' u t' h hpost => ?_) (fun m' q h => ?_) fuel ⟨refl m t, hplaced⟩).1
  · obtain ⟨halike, hplaced⟩ := h
    rw [hplaced.postponed u t' hpost] at hpost
    refine ⟨halike.trans ?_, hplaced.expireTask hpost⟩
    have hnote : Alike m' (m'.note (.expire t' m'.now)) t := of_eq rfl rfl rfl
    have hno : t' ∉ m'.jobs := (hplaced.erasePostponed hpost).not_mem_jobs
    refine hnote.trans (trans (modify rfl (.inr ?_)) (respondAndDie _ _))
    by_cases ht : t = t'
    · subst ht
      exact .inr fun hres => hno (State.mem_jobs_of_mem_resQueue hres)
    · exact .inl ht
  · obtain ⟨halike, h⟩ := h
    exact ⟨halike.trans (of_eq rfl rfl rfl), h.places, h.fresh, h.postponed, h.postponedStatus,
      h.readyStatus, h.upstreamStatus, h.timerKind⟩

end Alike

/-! ## The result of a job -/

/-- The states in which the result of a job is acted upon. -/
def IsLate (s : StateMachine.State) : Prop :=
  s = .workerActionDone ∨ s = .postAction ∨ s = .chkPostAction

/-- The dispatch that acts upon the result of the job of `t`. -/
def Phase.acts (t : ℕ) : Phase κ → Prop
  | .idle => False
  | .dispatching t' s _ => t' = t ∧ IsLate s

/-- The job of `t` is done, and its result is still to be acted upon. -/
def Looper.Due (l : Looper υ κ) (t : ℕ) : Prop :=
  t ∈ l.manager.resQueue.items ∨ l.phase.acts t

/-- The event is a call of the handler of `t` by a worker. -/
def Looper.handles (l : Looper υ κ) (t : ℕ) : Event υ κ → Bool
  | .workerDone t' _ => !l.terminated && decide (t' = t ∧ t ∈ l.manager.running)
  | _ => false

/-- The event sends an upstream request of `t`: the last check finds the status `Forward`, and
there is a server to send to. -/
def Looper.requests [DecidableEq κ] (P : Params υ κ) (l : Looper υ κ) (t : ℕ) :
    Event υ κ → Bool
  | .process _ =>
    match l.phase with
    | .idle => false
    | .dispatching t' s _ => !l.terminated &&
        decide (t' = t ∧ s = .chkPostAction ∧ (l.manager.task t).status = .forward) &&
        (l.manager.processForward P t).isSome
  | _ => false

/-- The event is the reply to an upstream request of `t`. -/
def Looper.repliesTo (l : Looper υ κ) (t : ℕ) : Event υ κ → Bool
  | .upstreamReply i _ =>
    match l.phase with
    | .idle => !l.terminated &&
        l.manager.upstreamManager.senders[i]?.any fun s => s.bt.isBase t
    | .dispatching _ _ _ => false
  | _ => false

/-- **What an event does** to a task with a worker action only: nothing, or its result is acted
upon, or its request is replied to; the flags say whether a request is sent, or replied to. -/
inductive Effect (t : ℕ) (l l' : Looper υ κ) : Bool → Bool → Prop
  | rest (hh3 : (l'.manager.task t).h3 = (l.manager.task t).h3) (hdue : l'.Due t ↔ l.Due t)
      (hstatus : l.Due t → (l'.manager.task t).status = (l.manager.task t).status)
      (hup : l'.manager.upstreams t = l.manager.upstreams t) : Effect t l l' false false
  | sent (hh3 : (l'.manager.task t).h3 = (l.manager.task t).h3) (hdue : l.Due t)
      (hstatus : (l.manager.task t).status = .forward) (hdone : ¬ l'.Due t)
      (hup : l'.manager.upstreams t = l.manager.upstreams t + 1) : Effect t l l' true false
  | stopped (hh3 : (l'.manager.task t).h3 = (l.manager.task t).h3) (hdue : l.Due t)
      (hstatus : (l.manager.task t).status = .stop) (hdone : ¬ l'.Due t)
      (hup : l'.manager.upstreams t = l.manager.upstreams t)
      (hself : (l'.manager.task t).self = false) : Effect t l l' false false
  | replied (hh3 : (l'.manager.task t).h3 = (l.manager.task t).h3) (hdue : ¬ l.Due t)
      (hdone : ¬ l'.Due t) (hup : l.manager.upstreams t = l'.manager.upstreams t + 1) :
      Effect t l l' false true

theorem Effect.h3 {requests replies : Bool} (h : Effect t l l' requests replies) :
    (l'.manager.task t).h3 = (l.manager.task t).h3 := by
  cases h <;> assumption

/-- What does not concern the task, before and after. -/
theorem Alike.effect (h : Alike l.manager l'.manager t) (hphase : ¬ l.phase.acts t)
    (hphase' : ¬ l'.phase.acts t) : Effect t l l' false false := by
  have hdue : l.Due t ↔ t ∈ l.manager.resQueue.items := or_iff_left hphase
  refine .rest h.h3 ?_ (fun hd => h.status (hdue.mp hd)) h.upstreams
  rw [hdue, Looper.Due, or_iff_left hphase', h.result]

/-- Nothing happens, or the process ends. -/
theorem Effect.same (h : l'.manager = l.manager) (hphase : l'.phase = l.phase) :
    Effect t l l' false false := by
  refine .rest (by rw [h]) ?_ (fun _ => by rw [h]) (by rw [h])
  rw [Looper.Due, Looper.Due, h, hphase]

omit [Fintype κ] in
/-- A dispatch has ended. -/
theorem not_acts_finish [DecidableEq κ] (m : State υ κ) (after : After κ) :
    ¬ (l.finish P m after).phase.acts t := by
  cases after <;> exact id

/-- A task in hand has no result in the queue. -/
theorem Placed.not_result (h : Placed P (some t) m) : t ∉ m.resQueue.items :=
  mt State.mem_jobs_of_mem_resQueue h.not_mem_jobs

/-! ## The rows of its dispatch -/

section rows

variable [DecidableEq κ] {s : StateMachine.State} {after : After κ} {o : Option (Outcome υ)}

/-- A row of another task. -/
theorem Effect.process_of_ne (ht : t ≠ t') (hphase : l.phase = .dispatching t' s after) :
    Effect t l (l.process P t' s after o) false false := by
  have hacts (t'' s') : t ≠ t'' → ¬ (Phase.dispatching t'' s' after : Phase κ).acts t :=
    fun hne h => hne h.1.symm
  have hidle : ¬ l.phase.acts t := by
    rw [hphase]
    exact hacts _ _ ht
  rw [Looper.process]
  split
  · exact .same rfl rfl
  · split
    · exact .same rfl rfl
    · rename_i hm
      have halike := Alike.perform (.inl ht) hm
      split
      · exact (halike.trans (.finish after)).effect hidle (not_acts_finish _ _)
      · exact halike.effect hidle (hacts _ _ ht)

/-- **A row before the job is done** does not lead to its result, and forwards nothing. -/
theorem row_before {st : Status} {a : Option Action} {target : StateMachine.State}
    (hs : ¬ IsLate s) (hrow : StateMachine.process s st workerOnly = some (a, target)) :
    ¬ IsLate target ∧ a ≠ some .runForward := by
  unfold IsLate at *
  cases s with
  | execute =>
    rw [process_execute] at hrow
    cases hrow
    simp
  | preAction =>
    obtain ⟨-, rfl, rfl⟩ | ⟨-, rfl, rfl⟩ := process_preAction_cases hrow <;> simp
  | chkPreAction =>
    -- there is no pre-action that could skip the worker
    rw [process_chkPreAction] at hrow
    cases st <;> simp_all [workerOnly] <;> obtain ⟨rfl, rfl⟩ := hrow <;> simp
  | workerAction =>
    rw [process_workerAction] at hrow
    cases hrow
    simp
  | chkWorkerAction =>
    rw [process_chkWorkerAction] at hrow
    cases hrow
    simp [workerOnly]
  | workerActionDone => exact absurd (.inl rfl) hs
  | postAction => exact absurd (.inr (.inl rfl)) hs
  | chkPostAction => exact absurd (.inr (.inr rfl)) hs
  | again =>
    rw [process_again] at hrow
    cases hrow
  | exit =>
    rw [process_exit] at hrow
    cases hrow

/-- **A row before the job is done**: the dispatch ends, or goes on to such a row. -/
theorem Effect.process_before (hc : Conserved P l)
    (hphase : l.phase = .dispatching t s after) (hh3 : (l.manager.task t).h3 = workerOnly)
    (hs : ¬ IsLate s) : Effect t l (l.process P t s after o) false false := by
  have hidle : ¬ l.phase.acts t := by
    rw [hphase]
    exact fun h => hs h.2
  rw [Looper.process]
  split
  · exact .same rfl rfl
  · rename_i a target hrow
    split
    · exact .same rfl rfl
    · rename_i m hm
      obtain ⟨htarget, hforward⟩ := row_before hs (hh3 ▸ hrow)
      have halike : Alike l.manager m t := by
        refine Alike.perform (.inr ⟨fun ha => ?_, hforward⟩) hm
        -- what acts has the task in hand
        obtain ⟨a, rfl⟩ := Option.ne_none_iff_exists'.mp ha
        exact (hc.hand_of_action hphase hrow).not_result
      split
      · exact (halike.trans (.finish after)).effect hidle (not_acts_finish _ _)
      · exact halike.effect hidle fun h => htarget h.2

omit [DecidableEq κ] in
/-- A task whose result is acted upon is in hand. -/
theorem Conserved.hand_of_late (hc : Conserved P l) (hphase : l.phase = .dispatching t s after)
    (hs : IsLate s) : Placed P (some t) l.manager := by
  apply hc.hand_of_ne hphase
  all_goals rcases hs with rfl | rfl | rfl <;> simp

/-- **The rows that lead to the last check** leave the result as it is. -/
theorem Effect.process_result (hphase : l.phase = .dispatching t s after)
    (hh3 : (l.manager.task t).h3 = workerOnly) (hs : s = .workerActionDone ∨ s = .postAction)
    (hst : (l.manager.task t).status = .forward ∨ (l.manager.task t).status = .stop) :
    Effect t l (l.process P t s after o) false false := by
  have goes_on {target : StateMachine.State} (htarget : IsLate target) :
      Effect t l (l.dispatch l.manager t target after) false false := by
    refine .rest rfl (iff_of_true (.inr ⟨rfl, htarget⟩) (.inr ?_)) (fun _ => rfl) rfl
    rw [hphase]
    exact ⟨rfl, hs.imp_right .inl⟩
  unfold Looper.process
  rcases hs with rfl | rfl
  · have hrow : StateMachine.process .workerActionDone (l.manager.task t).status
        (l.manager.task t).h3 = some (none, .postAction) := by
      rw [process_workerActionDone]
      rcases hst with hst | hst <;> rw [hst]
    simp only [hrow, Option.elim_none]
    exact goes_on (.inr (.inl rfl))
  · -- there is no post-action
    have hpost : l.manager.runPostAction t o = some l.manager := by
      unfold State.runPostAction
      rw [if_neg (by simp [hh3, workerOnly])]
    simp only [process_postAction, Option.elim_some, State.perform, hpost]
    exact goes_on (.inr (.inr rfl))

/-- **The last check**: a task that says `Forward` is sent upstream, and one that says `Stop` is
let go. -/
theorem Effect.process_check (hc : Conserved P l)
    (hphase : l.phase = .dispatching t .chkPostAction after)
    (hst : (l.manager.task t).status = .forward ∨ (l.manager.task t).status = .stop) :
    Effect t l (l.process P t .chkPostAction after o)
      (decide ((l.manager.task t).status = .forward) && (l.manager.processForward P t).isSome)
      false := by
  have hlate : IsLate .chkPostAction := .inr (.inr rfl)
  have hdue : l.Due t := .inr (by rw [hphase]; exact ⟨rfl, hlate⟩)
  have hno := (hc.hand_of_late hphase hlate).not_result
  have hdone {m : State υ κ} (hres : t ∉ m.resQueue.items) : ¬ (l.finish P m after).Due t := by
    rintro (hdone | hdone)
    · exact hres ((Alike.finish (l := l) after).result.mp hdone)
    · exact not_acts_finish _ _ hdone
  unfold Looper.process
  rw [process_chkPostAction]
  rcases hst with hst | hst
  · -- the request is sent, or there is no such server
    rw [hst, decide_eq_true rfl, Bool.true_and]
    dsimp only [Option.elim_some, State.perform]
    cases hm : l.manager.processForward P t with
    | none => exact .same rfl rfl
    | some m =>
      dsimp only
      rw [if_pos rfl]
      have hperform : l.manager.perform P t o .runForward = some m := hm
      have hup := Alike.upstreams_perform (t := t) hperform
      have hres := Alike.resQueue_perform hperform
      obtain ⟨-, hh3, -⟩ := State.status_perform P (a := some .runForward) (o := o) hperform
      have hfinish := Alike.finish (P := P) (l := l) (m := m) (t := t) after
      refine .sent (hfinish.h3.trans hh3) hdue hst (hdone (by rwa [hres])) ?_
      rw [hfinish.upstreams, hup, if_pos ⟨rfl, rfl⟩]
  · rw [hst, decide_eq_false nofun, Bool.false_and]
    dsimp only [Option.elim_some, State.perform]
    rw [if_pos rfl]
    have halike : Alike l.manager (l.manager.respondAndDie P t (l.manager.task t).output.data true)
        t := .respondAndDie _ true
    have hfinish := halike.trans (Alike.finish (l := l) (P := P) after)
    refine .stopped hfinish.h3 hdue hst (hdone (by rwa [halike.result])) hfinish.upstreams ?_
    have hself : ((l.manager.respondAndDie P t (l.manager.task t).output.data true).task t).self
        = false := by
      rw [State.respondAndDie_task, if_pos rfl, Task.answered_self, hst]
      simp
    cases after <;> exact hself

/-- **A row of its dispatch**. -/
theorem Effect.process (hc : Conserved P l) (hlive : l.terminated = false)
    (hphase : l.phase = .dispatching t' s after) (hh3 : (l.manager.task t).h3 = workerOnly)
    (hst : l.Due t → (l.manager.task t).status = .forward ∨ (l.manager.task t).status = .stop) :
    Effect t l (l.process P t' s after o) (l.requests P t (.process o)) false := by
  have hrequests : l.requests P t (.process o) =
      (decide (t' = t ∧ s = .chkPostAction ∧ (l.manager.task t).status = .forward) &&
        (l.manager.processForward P t).isSome) := by
    unfold Looper.requests
    rw [hphase, hlive]
    rfl
  by_cases ht : t = t'
  · subst ht
    by_cases hs : s = .chkPostAction
    · subst hs
      simp only [true_and] at hrequests
      rw [hrequests]
      refine .process_check hc hphase (hst (.inr ?_))
      rw [hphase]
      exact ⟨rfl, .inr (.inr rfl)⟩
    · rw [hrequests, decide_eq_false fun h => hs h.2.1, Bool.false_and]
      by_cases hlate : IsLate s
      · refine .process_result hphase hh3 ?_ (hst (.inr ?_))
        · rcases hlate with h | h | h
          · exact .inl h
          · exact .inr h
          · exact absurd h hs
        · rw [hphase]
          exact ⟨rfl, hlate⟩
      · exact .process_before hc hphase hh3 hlate
  · rw [hrequests, decide_eq_false fun h => ht h.1.symm, Bool.false_and]
    exact .process_of_ne ht hphase

end rows

/-! ## The other events -/

section events

variable [DecidableEq κ]

omit [Fintype κ] [DecidableEq κ] in
/-- A dispatch that starts with `execute` is no result. -/
theorem not_acts_execute (after : After κ) :
    ¬ (Phase.dispatching t' .execute after : Phase κ).acts t := by
  rintro ⟨-, h | h | h⟩ <;> cases h

/-- **The reply to an upstream request**. -/
theorem Effect.upstreamDone {i : ℕ} {sender : UpstreamSender SentTask κ}
    (hplaced : Placed P none l.manager) (hphase : l.phase = .idle)
    (hi : l.manager.upstreamManager.senders[i]? = some sender) (reply : Option Input) :
    Effect t l (l.upstreamDone P i sender reply) false (sender.bt.isBase t) := by
  have hidle : ¬ l.phase.acts t := by
    rw [hphase]
    exact id
  have htaken := hplaced.finishUpstream hi
  have hholds : l.manager.upstreams t = State.upstreams { l.manager with
      upstreamManager := l.manager.upstreamManager.finish i } t +
        if sender.bt.isBase t then 1 else 0 :=
    UpstreamManager.holds_finish (SentTask.isBase t) hi
  -- what comes after the request is taken off does not concern the task
  have conclude {l' : Looper υ κ} (halike : Alike { l.manager with
      upstreamManager := l.manager.upstreamManager.finish i } l'.manager t)
      (hphase' : ¬ l'.phase.acts t) : Effect t l l' false (sender.bt.isBase t) := by
    cases hbase : sender.bt.isBase t with
    | false =>
      rw [hbase, if_neg nofun, Nat.add_zero] at hholds
      have hfinish : Alike l.manager { l.manager with
          upstreamManager := l.manager.upstreamManager.finish i } t :=
        ⟨rfl, .rfl, fun _ => rfl, hholds.symm⟩
      exact (hfinish.trans halike).effect hidle hphase'
    | true =>
      rw [hbase, if_pos rfl, ← halike.upstreams] at hholds
      have hno : t ∉ l.manager.resQueue.items := by
        cases hbt : sender.bt with
        | base t' =>
          rw [hbt] at hbase htaken
          have ht : t' = t := by simpa using hbase
          subst ht
          exact htaken.not_result
        | upstream n output =>
          rw [hbt] at hbase
          cases hbase
      refine .replied halike.h3 ?_ ?_ hholds
      · rintro (h | h)
        · exact hno h
        · exact hidle h
      · rintro (h | h)
        · exact hno (halike.result.mp h)
        · exact hphase' h
  unfold Looper.upstreamDone
  dsimp only
  split
  · refine conclude (.trans ?_ (Alike.finish _)) (not_acts_finish _ _)
    exact .of_eq rfl rfl rfl
  · rename_i t' hbt
    rw [hbt] at htaken
    refine conclude (.trans (.trans (.modify rfl (.inr ?_)) (.respondAndDie _ _)) (.finish _))
      (not_acts_finish _ _)
    by_cases ht : t = t'
    · exact .inr (ht ▸ htaken.not_result)
    · exact .inl ht
  · rename_i t' input hbt
    have hreply : Alike { l.manager with
        upstreamManager := l.manager.upstreamManager.finish i } (State.setReply { l.manager with
        upstreamManager := l.manager.upstreamManager.finish i } (.base t') input) t :=
      .modify (f := fun bt => { bt with input := input }) rfl (.inl rfl)
    split
    · exact conclude hreply (not_acts_execute _)
    · exact conclude (hreply.trans (.finish _)) (not_acts_finish _ _)

/-- **The events of the IO thread**. -/
theorem Effect.idleStep (hc : Conserved P l) (hlive : l.terminated = false)
    (hphase : l.phase = .idle) (ht : t < l.manager.created) (e : Event υ κ) :
    Effect t l (l.idleStep P e) false (l.repliesTo t e) := by
  have hplaced := hc.placed_of_idle hphase
  have hidle : ¬ l.phase.acts t := by
    rw [hphase]
    exact id
  -- most events leave the loop idle, or start another dispatch
  have stays {m : State υ κ} (h : Alike l.manager m t) :
      Effect t l { l with manager := m } false false := h.effect hidle hidle
  have starts {m : State υ κ} {t' : ℕ} (h : Alike l.manager m t) :
      Effect t l (l.dispatch m t' .execute .done) false false :=
    h.effect hidle (not_acts_execute _)
  cases e with
  | newClient h3 input => exact starts ((Alike.create ht _).trans (.of_eq rfl rfl rfl))
  | closeClient t' => exact stays (.modify rfl (.inl rfl))
  | timer t' =>
    unfold Looper.idleStep
    dsimp only
    split
    · rename_i htimer
      have hno : t' ∉ l.manager.resQueue.items := (hplaced.onTimer htimer).not_result
      have herase : Alike l.manager
          { l.manager with timerList := l.manager.timerList.erase t' } t := .of_eq rfl rfl rfl
      have hset : Alike { l.manager with timerList := l.manager.timerList.erase t' }
          (l.manager.onTimer t') t := by
        refine .modify (f := fun bt => { bt with status := .none }) rfl (.inr ?_)
        by_cases heq : t = t'
        · exact .inr (heq ▸ hno)
        · exact .inl heq
      exact starts (herase.trans hset)
    · exact .same rfl rfl
  | checkUpstreamBlocking n output =>
    unfold Looper.idleStep
    dsimp only
    split
    · exact .same rfl rfl
    · rename_i m hm
      obtain ⟨um, hsend, rfl⟩ := Option.map_eq_some_iff.mp hm
      have hholds := UpstreamManager.holds_send P.upstream (SentTask.isBase t) hsend
      rw [SentTask.isBase_upstream, if_neg nofun, Nat.add_zero] at hholds
      exact stays ⟨rfl, .rfl, fun _ => rfl, hholds⟩
  | jobReady =>
    unfold Looper.idleStep
    dsimp only
    split
    · exact .same rfl rfl
    · rename_i t' resQueue hres
      obtain ⟨hitems, -⟩ := BoundedQueue.pop_eq_some hres
      have hhand := (hplaced.jobReady hres).not_result
      -- the result is in the queue before, and in the dispatch afterwards
      refine .rest rfl ?_ (fun _ => rfl) rfl
      rw [Looper.Due, Looper.Due, or_iff_left hidle, hitems, List.mem_cons]
      constructor
      · rintro (h | ⟨rfl, -⟩)
        · exact .inr h
        · exact .inl rfl
      · rintro (rfl | h)
        · exact .inr ⟨rfl, .inl rfl⟩
        · exact .inl h
  | upstreamReply i reply =>
    unfold Looper.idleStep Looper.repliesTo
    rw [hphase, hlive]
    dsimp only
    split
    · rename_i hi
      rw [hi]
      exact .same rfl rfl
    · rename_i sender hi
      rw [hi, Option.any_some, Bool.not_false, Bool.true_and]
      exact .upstreamDone hplaced hphase hi reply
  | closeIdle k client =>
    exact stays ⟨rfl, .rfl, fun _ => rfl, UpstreamManager.holds_closeIdle _ _ _ _⟩
  | resume =>
    unfold Looper.idleStep
    dsimp only
    split
    · exact .same rfl rfl
    · exact starts (.of_eq rfl rfl rfl)
  | expire =>
    unfold Looper.idleStep
    dsimp only
    split
    · exact stays (.expireTasks hplaced _)
    · exact .same rfl rfl
  | tick | addPeriodicTask | workerStart | workerDone | process => exact .same rfl rfl

omit [DecidableEq κ] in
/-- **What happens in the background**: the clock, another task, a worker. -/
theorem Effect.background {m : State υ κ} (htask : m.task t = l.manager.task t)
    (hresult : t ∈ m.resQueue.items ↔ t ∈ l.manager.resQueue.items)
    (hup : m.upstreams t = l.manager.upstreams t) :
    Effect t l { l with manager := m } false false :=
  .rest (congrArg Task.h3 htask) (or_congr hresult Iff.rfl) (fun _ => congrArg Task.status htask)
    hup

omit [DecidableEq κ] in
/-- **A job is done**: its result is in the queue, and nothing else changes. -/
theorem Conserved.workerDone_cases {m : State υ κ} {o : Option (Outcome υ)} (hc : Conserved P l)
    (ht : t ∈ l.manager.running) (hm : l.manager.workerDone t o = some m) :
    ∃ x, o = some x ∧ (m.task t).status = x.status ∧
      m.resQueue.items = l.manager.resQueue.items ++ [t] ∧
      m.upstreamManager = l.manager.upstreamManager := by
  have hroom := hc.jobs.resQueue_not_full ht
  obtain ⟨m₁, hrun, rfl⟩ := Option.map_eq_some_iff.mp hm
  obtain ⟨x, rfl, rfl⟩ := Option.map_eq_some_iff.mp hrun
  refine ⟨x, rfl, ?_⟩
  dsimp only
  split
  · rename_i resQueue hpush
    refine ⟨?_, (BoundedQueue.push_eq_some hpush).1, rfl⟩
    simp [State.modify, State.note]
  · rename_i hpush
    exact absurd (BoundedQueue.push_eq_none.mp hpush) hroom

omit [DecidableEq κ] in
/-- **A result that is to be acted upon** is all there is of its task. -/
theorem Conserved.of_due (hc : Conserved P l) (hdue : l.Due t) :
    t ∉ l.manager.timerList ∧ t ∉ l.manager.threadPool.jobs ∧ t ∉ l.manager.running := by
  simp only [← List.count_eq_zero]
  rcases hdue with hres | hacts
  · have hresult : 0 < l.manager.resQueue.items.count t := List.count_pos_iff.mpr hres
    have hself := Bool.toNat_le (l.manager.task t).self
    have hplaces := hc.placed.places t
    simp only [State.stored, State.jobs, List.count_append] at hplaces
    omega
  · -- the dispatch has it in hand
    cases hphase : l.phase with
    | idle =>
      rw [hphase] at hacts
      exact hacts.elim
    | dispatching t' s after =>
      rw [hphase] at hacts
      obtain ⟨rfl, hlate⟩ := hacts
      have hzero := (hc.hand_of_late hphase hlate).stored_hand
      simp only [State.stored, State.jobs, List.count_append] at hzero
      omega

omit [DecidableEq κ] in
/-- **A task whose job is being run** has no result, and is not upstream. -/
theorem Conserved.of_running (hc : Conserved P l) (ht : t ∈ l.manager.running) :
    ¬ l.Due t ∧ l.manager.upstreams t = 0 := by
  refine ⟨fun hdue => (hc.of_due hdue).2.2 ht, ?_⟩
  have hcount : 0 < l.manager.running.count t := List.count_pos_iff.mpr ht
  have hself := Bool.toNat_le (l.manager.task t).self
  have hplaces := hc.placed.places t
  simp only [State.stored, State.jobs, List.count_append] at hplaces
  omega

/-- **The handler runs**: its result waits in the queue. -/
theorem Conserved.handle_step (hc : Conserved P l) (hlive : l.terminated = false)
    (ht : t ∈ l.manager.running) (x : Outcome υ) :
    (l.step P (.workerDone t (some x))).Due t ∧
      ((l.step P (.workerDone t (some x))).manager.task t).status = x.status ∧
      ((l.step P (.workerDone t (some x))).manager.task t).h3 = (l.manager.task t).h3 ∧
      (l.step P (.workerDone t (some x))).manager.upstreams t = l.manager.upstreams t := by
  unfold Looper.step
  rw [if_neg (by rw [hlive]; nofun)]
  dsimp only
  rw [if_pos ht]
  cases hm : l.manager.workerDone t (some x) with
  | none => cases hm
  | some m =>
    obtain ⟨y, hy, hstatus, hitems, hup⟩ := hc.workerDone_cases ht hm
    obtain ⟨-, -, -, hh3, -⟩ := hc.jobs.workerDone ht hm
    cases hy
    refine ⟨.inl ?_, hstatus, hh3, ?_⟩
    · rw [hitems]
      exact List.mem_append_right _ List.mem_cons_self
    · rw [State.upstreams, hup, State.upstreams]

/-- **What an event does** to a task with a worker action only, unless its handler runs. -/
theorem Conserved.effect_step (hc : Conserved P l) (ht : t < l.manager.created)
    (hh3 : (l.manager.task t).h3 = workerOnly)
    (hst : l.Due t → (l.manager.task t).status = .forward ∨ (l.manager.task t).status = .stop)
    {e : Event υ κ} (he : l.handles t e = false) :
    Effect t l (l.step P e) (l.requests P t e) (l.repliesTo t e) := by
  cases hlive : l.terminated with
  | true =>
    have hreply : l.repliesTo t e = false := by
      unfold Looper.repliesTo
      rw [hlive]
      split
      · split <;> rfl
      · rfl
    have hstep : l.step P e = l := by
      unfold Looper.step
      rw [if_pos hlive]
    have hrequests : l.requests P t e = false := by
      unfold Looper.requests
      rw [hlive]
      split
      · split <;> rfl
      · rfl
    rw [hreply, hrequests, hstep]
    exact .same rfl rfl
  | false =>
    unfold Looper.step
    rw [if_neg (by rw [hlive]; nofun)]
    cases e with
    | tick d => exact .background rfl .rfl rfl
    | addPeriodicTask h3 => exact .background (State.create_task_of_ne _ _ ht.ne) .rfl rfl
    | workerStart i =>
      dsimp only
      split
      · unfold State.workerStart
        split <;> exact .background rfl .rfl rfl
      · exact .same rfl rfl
    | workerDone t' o =>
      dsimp only
      split
      · rename_i hrunning
        have hne : t ≠ t' := by
          rintro rfl
          rw [Looper.handles, hlive, decide_eq_true ⟨rfl, hrunning⟩] at he
          cases he
        split
        · exact .same rfl rfl
        · rename_i m hm
          obtain ⟨-, -, -, -, htask⟩ := hc.jobs.workerDone hrunning hm
          obtain ⟨x, -, -, hitems, hup⟩ := hc.workerDone_cases hrunning hm
          refine .background (htask t hne) ?_ (by rw [State.upstreams, hup, State.upstreams])
          rw [hitems, List.mem_append, List.mem_singleton, or_iff_left hne]
      · exact .same rfl rfl
    | process o =>
      dsimp only
      split
      · rename_i hphase
        have hrequests : l.requests P t (.process o) = false := by
          unfold Looper.requests
          rw [hphase]
        rw [hrequests]
        exact .same rfl rfl
      · rename_i t' s after hphase
        exact .process hc hlive hphase hh3 hst
    | upstreamReply i reply =>
      dsimp only
      split
      · rename_i hphase
        exact .idleStep hc hlive hphase ht _
      · rename_i hphase
        -- the reply waits for the end of the dispatch
        have hreply : l.repliesTo t (.upstreamReply i reply) = false := by
          unfold Looper.repliesTo
          rw [hphase]
        rw [hreply]
        exact .same rfl rfl
    | _ =>
      dsimp only
      split
      · rename_i hphase
        exact .idleStep hc hlive hphase ht _
      · exact .same rfl rfl

end events

end TaskManager
