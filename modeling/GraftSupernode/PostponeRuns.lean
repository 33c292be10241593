/-
# Runs with postponed tasks

What holds of postponed tasks in every run of the event loop.

* `expired_in_time`: no task expires before its time, whatever entries earlier postponements have
  left in `m_expireTaskQueue`;
* `expires_iff`: when the tasks that are overdue expire, and when they do not;
* `rendezvous`: a task and its callback meet, in either order, if neither use of the timeout falls
  short of the milliseconds that are meant (`Params.Keeps`); `rendezvous_missed`: with a timeout of
  1.001 seconds a callback is kept for a second.
-/
import GraftSupernode.TaskRuns
import GraftSupernode.TaskPostponed

open StateMachine

namespace TaskManager

variable {υ κ : Type*} [LinearOrder υ] [Fintype κ] [DecidableEq κ]
variable {P : Params υ κ} {l : Looper υ κ} {m : State υ κ} {t : ℕ} {u : υ}

/-- The time of a postponement of `t`. -/
def Note.postponedAt (t : ℕ) : Note → Option ℕ
  | .postpone t' time => if t' = t then some time else none
  | _ => none

/-- `t` is pushed to `m_readyToResume`. -/
def Note.isResume (t : ℕ) : Note → Bool
  | .resume t' _ => t' = t
  | _ => false

/-- The time of the latest postponement of `t`. -/
def lastPostponed (log : List Note) (t : ℕ) : Option ℕ := log.findSome? (Note.postponedAt t)

/-- The last postponement is in the first note that is one. -/
theorem lastPostponed_cons (n : Note) (log : List Note) (t : ℕ) :
    lastPostponed (n :: log) t = (n.postponedAt t).or (lastPostponed log t) := by
  rw [lastPostponed, List.findSome?_cons]
  cases n.postponedAt t <;> rfl

/-- The waiting tasks see the same last postponement. -/
theorem lastPostponed_waiting (log : List Note) (t : ℕ) :
    Rendezvous.lastPostponed (log.filterMap Note.waiting) t = lastPostponed log t := by
  induction log with
  | nil => rfl
  | cons n log ih =>
    rw [lastPostponed_cons, ← ih]
    cases n with
    | respond | clientDone | handler | promise => exact (Option.none_or ..).symm
    | postpone | resume | expire => exact Rendezvous.lastPostponed_cons _ _ _

/-- The waiting tasks see the same resumptions. -/
theorem resumes_waiting (log : List Note) (t : ℕ) :
    (log.filterMap Note.waiting).countP (Rendezvous.Note.isResume t) =
      log.countP (Note.isResume t) := by
  rw [List.countP_filterMap]
  exact List.countP_congr fun n _ => by cases n <;> rfl

/-- In every run the waiting tasks are sound. -/
theorem sound_exec (es : List (Event υ κ)) : Rendezvous.Sound P.uuid P.httpConnectionTimeout
    (Runs.exec (Looper.step P) (Looper.init P) es).manager.waiting := by
  rw [waiting_exec _ Conserved.init]
  refine Rendezvous.Sound.exec ⟨fun _ _ h => ?_, fun _ _ h => ?_, fun _ _ _ h => ?_⟩ _
  · cases h
  · cases h
  · cases List.suffix_nil.mp h

/-! ## Early expiry -/

/-- A request that is postponed. -/
def postponeRun : List (Event ℕ Unit) :=
  requestRun ⟨false, false, true⟩ [.ok, .ok, .ok, .ok, .ok, .postpone, .ok]

/-- The request goes on with the answer of a callback and is postponed again; another request is
postponed after it, and the time of both is over.  The entry of the first postponement is stale. -/
def againRun : List (Event ℕ Unit) :=
  postponeRun ++ .tick 1000 :: .newClient ⟨false, false, true⟩ { body := "answer" } ::
      List.replicate 7 (.process (some ⟨.ok, none, {}, some 0⟩)) ++
    .tick 1000 :: .resume :: postponeRun.tail ++ .tick 1000 :: postponeRun ++ [.tick 1000001]

/-- `t` is in `m_postponedTasks`, and its deadline is over. -/
def State.Overdue (P : Params υ κ) (m : State υ κ) (t : ℕ) : Prop :=
  (∃ u, m.postponedTasks u = some t) ∧
    ∃ time, lastPostponed m.log t = some time ∧ time + P.httpConnectionTimeout < m.now

/-- What is seen when the task `t` of the state `m` expires. -/
def State.Expired (m : State υ κ) (notes : List Note) (t : ℕ) : Prop :=
  .expire t m.now ∈ notes ∧
    ((m.task t).kind = .client → .clientDone t .error ∈ notes ∧
      ((m.task t).client = true → .respond t 500 "Postpone task response timeout" ∈ notes))

/-- **Overdue tasks expire** from the state `m` to the state `m'`: they are answered with the
timeout error and removed, and none is left. -/
def State.Expires (P : Params υ κ) (m m' : State υ κ) : Prop :=
  (∀ t, ¬ m'.Overdue P t) ∧
    ∃ notes, m'.log = notes ++ m.log ∧
      ∀ t, m.Overdue P t → m.Expired notes t ∧ ∀ u, m'.postponedTasks u ≠ some t

omit [Fintype κ] [DecidableEq κ] in
/-- A task that has expired has expired whatever is noted later. -/
theorem State.Expired.append {notes : List Note} (h : m.Expired notes t) (later : List Note) :
    m.Expired (later ++ notes) t :=
  ⟨List.mem_append_right _ h.1, fun hkind => ⟨List.mem_append_right _ (h.2 hkind).1,
    fun hclient => List.mem_append_right _ ((h.2 hkind).2 hclient)⟩⟩

omit [Fintype κ] [DecidableEq κ] in
/-- What is noted when a task expires. -/
theorem State.expired_expireTask :
    (m.expireTask P t).log =
      ((m.note (.expire t m.now)).setLastStatus t .error).replies t
        "Postpone task response timeout" ++ .expire t m.now :: m.log ∧
    m.Expired (((m.note (.expire t m.now)).setLastStatus t .error).replies t
        "Postpone task response timeout" ++ [.expire t m.now]) t := by
  refine ⟨by rw [expireTask, respondAndDie_eq]; rfl, by simp, fun hkind => ⟨?_, fun hclient => ?_⟩⟩
  · simp [replies, setLastStatus, note, hkind]
  · simp [replies, setLastStatus, note, hkind, hclient, httpCode]

omit [DecidableEq κ] in
/-- **A task that is no longer postponed after a scan** has expired in it. -/
theorem Placed.expired_expireTasks (h : Placed P none m) (fuel : ℕ) :
    ∃ notes, (m.expireTasks P fuel).log = notes ++ m.log ∧
      ∀ t, m.IsPostponed P t → (m.expireTasks P fuel).postponedTasks (P.uuid t) = none →
        m.Expired notes t := by
  induction fuel generalizing m with
  | zero =>
    refine ⟨[], rfl, fun t hpost hnone => ?_⟩
    rw [State.IsPostponed] at hpost
    simp [State.expireTasks, hpost] at hnone
  | succ fuel ih =>
    -- where the loop ends, nothing has been taken out
    have hstop : ∃ notes, m.log = notes ++ m.log ∧ ∀ t, m.IsPostponed P t →
        m.postponedTasks (P.uuid t) = none → m.Expired notes t :=
      ⟨[], rfl, fun t hpost hnone => by rw [State.IsPostponed, hnone] at hpost; cases hpost⟩
    have hdrop {m' : State υ κ} (h : Placed P none m') :
        Placed P none { m' with expireTaskQueue := m'.expireTaskQueue.pop } :=
      ⟨h.places, h.fresh, h.postponed, h.postponedStatus, h.readyStatus, h.upstreamStatus,
        h.timerKind⟩
    unfold State.expireTasks
    cases m.expireTaskQueue.top with
    | none => exact hstop
    | some e =>
      dsimp only
      split
      · exact hstop
      · cases hpost : m.postponedTasks (ofLex e).2 with
        | none => exact ih (hdrop h)
        | some t₀ =>
          -- `t₀` is the one that expires first, and the others do in the rest of the loop
          rw [h.postponed _ t₀ hpost] at hpost
          obtain ⟨later, hlog, hrest⟩ := ih (hdrop (h.expireTask hpost))
          obtain ⟨hnew, hexpired⟩ := State.expired_expireTask (P := P) (m := m) (t := t₀)
          refine ⟨later ++ (((m.note (.expire t₀ m.now)).setLastStatus t₀ .error).replies t₀
            "Postpone task response timeout" ++ [.expire t₀ m.now]), ?_, fun t ht hnone => ?_⟩
          · rw [hlog]
            dsimp only
            rw [hnew]
            simp
          · by_cases heq : t = t₀
            · exact heq ▸ hexpired.append later
            · have huuid : P.uuid t ≠ P.uuid t₀ := fun e => heq (P.uuid_injective e)
              have hlater := hrest t ?_ hnone
              · obtain ⟨hexp, hdone⟩ := hlater
                simp only [State.expireTask, State.respondAndDie_eq] at hexp
                dsimp only at hdone
                rw [State.expireTask, State.respondAndDie_task, if_neg heq, State.setLastStatus,
                  State.modify_task_of_ne _ heq] at hdone
                exact ⟨List.mem_append_left _ hexp, fun hkind =>
                  ⟨List.mem_append_left _ (hdone hkind).1,
                    fun hclient => List.mem_append_left _ ((hdone hkind).2 hclient)⟩⟩
              · rw [State.IsPostponed, State.expireTask, State.respondAndDie_eq]
                exact (Function.update_of_ne huuid _ _).trans ht

/-- **When overdue tasks expire**: if every entry of `m_expireTaskQueue` is due, or no task is
overdue; the queue yields its latest deadline first, and one that is not due ends the scan. -/
theorem expires_iff (es : List (Event υ κ)) :
    let l := Runs.exec (Looper.step P) (Looper.init P) es
    l.terminated = false → l.phase = .idle → l.manager.readyToResume = [] →
      (l.manager.Expires P (l.step P .expire).manager ↔
        (∀ e ∈ l.manager.expireTaskQueue, (ofLex e).1 < l.manager.now) ∨
          ∀ t, ¬ l.manager.Overdue P t) := by
  intro l hlive hphase hready
  have hc : Conserved P l := Conserved.exec es
  have hsound : Rendezvous.Sound P.uuid P.httpConnectionTimeout l.manager.waiting := sound_exec es
  have hplaced := hc.placed_of_idle hphase
  have hstep : (l.step P .expire).manager =
      l.manager.expireTasks P l.manager.expireTaskQueue.items.length := by
    simp only [Looper.step, hlive, Bool.false_eq_true, if_false, hphase, Looper.idleStep, hready,
      if_true]
  have hwaiting : (l.step P .expire).manager.waiting = Rendezvous.expire l.manager.waiting := by
    rw [hstep]
    exact hplaced.waiting_expireTasks _
  obtain ⟨notes, hlog, hnotes⟩ :=
    hplaced.expired_expireTasks l.manager.expireTaskQueue.items.length
  rw [← hstep] at hlog hnotes
  -- a deadline that is not due ends the scan: nothing changes
  have hstays {e : ℕ ×ₗ υ} (he : e ∈ l.manager.expireTaskQueue)
      (hle : l.manager.now ≤ (ofLex e).1) :
      (l.step P .expire).manager.waiting = l.manager.waiting := by
    rw [hwaiting]
    exact Rendezvous.expire_eq_self (w := l.manager.waiting) he hle
  have hoverdue {t : ℕ} (hsame : (l.step P .expire).manager.waiting = l.manager.waiting) :
      (l.step P .expire).manager.Overdue P t ↔ l.manager.Overdue P t := by
    have hlast := lastPostponed_waiting (l.step P .expire).manager.log t
    rw [show (l.step P .expire).manager.log.filterMap Note.waiting =
      l.manager.log.filterMap Note.waiting from congrArg Rendezvous.Waiting.log hsame,
      lastPostponed_waiting] at hlast
    have hpost : (l.step P .expire).manager.postponedTasks = l.manager.postponedTasks :=
      congrArg Rendezvous.Waiting.postponedTasks hsame
    have hnow : (l.step P .expire).manager.now = l.manager.now :=
      congrArg Rendezvous.Waiting.now hsame
    simp only [State.Overdue, hpost, hnow, hlast]
  constructor
  · rintro ⟨-, notes', -, hgone⟩
    by_contra hnot
    push Not at hnot
    obtain ⟨⟨e, he, hle⟩, t, ht⟩ := hnot
    obtain ⟨u, hu⟩ := ht.1
    have hsame := hstays he hle
    refine (hgone t ht).2 u ?_
    rw [← hu]
    exact congrArg (fun w => w.postponedTasks u) hsame
  · intro hcond
    by_cases hdue : ∀ e ∈ l.manager.expireTaskQueue, (ofLex e).1 < l.manager.now
    · have hnone (u : υ) : (l.step P .expire).manager.postponedTasks u = none := by
        have := Rendezvous.expire_of_due hsound hdue u
        rwa [← hwaiting] at this
      refine ⟨fun t ht => ?_, notes, hlog, fun t ht => ⟨?_, fun u' hu' => ?_⟩⟩
      · obtain ⟨u, hu⟩ := ht.1
        rw [hnone] at hu
        cases hu
      · obtain ⟨u, hu⟩ := ht.1
        refine hnotes t ?_ (hnone _)
        rwa [hplaced.postponed u t hu] at hu
      · rw [hnone] at hu'
        cases hu'
    · obtain hnone := hcond.resolve_left hdue
      push Not at hdue
      obtain ⟨e, he, hle⟩ := hdue
      have hsame := hstays he hle
      exact ⟨fun t ht => hnone t ((hoverdue hsame).mp ht), notes, hlog,
        fun t ht => absurd ht (hnone t)⟩

/-- Both tasks expire, and the stale entry is dropped with them. -/
theorem expires_both :
    let l := Runs.exec (Looper.step smallParams) (Looper.init smallParams) againRun
    l.manager.Expires smallParams (l.step smallParams .expire).manager := by
  intro l
  have hlive : l.terminated = false := rfl
  have hphase : l.phase = .idle := rfl
  have hready : l.manager.readyToResume = [] := rfl
  refine (expires_iff (P := smallParams) _ hlive hphase hready).mpr (.inl fun e he => ?_)
  have hitems : (Runs.exec (Looper.step smallParams) (Looper.init smallParams)
      againRun).manager.expireTaskQueue.items
        = [toLex (1003000, 2), toLex (1002000, 0), toLex (1000000, 0)] := by
    decide +kernel
  rw [PriorityQueue.mem_def, hitems] at he
  have hdue : (ofLex e).1 < 1003001 := by
    revert e
    simp
  exact hdue

/-- A request that is postponed, and another one after it. -/
def overdueRun : List (Event ℕ Unit) :=
  postponeRun ++ .tick 600000 :: postponeRun ++ [.tick 600000]

/-- **A task that another one follows** does not expire in time: it is overdue, and stays. -/
theorem overdue_stays :
    let l := Runs.exec (Looper.step smallParams) (Looper.init smallParams) overdueRun
    l.terminated = false ∧ l.phase = .idle ∧ l.manager.readyToResume = [] ∧
      ¬ l.manager.Expires smallParams (l.step smallParams .expire).manager := by
  refine ⟨rfl, rfl, rfl, fun h => h.1 0 ⟨⟨0, ?_⟩, 0, ?_, ?_⟩⟩
  all_goals decide +kernel

/-! ## A task and its callback -/

section meeting

variable {e e₁ e₂ : Event υ κ} {input : Input}

omit [Fintype κ] [DecidableEq κ] in
/-- **What an event is** for the postponed tasks. -/
theorem Looper.waitingEvent_cases {a : Rendezvous.Event υ Input} (h : l.waitingEvent e = some a) :
    l.terminated = false ∧ ((∃ d, a = .tick d) ∨ a = .expire ∨
      ∃ c o after, e = .process o ∧ l.phase = .dispatching c .chkPostAction after ∧
        ((l.manager.task c).status = .postpone ∧ a = .postpone c ∨
          (l.manager.task c).status = .ok ∧ ∃ u, (l.manager.task c).nextUuid = some u ∧
            a = .callback u (l.manager.task c).input)) := by
  cases hlive : l.terminated with
  | true => simp [waitingEvent, hlive] at h
  | false =>
    refine ⟨rfl, ?_⟩
    cases e with
    | process o =>
      cases hphase : l.phase with
      | idle => simp [waitingEvent, hlive, hphase] at h
      | dispatching c s after =>
        rw [waitingEvent_process hlive hphase] at h
        split at h
        · rename_i hs
          subst hs
          refine .inr (.inr ⟨c, o, after, rfl, rfl, ?_⟩)
          split at h
          · rename_i hst
            cases h
            exact .inl ⟨hst, rfl⟩
          · rename_i hst
            obtain ⟨u, hu, rfl⟩ := Option.map_eq_some_iff.mp h
            exact .inr ⟨hst, u, hu, rfl⟩
          · cases h
        · cases h
    | tick d =>
      simp only [waitingEvent, hlive, Bool.false_eq_true, if_false, Option.some.injEq] at h
      exact .inl ⟨d, h.symm⟩
    | expire =>
      simp only [waitingEvent, hlive, Bool.false_eq_true, if_false] at h
      split at h <;> simp_all
    | _ => simp [waitingEvent, hlive] at h

/-- The task `t` is pushed to `m_readyToResume` in the step from `l` to `l'`, with the input. -/
def Looper.Pushes (l l' : Looper υ κ) (t : ℕ) (input : Input) : Prop :=
  l'.manager.readyToResume = l.manager.readyToResume ++ [t] ∧ (l'.manager.task t).input = input

omit [Fintype κ] in
/-- A callback for a task that waits. -/
theorem Looper.pushes_of_callback (h : l.waitingEvent e = some (.callback u input))
    (hpost : l.manager.postponedTasks u = some t) : l.Pushes (l.step P e) t input := by
  obtain ⟨hlive, ⟨d, ha⟩ | ha | ⟨c, o, after, rfl, hphase, ⟨-, ha⟩ | ⟨hst, u', hu, ha⟩⟩⟩ :=
    waitingEvent_cases h
  · cases ha
  · cases ha
  · cases ha
  · cases ha
    have hstep : l.step P (.process o) = l.finish P (l.manager.processOk P c) after := by
      simp only [step, hlive, Bool.false_eq_true, if_false, hphase, process, hst,
        process_chkPostAction, Option.elim, State.perform, if_true]
    have hmanager : (l.manager.processOk P c).readyToResume = l.manager.readyToResume ++ [t] ∧
        ((l.manager.processOk P c).task t).input = (l.manager.task c).input := by
      have hnext : (l.manager.resumeNext c).readyToResume = l.manager.readyToResume ++ [t] ∧
          ((l.manager.resumeNext c).task t).input = (l.manager.task c).input := by
        simp only [State.resumeNext, hu, hpost]
        refine ⟨rfl, ?_⟩
        show ((l.manager.resumeTask t _).task t).input = _
        rw [State.resumeTask_task, if_pos rfl]
      refine ⟨?_, ?_⟩
      · rw [State.processOk, State.respondAndDie_eq]
        exact hnext.1
      · rw [State.processOk, State.respondAndDie_task]
        split
        · rename_i heq
          rw [heq] at hnext
          rw [Task.answered_input]
          exact hnext.2
        · exact hnext.2
    rw [hstep]
    cases after <;> exact hmanager

omit [Fintype κ] in
/-- A task whose callback is there. -/
theorem Looper.pushes_of_postpone (h : l.waitingEvent e = some (.postpone t))
    (hfound : (l.manager.futurePostponeUuids.extract l.manager.now
      fun e => e.1 = P.uuid t).1 = some (u, input)) : l.Pushes (l.step P e) t input := by
  obtain ⟨hlive, ⟨d, ha⟩ | ha | ⟨c, o, after, rfl, hphase, ⟨hst, ha⟩ | ⟨-, u', -, ha⟩⟩⟩ :=
    waitingEvent_cases h
  · cases ha
  · cases ha
  · cases ha
    have hstep : l.step P (.process o) = l.finish P (l.manager.postponeTask P t) after := by
      simp only [step, hlive, Bool.false_eq_true, if_false, hphase, process, hst,
        process_chkPostAction, Option.elim, State.perform, if_true]
    have hmanager : (l.manager.postponeTask P t).readyToResume = l.manager.readyToResume ++ [t] ∧
        ((l.manager.postponeTask P t).task t).input = input := by
      simp only [State.postponeTask, hfound]
      exact ⟨rfl, congrArg Task.input ((State.resumeTask_task _ t _ t).trans (if_pos rfl))⟩
    rw [hstep]
    cases after <;> exact hmanager
  · cases ha

/-- The event is no callback for `u`. -/
def NoCallback (u : υ) (l : Looper υ κ) (e : Event υ κ) : Prop :=
  ∀ a, l.waitingEvent e = some a → ¬ a.IsCallback u

/-- Neither use of the timeout falls short of `k` milliseconds: a callback is kept for `k` at least,
and a task that is postponed does not expire before. -/
structure Params.Keeps (P : Params υ κ) (k : ℕ) : Prop where
  callback : k * 1000000 ≤ P.lifeTime
  task : k * 1000000 ≤ P.httpConnectionTimeout + 1

omit [LinearOrder υ] [Fintype κ] [DecidableEq κ] in
/-- A timeout of whole seconds, whose milliseconds are an `int`, is kept. -/
theorem Params.keeps_of_seconds {s : ℕ} (hs : s < 2 ^ 53) (hint : s * 1000 < 2 ^ 31)
    (htimeout : P.connectionTimeout = .ofNat s hs) : P.Keeps (s * 1000) := by
  have hms : (P.connectionTimeout.mulNat 1000).trunc = 1000 * s := by
    rw [htimeout]
    exact Binary64.trunc_mulNat_ofNat hs (by omega)
  have hns : P.httpConnectionTimeout = 1000000000 * s := by
    rw [httpConnectionTimeout, htimeout]
    exact Binary64.trunc_mulNat_ofNat hs (by omega)
  constructor
  · rw [lifeTime, hms, if_pos (by omega)]
    omega
  · rw [hns]
    omega

/-- **A task and its callback meet**, whichever comes first (`e₁`), if the timeout is kept: the task
returns `Postpone` and the callback ends with `Ok` before the timeout of `k` milliseconds is over; or
the callback ends with `Ok` when the task does not wait, and the task's next `Postpone` comes before
the timeout is over.  With the second event the task is pushed to `m_readyToResume`, for the first
time, with the input of the callback, and neither container holds an entry for it. -/
theorem rendezvous {k : ℕ} (hkeeps : P.Keeps k) {pre mid : List (Event υ κ)}
    (hpre : Runs.Along (Looper.step P) (NoCallback (P.uuid t)) (Looper.init P) pre)
    (hmid : Runs.Along (Looper.step P) (NoCallback (P.uuid t))
      ((Runs.exec (Looper.step P) (Looper.init P) pre).step P e₁) mid) :
    let l₁ := Runs.exec (Looper.step P) (Looper.init P) pre
    let l₂ := Runs.exec (Looper.step P) (l₁.step P e₁) mid
    let l₃ := l₂.step P e₂
    (l₁.waitingEvent e₁ = some (.postpone t) ∧
        l₂.waitingEvent e₂ = some (.callback (P.uuid t) input) ∨
      l₁.waitingEvent e₁ = some (.callback (P.uuid t) input) ∧
        l₁.manager.postponedTasks (P.uuid t) = none ∧
        Runs.Along (Looper.step P) (fun l e => l.waitingEvent e ≠ some (.postpone t))
          (l₁.step P e₁) mid ∧
        l₂.waitingEvent e₂ = some (.postpone t)) →
    l₂.manager.now < l₁.manager.now + k * 1000000 →
      l₂.Pushes l₃ t input ∧
        l₂.manager.log.countP (Note.isResume t) = l₁.manager.log.countP (Note.isResume t) ∧
        l₃.manager.log.countP (Note.isResume t) = l₁.manager.log.countP (Note.isResume t) + 1 ∧
        l₃.manager.postponedTasks (P.uuid t) = none ∧
        ∀ e ∈ l₃.manager.futurePostponeUuids.cont, e.2.1 ≠ P.uuid t := by
  intro l₁ l₂ l₃ horder htime
  have hc₁ : Conserved P l₁ := Conserved.exec pre
  have hc₂ : Conserved P l₂ := (hc₁.step e₁).exec_of mid
  have hsound : Rendezvous.Sound P.uuid P.httpConnectionTimeout
      (l₁.step P e₁).manager.waiting := by
    have h := sound_exec (P := P) (pre ++ [e₁])
    rwa [Runs.exec_append] at h
  have hw₂ := waiting_exec (P := P) (l₁.step P e₁) (hc₁.step e₁) mid
  have hw₃ := hc₂.waiting_step e₂
  have hw₁ := hc₁.waiting_step e₁
  have hnone : l₁.manager.waiting.callbacks (P.uuid t) = 0 := by
    rw [waiting_exec _ Conserved.init]
    exact Rendezvous.callbacks_exec (Runs.forall_mem_trace.mpr hpre) rfl
  have hresumes (l : Looper υ κ) : l.manager.waiting.resumes t =
      l.manager.log.countP (Note.isResume t) := resumes_waiting _ _
  have htrace := Runs.forall_mem_trace.mpr hmid
  -- both orders come to the same end
  have hend {n : ℕ} (hn : l₂.manager.waiting.resumes t = n)
      (hmet : Rendezvous.Met P.uuid t n input l₂.manager.waiting l₃.manager.waiting)
      (hpush : l₂.Pushes l₃ t input) (hn₁ : n = l₁.manager.waiting.resumes t) :
      l₂.Pushes l₃ t input ∧
        l₂.manager.log.countP (Note.isResume t) = l₁.manager.log.countP (Note.isResume t) ∧
        l₃.manager.log.countP (Note.isResume t) = l₁.manager.log.countP (Note.isResume t) + 1 ∧
        l₃.manager.postponedTasks (P.uuid t) = none ∧
        ∀ e ∈ l₃.manager.futurePostponeUuids.cont, e.2.1 ≠ P.uuid t := by
    refine ⟨hpush, ?_, ?_, hmet.postponed, fun e he => ?_⟩
    · rw [← hresumes, ← hresumes, hn, hn₁]
    · rw [← hresumes, ← hresumes, hmet.resumes, hn₁]
    · simpa using List.countP_eq_zero.mp hmet.callbacks e he
  rcases horder with ⟨h₁, h₂⟩ | ⟨h₁, hpost, hpostpone, h₂⟩
  · rw [h₁] at hw₁
    rw [h₂] at hw₃
    have hwaits : Rendezvous.Waits P.uuid P.httpConnectionTimeout t l₁.manager.now
        (l₁.manager.waiting.resumes t) (l₁.step P e₁).manager.waiting := by
      rw [hw₁]
      exact Rendezvous.waits_postpone hnone
    have hwaits₂ := hwaits.exec P.uuid_injective hsound htrace (by
      have htask := hkeeps.task
      have hnow : l₂.manager.now ≤ l₁.manager.now + P.httpConnectionTimeout := by omega
      rw [← hw₂]
      exact hnow)
    rw [← hw₂] at hwaits₂
    exact hend hwaits₂.resumes (by rw [hw₃]; exact hwaits₂.callback input)
      (Looper.pushes_of_callback h₂ hwaits₂.postponed) rfl
  · rw [h₁] at hw₁
    rw [h₂] at hw₃
    have hdelta : l₁.manager.futurePostponeUuids.delta = P.lifeTime := by
      have h : (Runs.exec (Rendezvous.step P.uuid P.httpConnectionTimeout) _
          _).futurePostponeUuids.delta = _ := Rendezvous.delta_exec (Looper.init P).manager.waiting
        (Runs.trace (Looper.step P) Looper.waitingEvent (Looper.init P) pre)
      rwa [← waiting_exec _ Conserved.init] at h
    have hlive : l₂.manager.now < l₁.manager.now + P.lifeTime :=
      htime.trans_le (Nat.add_le_add_left hkeeps.callback _)
    have hkept : Rendezvous.Kept P.uuid t (l₁.manager.now + P.lifeTime)
        (l₁.manager.waiting.resumes t) input (l₁.step P e₁).manager.waiting := by
      rw [hw₁, ← hdelta]
      exact Rendezvous.kept_callback hpost hnone
    have hkept₂ := hkept.exec P.uuid_injective hsound (fun a ha => ⟨htrace a ha, ?_⟩) (by
      rw [← hw₂]
      exact hlive)
    · rw [← hw₂] at hkept₂
      exact hend hkept₂.resumes (by rw [hw₃]; exact hkept₂.postpone hlive)
        (Looper.pushes_of_postpone h₂ (hkept₂.extract hlive).1) rfl
    · refine Runs.forall_mem_trace (Q := fun a => a ≠ .postpone t).mpr ?_ a ha
      refine hpostpone.mono fun l e hne a ha heq => hne ?_
      rw [ha, heq]

/-- A task that is postponed, and its callback with the body "answer" a microsecond later. -/
def meetingPre : List (Event ℕ Unit) :=
  requestRun ⟨false, false, true⟩ [.ok, .ok, .ok, .ok, .ok, .postpone]

def meetingMid : List (Event ℕ Unit) :=
  .tick 1000 :: .newClient ⟨false, false, true⟩ { body := "answer" } ::
    List.replicate 6 (.process (some ⟨.ok, none, {}, some 0⟩))

def meetingFirst : Looper ℕ Unit :=
  Runs.exec (Looper.step smallParams) (Looper.init smallParams) meetingPre

def meetingSecond : Looper ℕ Unit := Runs.exec (Looper.step smallParams)
  (meetingFirst.step smallParams (.process (some (.returns .ok)))) meetingMid

/-- No callback comes where none is observed. -/
theorem noCallback_of_trace {P : Params ℕ Unit} {l : Looper ℕ Unit} {es : List (Event ℕ Unit)}
    (u : ℕ) (h : ∀ a ∈ Runs.trace (Looper.step P) Looper.waitingEvent l es, ¬ a.IsCallback u) :
    Runs.Along (Looper.step P) (NoCallback u) l es :=
  Runs.forall_mem_trace.mp h

/-- Nothing is postponed before the first task. -/
theorem trace_meetingPre : Runs.trace (Looper.step smallParams) Looper.waitingEvent
    (Looper.init smallParams) meetingPre = [] := rfl

/-- Only time passes between the two. -/
theorem trace_meetingMid : Runs.trace (Looper.step smallParams) Looper.waitingEvent
    (meetingFirst.step smallParams (.process (some (.returns .ok)))) meetingMid
      = [.tick 1000] := rfl

/-- The first task is postponed. -/
theorem waitingEvent_meetingFirst :
    meetingFirst.waitingEvent (.process (some (.returns .ok))) = some (.postpone 0) := rfl

/-- The callback comes with the answer. -/
theorem waitingEvent_meetingSecond : meetingSecond.waitingEvent (.process (some (.returns .ok))) =
    some (.callback 0 { body := "answer" }) := rfl

/-- The callback comes a second later. -/
theorem now_meeting : meetingSecond.manager.now = 1000 ∧ meetingFirst.manager.now = 0 := ⟨rfl, rfl⟩

/-- The task is resumed with the answer. -/
theorem rendezvous_of_postpone :
    meetingSecond.Pushes (meetingSecond.step smallParams (.process (some (.returns .ok)))) 0
      { body := "answer" } := by
  refine (rendezvous (P := smallParams) (t := 0) (k := 1) ⟨by decide, by decide⟩
    (noCallback_of_trace _ (by rw [trace_meetingPre]; simp))
    (noCallback_of_trace (l := meetingFirst.step smallParams (.process (some (.returns .ok)))) _
      (by rw [trace_meetingMid]; simp [Rendezvous.Event.IsCallback]))
    (.inl ⟨waitingEvent_meetingFirst, waitingEvent_meetingSecond⟩) ?_).1
  show meetingSecond.manager.now < meetingFirst.manager.now + 1000000
  rw [now_meeting.1, now_meeting.2]
  decide

/-- A timeout of 1.001 seconds: the double nearest to it is a little less, and the callbacks are
kept for 1000 milliseconds. -/
def shortParams : Params ℕ Unit :=
  { smallParams with connectionTimeout := ⟨0x1004189374BC6A, -52, by decide⟩ }

example : 2 * (0x1004189374BC6A * 1000 - 1001 * 2 ^ 52 : ℤ).natAbs ≤ 1000 := by decide

/-- A job of a worker, and a callback for its task. -/
def missedPre : List (Event ℕ Unit) :=
  requestRun ⟨false, true, false⟩ [.ok, .ok, .ok, .ok, .ok] ++
    .newClient ⟨false, false, true⟩ { body := "answer" } ::
      List.replicate 6 (.process (some ⟨.ok, none, {}, some 0⟩))

/-- The worker returns `Postpone` 1000.5 milliseconds later. -/
def missedMid : List (Event ℕ Unit) :=
  [.tick 1000500000, .workerStart 0, .workerDone 0 (some (.returns .postpone)), .jobReady,
    .process (some (.returns .ok)), .process (some (.returns .ok))]

def missedFirst : Looper ℕ Unit :=
  Runs.exec (Looper.step shortParams) (Looper.init shortParams) missedPre

def missedSecond : Looper ℕ Unit := Runs.exec (Looper.step shortParams)
  (missedFirst.step shortParams (.process (some (.returns .ok)))) missedMid

/-- Nothing is postponed before the task. -/
theorem trace_missedPre : Runs.trace (Looper.step shortParams) Looper.waitingEvent
    (Looper.init shortParams) missedPre = [] := rfl

/-- Only time passes up to the callback. -/
theorem trace_missedMid : Runs.trace (Looper.step shortParams) Looper.waitingEvent
    (missedFirst.step shortParams (.process (some (.returns .ok)))) missedMid
      = [.tick 1000500000] := rfl

/-- **A callback is forgotten** within the timeout of 1001 milliseconds, and its task waits. -/
theorem rendezvous_missed :
    let e : Event ℕ Unit := .process (some (.returns .ok))
    Runs.Along (Looper.step shortParams) (NoCallback 0) (Looper.init shortParams) missedPre ∧
      Runs.Along (Looper.step shortParams) (NoCallback 0) (missedFirst.step shortParams e)
        missedMid ∧
      missedFirst.waitingEvent e = some (.callback 0 { body := "answer" }) ∧
      missedFirst.manager.postponedTasks 0 = none ∧
      Runs.Along (Looper.step shortParams) (fun l e => l.waitingEvent e ≠ some (.postpone 0))
        (missedFirst.step shortParams e) missedMid ∧
      missedSecond.waitingEvent e = some (.postpone 0) ∧
      missedSecond.manager.now < missedFirst.manager.now + 1001 * 1000000 ∧
      (missedSecond.step shortParams e).manager.readyToResume = [] ∧
      (missedSecond.step shortParams e).manager.postponedTasks 0 = some 0 := by
  refine ⟨noCallback_of_trace _ (by rw [trace_missedPre]; simp), noCallback_of_trace _ ?_, rfl, rfl,
    ?_, rfl, ?_, rfl, rfl⟩
  · rw [trace_missedMid]
    simp [Rendezvous.Event.IsCallback]
  · refine (Runs.forall_mem_trace (Q := fun a => a ≠ .postpone 0) |>.mp ?_).mono
      fun l e hne heq => hne _ heq rfl
    rw [trace_missedMid]
    simp
  · have hnow : missedSecond.manager.now = 1000500000 ∧ missedFirst.manager.now = 0 := ⟨rfl, rfl⟩
    rw [hnow.1, hnow.2]
    decide

end meeting

end TaskManager
