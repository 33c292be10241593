/-
# Exceptions in handlers

What happens when an exception leaves a handler: the catch blocks of `runPreAction`, `runPostAction`
and `runWorkerActionFromTheThreadPool` (`task.cpp`), `GraftJob::operator()` (`thread_pool.h`),
`WorkerT::threadFunc` (`worker.hpp`), `Looper::serve` and `main`.  A function that ends by an
exception is an `Except.error` with the state that it leaves.

* `State.caught`: the catch blocks set the error, and then throw again;
* `Looper.call`: a call of a handler, up to the loop or the thread function;
* `FailsAlone`: the exception is the answer of one task, and of no concern to the others;
* `throwing_handler`: no exception of a handler is so.
-/
import GraftSupernode.TaskRuns

open StateMachine

namespace TaskManager

/-- A handler returns, or an exception leaves it, with what it has written until then. -/
inductive Invocation (υ : Type*)
  | returns (o : Outcome υ)
  | throws (output : Output) (nextUuid : Option υ)

/-- What the handler returns. -/
def Invocation.outcome {υ : Type*} : Invocation υ → Option (Outcome υ)
  | .returns o => some o
  | .throws _ _ => none

/-- The same handler, if it returned `InternalError` in place of an exception. -/
def Invocation.returned {υ : Type*} : Invocation υ → Invocation υ
  | .returns o => .returns o
  | .throws output nextUuid => .returns ⟨.internalError, none, output, nextUuid⟩

/-- A handler is called: by a row of the state machine, or by the job of `t`. -/
inductive Call (υ : Type*)
  | row (i : Invocation υ)
  | job (t : ℕ) (i : Invocation υ)

namespace Call

variable {υ : Type*}

def invocation : Call υ → Invocation υ
  | .row i | .job _ i => i

def returned : Call υ → Call υ
  | .row i => .row i.returned
  | .job t i => .job t i.returned

/-- The event of the loop. -/
def event {κ : Type*} : Call υ → Event υ κ
  | .row i => .process i.outcome
  | .job t i => .workerDone t i.outcome

end Call

variable {υ κ : Type*} [LinearOrder υ]

namespace State

variable (P : Params υ κ) (m : State υ κ)

/-- The catch blocks: `setError`, `params.input.reset`; what follows is `throw`. -/
def caught (t : ℕ) : Invocation υ → State υ κ
  | .returns _ => m
  | .throws output nextUuid => (m.note (.handler t)).modify t fun bt =>
      { bt with
        status := .internalError
        output := output
        nextUuid := nextUuid
        input := { bt.input with toInOutHttpBase := {} } }

/-- An action of the state machine; two of them call a handler. -/
def performOrThrow [DecidableEq κ] (t : ℕ) (i : Invocation υ) (a : Action) :
    Except (State υ κ) (State υ κ) :=
  match m.perform P t i.outcome a with
  | some m => .ok m
  | none => .error (if a = .runPreaction ∨ a = .runPostaction then m.caught t i else m)

/-- `GraftJob::operator()`: after an exception the result is not pushed. -/
def graftJob (t : ℕ) (i : Invocation υ) : Except (State υ κ) (State υ κ) :=
  match m.workerDone t i.outcome with
  | some m => .ok m
  | none => .error (m.caught t i)

end State

namespace Looper

variable [DecidableEq κ] (P : Params υ κ) (l : Looper υ κ)

/-- One `StateMachine::process` of a dispatch, which catches nothing. -/
def processOrThrow (t : ℕ) (s : StateMachine.State) (after : After κ) (i : Invocation υ) :
    Except (Looper υ κ) (Looper υ κ) :=
  match StateMachine.process s (l.manager.task t).status (l.manager.task t).h3 with
  | none => .error l
  | some (a, target) =>
    match a.elim (.ok l.manager) (l.manager.performOrThrow P t i) with
    | .error m => .error { l with manager := m }
    | .ok m => .ok (if target = .exit then l.finish P m after else l.dispatch m t target after)

/-- A call of a handler, as the loop or `WorkerT::threadFunc` sees it; a call that cannot happen
changes nothing. -/
def call : Call υ → Except (Looper υ κ) (Looper υ κ)
  | .row i =>
    match l.phase with
    | .idle => .ok l
    | .dispatching t s after => l.processOrThrow P t s after i
  | .job t i =>
    if t ∈ l.manager.running then
      match l.manager.graftJob t i with
      | .error m => .error { l with manager := m }
      | .ok m => .ok { l with manager := m }
    else .ok l

/-- `WorkerT::threadFunc` throws again what it catches, `Looper::serve` does not catch, and what
`main` catches it throws again: the process ends. -/
def serve (c : Call υ) : Looper υ κ :=
  if l.terminated then l
  else
    match l.call P c with
    | .ok l => l
    | .error l => { l with terminated := true }

variable {P l}

theorem processOrThrow_spec (t : ℕ) (s : StateMachine.State) (after : After κ) (i : Invocation υ) :
    l.processOrThrow P t s after i = .ok (l.process P t s after i.outcome) ∨
      (∃ l', l.processOrThrow P t s after i = .error l') ∧
        l.process P t s after i.outcome = { l with terminated := true } := by
  unfold processOrThrow Looper.process
  rcases StateMachine.process s (l.manager.task t).status (l.manager.task t).h3 with
    _ | ⟨a, target⟩
  · exact .inr ⟨⟨l, rfl⟩, rfl⟩
  · cases a with
    | none => exact .inl rfl
    | some a =>
      simp only [Option.elim_some, State.performOrThrow]
      cases l.manager.perform P t i.outcome a with
      | none => exact .inr ⟨⟨_, rfl⟩, rfl⟩
      | some m => exact .inl rfl

/-- **The events of the loop** are these calls. -/
theorem call_spec (hlive : l.terminated = false) (c : Call υ) :
    l.call P c = .ok (l.step P c.event) ∨
      (∃ l', l.call P c = .error l') ∧ l.step P c.event = { l with terminated := true } := by
  unfold Looper.step
  rw [if_neg (by simp [hlive])]
  cases c with
  | row i =>
    have hprocess (t : ℕ) (s : StateMachine.State) (after : After κ) :=
      processOrThrow_spec (P := P) (l := l) t s after i
    generalize ({ l with terminated := true } : Looper υ κ) = ended at hprocess ⊢
    simp only [call, Call.event]
    cases l.phase with
    | idle => exact .inl rfl
    | dispatching t s after => exact hprocess t s after
  | job t i =>
    simp only [call, Call.event]
    by_cases ht : t ∈ l.manager.running
    · rw [if_pos ht, if_pos ht, State.graftJob]
      cases l.manager.workerDone t i.outcome with
      | none => exact .inr ⟨⟨_, rfl⟩, rfl⟩
      | some m => exact .inl rfl
    · rw [if_neg ht, if_neg ht]
      exact .inl rfl

variable (l)

/-- The call is one of a handler of `t`. -/
def Calls (t : ℕ) : Call υ → Prop
  | .row _ => ∃ s after a target, l.phase = .dispatching t s after ∧
      StateMachine.process s (l.manager.task t).status (l.manager.task t).h3
        = some (some a, target) ∧
      (a = .runPreaction ∧ (l.manager.task t).h3.preAction = true ∨
        a = .runPostaction ∧ (l.manager.task t).h3.postAction = true)
  | .job t' _ => t' = t ∧ t ∈ l.manager.running

/-- An exception leaves a handler of `t`. -/
def Throws (t : ℕ) (c : Call υ) : Prop :=
  l.terminated = false ∧ l.Calls t c ∧ c.invocation.outcome = none

end Looper

/-- The counters of the task manager. -/
def State.counters (m : State υ κ) : ℕ × ℕ × ℕ × ℕ :=
  (m.cntBaseTask, m.cntBaseTaskDone, m.cntJobSent, m.cntJobDone)

/-- **An exception is the failure of one task**: it does not come out, its client is answered with
`InternalError` and the task ends, and for the others and the counters the handler could have
returned `InternalError`. -/
structure FailsAlone [DecidableEq κ] (P : Params υ κ) (l : Looper υ κ) (t : ℕ) (c : Call υ) :
    Prop where
  contained : ∃ l', l.call P c = .ok l'
  answered : ∃ es, .clientDone t .internalError ∈
      (Runs.exec (Looper.step P) (l.serve P c) es).manager.log ∧
    ((Runs.exec (Looper.step P) (l.serve P c) es).manager.task t).self = false
  others : ∀ es, (∀ t' ≠ t, (Runs.exec (Looper.step P) (l.serve P c) es).manager.task t'
        = (Runs.exec (Looper.step P) (l.serve P c.returned) es).manager.task t') ∧
    (Runs.exec (Looper.step P) (l.serve P c) es).manager.counters
      = (Runs.exec (Looper.step P) (l.serve P c.returned) es).manager.counters

namespace Looper

variable [DecidableEq κ] {P : Params υ κ} {l : Looper υ κ} {t : ℕ} {c : Call υ}

/-- An action that calls a handler ends by its exception. -/
theorem perform_throws {m : State υ κ} {a : Action} (ha : a = .runPreaction ∧
    (m.task t).h3.preAction = true ∨ a = .runPostaction ∧ (m.task t).h3.postAction = true) :
    m.perform P t none a = none := by
  obtain ⟨rfl, hpre⟩ | ⟨rfl, hpost⟩ := ha
  · show m.runPreAction t none = none
    rw [State.runPreAction, if_pos hpre]
    rfl
  · show m.runPostAction t none = none
    rw [State.runPostAction, if_pos hpost]
    rfl

/-- **The exception comes out**, with the error set. -/
theorem Throws.call (h : l.Throws t c) :
    ∃ m, l.call P c = .error { l with manager := m } ∧ m = l.manager.caught t c.invocation := by
  obtain ⟨-, hcalls, hnone⟩ := h
  refine ⟨_, ?_, rfl⟩
  cases c with
  | row i =>
    obtain ⟨s, after, a, target, hphase, hrow, ha⟩ := hcalls
    have hnone : i.outcome = none := hnone
    have hact : a = .runPreaction ∨ a = .runPostaction := ha.imp And.left And.left
    simp only [Looper.call, hphase, processOrThrow, hrow, Option.elim_some, State.performOrThrow,
      hnone, perform_throws ha, if_pos hact]
    rfl
  | job t' i =>
    obtain ⟨rfl, ht⟩ := hcalls
    have hnone : i.outcome = none := hnone
    have hdone : l.manager.workerDone t' i.outcome = none := by
      rw [hnone]
      rfl
    simp only [Looper.call, if_pos ht, State.graftJob, hdone]
    rfl

/-- A process that has ended stays so. -/
theorem exec_terminated (hterm : l.terminated = true) (es : List (Event υ κ)) :
    Runs.exec (Looper.step P) l es = l := by
  induction es with
  | nil => rfl
  | cons e es ih =>
    have hstep : l.step P e = l := by
      unfold Looper.step
      rw [if_pos hterm]
    rw [Runs.exec_cons, hstep, ih]

omit [DecidableEq κ] in
/-- The task of the call has not ended. -/
theorem Throws.self [Fintype κ] (h : l.Throws t c) (hconserved : Conserved P l) :
    (l.manager.task t).self = true := by
  obtain ⟨-, hcalls, -⟩ := h
  cases c with
  | row i =>
    obtain ⟨s, after, a, target, hphase, hrow, -⟩ := hcalls
    exact (hconserved.hand_of_action hphase hrow).self_hand
  | job t' i =>
    obtain ⟨-, ht⟩ := hcalls
    have hcount : 0 < l.manager.jobs.count t := by
      rw [List.count_pos_iff, State.jobs]
      exact List.mem_append_left _ (List.mem_append_right _ ht)
    refine hconserved.placed.self_of_stored ?_
    rw [State.stored]
    omega

theorem Throws.serve (h : l.Throws t c) :
    l.serve P c = { l with manager := l.manager.caught t c.invocation, terminated := true } := by
  obtain ⟨m, hcall, rfl⟩ := h.call (P := P)
  rw [Looper.serve, h.1, hcall]
  rfl

end Looper

/-- What the catch blocks do to the task. -/
theorem State.caught_task {m : State υ κ} {t : ℕ} {i : Invocation υ} (hi : i.outcome = none) :
    ((m.caught t i).task t).status = .internalError ∧
      ((m.caught t i).task t).self = (m.task t).self ∧
      ∀ st, .clientDone t st ∈ (m.caught t i).log → .clientDone t st ∈ m.log := by
  cases i with
  | returns o => cases hi
  | throws output nextUuid =>
    rw [caught, modify_task_self]
    refine ⟨rfl, rfl, fun st hmem => ?_⟩
    exact (List.mem_cons.mp hmem).resolve_left (by simp)

/-- **An exception in a handler ends the process**: in every state that the loop comes to, whatever
handler of whatever client task throws.  The error is set, but the exception goes on to the loop, or
to the function of the thread, and out of it; nothing happens any more, and neither is the client
answered nor does its task end. -/
theorem throwing_handler [Fintype κ] [DecidableEq κ] {P : Params υ κ} (es : List (Event υ κ))
    (t : ℕ) (c : Call υ) :
    let l := Runs.exec (Looper.step P) (Looper.init P) es
    l.Throws t c → (l.manager.task t).kind = .client →
      (∃ m, l.call P c = .error { l with manager := m } ∧ (m.task t).status = .internalError) ∧
      (l.serve P c).terminated = true ∧
      (∀ es', let l' := Runs.exec (Looper.step P) (l.serve P c) es'
        (∀ st, .clientDone t st ∉ l'.manager.log) ∧ (l'.manager.task t).self = true) ∧
      ¬ FailsAlone P l t c := by
  intro l hthrows hkind
  have hconserved : Conserved P l := .exec es
  have hself := hthrows.self hconserved
  have hdone := hconserved.books.done t hkind
  rw [hself, Bool.toNat_true] at hdone
  obtain ⟨hstatus, hcaught, hlog⟩ := State.caught_task (m := l.manager) (t := t) hthrows.2.2
  obtain ⟨m, hcall, rfl⟩ := hthrows.call (P := P)
  have hserve := hthrows.serve (P := P)
  refine ⟨⟨_, hcall, hstatus⟩, by rw [hserve], fun es' => ?_, fun hfails => ?_⟩
  · rw [Looper.exec_terminated (by rw [hserve]), hserve]
    refine ⟨fun st hmem => ?_, hcaught.trans hself⟩
    have hzero : l.manager.log.countP (Note.isClientDone t) = 0 := by omega
    have hnot := List.countP_eq_zero.mp hzero _ (hlog st hmem)
    exact hnot (decide_eq_true rfl)
  · obtain ⟨l', hok⟩ := hfails.contained
    rw [hcall] at hok
    cases hok

/-! ## A pre-action that throws -/

/-- A client's request, up to its pre-action. -/
def newRequest : List (Event ℕ Unit) := requestRun ⟨true, false, false⟩ [.ok]

theorem newRequest_throws :
    (Runs.exec (Looper.step smallParams) (Looper.init smallParams) newRequest).Throws 0
      (.row (.throws {} none)) :=
  ⟨rfl, ⟨_, _, _, _, rfl, rfl, .inl ⟨rfl, rfl⟩⟩, rfl⟩

/-- The client is not answered. -/
theorem newRequest_not_answered :
    let l := Runs.exec (Looper.step smallParams) (Looper.init smallParams) newRequest
    (l.serve smallParams (.row (.throws {} none))).terminated = true := by
  exact (throwing_handler (P := smallParams) newRequest 0 _ newRequest_throws rfl).2.1

/-- **A pre-action throws**, and this is not the failure of its task alone. -/
theorem exception_escapes :
    let l := Runs.exec (Looper.step smallParams) (Looper.init smallParams) newRequest
    (l.manager.task 0).kind = .client ∧ l.Throws 0 (.row (.throws {} none)) ∧
      ¬ FailsAlone smallParams l 0 (.row (.throws {} none)) := by
  intro l
  have hkind : (l.manager.task 0).kind = .client := rfl
  have hthrows : l.Throws 0 (.row (.throws {} none)) := newRequest_throws
  clear_value l
  refine ⟨hkind, hthrows, fun hfails => ?_⟩
  obtain ⟨l', hok⟩ := hfails.contained
  obtain ⟨m, hcall, -⟩ := hthrows.call (P := smallParams)
  rw [hcall] at hok
  cases hok

end TaskManager
