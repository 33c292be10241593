/-
# The task manager

`TaskManager` (`task.h`, `task.cpp`), with what `ConnectionManager::respond` does for it and with
the thread pool and the upstream requests as it sees them.  Tasks are numbered in the order in
which they are created; the fields of a task are in `Task`.

* `State`: the members of `TaskManager`, the tasks, the clock, and a log of what can be seen from
  outside (`Note`, latest first);
* `State.respondAndDie`, …: the member functions, under their names.  `none` is an exception;
* `State.perform`: the actions of the state machine.

Assertions are not part of the model.  Times are nanoseconds of `steady_clock`; the connection
timeout is a double, of seconds, and the constructor and `postponeTask` convert it each in its own
way.
-/
import GraftSupernode.Binary64
import GraftSupernode.ExpiringList
import GraftSupernode.InOut
import GraftSupernode.PriorityQueue
import GraftSupernode.StateMachine
import GraftSupernode.ThreadPool
import GraftSupernode.UpstreamManager
import Mathlib.Data.Finset.Card
import Mathlib.Data.Prod.Lex

open StateMachine

namespace TaskManager

/-- `ClientTask` or `PeriodicTask` -/
inductive Kind
  | client
  | periodic
  deriving DecidableEq, Repr

/-- `BaseTask`: `status`, `nextUuid` are in its context; `client` says that `m_client` is not
null, `self` that the task still holds itself. -/
structure Task (υ : Type*) where
  kind : Kind
  h3 : Handler3
  status : Status
  input : Input
  output : Output
  nextUuid : Option υ
  client : Bool
  self : Bool

/-- `ClientTask::ClientTask` -/
def Task.newClient {υ : Type*} (h3 : Handler3) (input : Input) : Task υ :=
  ⟨.client, h3, .none, input, {}, none, true, true⟩

/-- `PeriodicTask::PeriodicTask` -/
def Task.newPeriodic {υ : Type*} (h3 : Handler3) : Task υ :=
  ⟨.periodic, h3, .none, {}, {}, none, false, true⟩

/-- What stands for a task that has not been created. -/
def Task.absent {υ : Type*} : Task υ :=
  ⟨.periodic, ⟨false, false, false⟩, .none, {}, {}, none, false, false⟩

/-- A task after `respondAndDie`: a client task has no client, and holds itself no longer if it
dies; a periodic task stays unless it has stopped. -/
def Task.answered {υ : Type*} (bt : Task υ) (die : Bool) : Task υ :=
  match bt.kind with
  | .client => { bt with client := false, self := bt.self && !die }
  | .periodic => { bt with self := bt.self && !(die && bt.status = .stop) }

/-- The answer leaves the kind of a task. -/
@[simp] theorem Task.answered_kind {υ : Type*} (bt : Task υ) (die : Bool) :
    (bt.answered die).kind = bt.kind := by
  unfold answered
  split <;> simp [*]

/-- The answer leaves the handlers of a task. -/
@[simp] theorem Task.answered_h3 {υ : Type*} (bt : Task υ) (die : Bool) :
    (bt.answered die).h3 = bt.h3 := by
  unfold answered
  split <;> rfl

/-- The answer leaves the status of a task. -/
@[simp] theorem Task.answered_status {υ : Type*} (bt : Task υ) (die : Bool) :
    (bt.answered die).status = bt.status := by
  unfold answered
  split <;> rfl

/-- The answer leaves the input of a task. -/
@[simp] theorem Task.answered_input {υ : Type*} (bt : Task υ) (die : Bool) :
    (bt.answered die).input = bt.input := by
  unfold answered
  split <;> rfl

/-- The answer leaves the output of a task. -/
@[simp] theorem Task.answered_output {υ : Type*} (bt : Task υ) (die : Bool) :
    (bt.answered die).output = bt.output := by
  unfold answered
  split <;> rfl

/-- A client task that has been answered has no client. -/
theorem Task.answered_client {υ : Type*} (bt : Task υ) (die : Bool) :
    (bt.answered die).client = (bt.client && bt.kind = .periodic) := by
  unfold answered
  split <;> simp [*]

/-- A task that dies holds itself no longer, unless it is a periodic one that goes on. -/
theorem Task.answered_self {υ : Type*} (bt : Task υ) (die : Bool) :
    (bt.answered die).self = (bt.self && !(die && (bt.kind = .client || bt.status = .stop))) := by
  unfold answered
  split <;> simp [*]

/-- What is sent upstream: a task, or an `UpstreamTask` with its promise and the output that was
given for it.  Its own `m_output` stays empty. -/
inductive SentTask
  | base (t : ℕ)
  | upstream (promise : ℕ) (output : Output)

/-- What can be seen of the task manager. -/
inductive Note
  /-- An HTTP response to the client of the task. -/
  | respond (t : ℕ) (code : ℕ) (body : String)
  /-- `onClientDone`, with the status of the task. -/
  | clientDone (t : ℕ) (status : Status)
  /-- A handler of the task has run. -/
  | handler (t : ℕ)
  /-- The task is put into `m_postponedTasks`. -/
  | postpone (t : ℕ) (time : ℕ)
  /-- The task is pushed to `m_readyToResume`. -/
  | resume (t : ℕ) (input : Input)
  /-- `executePostponedTasks` answers the task with the timeout error. -/
  | expire (t : ℕ) (time : ℕ)
  /-- The promise of an `UpstreamTask` is fulfilled; `none` is an exception. -/
  | promise (n : ℕ) (reply : Option Input)

/-- What the task manager is configured with.  `uuid` gives the random id of each task: the
generator never gives an id twice.  `connectionTimeout` is `http_connection_timeout`, in seconds.
The pool has a queue of `queueSize` cells for each thread, as `initThreadPool` makes it of the
configuration. -/
structure Params (υ κ : Type*) where
  uuid : ℕ → υ
  uuid_injective : Function.Injective uuid
  upstream : UpstreamConfig κ
  connectionTimeout : Binary64
  threadCount : ℕ
  queueSize : ℕ
  inputSize_le : threadCount * queueSize ≤ 2 ^ 63

/-- `m_threadPoolInputSize` -/
def Params.threadPoolInputSize {υ κ : Type*} (P : Params υ κ) : ℕ := P.threadCount * P.queueSize

/-- The size of `m_resQueue`. -/
def Params.resQueueSize {υ κ : Type*} (P : Params υ κ) : ℕ := nextPow2 P.threadPoolInputSize

/-- `TaskManager`.  A job of the pool waits in `threadPool`, is being run (`running`), or is
done and waits in `resQueue`. -/
structure State (υ κ : Type*) [LinearOrder υ] where
  now : ℕ
  created : ℕ
  task : ℕ → Task υ
  cntBaseTask : ℕ
  cntBaseTaskDone : ℕ
  cntJobSent : ℕ
  cntJobDone : ℕ
  threadPool : ThreadPool ℕ
  running : List ℕ
  resQueue : BoundedQueue ℕ
  timerList : List ℕ
  postponedTasks : υ → Option ℕ
  readyToResume : List ℕ
  expireTaskQueue : PriorityQueue (ℕ ×ₗ υ)
  futurePostponeUuids : ExpiringList (υ × Input)
  upstreamManager : UpstreamManager SentTask κ
  log : List Note

/-- What a handler does: the status that it returns, the status that it leaves by `setError`, the
output, and the next task's id. -/
structure Outcome (υ : Type*) where
  status : Status
  error : Option Status
  output : Output
  nextUuid : Option υ

/-- The code of a response, `ConnectionManager::respond`. -/
def httpCode : Status → ℕ
  | .again | .ok => 200
  | .internalError | .error => 500
  | .busy => 503
  | .drop => 400
  | .none | .forward | .postpone | .stop => 0

variable {υ κ : Type*} [LinearOrder υ]

/-- The `duration_cast` of `http_connection_timeout` to the nanoseconds of the clock. -/
def Params.httpConnectionTimeout (P : Params υ κ) : ℕ :=
  (P.connectionTimeout.mulNat 1000000000).trunc

/-- `ExpiringList(1000 * http_connection_timeout)`: the argument is an `int`, of milliseconds.  The
conversion of a double that does not fit is undefined; as compiled it gives a negative life time,
and nothing is found again. -/
def Params.lifeTime (P : Params υ κ) : ℕ :=
  if (P.connectionTimeout.mulNat 1000).trunc < 2 ^ 31 then
    (P.connectionTimeout.mulNat 1000).trunc * 1000000
  else 0

/-- `TaskManager::TaskManager` -/
def State.init (P : Params υ κ) : State υ κ where
  now := 0
  created := 0
  task _ := .absent
  cntBaseTask := 0
  cntBaseTaskDone := 0
  cntJobSent := 0
  cntJobDone := 0
  threadPool := .init P.threadCount P.queueSize
  running := []
  resQueue := .empty P.resQueueSize
  timerList := []
  postponedTasks _ := none
  readyToResume := []
  expireTaskQueue := .empty
  futurePostponeUuids := ⟨P.lifeTime, []⟩
  upstreamManager := .init P.upstream
  log := []

namespace State

variable (P : Params υ κ) (m : State υ κ)

/-- The task `t` is changed. -/
def modify (t : ℕ) (f : Task υ → Task υ) : State υ κ :=
  { m with task := Function.update m.task t (f (m.task t)) }

/-- The task is modified. -/
@[simp] theorem modify_task_self (t : ℕ) (f : Task υ → Task υ) :
    (m.modify t f).task t = f (m.task t) := Function.update_self ..

/-- The other tasks stay. -/
theorem modify_task_of_ne {t t' : ℕ} (h : t' ≠ t) (f : Task υ → Task υ) :
    (m.modify t f).task t' = m.task t' := Function.update_of_ne h _ _

/-- Something is seen. -/
def note (n : Note) : State υ κ := { m with log := n :: m.log }

/-- `BaseTask::setLastStatus`; `setError` sets the status too. -/
def setLastStatus (t : ℕ) (status : Status) : State υ κ :=
  m.modify t fun bt => { bt with status := status }

/-- `BaseTask::releaseItself` -/
def releaseItself (t : ℕ) : State υ κ := m.modify t fun bt => { bt with self := false }

/-! ## The end of a task -/

/-- `TaskManager::onClientDone` -/
def onClientDone (t : ℕ) : State υ κ :=
  { m.note (.clientDone t (m.task t).status) with cntBaseTaskDone := m.cntBaseTaskDone + 1 }

/-- The end of `ConnectionManager::respond`: the task is not done when it says `Again`. -/
def reportDone (t : ℕ) : State υ κ :=
  if (m.task t).status ≠ .again then m.onClientDone t else m

/-- `ConnectionManager::respond`: the client may have closed the connection already. -/
def respond (t : ℕ) (body : String) : State υ κ :=
  if (m.task t).client then
    ((m.note (.respond t (httpCode (m.task t).status) body)).reportDone t).modify t fun bt =>
      { bt with client := false }
  else m.reportDone t

/-- `TaskManager::schedule` -/
def schedule (t : ℕ) : State υ κ := { m with timerList := t :: m.timerList }

/-- `ClientTask::finalize` and `PeriodicTask::finalize` -/
def finalize (t : ℕ) : State υ κ :=
  match (m.task t).kind with
  | .client => m.releaseItself t
  | .periodic => if (m.task t).status = .stop then m.releaseItself t else m.schedule t

/-- `m_postponedTasks.erase` -/
def erasePostponed (u : υ) : State υ κ :=
  { m with postponedTasks := Function.update m.postponedTasks u none }

/-- `TaskManager::respondAndDie` -/
def respondAndDie (t : ℕ) (body : String) (die : Bool) : State υ κ :=
  let m := match (m.task t).kind with
    | .client => m.respond t body
    | .periodic => m
  let m := m.erasePostponed (P.uuid t)
  if die then m.finalize t else m

/-- What `respondAndDie` shows: whether the task is done, and, if its client is there, the
response. -/
def replies (t : ℕ) (body : String) : List Note :=
  match (m.task t).kind with
  | .client =>
    (if (m.task t).status ≠ .again then [.clientDone t (m.task t).status] else []) ++
      if (m.task t).client then [.respond t (httpCode (m.task t).status) body] else []
  | .periodic => []

/-- **What `respondAndDie` does**. -/
theorem respondAndDie_eq (t : ℕ) (body : String) (die : Bool) :
    m.respondAndDie P t body die =
      { m with
        task := Function.update m.task t ((m.task t).answered die)
        cntBaseTaskDone := m.cntBaseTaskDone +
          if (m.task t).kind = .client ∧ (m.task t).status ≠ .again then 1 else 0
        timerList := if die ∧ (m.task t).kind = .periodic ∧ (m.task t).status ≠ .stop
          then t :: m.timerList else m.timerList
        postponedTasks := Function.update m.postponedTasks (P.uuid t) none
        log := m.replies t body ++ m.log } := by
  have hsame := Function.update_eq_self t m.task
  rcases hbt : m.task t with ⟨kind, h3, status, input, output, nextUuid, client, self⟩
  rw [hbt] at hsame
  cases kind with
  | client =>
    by_cases hagain : status = .again <;> cases client <;> cases die <;>
      simp [respondAndDie, respond, reportDone, finalize, replies, Task.answered, hbt, hagain,
        modify, note, onClientDone, erasePostponed, releaseItself, hsame]
  | periodic =>
    by_cases hstop : status = .stop <;> cases die <;>
      simp [respondAndDie, finalize, replies, Task.answered, hbt, hstop, modify, schedule,
        erasePostponed, releaseItself, hsame]

/-- Only the task that is answered changes. -/
theorem respondAndDie_task (t : ℕ) (body : String) (die : Bool) (t' : ℕ) :
    (m.respondAndDie P t body die).task t' =
      if t' = t then (m.task t).answered die else m.task t' := by
  rw [respondAndDie_eq]
  exact Function.update_apply ..

/-! ## The handlers -/

/-- `TaskManager::checkThreadPoolOverflow` -/
def checkThreadPoolOverflow (t : ℕ) : State υ κ :=
  if (m.task t).h3.workerAction ∧ m.cntJobSent - m.cntJobDone = P.threadPoolInputSize then
    (m.setLastStatus t .busy).respondAndDie P t "Thread pool overflow" true
  else m

/-- `TaskManager::runPreAction`; a handler that throws has no outcome. -/
def runPreAction (t : ℕ) (o : Option (Outcome υ)) : Option (State υ κ) :=
  if (m.task t).h3.preAction then
    o.map fun o => (m.note (.handler t)).modify t fun bt =>
      { bt with
        status := o.status
        output := o.output
        nextUuid := o.nextUuid
        input := if o.status = .ok ∧ (bt.h3.workerAction || bt.h3.postAction) ∨ o.status = .forward
          then bt.input.assign o.output else bt.input }
  else some m

/-- `TaskManager::runWorkerAction` -/
def runWorkerAction (t : ℕ) : Option (State υ κ) :=
  if (m.task t).h3.workerAction then
    (m.threadPool.post t).map fun pool =>
      { m with cntJobSent := m.cntJobSent + 1, threadPool := pool }
  else some m

/-- `TaskManager::runWorkerActionFromTheThreadPool` -/
def runWorkerActionFromTheThreadPool (t : ℕ) (o : Option (Outcome υ)) : Option (State υ κ) :=
  o.map fun o => (m.note (.handler t)).modify t fun bt =>
    { bt with
      status := o.status
      output := o.output
      nextUuid := o.nextUuid
      input := if o.status = .ok ∧ bt.h3.postAction ∨ o.status = .forward
        then bt.input.assign o.output else bt.input }

/-- `TaskManager::runPostAction`: what it returns is ignored when the request is forwarded. -/
def runPostAction (t : ℕ) (o : Option (Outcome υ)) : Option (State υ κ) :=
  if (m.task t).h3.postAction then
    o.map fun o => (m.note (.handler t)).modify t fun bt =>
      let bt := { bt with
        output := o.output, nextUuid := o.nextUuid, status := o.error.getD bt.status }
      if bt.status = .forward then bt
      else
        { bt with
          status := o.status
          input := if o.status = .forward then bt.input.assign o.output else bt.input }
  else some m

/-- Whatever it writes to a task, the task stays what it is. -/
structure KeepsTask (f : Task υ → Task υ) : Prop where
  kind : ∀ bt, (f bt).kind = bt.kind
  h3 : ∀ bt, (f bt).h3 = bt.h3
  client : ∀ bt, (f bt).client = bt.client
  self : ∀ bt, (f bt).self = bt.self

/-- A handler that is called in the loop leaves a note, and its outcome in its task. -/
inductive Handled (m : State υ κ) (t : ℕ) : State υ κ → Prop
  | rest : Handled m t m
  | called (f : Task υ → Task υ) (hf : KeepsTask f) :
      Handled m t ((m.note (.handler t)).modify t f)

/-- `runPreAction` calls the handler if there is one. -/
theorem handled_runPreAction {m m' : State υ κ} {t : ℕ} {o : Option (Outcome υ)}
    (hm : m.runPreAction t o = some m') : m.Handled t m' := by
  unfold runPreAction at hm
  split at hm
  · obtain ⟨o, -, rfl⟩ := Option.map_eq_some_iff.mp hm
    apply Handled.called
    constructor <;> intro bt <;> rfl
  · cases hm
    exact .rest

/-- `runPostAction` calls the handler if there is one. -/
theorem handled_runPostAction {m m' : State υ κ} {t : ℕ} {o : Option (Outcome υ)}
    (hm : m.runPostAction t o = some m') : m.Handled t m' := by
  unfold runPostAction at hm
  split at hm
  · obtain ⟨o, -, rfl⟩ := Option.map_eq_some_iff.mp hm
    apply Handled.called
    constructor <;> intro bt <;> dsimp only <;> split <;> rfl
  · cases hm
    exact .rest

/-- A job is sent to the pool, if the handler has one. -/
theorem runWorkerAction_cases {m m' : State υ κ} {t : ℕ} (hm : m.runWorkerAction t = some m') :
    (m.task t).h3.workerAction = true ∧ (∃ pool, m.threadPool.post t = some pool ∧
        m' = { m with cntJobSent := m.cntJobSent + 1, threadPool := pool }) ∨
      (m.task t).h3.workerAction = false ∧ m' = m := by
  unfold runWorkerAction at hm
  split at hm
  · rename_i hworker
    obtain ⟨pool, hpost, rfl⟩ := Option.map_eq_some_iff.mp hm
    exact .inl ⟨hworker, pool, hpost, rfl⟩
  · rename_i hworker
    cases hm
    exact .inr ⟨(Bool.not_eq_true _).mp hworker, rfl⟩

/-! ## Postponed tasks -/

/-- A task is pushed to `m_readyToResume`, with the input that it has been waiting for. -/
def resumeTask (t : ℕ) (input : Input) : State υ κ :=
  let m := (m.note (.resume t input)).modify t fun bt => { bt with input := input }
  { m with readyToResume := m.readyToResume ++ [t] }

/-- `TaskManager::postponeTask` -/
def postponeTask (t : ℕ) : State υ κ :=
  let uuid := P.uuid t
  let (res, future) := m.futurePostponeUuids.extract m.now fun e => e.1 = uuid
  let m := { m with futurePostponeUuids := future }
  match res with
  | some e => m.resumeTask t e.2
  | none =>
    { m.note (.postpone t m.now) with
      postponedTasks := Function.update m.postponedTasks uuid (some t)
      expireTaskQueue := m.expireTaskQueue.push (toLex (m.now + P.httpConnectionTimeout, uuid)) }

/-- What `executePostponedTasks` does with a task that has expired. -/
def expireTask (t : ℕ) : State υ κ :=
  ((m.note (.expire t m.now)).setLastStatus t .error).respondAndDie P t
    "Postpone task response timeout" true

/-- The second loop of `TaskManager::executePostponedTasks`, for `fuel` rounds. -/
def expireTasks : ℕ → State υ κ → State υ κ
  | 0, m => m
  | fuel + 1, m =>
    match m.expireTaskQueue.top with
    | none => m
    | some e =>
      if m.now ≤ (ofLex e).1 then m
      else
        let m := match m.postponedTasks (ofLex e).2 with
          | some t => m.expireTask P t
          | none => m
        expireTasks fuel { m with expireTaskQueue := m.expireTaskQueue.pop }

/-- What is kept when a postponed task expires, and when an entry of the queue is dropped, is kept
by the whole loop. -/
theorem expireTasks_invariant {I : State υ κ → Prop}
    (hexpire : ∀ m u t, I m → m.postponedTasks u = some t → I (m.expireTask P t))
    (hpop : ∀ m q, I m → I { m with expireTaskQueue := q }) (fuel : ℕ) {m : State υ κ} (h : I m) :
    I (m.expireTasks P fuel) := by
  induction fuel generalizing m with
  | zero => exact h
  | succ fuel ih =>
    unfold expireTasks
    split
    · exact h
    · split
      · exact h
      · refine ih (hpop _ _ ?_)
        split
        · exact hexpire m _ _ h (by assumption)
        · exact h

/-- `TaskManager::processOk`, for the next task: if it is postponed, it is resumed with the input
of this one; else the input is kept for it. -/
def resumeNext (t : ℕ) : State υ κ :=
  let input := (m.task t).input
  match (m.task t).nextUuid with
  | none => m
  | some nextUuid =>
    match m.postponedTasks nextUuid with
    | none => { m with futurePostponeUuids := m.futurePostponeUuids.add m.now (nextUuid, input) }
    | some next => (m.resumeTask next input).erasePostponed nextUuid

/-- `TaskManager::processOk` -/
def processOk (t : ℕ) : State υ κ :=
  (m.resumeNext t).respondAndDie P t (m.task t).output.data true

/-- The reply becomes the input of the task that is resumed, and of no other. -/
theorem resumeTask_task (t : ℕ) (input : Input) (t' : ℕ) :
    (m.resumeTask t input).task t' =
      if t' = t then { m.task t with input := input } else m.task t' :=
  Function.update_apply ..

/-- Only the input of the next task changes. -/
theorem resumeNext_task (t t' : ℕ) :
    ∃ input, (m.resumeNext t).task t' = { m.task t' with input := input } := by
  unfold resumeNext
  dsimp only
  split
  · exact ⟨_, rfl⟩
  · split
    · exact ⟨_, rfl⟩
    · rename_i next _
      by_cases ht : t' = next
      · subst ht
        exact ⟨_, (m.resumeTask_task t' _ t').trans (if_pos rfl)⟩
      · exact ⟨_, (m.resumeTask_task next _ t').trans (if_neg ht)⟩

/-! ## Upstream requests -/

section upstream

variable [DecidableEq κ]

/-- `bt->getOutput().uri` -/
def uri : SentTask → String
  | .base t => (m.task t).output.uri
  | .upstream _ _ => ({} : Output).uri

/-- `TaskManager::sendUpstream` -/
def sendUpstream (bt : SentTask) : Option (State υ κ) :=
  (m.upstreamManager.send P.upstream bt (m.uri bt)).map fun um => { m with upstreamManager := um }

/-- `TaskManager::processForward` -/
def processForward (t : ℕ) : Option (State υ κ) := m.sendUpstream P (.base t)

/-- The actions of the state machine, for the task `t`.  `o` is the outcome of its handler, if
the action calls one. -/
def perform (t : ℕ) (o : Option (Outcome υ)) : Action → Option (State υ κ)
  | .checkOverflow => some (m.checkThreadPoolOverflow P t)
  | .runPreaction => m.runPreAction t o
  | .runWorkeraction => m.runWorkerAction t
  | .runPostaction => m.runPostAction t o
  | .runResponse => some (m.respondAndDie P t (m.task t).output.data false)
  | .runErrorResponse => some (m.respondAndDie P t (m.task t).output.data true)
  | .runDrop => some (m.respondAndDie P t "Job done Drop." true)
  | .runForward => m.processForward P t
  | .runOkResponse => some (m.processOk P t)
  | .runPostpone => some (m.postponeTask P t)

/-- **What an action does**, in each case. -/
inductive Performed (m : State υ κ) (t : ℕ) : Action → State υ κ → Prop
  | rest (a : Action) : Performed m t a m
  | overflow : Performed m t .checkOverflow
      ((m.setLastStatus t .busy).respondAndDie P t "Thread pool overflow" true)
  | called {a : Action} (ha : a = .runPreaction ∨ a = .runPostaction) (f : Task υ → Task υ)
      (hf : KeepsTask f) : Performed m t a ((m.note (.handler t)).modify t f)
  | posted (pool : ThreadPool ℕ) (hpost : m.threadPool.post t = some pool) :
      Performed m t .runWorkeraction
        { m with cntJobSent := m.cntJobSent + 1, threadPool := pool }
  | sent (um : UpstreamManager SentTask κ)
      (hsend : m.upstreamManager.send P.upstream (.base t) (m.uri (.base t)) = some um) :
      Performed m t .runForward { m with upstreamManager := um }
  | answered {a : Action} (ha : a = .runResponse ∨ a = .runErrorResponse ∨ a = .runDrop)
      (body : String) (die : Bool) : Performed m t a (m.respondAndDie P t body die)
  | ok : Performed m t .runOkResponse (m.processOk P t)
  | postponed : Performed m t .runPostpone (m.postponeTask P t)

/-- An action does what `Performed` says in its case. -/
theorem performed {m m' : State υ κ} {t : ℕ} {o : Option (Outcome υ)} {a : Action}
    (hm : m.perform P t o a = some m') : m.Performed P t a m' := by
  cases a with
  | checkOverflow =>
    cases hm
    unfold checkThreadPoolOverflow
    split
    · exact .overflow
    · exact .rest _
  | runPreaction =>
    cases handled_runPreAction hm with
    | rest => exact .rest _
    | called f hf => exact .called (.inl rfl) f hf
  | runPostaction =>
    cases handled_runPostAction hm with
    | rest => exact .rest _
    | called f hf => exact .called (.inr rfl) f hf
  | runWorkeraction =>
    obtain ⟨-, pool, hpost, rfl⟩ | ⟨-, rfl⟩ := runWorkerAction_cases hm
    · exact .posted pool hpost
    · exact .rest _
  | runForward =>
    obtain ⟨um, hsend, rfl⟩ := Option.map_eq_some_iff.mp hm
    exact .sent um hsend
  | runResponse | runErrorResponse | runDrop =>
    cases hm
    exact .answered (by simp) _ _
  | runOkResponse =>
    cases hm
    exact .ok
  | runPostpone =>
    cases hm
    exact .postponed

end upstream

end State

end TaskManager
