/-
# The event loop

`Looper::serve` and the callbacks that drive the task manager (`connection.cpp`, `task.cpp`).
The IO thread handles one event at a time; within it a dispatch of the state machine goes on step
by step (`Phase.dispatching`), while the workers of the pool run their jobs and the clock goes on.

* `Event`: what the loop does, in any order; what a handler does is part of the event;
* `step`: an event that is not possible changes nothing;
* `terminated`: an exception has left a handler or the state machine; it ends the process.

The timers and `mg_mgr_poll` come in any order here, and a timer may fire at any time.
-/
import GraftSupernode.Runs
import GraftSupernode.TaskManager

open StateMachine

namespace TaskManager

/-- What is left to do when a dispatch returns. -/
inductive After (κ : Type*)
  | done
  | next (sender : UpstreamSender SentTask κ) (client : Option ℕ)

/-- What the IO thread is doing. -/
inductive Phase (κ : Type*)
  | idle
  | dispatching (t : ℕ) (s : StateMachine.State) (after : After κ)

/-- `Looper` -/
structure Looper (υ κ : Type*) [LinearOrder υ] where
  manager : State υ κ
  phase : Phase κ
  terminated : Bool

/-- What happens.  `upstreamReply` is the reply to the `i`-th request in flight; without an
input it is an error. -/
inductive Event (υ κ : Type*)
  | tick (d : ℕ)
  | newClient (h3 : Handler3) (input : Input)
  | closeClient (t : ℕ)
  | addPeriodicTask (h3 : Handler3)
  | timer (t : ℕ)
  | checkUpstreamBlocking (promise : ℕ) (output : Output)
  | workerStart (i : ℕ)
  | workerDone (t : ℕ) (o : Option (Outcome υ))
  | jobReady
  | upstreamReply (i : ℕ) (reply : Option Input)
  | closeIdle (k : κ) (client : ℕ)
  | resume
  | expire
  | process (o : Option (Outcome υ))

variable {υ κ : Type*} [LinearOrder υ]

namespace State

variable (P : Params υ κ) (m : State υ κ)

/-- A task is created. -/
def create (bt : Task υ) : State υ κ :=
  { m with created := m.created + 1, task := Function.update m.task m.created bt }

/-- The task that is created comes next. -/
@[simp] theorem create_task_self (bt : Task υ) : (m.create bt).task m.created = bt :=
  Function.update_self ..

/-- The tasks that are there stay. -/
theorem create_task_of_ne (bt : Task υ) {t : ℕ} (h : t ≠ m.created) :
    (m.create bt).task t = m.task t := Function.update_of_ne h _ _

/-- `TaskManager::onNewClient`, before the dispatch. -/
def onNewClient (h3 : Handler3) (input : Input) : State υ κ :=
  { m.create (.newClient h3 input) with cntBaseTask := m.cntBaseTask + 1 }

/-- `ConnectionManager::ev_handler`, `MG_EV_CLOSE` -/
def closeClient (t : ℕ) : State υ κ := m.modify t fun bt => { bt with client := false }

/-- `TaskManager::addPeriodicTask` -/
def addPeriodicTask (h3 : Handler3) : State υ κ := (m.create (.newPeriodic h3)).schedule m.created

/-- The timer of `t` fires; `TaskManager::onTimer` before the dispatch. -/
def onTimer (t : ℕ) : State υ κ :=
  { m with timerList := m.timerList.erase t }.setLastStatus t .none

/-- The worker `i` takes a job, if it finds one. -/
def workerStart (i : ℕ) : State υ κ :=
  match m.threadPool.take i with
  | none => m
  | some (t, pool) => { m with threadPool := pool, running := t :: m.running }

/-- `GraftJob::operator()`: a result for which the queue has no room is dropped. -/
def workerDone (t : ℕ) (o : Option (Outcome υ)) : Option (State υ κ) :=
  (m.runWorkerActionFromTheThreadPool t o).map fun m =>
    let m := { m with running := m.running.erase t }
    match m.resQueue.push t with
    | some resQueue => { m with resQueue := resQueue }
    | none => m

/-- The reply of `UpstreamSender` is the input of the task. -/
def setReply (bt : SentTask) (input : Input) : State υ κ :=
  match bt with
  | .base t => m.modify t fun bt => { bt with input := input }
  | .upstream _ _ => m

variable [DecidableEq κ]

/-- The rest of `UpstreamManager::onDone`. -/
def nextUpstream (s : UpstreamSender SentTask κ) (client : Option ℕ) : State υ κ :=
  { m with
    upstreamManager := m.upstreamManager.next P.upstream m.uri s.conn s.connectionId client }

end State

namespace Looper

variable [DecidableEq κ] (P : Params υ κ) (l : Looper υ κ)

/-- The loop before its first event. -/
def init : Looper υ κ := ⟨.init P, .idle, false⟩

/-- `StateMachine::dispatch` -/
def dispatch (m : State υ κ) (t : ℕ) (s : StateMachine.State) (after : After κ) : Looper υ κ :=
  { l with manager := m, phase := .dispatching t s after }

/-- The dispatch is over. -/
def finish (m : State υ κ) : After κ → Looper υ κ
  | .done => { l with manager := m, phase := .idle }
  | .next s client => { l with manager := m.nextUpstream P s client, phase := .idle }

/-- One `StateMachine::process` of a dispatch. -/
def process (t : ℕ) (s : StateMachine.State) (after : After κ) (o : Option (Outcome υ)) :
    Looper υ κ :=
  match StateMachine.process s (l.manager.task t).status (l.manager.task t).h3 with
  | none => { l with terminated := true }
  | some (a, target) =>
    match a.elim (some l.manager) (l.manager.perform P t o) with
    | none => { l with terminated := true }
    | some m => if target = .exit then l.finish P m after else l.dispatch m t target after

/-- `UpstreamSender::ev_handler`, `UpstreamManager::onDone`, `TaskManager::upstreamDoneProcess` -/
def upstreamDone (i : ℕ) (s : UpstreamSender SentTask κ) (reply : Option Input) : Looper υ κ :=
  let m := { l.manager with upstreamManager := l.manager.upstreamManager.finish i }
  let client := if reply.isSome && s.keepAlive then some s.upstream else none
  match s.bt, reply with
  | .upstream n _, reply => l.finish P (m.note (.promise n reply)) (.next s client)
  | .base t, none =>
    let m := m.setLastStatus t .error
    l.finish P (m.respondAndDie P t (m.task t).output.data true) (.next s client)
  | .base t, some input =>
    let m := m.setReply (.base t) input
    if (m.task t).self then l.dispatch m t .execute (.next s client)
    else l.finish P m (.next s client)

/-- The events of the IO thread between two dispatches. -/
def idleStep : Event υ κ → Looper υ κ
  | .newClient h3 input =>
    l.dispatch (l.manager.onNewClient h3 input) l.manager.created .execute .done
  | .closeClient t => { l with manager := l.manager.closeClient t }
  | .timer t =>
    if t ∈ l.manager.timerList then l.dispatch (l.manager.onTimer t) t .execute .done else l
  | .checkUpstreamBlocking n output =>
    match l.manager.sendUpstream P (.upstream n output) with
    | none => { l with terminated := true }
    | some m => { l with manager := m }
  | .jobReady =>
    match l.manager.resQueue.pop with
    | none => l
    | some (t, resQueue) =>
      l.dispatch { l.manager with resQueue := resQueue, cntJobDone := l.manager.cntJobDone + 1 }
        t .workerActionDone .done
  | .upstreamReply i reply =>
    match l.manager.upstreamManager.senders[i]? with
    | none => l
    | some s => l.upstreamDone P i s reply
  | .closeIdle k client =>
    { l with
      manager := { l.manager with
        upstreamManager := l.manager.upstreamManager.closeIdle k client } }
  | .resume =>
    -- `pop_front` comes after the dispatch, which only appends
    match l.manager.readyToResume with
    | [] => l
    | t :: readyToResume =>
      l.dispatch { l.manager with readyToResume := readyToResume } t .execute .done
  | .expire =>
    if l.manager.readyToResume = [] then
      { l with
        manager := l.manager.expireTasks P l.manager.expireTaskQueue.items.length }
    else l
  | _ => l

/-- One event. -/
def step (e : Event υ κ) : Looper υ κ :=
  if l.terminated then l
  else
    match e with
    | .tick d => { l with manager := { l.manager with now := l.manager.now + d } }
    | .addPeriodicTask h3 => { l with manager := l.manager.addPeriodicTask h3 }
    | .workerStart i =>
      if i < P.threadCount then { l with manager := l.manager.workerStart i } else l
    | .workerDone t o =>
      if t ∈ l.manager.running then
        match l.manager.workerDone t o with
        | none => { l with terminated := true }
        | some m => { l with manager := m }
      else l
    | .process o =>
      match l.phase with
      | .idle => l
      | .dispatching t s after => l.process P t s after o
    | e =>
      match l.phase with
      | .idle => l.idleStep P e
      | .dispatching _ _ _ => l

end Looper

end TaskManager
