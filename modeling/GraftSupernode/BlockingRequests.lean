/-
# Blocking upstream requests

`TaskManager::sendUpstreamBlocking` and `checkUpstreamBlockingIO` (`task.cpp`), around the event
loop.  A job of the pool pushes a promise and its output to `m_promiseQueue` and waits for the
promise; the loop pops them and sends an `UpstreamTask` for each, and fulfils the promise when the
request is done.  Promises are numbered in the order of the calls.

The queue has a cell for each thread of the pool, and what `push` returns is ignored.  A worker
that is expelled goes on with its job, so there can be more calls than cells.

* `BlockingLoop.step`: a call, one round of the loop that drains the queue, or another event;
* `Quiet`: what the other events do to the upstream requests;
* `Kept`: what holds as long as each call finds a free cell.
-/
import GraftSupernode.ConnectionPool
import GraftSupernode.TableComplete
import Mathlib.Logic.Relation

namespace TaskManager

/-- `UpstreamTask::PromiseItem` -/
structure PromiseItem where
  promise : ℕ
  output : Output

/-- The promise that comes with what is sent upstream. -/
def SentTask.items : SentTask → List PromiseItem
  | .base _ => []
  | .upstream promise output => [⟨promise, output⟩]

/-- The promise that is seen to be fulfilled. -/
def Note.fulfilled : Note → Option (ℕ × Option Input)
  | .promise n reply => some (n, reply)
  | _ => none

variable {υ κ : Type*} [LinearOrder υ]

/-- The promises that have been fulfilled, latest first; `none` is an exception. -/
def State.fulfilled (m : State υ κ) : List (ℕ × Option Input) := m.log.filterMap Note.fulfilled

/-- The promises whose requests are in flight. -/
def inFlight (um : UpstreamManager SentTask κ) : List PromiseItem :=
  um.senders.flatMap fun s => s.bt.items

/-- The IO thread is between two events. -/
def Looper.isFree (l : Looper υ κ) : Bool :=
  match l.phase with
  | .idle => !l.terminated
  | .dispatching _ _ _ => false

/-- The event loop with the queue of promises.  `calls` has the jobs that have called
`sendUpstreamBlocking`, with what they pushed; `sent` is what was passed to
`UpstreamManager::send`. -/
structure BlockingLoop (υ κ : Type*) [LinearOrder υ] where
  looper : Looper υ κ
  promiseQueue : BoundedQueue PromiseItem
  calls : List (ℕ × PromiseItem)
  sent : List PromiseItem

/-- What happens: the job `t` calls `sendUpstreamBlocking`, the loop of `checkUpstreamBlockingIO`
makes one round, or there is another event. -/
inductive BlockingEvent (υ κ : Type*)
  | sendUpstreamBlocking (t : ℕ) (output : Output)
  | checkUpstreamBlockingIO
  | loop (e : Event υ κ)

namespace BlockingLoop

/-- `TaskManager::initThreadPool`: the queue has a cell for each thread. -/
def init (P : Params υ κ) : BlockingLoop υ κ := ⟨.init P, .empty P.threadCount, [], []⟩

/-- The job waits for a promise. -/
def Waits (st : BlockingLoop υ κ) (t : ℕ) : Prop :=
  ∃ c ∈ st.calls, c.1 = t ∧ c.2.promise ∉ st.looper.manager.fulfilled.map Prod.fst

instance (st : BlockingLoop υ κ) (t : ℕ) : Decidable (st.Waits t) :=
  inferInstanceAs (Decidable (∃ c ∈ st.calls, _))

/-- The job is being run, and does not wait. -/
def CanCall (st : BlockingLoop υ κ) (t : ℕ) : Prop :=
  st.looper.terminated = false ∧ t ∈ st.looper.manager.running ∧ ¬ st.Waits t

instance (st : BlockingLoop υ κ) (t : ℕ) : Decidable (st.CanCall t) :=
  inferInstanceAs (Decidable (_ ∧ _ ∧ _))

/-- One event; one that cannot happen changes nothing. -/
def step [DecidableEq κ] (P : Params υ κ) (st : BlockingLoop υ κ) :
    BlockingEvent υ κ → BlockingLoop υ κ
  | .sendUpstreamBlocking t output =>
    if st.CanCall t then
      let item := ⟨st.calls.length, output⟩
      { st with
        promiseQueue := (st.promiseQueue.push item).getD st.promiseQueue
        calls := st.calls ++ [(t, item)] }
    else st
  | BlockingEvent.checkUpstreamBlockingIO =>
    match st.looper.isFree, st.promiseQueue.pop with
    | true, some (item, promiseQueue) =>
      { st with
        looper := st.looper.step P (.checkUpstreamBlocking item.promise item.output)
        promiseQueue := promiseQueue
        sent := st.sent ++ [item] }
    | _, _ => st
  | .loop (.checkUpstreamBlocking _ _) => st
  | .loop (.workerDone t o) =>
    -- the handler of a job that waits has not returned
    if st.Waits t then st else { st with looper := st.looper.step P (.workerDone t o) }
  | .loop e => { st with looper := st.looper.step P e }

/-- A call finds a free cell. -/
def HasRoom (st : BlockingLoop υ κ) : BlockingEvent υ κ → Prop
  | .sendUpstreamBlocking t _ => st.CanCall t → ¬ st.promiseQueue.Full
  | _ => True

end BlockingLoop

/-! ## What the other events do -/

/-- One step of the upstream manager that fulfils no promise and sends none. -/
inductive QuietStep [DecidableEq κ] (cfg : UpstreamConfig κ) (um : UpstreamManager SentTask κ) :
    UpstreamManager SentTask κ → Prop
  | send {t : ℕ} {uri : String} {um' : UpstreamManager SentTask κ}
      (h : um.send cfg (.base t) uri = some um') : QuietStep cfg um um'
  | next (uri : SentTask → String) (k : κ) (connectionId : ℕ) (client : Option ℕ) :
      QuietStep cfg um (um.next cfg uri k connectionId client)
  | closeIdle (k : κ) (client : ℕ) : QuietStep cfg um (um.closeIdle k client)

/-- Steps of the upstream manager that fulfil no promise and send none. -/
def Quiet [DecidableEq κ] (cfg : UpstreamConfig κ) :
    UpstreamManager SentTask κ → UpstreamManager SentTask κ → Prop :=
  Relation.ReflTransGen (QuietStep cfg)

variable {P : Params υ κ} {m m' : State υ κ} {t : ℕ}

/-- Other notes are about no promise. -/
@[simp] theorem State.fulfilled_note {n : Note} (h : n.fulfilled = none) :
    (m.note n).fulfilled = m.fulfilled := List.filterMap_cons_none h

/-- An answer to a client is about no promise. -/
@[simp] theorem State.filterMap_replies (m : State υ κ) (t : ℕ) (body : String) :
    (m.replies t body).filterMap Note.fulfilled = [] := by
  unfold replies
  split
  · split <;> split <;> rfl
  · rfl

/-- What concerns blocking requests stays the same. -/
structure Untouched (m m' : State υ κ) : Prop where
  manager : m'.upstreamManager = m.upstreamManager
  fulfilled : m'.fulfilled = m.fulfilled

namespace Untouched

/-- What stays is untouched. -/
theorem refl (m : State υ κ) : Untouched m m := ⟨rfl, rfl⟩

/-- What is untouched twice is untouched. -/
theorem trans {m'' : State υ κ} (h : Untouched m m') (h' : Untouched m' m'') : Untouched m m'' :=
  ⟨h'.manager.trans h.manager, h'.fulfilled.trans h.fulfilled⟩

/-- An answer concerns no request. -/
theorem respondAndDie (body : String) (die : Bool) :
    Untouched m (m.respondAndDie P t body die) := by
  rw [State.respondAndDie_eq]
  refine ⟨rfl, ?_⟩
  show (m.replies t body ++ m.log).filterMap Note.fulfilled = _
  rw [List.filterMap_append, State.filterMap_replies, List.nil_append]
  rfl

/-- A postponed task concerns no request. -/
theorem postponeTask : Untouched m (m.postponeTask P t) := by
  unfold State.postponeTask
  dsimp only
  split <;> exact ⟨rfl, rfl⟩

/-- A task that goes on concerns no request. -/
theorem resumeNext : Untouched m (m.resumeNext t) := by
  unfold State.resumeNext
  dsimp only
  split
  · exact refl m
  · split <;> exact ⟨rfl, rfl⟩

/-- `processOk` concerns no request. -/
theorem processOk : Untouched m (m.processOk P t) := resumeNext.trans (respondAndDie _ _)

/-- Expired tasks concern no request. -/
theorem expireTasks (fuel : ℕ) : Untouched m (m.expireTasks P fuel) :=
  State.expireTasks_invariant P (I := Untouched m)
    (fun m' _ t h _ => by
      have hset : Untouched m' ((m'.note (.expire t m'.now)).setLastStatus t .error) := ⟨rfl, rfl⟩
      exact h.trans (hset.trans (respondAndDie _ _)))
    (fun _ _ h => ⟨h.1, h.2⟩) fuel (refl m)

end Untouched

/-- The requests that stay have changed quietly. -/
theorem Quiet.refl [DecidableEq κ] {cfg : UpstreamConfig κ} (um : UpstreamManager SentTask κ) :
    Quiet cfg um um := Relation.ReflTransGen.refl

/-- **An action of the state machine** sends at most a task of its own. -/
theorem State.quiet_perform [DecidableEq κ] {a : StateMachine.Action} {o : Option (Outcome υ)}
    (hm : m.perform P t o a = some m') :
    Quiet P.upstream m.upstreamManager m'.upstreamManager ∧ m'.fulfilled = m.fulfilled := by
  have of_untouched (h : Untouched m m') :
      Quiet P.upstream m.upstreamManager m'.upstreamManager ∧ m'.fulfilled = m.fulfilled := by
    refine ⟨?_, h.fulfilled⟩
    rw [h.manager]
    exact .refl _
  cases performed P hm with
  | rest => exact of_untouched (.refl m)
  | called | posted => exact of_untouched ⟨rfl, rfl⟩
  | overflow =>
    have hset : Untouched m (m.setLastStatus t .busy) := ⟨rfl, rfl⟩
    exact of_untouched (hset.trans (.respondAndDie _ _))
  | sent um hsend => exact ⟨.single (.send hsend), rfl⟩
  | answered => exact of_untouched (.respondAndDie _ _)
  | ok => exact of_untouched .processOk
  | postponed => exact of_untouched .postponeTask

namespace Looper

variable [DecidableEq κ] {l : Looper υ κ}

/-- The end of a dispatch may send the next task of a node. -/
theorem quiet_finish (m : State υ κ) (after : After κ) :
    Quiet P.upstream m.upstreamManager (l.finish P m after).manager.upstreamManager ∧
      (l.finish P m after).manager.fulfilled = m.fulfilled := by
  cases after with
  | done => exact ⟨.refl _, rfl⟩
  | next s client => exact ⟨.single (.next _ _ _ _), rfl⟩

/-- What an event does to blocking requests: the reply to a request fulfils the promise that came
with it, if there is one. -/
inductive Change (P : Params υ κ) (l : Looper υ κ) (e : Event υ κ) (l' : Looper υ κ) : Prop
  | quiet (hquiet : Quiet P.upstream l.manager.upstreamManager l'.manager.upstreamManager)
      (hfulfilled : l'.manager.fulfilled = l.manager.fulfilled)
  | reply (i : ℕ) (reply : Option Input) (s : UpstreamSender SentTask κ)
      (he : e = .upstreamReply i reply)
      (hs : l.manager.upstreamManager.senders[i]? = some s)
      (hquiet : Quiet P.upstream (l.manager.upstreamManager.finish i) l'.manager.upstreamManager)
      (hfulfilled : l'.manager.fulfilled
        = (s.bt.items.map fun item => (item.promise, reply)) ++ l.manager.fulfilled)

/-- Where no request is concerned, there is no change. -/
theorem Change.of_untouched {e : Event υ κ} {l' : Looper υ κ}
    (h : Untouched l.manager l'.manager) : Change P l e l' := by
  refine .quiet ?_ h.fulfilled
  rw [h.manager]
  exact .refl _

/-- A step of a dispatch may send a request for its task. -/
theorem change_process {e : Event υ κ} (t : ℕ) (s : StateMachine.State) (after : After κ)
    (o : Option (Outcome υ)) : Change P l e (l.process P t s after o) := by
  unfold process
  split
  · exact .of_untouched (.refl _)
  · rename_i a target _
    split
    · exact .of_untouched (.refl _)
    · rename_i m hm
      have hperform : Quiet P.upstream l.manager.upstreamManager m.upstreamManager ∧
          m.fulfilled = l.manager.fulfilled := by
        cases a with
        | none =>
          cases hm
          exact ⟨.refl _, rfl⟩
        | some a => exact State.quiet_perform hm
      split
      · obtain ⟨hquiet, hfulfilled⟩ := quiet_finish (P := P) (l := l) m after
        exact .quiet (hperform.1.trans hquiet) (hfulfilled.trans hperform.2)
      · exact .quiet hperform.1 hperform.2

/-- A reply ends its request, and fulfils its promise. -/
theorem change_upstreamDone {i : ℕ} {s : UpstreamSender SentTask κ} (reply : Option Input)
    (hs : l.manager.upstreamManager.senders[i]? = some s) :
    Change P l (.upstreamReply i reply) (l.upstreamDone P i s reply) := by
  -- what is left to do after the promise, or the response to the client
  have finish (m : State υ κ) (after : After κ)
      (hm : m.upstreamManager = l.manager.upstreamManager.finish i)
      (hfulfilled : m.fulfilled
        = (s.bt.items.map fun item => (item.promise, reply)) ++ l.manager.fulfilled) :
      Change P l (.upstreamReply i reply) (l.finish P m after) := by
    obtain ⟨hquiet, hsame⟩ := quiet_finish (P := P) (l := l) m after
    exact .reply i reply s rfl hs (hm ▸ hquiet) (hsame.trans hfulfilled)
  unfold upstreamDone
  dsimp only
  cases hbt : s.bt with
  | upstream n output =>
    refine finish _ _ rfl ?_
    rw [hbt]
    rfl
  | base t =>
    have hitems : s.bt.items = [] := by rw [hbt]; rfl
    cases reply with
    | none =>
      refine finish _ _ ?_ ?_
      · exact (Untouched.respondAndDie _ _).manager
      · rw [hitems]
        exact (Untouched.respondAndDie _ _).fulfilled
    | some input =>
      dsimp only
      split
      · refine .reply i (some input) s rfl hs (.refl _) ?_
        rw [hitems]
        rfl
      · refine finish _ _ rfl ?_
        rw [hitems]
        rfl

/-- A step of the idle loop ends a request, or sends those that waited. -/
theorem change_idleStep {e : Event υ κ} (he : ∀ n output, e ≠ .checkUpstreamBlocking n output) :
    Change P l e (l.idleStep P e) := by
  have same : Change P l e l := .of_untouched (.refl _)
  unfold idleStep
  cases e with
  | checkUpstreamBlocking n output => exact absurd rfl (he n output)
  | newClient | closeClient => exact .of_untouched ⟨rfl, rfl⟩
  | timer t =>
    dsimp only
    split
    · exact .of_untouched ⟨rfl, rfl⟩
    · exact same
  | jobReady =>
    dsimp only
    split
    · exact same
    · exact .of_untouched ⟨rfl, rfl⟩
  | upstreamReply i reply =>
    dsimp only
    split
    · exact same
    · exact change_upstreamDone _ (by assumption)
  | closeIdle k client => exact .quiet (.single (.closeIdle k client)) rfl
  | resume =>
    dsimp only
    split
    · exact same
    · exact .of_untouched ⟨rfl, rfl⟩
  | expire =>
    dsimp only
    split
    · exact .of_untouched (Untouched.expireTasks _)
    · exact same
  | tick | addPeriodicTask | workerStart | workerDone | process => exact same

/-- **What an event does to blocking requests**, unless it sends one. -/
theorem change_step {e : Event υ κ} (he : ∀ n output, e ≠ .checkUpstreamBlocking n output) :
    Change P l e (l.step P e) := by
  have same : Change P l e l := .of_untouched (.refl _)
  unfold step
  split
  · exact same
  · cases e with
    | checkUpstreamBlocking n output => exact absurd rfl (he n output)
    | tick d => exact .of_untouched ⟨rfl, rfl⟩
    | addPeriodicTask h3 => exact .of_untouched ⟨rfl, rfl⟩
    | workerStart i =>
      dsimp only
      split
      · refine .of_untouched ?_
        show Untouched l.manager (l.manager.workerStart i)
        unfold State.workerStart
        split
        · exact .refl _
        · exact ⟨rfl, rfl⟩
      · exact same
    | workerDone t o =>
      dsimp only
      split
      · split
        · exact .of_untouched (.refl _)
        · -- a handler writes to its task, and its result goes to the queue
          rename_i m hm
          refine .of_untouched ?_
          show Untouched l.manager m
          obtain ⟨m₁, hm₁, rfl⟩ := Option.map_eq_some_iff.mp hm
          obtain ⟨o, -, rfl⟩ := Option.map_eq_some_iff.mp hm₁
          dsimp only
          split <;> exact ⟨rfl, rfl⟩
      · exact same
    | process o =>
      dsimp only
      split
      · exact same
      · exact change_process _ _ _ _
    | newClient | closeClient | timer | jobReady | upstreamReply | closeIdle | resume | expire =>
      dsimp only
      split
      · exact change_idleStep he
      · exact same

end Looper

/-! ## The promises of the upstream manager -/

/-- The promises that were sent are fulfilled or in flight, each once. -/
structure PromisesKept (cfg : UpstreamConfig κ) (sent : List PromiseItem)
    (fulfilled : List (ℕ × Option Input)) (um : UpstreamManager SentTask κ) : Prop where
  unlimited : (um.item cfg.default).maxConnections = 0
  queued : ∀ k, ∀ bt ∈ (um.item k).taskQueue, bt.items = []
  perm : (fulfilled.map Prod.fst ++ (inFlight um).map PromiseItem.promise).Perm
    (sent.map PromiseItem.promise)
  flight : ∀ item ∈ inFlight um, item ∈ sent

namespace PromisesKept

variable [DecidableEq κ] {cfg : UpstreamConfig κ} {sent : List PromiseItem}
  {fulfilled : List (ℕ × Option Input)} {um um' : UpstreamManager SentTask κ}

/-- A node changes, but its limit stays, and nothing new is in its queue. -/
theorem setItem (h : PromisesKept cfg sent fulfilled um) {k : κ} {c : ConnItem SentTask}
    (hmax : c.maxConnections = (um.item k).maxConnections)
    (hqueue : ∀ bt ∈ c.taskQueue, bt.items = []) :
    PromisesKept cfg sent fulfilled (um.setItem k c) := by
  refine ⟨?_, fun k' => ?_, h.perm, h.flight⟩
  · show (Function.update um.item k c cfg.default).maxConnections = 0
    rw [Function.update_apply]
    split
    · rename_i hk
      rw [hmax, ← hk]
      exact h.unlimited
    · exact h.unlimited
  · show ∀ bt ∈ (Function.update um.item k c k').taskQueue, bt.items = []
    rw [Function.update_apply]
    split
    · exact hqueue
    · exact h.queued k'

/-- A request is created for what is sent. -/
theorem createUpstreamSender (h : PromisesKept cfg sent fulfilled um) (k : κ) (bt : SentTask)
    (uri : String) :
    PromisesKept cfg (sent ++ bt.items) fulfilled (um.createUpstreamSender cfg k bt uri) := by
  obtain ⟨s, hsenders, -, hbt, -, hother, hkeep⟩ := um.createUpstreamSender_spec cfg k bt uri
  have hitem (k' : κ) :
      ((um.createUpstreamSender cfg k bt uri).item k').maxConnections = (um.item k').maxConnections ∧
      ((um.createUpstreamSender cfg k bt uri).item k').taskQueue = (um.item k').taskQueue := by
    by_cases hk : k' = k
    · subst hk
      cases hc : (um.item k').keepAlive with
      | true =>
        rw [(hkeep hc).1]
        exact ⟨ConnItem.getConnection_maxConnections _, ConnItem.getConnection_taskQueue _⟩
      | false =>
        rw [UpstreamManager.createUpstreamSender, if_neg (by simp [hc])]
        exact ⟨rfl, rfl⟩
    · rw [hother k' hk]
      exact ⟨rfl, rfl⟩
  have hflight : inFlight (um.createUpstreamSender cfg k bt uri) = bt.items ++ inFlight um := by
    unfold inFlight
    rw [hsenders, List.flatMap_cons, hbt]
  refine ⟨(hitem _).1.trans h.unlimited, fun k' bt' hmem => ?_, ?_, fun item hmem => ?_⟩
  · rw [(hitem k').2] at hmem
    exact h.queued k' bt' hmem
  · rw [hflight, List.map_append, List.map_append]
    have hcomm := List.perm_append_comm_assoc (fulfilled.map Prod.fst)
      (bt.items.map PromiseItem.promise) ((inFlight um).map PromiseItem.promise)
    exact hcomm.trans ((h.perm.append_left _).trans List.perm_append_comm)
  · rw [hflight] at hmem
    rcases List.mem_append.mp hmem with hmem | hmem
    · exact List.mem_append_right _ hmem
    · exact List.mem_append_left _ (h.flight item hmem)

/-- A task that comes with no promise is sent. -/
theorem createUpstreamSender_base (h : PromisesKept cfg sent fulfilled um) (k : κ) {bt : SentTask}
    (hbt : bt.items = []) (uri : String) :
    PromisesKept cfg sent fulfilled (um.createUpstreamSender cfg k bt uri) := by
  have hcreate := h.createUpstreamSender k bt uri
  rwa [hbt, List.append_nil] at hcreate

/-- A quiet step keeps the promises. -/
theorem quietStep (h : PromisesKept cfg sent fulfilled um) (hstep : QuietStep cfg um um') :
    PromisesKept cfg sent fulfilled um' := by
  cases hstep with
  | @send t uri _ hsend =>
    obtain ⟨k, -, rfl⟩ := Option.map_eq_some_iff.mp hsend
    dsimp only
    split
    · refine h.setItem rfl fun bt hmem => ?_
      rcases List.mem_append.mp hmem with hmem | hmem
      · exact h.queued k bt hmem
      · rw [List.mem_singleton.mp hmem]
        rfl
    · exact h.createUpstreamSender_base k rfl uri
  | next uri k connectionId client =>
    have hqueue := (um.item k).releaseActive_taskQueue connectionId client
    have hmax := (um.item k).releaseActive_maxConnections connectionId client
    unfold UpstreamManager.next
    dsimp only
    split
    · rename_i hnil
      refine h.setItem hmax fun bt hmem => ?_
      rw [hnil] at hmem
      exact absurd hmem List.not_mem_nil
    · rename_i bt taskQueue hcons
      rw [hqueue] at hcons
      have hbase : ∀ bt' ∈ bt :: taskQueue, bt'.items = [] := hcons ▸ h.queued k
      refine createUpstreamSender_base ?_ k (hbase bt List.mem_cons_self) _
      exact h.setItem hmax fun bt' hmem => hbase bt' (List.mem_cons_of_mem _ hmem)
  | closeIdle k client => exact h.setItem rfl (h.queued k)

/-- Quiet changes keep the promises. -/
theorem quiet (h : PromisesKept cfg sent fulfilled um) (hquiet : Quiet cfg um um') :
    PromisesKept cfg sent fulfilled um' := by
  induction hquiet with
  | refl => exact h
  | tail _ hstep ih => exact ih.quietStep hstep

omit [DecidableEq κ] in
/-- A request is done, and its promise is fulfilled. -/
theorem finish (h : PromisesKept cfg sent fulfilled um) {i : ℕ} {s : UpstreamSender SentTask κ}
    (hs : um.senders[i]? = some s) (reply : Option Input) :
    PromisesKept cfg sent ((s.bt.items.map fun item => (item.promise, reply)) ++ fulfilled)
      (um.finish i) := by
  obtain ⟨hi, rfl⟩ := List.getElem?_eq_some_iff.mp hs
  have hflight : (um.senders[i].bt.items ++ inFlight (um.finish i)).Perm (inFlight um) := by
    have hperm := (List.getElem_cons_eraseIdx_perm hi).flatMap_right fun s => s.bt.items
    rwa [List.flatMap_cons] at hperm
  refine ⟨h.unlimited, h.queued, ?_, fun item hmem => ?_⟩
  · have hfirst : ((um.senders[i].bt.items.map fun item => (item.promise, reply)) ++
        fulfilled).map Prod.fst
        = um.senders[i].bt.items.map PromiseItem.promise ++ fulfilled.map Prod.fst := by
      rw [List.map_append, List.map_map]
      rfl
    rw [hfirst]
    have hmap := hflight.map PromiseItem.promise
    rw [List.map_append] at hmap
    rw [List.append_assoc]
    exact (List.perm_append_comm_assoc _ _ _).trans ((hmap.append_left _).trans h.perm)
  · exact h.flight item (hflight.subset (List.mem_append_right _ hmem))

end PromisesKept

/-! ## Runs -/

namespace BlockingLoop

variable [DecidableEq κ] {st : BlockingLoop υ κ} {e : BlockingEvent υ κ}

/-- The promises that have been fulfilled, with what they were given. -/
def fulfilled (st : BlockingLoop υ κ) : List (ℕ × Option Input) := st.looper.manager.fulfilled

/-- The promises whose requests are in flight. -/
def flying (st : BlockingLoop υ κ) : List PromiseItem := inFlight st.looper.manager.upstreamManager

/-- Every call is in the queue or has been sent, in the order of the calls; what was sent is
fulfilled or in flight. -/
structure Kept (P : Params υ κ) (st : BlockingLoop υ κ) : Prop where
  sent : st.sent ++ st.promiseQueue.items = st.calls.map Prod.snd
  promises : st.calls.map (fun c => c.2.promise) = List.range st.calls.length
  upstream : PromisesKept P.upstream st.sent st.fulfilled st.looper.manager.upstreamManager

/-- The loop sends what it popped: the default node never lets a task wait. -/
theorem step_checkUpstreamBlocking {l : Looper υ κ} (hfree : l.isFree = true) (item : PromiseItem)
    (hmax : (l.manager.upstreamManager.item P.upstream.default).maxConnections = 0) :
    let l' := l.step P (.checkUpstreamBlocking item.promise item.output)
    l'.manager.fulfilled = l.manager.fulfilled ∧ l'.isFree = true ∧
      l'.manager.upstreamManager = l.manager.upstreamManager.createUpstreamSender P.upstream
        P.upstream.default (.upstream item.promise item.output) "" := by
  unfold Looper.isFree at hfree
  split at hfree
  · rename_i hphase
    have hterm : l.terminated = false := by simpa using hfree
    have hfull : (l.manager.upstreamManager.item P.upstream.default).full = false := by
      simp [ConnItem.full, hmax]
    have hsend : l.manager.sendUpstream P (.upstream item.promise item.output)
        = some { l.manager with
          upstreamManager := l.manager.upstreamManager.createUpstreamSender P.upstream
            P.upstream.default (.upstream item.promise item.output) "" } := by
      have hnode : P.upstream.connItem "" = some P.upstream.default := by
        simp [UpstreamConfig.connItem]
      simp only [State.sendUpstream, State.uri, UpstreamManager.send, hnode, hfull, Option.map_some,
        Bool.false_eq_true, if_false]
    intro l'
    have hl' : l' = { l with
        manager := { l.manager with
          upstreamManager := l.manager.upstreamManager.createUpstreamSender P.upstream
            P.upstream.default (.upstream item.promise item.output) "" } } := by
      show l.step P _ = _
      simp only [Looper.step, hterm, hphase, Looper.idleStep, hsend, Bool.false_eq_true, if_false]
    rw [hl']
    refine ⟨rfl, ?_, rfl⟩
    simp [Looper.isFree, hphase, hterm]
  · cases hfree

/-- What an event does: nothing, a call, a round of the drain that sends a request, or a step of
the loop. -/
inductive Move (P : Params υ κ) (st : BlockingLoop υ κ) (e : BlockingEvent υ κ) :
    BlockingLoop υ κ → Prop
  | rest : Move P st e st
  | call (t : ℕ) (output : Output) (he : e = .sendUpstreamBlocking t output) (hcall : st.CanCall t) :
      Move P st e
        { st with
          promiseQueue := (st.promiseQueue.push ⟨st.calls.length, output⟩).getD st.promiseQueue
          calls := st.calls ++ [(t, ⟨st.calls.length, output⟩)] }
  | drain (item : PromiseItem) (promiseQueue : BoundedQueue PromiseItem)
      (he : e = BlockingEvent.checkUpstreamBlockingIO) (hfree : st.looper.isFree = true)
      (hpop : st.promiseQueue.pop = some (item, promiseQueue)) :
      Move P st e
        { st with
          looper := st.looper.step P (.checkUpstreamBlocking item.promise item.output)
          promiseQueue := promiseQueue
          sent := st.sent ++ [item] }
  | loop (e' : Event υ κ) (he : e = .loop e')
      (he' : ∀ n output, e' ≠ .checkUpstreamBlocking n output) :
      Move P st e { st with looper := st.looper.step P e' }

/-- An event is a call, a round of the loop or another event. -/
theorem move_step (st : BlockingLoop υ κ) (e : BlockingEvent υ κ) :
    Move P st e (st.step P e) := by
  cases e with
  | sendUpstreamBlocking t output =>
    by_cases hcall : st.CanCall t
    · have hstep := Move.call (P := P) t output rfl hcall
      rwa [step, if_pos hcall]
    · rw [step, if_neg hcall]
      exact .rest
  | checkUpstreamBlockingIO =>
    unfold step
    cases hfree : st.looper.isFree with
    | false => exact .rest
    | true =>
      cases hpop : st.promiseQueue.pop with
      | none => exact .rest
      | some p => exact .drain p.1 p.2 rfl hfree hpop
  | loop e =>
    cases e with
    | checkUpstreamBlocking => exact .rest
    | workerDone t o =>
      by_cases hwaits : st.Waits t
      · rw [step, if_pos hwaits]
        exact .rest
      · rw [step, if_neg hwaits]
        exact .loop _ rfl (by simp)
    | _ => exact .loop _ rfl (by simp)

/-- **The upstream manager keeps the promises** that it has been sent, in any event. -/
theorem promisesKept_step
    (h : PromisesKept P.upstream st.sent st.fulfilled st.looper.manager.upstreamManager) :
    PromisesKept P.upstream (st.step P e).sent (st.step P e).fulfilled
      (st.step P e).looper.manager.upstreamManager := by
  have hmove := move_step (P := P) st e
  generalize st.step P e = st' at hmove
  cases hmove with
  | rest | call => exact h
  | drain item promiseQueue _ hfree _ =>
    obtain ⟨hfulfilled, -, hmanager⟩ := step_checkUpstreamBlocking hfree item h.unlimited
    show PromisesKept P.upstream (st.sent ++ [item]) (State.fulfilled _) _
    rw [hfulfilled, hmanager]
    exact h.createUpstreamSender _ (.upstream item.promise item.output) ""
  | loop e' _ he' =>
    show PromisesKept P.upstream st.sent (st.looper.step P e').manager.fulfilled
      (st.looper.step P e').manager.upstreamManager
    cases Looper.change_step (l := st.looper) (P := P) he' with
    | quiet hquiet hfulfilled =>
      rw [hfulfilled]
      exact h.quiet hquiet
    | reply i reply s _ hs hquiet hfulfilled =>
      rw [hfulfilled]
      exact (h.finish hs reply).quiet hquiet

/-- **One event**: a call must find a free cell. -/
theorem Kept.step (h : st.Kept P) (hroom : st.HasRoom e) : (st.step P e).Kept P := by
  have hupstream := promisesKept_step (e := e) h.upstream
  have hmove := move_step (P := P) st e
  generalize st.step P e = st' at hmove hupstream
  cases hmove with
  | rest => exact h
  | call t output he hcall =>
    subst he
    cases hpush : st.promiseQueue.push ⟨st.calls.length, output⟩ with
    | none => exact absurd (BoundedQueue.push_eq_none.mp hpush) (hroom hcall)
    | some promiseQueue =>
      refine ⟨?_, ?_, h.upstream⟩
      · show st.sent ++ promiseQueue.items = (st.calls ++ [_]).map Prod.snd
        rw [(BoundedQueue.push_eq_some hpush).1, ← List.append_assoc, h.sent, List.map_append]
        rfl
      · show (st.calls ++ [_]).map _ = List.range (st.calls ++ [_]).length
        rw [List.map_append, h.promises, List.length_append, List.length_singleton,
          List.range_succ]
        rfl
  | drain item promiseQueue _ hfree hpop =>
    refine ⟨?_, h.promises, hupstream⟩
    show (st.sent ++ [item]) ++ promiseQueue.items = _
    rw [← h.sent, (BoundedQueue.pop_eq_some hpop).1, List.append_assoc]
    rfl
  | loop e' _ he' => exact ⟨h.sent, h.promises, hupstream⟩

omit [DecidableEq κ] in
/-- In the beginning nothing has been called. -/
theorem Kept.init (hmax : P.upstream.maxConnections P.upstream.default = 0) :
    (init P : BlockingLoop υ κ).Kept P :=
  ⟨rfl, rfl, hmax, fun _ _ hmem => absurd hmem List.not_mem_nil, .refl _,
    fun _ hmem => absurd hmem List.not_mem_nil⟩

/-- **Whole runs**. -/
theorem Kept.exec (hmax : P.upstream.maxConnections P.upstream.default = 0)
    {es : List (BlockingEvent υ κ)}
    (hroom : Runs.Along (BlockingLoop.step P) HasRoom (BlockingLoop.init P) es) :
    (Runs.exec (BlockingLoop.step P) (BlockingLoop.init P) es).Kept P :=
  Runs.exec_invariant (fun _ _ h hroom => h.step hroom) (.init hmax) hroom

/-! ## What a job waits for -/

namespace Kept

omit [DecidableEq κ] in
/-- No two calls have the same promise. -/
theorem nodup (h : st.Kept P) :
    ((st.sent ++ st.promiseQueue.items).map PromiseItem.promise).Nodup := by
  rw [h.sent, List.map_map]
  show (st.calls.map fun c => c.2.promise).Nodup
  rw [h.promises]
  exact List.nodup_range

omit [DecidableEq κ] in
/-- A promise has one call. -/
theorem eq_of_promise (h : st.Kept P) {item item' : PromiseItem}
    (hmem : item ∈ st.calls.map Prod.snd) (hmem' : item' ∈ st.calls.map Prod.snd)
    (heq : item.promise = item'.promise) : item = item' := by
  rw [← h.sent] at hmem hmem'
  exact List.inj_on_of_nodup_map h.nodup hmem hmem' heq

omit [DecidableEq κ] in
/-- What was sent is fulfilled, or in flight, and never both. -/
theorem fulfilled_iff (h : st.Kept P) {item : PromiseItem} (hmem : item ∈ st.sent) :
    item.promise ∈ st.fulfilled.map Prod.fst ↔ item ∉ st.flying := by
  have hnodup : (st.fulfilled.map Prod.fst ++ st.flying.map PromiseItem.promise).Nodup := by
    have hsent := h.nodup
    rw [List.map_append] at hsent
    exact h.upstream.perm.nodup_iff.mpr (List.nodup_append.mp hsent).1
  have hcalls (item : PromiseItem) (hitem : item ∈ st.sent) : item ∈ st.calls.map Prod.snd := by
    rw [← h.sent]
    exact List.mem_append_left _ hitem
  constructor
  · intro hfulfilled hflying
    exact (List.nodup_append.mp hnodup).2.2 _ hfulfilled _ (List.mem_map_of_mem hflying) rfl
  · intro hflying
    have hpromise := h.upstream.perm.mem_iff.mpr (List.mem_map_of_mem hmem)
    rcases List.mem_append.mp hpromise with hfulfilled | hpromise
    · exact hfulfilled
    · obtain ⟨item', hitem', heq⟩ := List.mem_map.mp hpromise
      have hsame := h.eq_of_promise (hcalls item' (h.upstream.flight item' hitem'))
        (hcalls item hmem) heq
      exact absurd (hsame ▸ hitem') hflying

omit [DecidableEq κ] in
/-- A promise that is not fulfilled is in the queue or in flight. -/
theorem not_fulfilled_iff (h : st.Kept P) {item : PromiseItem}
    (hmem : item ∈ st.calls.map Prod.snd) :
    item.promise ∉ st.fulfilled.map Prod.fst ↔
      item ∈ st.promiseQueue.items ∨ item ∈ st.flying := by
  have hnodup := h.nodup
  rw [List.map_append] at hnodup
  rw [← h.sent] at hmem
  rcases List.mem_append.mp hmem with hsent | hqueue
  · have hnot : item ∉ st.promiseQueue.items := fun hqueue =>
      (List.nodup_append.mp hnodup).2.2 _ (List.mem_map_of_mem hsent) _ (List.mem_map_of_mem hqueue)
        rfl
    rw [h.fulfilled_iff hsent, not_not]
    exact ⟨.inr, fun hor => hor.resolve_left hnot⟩
  · refine ⟨fun _ => .inl hqueue, fun _ hfulfilled => ?_⟩
    have hsent := h.upstream.perm.subset (List.mem_append_left _ hfulfilled)
    exact (List.nodup_append.mp hnodup).2.2 _ hsent _ (List.mem_map_of_mem hqueue) rfl

omit [DecidableEq κ] in
/-- **A job waits** while what it pushed is in the queue, or its request is in flight. -/
theorem waits_iff (h : st.Kept P) (t : ℕ) :
    st.Waits t ↔ ∃ c ∈ st.calls, c.1 = t ∧ (c.2 ∈ st.promiseQueue.items ∨ c.2 ∈ st.flying) := by
  unfold Waits
  constructor
  · rintro ⟨c, hc, ht, hnot⟩
    exact ⟨c, hc, ht, (h.not_fulfilled_iff (List.mem_map_of_mem hc)).mp hnot⟩
  · rintro ⟨c, hc, ht, hor⟩
    exact ⟨c, hc, ht, (h.not_fulfilled_iff (List.mem_map_of_mem hc)).mpr hor⟩

end Kept

/-- A promise is fulfilled by the reply to the request that it came with. -/
theorem mem_fulfilled_step
    (h : PromisesKept P.upstream st.sent st.fulfilled st.looper.manager.upstreamManager)
    {p : ℕ × Option Input} (hp : p ∈ (st.step P e).fulfilled) :
    p ∈ st.fulfilled ∨ ∃ i s, e = .loop (.upstreamReply i p.2) ∧
      st.looper.manager.upstreamManager.senders[i]? = some s ∧
      ∃ item ∈ s.bt.items, item.promise = p.1 := by
  have hmove := move_step (P := P) st e
  generalize st.step P e = st' at hmove hp
  cases hmove with
  | rest | call => exact .inl hp
  | drain item promiseQueue _ hfree _ =>
    obtain ⟨hfulfilled, -, -⟩ := step_checkUpstreamBlocking hfree item h.unlimited
    have hp : p ∈ State.fulfilled (Looper.manager _) := hp
    rw [hfulfilled] at hp
    exact .inl hp
  | loop e' he he' =>
    have hp : p ∈ (st.looper.step P e').manager.fulfilled := hp
    cases Looper.change_step (l := st.looper) (P := P) he' with
    | quiet _ hfulfilled =>
      rw [hfulfilled] at hp
      exact .inl hp
    | reply i reply s hreply hs _ hfulfilled =>
      rw [hfulfilled] at hp
      rcases List.mem_append.mp hp with hnew | hold
      · obtain ⟨item, hitem, rfl⟩ := List.mem_map.mp hnew
        exact .inr ⟨i, s, by rw [he, hreply], hs, item, hitem, rfl⟩
      · exact .inl hold

/-- What was fulfilled in a run was fulfilled by a reply on the way. -/
theorem replied (hmax : P.upstream.maxConnections P.upstream.default = 0)
    (es : List (BlockingEvent υ κ)) :
    let st := Runs.exec (BlockingLoop.step P) (BlockingLoop.init P) es
    PromisesKept P.upstream st.sent st.fulfilled st.looper.manager.upstreamManager ∧
      ∀ p ∈ st.fulfilled, ∃ pre i post s, es = pre ++ .loop (.upstreamReply i p.2) :: post ∧
        (Runs.exec (BlockingLoop.step P) (BlockingLoop.init P)
          pre).looper.manager.upstreamManager.senders[i]? = some s ∧
        ∃ item ∈ s.bt.items, item.promise = p.1 := by
  induction es using List.reverseRecOn with
  | nil => exact ⟨(Kept.init hmax).upstream, fun _ hmem => absurd hmem List.not_mem_nil⟩
  | append_singleton es e ih =>
    rw [Runs.exec_append]
    obtain ⟨hkept, hreplied⟩ := ih
    refine ⟨promisesKept_step hkept, fun p hp => ?_⟩
    rcases mem_fulfilled_step hkept hp with hold | ⟨i, s, rfl, hs, hitem⟩
    · obtain ⟨pre, i, post, s, rfl, hs⟩ := hreplied p hold
      exact ⟨pre, i, post ++ [e], s, by simp, hs⟩
    · exact ⟨es, i, [], s, rfl, hs, hitem⟩

/-! ## A call that finds no cell -/

/-- The promise `n` is neither in the queue nor with the upstream manager. -/
structure Lost (P : Params υ κ) (n : ℕ) (st : BlockingLoop υ κ) : Prop where
  upstream : PromisesKept P.upstream st.sent st.fulfilled st.looper.manager.upstreamManager
  called : n < st.calls.length
  not_mem : ∀ item ∈ st.sent ++ st.promiseQueue.items, item.promise ≠ n

namespace Lost

variable {n : ℕ}

/-- A call that is lost stays lost in a step. -/
theorem step (h : st.Lost P n) (e : BlockingEvent υ κ) : (st.step P e).Lost P n := by
  have hupstream := promisesKept_step (e := e) h.upstream
  have hmove := move_step (P := P) st e
  generalize st.step P e = st' at hmove hupstream
  cases hmove with
  | rest => exact h
  | loop => exact ⟨hupstream, h.called, h.not_mem⟩
  | drain item promiseQueue _ _ hpop =>
    refine ⟨hupstream, h.called, fun item' hmem => h.not_mem item' ?_⟩
    rw [(BoundedQueue.pop_eq_some hpop).1]
    rwa [List.append_assoc] at hmem
  | call t output _ _ =>
    have hlength : (st.calls ++ [(t, (⟨st.calls.length, output⟩ : PromiseItem))]).length
        = st.calls.length + 1 := List.length_append
    refine ⟨hupstream, hlength ▸ h.called.trans (Nat.lt_succ_self _), fun item hmem => ?_⟩
    cases hpush : st.promiseQueue.push ⟨st.calls.length, output⟩ with
    | none =>
      rw [hpush, Option.getD_none] at hmem
      exact h.not_mem item hmem
    | some promiseQueue =>
      rw [hpush, Option.getD_some, (BoundedQueue.push_eq_some hpush).1, ← List.append_assoc] at hmem
      rcases List.mem_append.mp hmem with hmem | hmem
      · exact h.not_mem item hmem
      · rw [List.mem_singleton.mp hmem]
        exact h.called.ne'

/-- A call that is lost stays lost. -/
theorem exec (h : st.Lost P n) (es : List (BlockingEvent υ κ)) :
    (Runs.exec (BlockingLoop.step P) st es).Lost P n := by
  induction es generalizing st with
  | nil => exact h
  | cons e es ih => exact ih (h.step e)

omit [DecidableEq κ] in
/-- A promise whose call is lost is not fulfilled. -/
theorem not_fulfilled (h : st.Lost P n) : n ∉ st.fulfilled.map Prod.fst := by
  intro hmem
  obtain ⟨item, hitem, heq⟩ :=
    List.mem_map.mp (h.upstream.perm.subset (List.mem_append_left _ hmem))
  exact h.not_mem item (List.mem_append_left _ hitem) heq

end Lost

/-- **A call that finds the queue full is lost**. -/
theorem Kept.lost (h : st.Kept P) {t : ℕ} (hcall : st.CanCall t) (hfull : st.promiseQueue.Full)
    (output : Output) : (st.step P (.sendUpstreamBlocking t output)).Lost P st.calls.length := by
  rw [BlockingLoop.step, if_pos hcall]
  dsimp only
  rw [BoundedQueue.push_eq_none.mpr hfull, Option.getD_none]
  refine ⟨h.upstream, by simp, fun item hmem => ?_⟩
  have hmem : item ∈ st.sent ++ st.promiseQueue.items := hmem
  rw [h.sent] at hmem
  obtain ⟨c, hc, rfl⟩ := List.mem_map.mp hmem
  have hlt : c.2.promise ∈ List.range st.calls.length := h.promises ▸ List.mem_map_of_mem hc
  exact (List.mem_range.mp hlt).ne

/-! ## Schedules -/

/-- The state after `t` events of a schedule. -/
def run (P : Params υ κ) (e : ℕ → BlockingEvent υ κ) (t : ℕ) : BlockingLoop υ κ :=
  Runs.exec (BlockingLoop.step P) (BlockingLoop.init P) ((List.range t).map e)

/-- The loop keeps draining the queue. -/
def Drains (P : Params υ κ) (e : ℕ → BlockingEvent υ κ) : Prop :=
  ∀ t, ∃ u, t ≤ u ∧ e u = BlockingEvent.checkUpstreamBlockingIO ∧ (run P e u).looper.isFree = true

/-- Every request is done some time. -/
def Completes (P : Params υ κ) (e : ℕ → BlockingEvent υ κ) : Prop :=
  ∀ t, ∀ item ∈ (run P e t).flying, ∃ u, t ≤ u ∧ item ∉ (run P e u).flying

variable {e : ℕ → BlockingEvent υ κ}

/-- A run goes on with its next event. -/
theorem run_succ (P : Params υ κ) (e : ℕ → BlockingEvent υ κ) (t : ℕ) :
    run P e (t + 1) = (run P e t).step P (e t) := by
  unfold run
  rw [List.range_succ, List.map_append, Runs.exec_append]
  rfl

/-- An infinite run in which each call finds room has such runs for its beginnings. -/
theorem along_range (hroom : ∀ t, (run P e t).HasRoom (e t)) (t : ℕ) :
    Runs.Along (BlockingLoop.step P) HasRoom (BlockingLoop.init P) ((List.range t).map e) := by
  induction t with
  | zero => trivial
  | succ t ih =>
    rw [List.range_succ, List.map_append, Runs.along_append]
    exact ⟨ih, hroom t, trivial⟩

/-- Calls stay, and so does what was sent. -/
theorem prefix_step (st : BlockingLoop υ κ) (e : BlockingEvent υ κ) :
    st.calls <+: (st.step P e).calls ∧ st.sent <+: (st.step P e).sent := by
  have hmove := move_step (P := P) st e
  generalize st.step P e = st' at hmove
  cases hmove with
  | rest | loop => exact ⟨List.prefix_refl _, List.prefix_refl _⟩
  | call => exact ⟨List.prefix_append .., List.prefix_refl _⟩
  | drain => exact ⟨List.prefix_refl _, List.prefix_append ..⟩

/-- Calls are added behind the others. -/
theorem prefix_exec (st : BlockingLoop υ κ) (es : List (BlockingEvent υ κ)) :
    st.calls <+: (Runs.exec (BlockingLoop.step P) st es).calls := by
  induction es generalizing st with
  | nil => exact List.prefix_refl _
  | cons e es ih => exact (prefix_step st e).1.trans (ih _)

/-- Calls and requests that are sent are added behind the others. -/
theorem prefix_run {t u : ℕ} (h : t ≤ u) :
    (run P e t).calls <+: (run P e u).calls ∧ (run P e t).sent <+: (run P e u).sent := by
  induction u, h using Nat.le_induction with
  | base => exact ⟨List.prefix_refl _, List.prefix_refl _⟩
  | succ u _ ih =>
    rw [run_succ]
    obtain ⟨hcalls, hsent⟩ := prefix_step (P := P) (run P e u) (e u)
    exact ⟨ih.1.trans hcalls, ih.2.trans hsent⟩

/-- **The drain comes to every call** that has been made. -/
theorem eventually_sent (hkept : ∀ t, (run P e t).Kept P) (hdrains : Drains P e) {n : ℕ} (k : ℕ)
    {t : ℕ} (hcalled : n < (run P e t).calls.length) (hk : n < (run P e t).sent.length + k) :
    ∃ u, t ≤ u ∧ n < (run P e u).sent.length := by
  -- by induction on a bound for the calls that come before it in the queue
  induction k generalizing t with
  | zero => exact ⟨t, le_rfl, hk⟩
  | succ k ih =>
    obtain ⟨u, htu, hu, hfree⟩ := hdrains t
    obtain ⟨hcalls, hsent⟩ := prefix_run (P := P) (e := e) htu
    have hcallsLe := hcalls.length_le
    have hsentLe := hsent.length_le
    have hlength := congrArg List.length (hkept u).sent
    rw [List.length_append, List.length_map] at hlength
    cases hpop : (run P e u).promiseQueue.pop with
    | none =>
      -- an empty queue: all calls have been sent
      rw [BoundedQueue.pop_eq_none.mp hpop, List.length_nil] at hlength
      exact ⟨u, htu, by omega⟩
    | some p =>
      have hnext : run P e (u + 1) = _ := run_succ P e u
      rw [hu, BlockingLoop.step, hfree, hpop] at hnext
      have hnextCalls := congrArg (fun st => st.calls.length) hnext
      have hnextSent := congrArg (fun st => st.sent.length) hnext
      dsimp only at hnextCalls hnextSent
      rw [List.length_append, List.length_singleton] at hnextSent
      obtain ⟨v, huv, hv⟩ := ih (t := u + 1) (by omega) (by omega)
      exact ⟨v, by omega, hv⟩

/-- **No job waits forever**. -/
theorem eventually_fulfilled (hkept : ∀ t, (run P e t).Kept P) (hdrains : Drains P e)
    (hcompletes : Completes P e) {t : ℕ} {c : ℕ × PromiseItem} (hc : c ∈ (run P e t).calls) :
    ∃ u, t ≤ u ∧ c.2.promise ∈ (run P e u).fulfilled.map Prod.fst := by
  obtain ⟨n, hn, rfl⟩ := List.mem_iff_getElem.mp hc
  obtain ⟨u, htu, hsent⟩ := eventually_sent hkept hdrains (n + 1) hn (by omega)
  -- what was sent has the numbers of the first calls
  have hitem : (run P e t).calls[n].2 ∈ (run P e u).sent := by
    have hget := (prefix_run (P := P) (e := e) htu).1.getElem hn
    have hlength : n < ((run P e u).calls.map Prod.snd).length := by
      rw [← (hkept u).sent, List.length_append]
      omega
    have hmap : (run P e u).sent[n] = ((run P e u).calls.map Prod.snd)[n] := by
      simp only [← (hkept u).sent, List.getElem_append_left hsent]
    rw [List.getElem_map, ← hget] at hmap
    rw [← hmap]
    exact List.getElem_mem hsent
  by_cases hflying : (run P e t).calls[n].2 ∈ (run P e u).flying
  · obtain ⟨v, huv, hdone⟩ := hcompletes u _ hflying
    have hmem := (prefix_run (P := P) (e := e) huv).2.subset hitem
    exact ⟨v, htu.trans huv, ((hkept v).fulfilled_iff hmem).mpr hdone⟩
  · exact ⟨u, htu, ((hkept u).fulfilled_iff hitem).mpr hflying⟩

/-- **Blocking requests are kept as long as each call finds a free cell**: in every state each call
is in the queue or was sent, each in its turn, and what was sent is in flight or was fulfilled by
its reply; and no job waits forever when the loop keeps draining and every request is done. -/
theorem blocking_requests (hmax : P.upstream.maxConnections P.upstream.default = 0) :
    (∀ es : List (BlockingEvent υ κ),
      Runs.Along (BlockingLoop.step P) HasRoom (BlockingLoop.init P) es →
      let st := Runs.exec (BlockingLoop.step P) (BlockingLoop.init P) es
      st.sent ++ st.promiseQueue.items = st.calls.map Prod.snd ∧
      st.calls.map (fun c => c.2.promise) = List.range st.calls.length ∧
      (st.fulfilled.map Prod.fst ++ st.flying.map PromiseItem.promise).Perm
        (st.sent.map PromiseItem.promise) ∧
      (∀ item ∈ st.flying, item ∈ st.sent) ∧
      (∀ p ∈ st.fulfilled, ∃ pre i post s, es = pre ++ .loop (.upstreamReply i p.2) :: post ∧
        (Runs.exec (BlockingLoop.step P) (BlockingLoop.init P)
          pre).looper.manager.upstreamManager.senders[i]? = some s ∧
        ∃ item ∈ s.bt.items, item.promise = p.1) ∧
      ∀ t, st.Waits t ↔
        ∃ c ∈ st.calls, c.1 = t ∧ (c.2 ∈ st.promiseQueue.items ∨ c.2 ∈ st.flying)) ∧
    ∀ e : ℕ → BlockingEvent υ κ, (∀ t, (run P e t).HasRoom (e t)) → Drains P e → Completes P e →
      ∀ t, ∀ c ∈ (run P e t).calls, ∃ u, t ≤ u ∧ c.2.promise ∈ (run P e u).fulfilled.map Prod.fst := by
  refine ⟨fun es hroom => ?_, fun e hroom hdrains hcompletes t c hc => ?_⟩
  · have h : (Runs.exec (BlockingLoop.step P) (BlockingLoop.init P) es).Kept P := .exec hmax hroom
    exact ⟨h.sent, h.promises, h.upstream.perm, h.upstream.flight, (replied hmax es).2, h.waits_iff⟩
  · have hkept (t : ℕ) : (run P e t).Kept P := .exec hmax (along_range hroom t)
    exact eventually_fulfilled hkept hdrains hcompletes hc

/-! ## Calls of a pool with two threads -/

/-- A request for a worker handler, up to the job in the pool. -/
def jobRun : List (Event ℕ Unit) :=
  requestRun ⟨false, true, false⟩ [.ok, .ok, .ok, .ok, .ok]

/-- One job calls, and its request is sent. -/
def oneCall : List (BlockingEvent ℕ Unit) :=
  (jobRun ++ [Event.workerStart 0]).map .loop ++
    [.sendUpstreamBlocking 0 { body := "ping" }, BlockingEvent.checkUpstreamBlockingIO]

/-- Two jobs call, both requests are sent, and the second one is answered. -/
def twoSent : List (BlockingEvent ℕ Unit) :=
  (jobRun ++ jobRun ++ [Event.workerStart 0, Event.workerStart 1]).map .loop ++
    [.sendUpstreamBlocking 0 { body := "ping" }, .sendUpstreamBlocking 1 { body := "pong" },
      BlockingEvent.checkUpstreamBlockingIO, BlockingEvent.checkUpstreamBlockingIO,
      .loop (.upstreamReply 0 (some { body := "answer" }))]

/-- Three jobs: the worker of the third one replaces one that has been expelled. -/
def threeJobs : List (Event ℕ Unit) :=
  jobRun ++ jobRun ++ jobRun ++ [.workerStart 0, .workerStart 1, .workerStart 0]

/-- The first two of them call. -/
def twoCalls : List (BlockingEvent ℕ Unit) :=
  threeJobs.map .loop ++ [.sendUpstreamBlocking 0 {}, .sendUpstreamBlocking 1 {}]

/-- The events of the loop need no room. -/
theorem along_loop (st : BlockingLoop ℕ Unit) (es : List (Event ℕ Unit)) :
    Runs.Along (BlockingLoop.step smallParams) HasRoom st (es.map .loop) := by
  induction es generalizing st with
  | nil => trivial
  | cons e es ih => exact ⟨trivial, ih _⟩

/-- Both calls find room. -/
theorem along_twoSent : Runs.Along (BlockingLoop.step smallParams) HasRoom
    (BlockingLoop.init smallParams) twoSent := by
  unfold twoSent
  rw [Runs.along_append]
  refine ⟨along_loop _ _, fun _ hfull => ?_, fun _ hfull => ?_, trivial, trivial, trivial, trivial⟩
  · cases hfull
  · cases hfull

/-- The first two of the calls find room. -/
theorem along_twoCalls : Runs.Along (BlockingLoop.step smallParams) HasRoom
    (BlockingLoop.init smallParams) twoCalls := by
  unfold twoCalls
  rw [Runs.along_append]
  refine ⟨along_loop _ _, fun _ hfull => ?_, fun _ hfull => ?_, trivial⟩
  · cases hfull
  · cases hfull

/-- The first job waits, and its request is in flight; the second one goes on. -/
theorem blocking_requests_twoSent :
    let st := Runs.exec (BlockingLoop.step smallParams) (BlockingLoop.init smallParams) twoSent
    st.flying = [⟨0, { body := "ping" }⟩] ∧ st.fulfilled = [(1, some { body := "answer" })] ∧
      st.Waits 0 ∧ ¬ st.Waits 1 := by
  obtain ⟨-, -, -, -, -, hwaits⟩ := (blocking_requests (P := smallParams) rfl).1 twoSent along_twoSent
  have hflying : (Runs.exec (BlockingLoop.step smallParams) (BlockingLoop.init smallParams)
      twoSent).flying = [⟨0, { body := "ping" }⟩] := rfl
  have hqueue : (Runs.exec (BlockingLoop.step smallParams) (BlockingLoop.init smallParams)
      twoSent).promiseQueue.items = [] := rfl
  have hcalls : (Runs.exec (BlockingLoop.step smallParams) (BlockingLoop.init smallParams)
      twoSent).calls = [(0, ⟨0, { body := "ping" }⟩), (1, ⟨1, { body := "pong" }⟩)] := rfl
  refine ⟨hflying, rfl, (hwaits 0).mpr ?_, fun h => ?_⟩
  · rw [hcalls, hflying]
    exact ⟨_, List.mem_cons_self, rfl, .inr (List.mem_singleton.mpr rfl)⟩
  · obtain ⟨c, hc, hjob, hpending⟩ := (hwaits 1).mp h
    simp only [hcalls, List.mem_cons, List.not_mem_nil, or_false] at hc
    simp only [hqueue, hflying, List.not_mem_nil, List.mem_singleton, false_or] at hpending
    rcases hc with rfl | rfl
    · cases hjob
    · cases hpending

/-- After two calls the queue is full, and a third job can call. -/
theorem twoCalls_full :
    let st := Runs.exec (BlockingLoop.step smallParams) (BlockingLoop.init smallParams) twoCalls
    st.CanCall 2 ∧ st.promiseQueue.Full ∧ st.calls.length = 2 := by
  refine ⟨⟨rfl, ?_, ?_⟩, rfl, rfl⟩
  · decide +kernel
  · decide +kernel

/-- **Three calls for two cells**: whatever happens afterwards, the third one is never sent, its
promise is never fulfilled, and its job waits. -/
theorem third_call_lost :
    let st := Runs.exec (BlockingLoop.step smallParams) (BlockingLoop.init smallParams) twoCalls
    st.CanCall 2 ∧ ∀ es : List (BlockingEvent ℕ Unit),
      let st := Runs.exec (BlockingLoop.step smallParams) st (.sendUpstreamBlocking 2 {} :: es)
      (2, ⟨2, {}⟩) ∈ st.calls ∧ (∀ item ∈ st.sent, item.promise ≠ 2) ∧
        2 ∉ st.fulfilled.map Prod.fst ∧ st.Waits 2 := by
  obtain ⟨hcall, hfull, hlength⟩ := twoCalls_full
  have hkept := Kept.exec (P := smallParams) rfl along_twoCalls
  generalize Runs.exec (BlockingLoop.step smallParams) (BlockingLoop.init smallParams) twoCalls = st
    at hcall hfull hlength hkept
  refine ⟨hcall, fun es => ?_⟩
  rw [Runs.exec_cons]
  have hlost := (hkept.lost hcall hfull {}).exec es
  rw [hlength] at hlost
  have hcalls : (2, ⟨2, {}⟩) ∈ (st.step smallParams (.sendUpstreamBlocking 2 {})).calls := by
    rw [BlockingLoop.step, if_pos hcall, ← hlength]
    exact List.mem_append_right _ (List.mem_singleton.mpr rfl)
  have hcalls' := (prefix_exec (P := smallParams) _ es).subset hcalls
  refine ⟨hcalls', fun item hitem => hlost.not_mem item (List.mem_append_left _ hitem),
    hlost.not_fulfilled, _, hcalls', rfl, hlost.not_fulfilled⟩

end BlockingLoop

end TaskManager
