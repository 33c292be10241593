/-
# The end of the loop

`Looper::serve` and `Looper::stop` (`connection.cpp`), around the events of the loop.  Each
iteration polls the connections and then makes its passes: the timers, the blocking requests, the
periodic tasks, the postponed tasks.  After a forced stop the passes are skipped, and the loop is
left as soon as `canStop` (`task.cpp`) says so.

* `Server.step`: an event of the loop, a call of `stop`, or the end of a poll or of the passes;
* `Counted`: the counters of `UpstreamManager` count the requests in flight;
* `leaves_iff_not_pending`: when nothing is under way, the loop is left iff no client waits.
-/
import GraftSupernode.BlockingRequests
import GraftSupernode.TaskRuns
import Mathlib.Algebra.Order.BigOperators.Group.Finset

namespace TaskManager

variable {υ κ : Type*} [LinearOrder υ]

/-- `TaskManager::canStop` -/
def State.canStop (m : State υ κ) : Bool :=
  m.cntBaseTask = m.cntBaseTaskDone && !m.upstreamManager.busy && m.cntJobSent = m.cntJobDone

/-- What comes from the connections, when they are polled. -/
def Event.isConnection : Event υ κ → Bool
  | .newClient _ _ | .closeClient _ | .jobReady | .upstreamReply _ _ | .closeIdle _ _ => true
  | _ => false

/-- What the passes after the poll do. -/
def Event.isPass : Event υ κ → Bool
  | .timer _ | .checkUpstreamBlocking _ _ | .resume | .expire => true
  | _ => false

/-- `Looper::serve`: `polling` is false in the passes, `left` is true when the loop has been
left. -/
structure Server (υ κ : Type*) [LinearOrder υ] where
  looper : Looper υ κ
  stopped : Bool
  forceStop : Bool
  polling : Bool
  left : Bool

/-- What happens: an event of the loop, a call of `stop`, or the poll or the passes are over. -/
inductive ServerEvent (υ κ : Type*)
  | loop (e : Event υ κ)
  | stop (force : Bool)
  | next

namespace Server

/-- The server before its first iteration. -/
def init (P : Params υ κ) : Server υ κ := ⟨.init P, false, false, true, false⟩

/-- `Looper::stop` -/
def stop (s : Server υ κ) (force : Bool) : Server υ κ :=
  { s with stopped := true, forceStop := s.forceStop || force }

/-- The checks of `Looper::serve`. -/
def next (s : Server υ κ) : Server υ κ :=
  if s.polling then
    if s.forceStop then { s with left := s.looper.manager.canStop }
    else { s with polling := false }
  else { s with polling := true, left := s.stopped && s.looper.manager.canStop }

/-- The event can happen where the loop is. -/
def allows (s : Server υ κ) (e : Event υ κ) : Bool :=
  if s.polling then !e.isPass else !e.isConnection

/-- One event; one that cannot happen changes nothing. -/
def step [DecidableEq κ] (P : Params υ κ) (s : Server υ κ) : ServerEvent υ κ → Server υ κ
  | .loop e => if !s.left && s.allows e then { s with looper := s.looper.step P e } else s
  | .stop force => s.stop force
  | .next => if !s.left && s.looper.isFree then s.next else s

end Server

/-- A client waits: its task is postponed, or ready to be resumed, or in the queue of a node. -/
def State.ClientWaits (m : State υ κ) (t : ℕ) : Prop :=
  (m.task t).kind = .client ∧
    ((∃ u, m.postponedTasks u = some t) ∨ t ∈ m.readyToResume ∨
      ∃ k, .base t ∈ (m.upstreamManager.item k).taskQueue)

/-! ## The requests in flight are counted -/

/-- `m_cntUpstreamSender` and `m_cntUpstreamSenderDone` differ by the requests in flight. -/
def Counted (um : UpstreamManager SentTask κ) : Prop :=
  um.cntUpstreamSender = um.cntUpstreamSenderDone + um.senders.length

namespace Counted

variable {um um' : UpstreamManager SentTask κ}

/-- The manager is busy as long as a request is in flight. -/
theorem busy_iff (h : Counted um) : um.busy = true ↔ um.senders ≠ [] := by
  rw [UpstreamManager.busy, decide_eq_true_iff, ← List.length_pos_iff]
  rw [Counted] at h
  omega

/-- A request that ends is counted. -/
theorem finish (h : Counted um) {i : ℕ} {s : UpstreamSender SentTask κ}
    (hs : um.senders[i]? = some s) : Counted (um.finish i) := by
  obtain ⟨hi, -⟩ := List.getElem?_eq_some_iff.mp hs
  have hlength := List.length_eraseIdx_add_one hi
  rw [Counted] at h
  show um.cntUpstreamSender = um.cntUpstreamSenderDone + 1 + (um.senders.eraseIdx i).length
  omega

variable [DecidableEq κ]

/-- The pools of connections are not counted. -/
theorem setItem (h : Counted um) (k : κ) (c : ConnItem SentTask) : Counted (um.setItem k c) := h

/-- A request that is created is counted. -/
theorem createUpstreamSender (h : Counted um) (cfg : UpstreamConfig κ) (k : κ) (bt : SentTask)
    (uri : String) : Counted (um.createUpstreamSender cfg k bt uri) := by
  have hadd : um.cntUpstreamSender + 1 = um.cntUpstreamSenderDone + (um.senders.length + 1) := by
    rw [Counted] at h
    omega
  unfold UpstreamManager.createUpstreamSender
  dsimp only
  split <;> exact hadd

/-- A request that is sent, or waits, is counted. -/
theorem send {cfg : UpstreamConfig κ} (h : Counted um) {bt : SentTask} {uri : String}
    (hsend : um.send cfg bt uri = some um') : Counted um' := by
  obtain ⟨k, -, rfl⟩ := Option.map_eq_some_iff.mp hsend
  dsimp only
  split
  · exact h.setItem _ _
  · exact h.createUpstreamSender cfg k bt uri

/-- Quiet changes are counted. -/
theorem quiet {cfg : UpstreamConfig κ} (h : Counted um) (hquiet : Quiet cfg um um') :
    Counted um' := by
  induction hquiet with
  | refl => exact h
  | tail _ hstep ih =>
    cases hstep with
    | send hsend => exact ih.send hsend
    | next uri k connectionId client =>
      unfold UpstreamManager.next
      dsimp only
      split
      · exact ih.setItem _ _
      · exact (ih.setItem _ _).createUpstreamSender _ _ _ _
    | closeIdle k client => exact ih.setItem _ _

/-- **An event** keeps the count: what changes is quiet, or a reply, or a blocking request. -/
theorem step {P : Params υ κ} {l : Looper υ κ} (h : Counted l.manager.upstreamManager)
    (e : Event υ κ) : Counted (l.step P e).manager.upstreamManager := by
  by_cases he : ∀ n output, e ≠ .checkUpstreamBlocking n output
  · cases Looper.change_step (P := P) (l := l) he with
    | quiet hquiet _ => exact h.quiet hquiet
    | reply i reply s _ hs hquiet _ => exact (h.finish hs).quiet hquiet
  · push Not at he
    obtain ⟨n, output, rfl⟩ := he
    unfold Looper.step
    split
    · exact h
    · dsimp only
      split
      · simp only [Looper.idleStep]
        split
        · exact h
        · rename_i m hm
          obtain ⟨um, hsend, rfl⟩ := Option.map_eq_some_iff.mp hm
          exact h.send hsend
      · exact h

end Counted

/-! ## The clients that wait -/

section

variable [Fintype κ] {P : Params υ κ} {m : State υ κ}

/-- With no request in flight, the tasks that are with the upstream manager are those in its
queues. -/
theorem upstreams_pos_iff (hsenders : m.upstreamManager.senders = []) (t : ℕ) :
    0 < m.upstreams t ↔ ∃ k, .base t ∈ (m.upstreamManager.item k).taskQueue := by
  rw [State.upstreams, UpstreamManager.holds, hsenders, List.countP_nil, zero_add,
    Finset.sum_pos_iff]
  refine exists_congr fun k => ?_
  rw [and_iff_right (Finset.mem_univ k), List.countP_pos_iff]
  constructor
  · rintro ⟨bt, hbt, hbase⟩
    cases bt with
    | base t' =>
      rw [SentTask.isBase_base, decide_eq_true_iff] at hbase
      rwa [← hbase]
    | upstream n output => cases hbase
  · intro hmem
    exact ⟨.base t, hmem, decide_eq_true rfl⟩

/-- A task that is postponed is found under its own id. -/
theorem Placed.postponed_iff (h : Placed P none m) (t : ℕ) :
    0 < (m.postponedTasks (P.uuid t)).toList.count t ↔ ∃ u, m.postponedTasks u = some t := by
  rw [List.count_pos_iff, Option.mem_toList]
  constructor
  · intro hmem
    exact ⟨_, hmem⟩
  · rintro ⟨u, hu⟩
    rw [h.postponed u t hu] at hu
    exact hu

/-- **A client waits iff it has not been answered**, when nothing is in hand, with the pool or in
flight. -/
theorem Placed.clientWaits_iff (h : Placed P none m) (hjobs : m.jobs = [])
    (hsenders : m.upstreamManager.senders = []) (t : ℕ) :
    m.ClientWaits t ↔ (m.task t).kind = .client ∧ (m.task t).self = true := by
  refine and_congr_right fun hkind => ?_
  -- the timer list has periodic tasks only
  have htimer : m.timerList.count t = 0 := by
    rw [List.count_eq_zero]
    intro hmem
    rw [h.timerKind t hmem] at hkind
    cases hkind
  have hplaces := h.places t
  rw [State.stored, hjobs, htimer, List.count_nil, Option.toList_none, List.count_nil] at hplaces
  rw [← h.postponed_iff, ← upstreams_pos_iff hsenders, ← List.count_pos_iff (l := m.readyToResume)]
  -- what is left of the places adds up to the self reference
  cases hself : (m.task t).self with
  | false =>
    rw [hself, Bool.toNat_false] at hplaces
    refine iff_of_false ?_ Bool.false_ne_true
    omega
  | true =>
    rw [hself, Bool.toNat_true] at hplaces
    refine iff_of_true ?_ rfl
    omega

/-- **The loop can stop iff no client waits**, when nothing is under way. -/
theorem Conserved.canStop_iff {l : Looper υ κ} (h : Conserved P l) (hfree : l.isFree = true)
    (hcounted : Counted l.manager.upstreamManager) (hjobs : l.manager.jobs = [])
    (hsenders : l.manager.upstreamManager.senders = []) :
    l.manager.canStop = true ↔ ∀ t, ¬ l.manager.ClientWaits t := by
  have hphase : l.phase = .idle := by
    unfold Looper.isFree at hfree
    split at hfree
    · assumption
    · cases hfree
  have hplaced := h.placed_of_idle hphase
  have hbusy : l.manager.upstreamManager.busy = false := by
    rw [← Bool.not_eq_true, hcounted.busy_iff, not_not]
    exact hsenders
  have hcount := h.jobs.count
  rw [hjobs, List.length_nil, add_zero] at hcount
  have hcounters := h.books.counters
  have hempty : l.manager.cntBaseTask = l.manager.cntBaseTaskDone ↔ l.manager.liveClients = ∅ := by
    rw [← Finset.card_eq_zero]
    omega
  rw [State.canStop, hbusy, hcount, decide_eq_true rfl, Bool.not_false, Bool.and_true,
    Bool.and_true, decide_eq_true_iff, hempty, Finset.eq_empty_iff_forall_notMem]
  refine forall_congr' fun t => not_congr ?_
  rw [hplaced.clientWaits_iff hjobs hsenders, State.mem_liveClients]
  refine and_iff_right_of_imp fun hclient => ?_
  by_contra hle
  have hself := hplaced.fresh t (not_lt.mp hle)
  rw [hclient.2] at hself
  cases hself

end

/-! ## Runs of the server -/

namespace Server

variable [Fintype κ] [DecidableEq κ] {P : Params υ κ} {s : Server υ κ}

/-- What is kept while the server runs. -/
structure Kept (P : Params υ κ) (s : Server υ κ) : Prop where
  conserved : Conserved P s.looper
  counted : Counted s.looper.manager.upstreamManager
  stopped : s.forceStop = true → s.stopped = true

omit [DecidableEq κ] in
/-- In the beginning nothing is stopped. -/
theorem Kept.init : Kept P (.init P) := ⟨.init, rfl, fun h => by cases h⟩

omit [DecidableEq κ] in
/-- The next round keeps the books. -/
theorem Kept.next (h : Kept P s) : Kept P s.next := by
  unfold Server.next
  split
  · split
    · exact ⟨h.conserved, h.counted, h.stopped⟩
    · exact ⟨h.conserved, h.counted, h.stopped⟩
  · exact ⟨h.conserved, h.counted, h.stopped⟩

/-- Every event keeps the books. -/
theorem Kept.step (h : Kept P s) (e : ServerEvent υ κ) : Kept P (s.step P e) := by
  cases e with
  | loop e =>
    unfold Server.step
    dsimp only
    split
    · exact ⟨h.conserved.step e, h.counted.step e, h.stopped⟩
    · exact h
  | stop force => exact ⟨h.conserved, h.counted, fun _ => rfl⟩
  | next =>
    unfold Server.step
    dsimp only
    split
    · exact h.next
    · exact h

/-- Every run keeps the books. -/
theorem Kept.exec (es : List (ServerEvent υ κ)) :
    Kept P (Runs.exec (Server.step P) (.init P) es) :=
  Runs.exec_of_step (fun _ e h => h.step e) .init es

/-- After a forced stop each check leaves the loop if it can. -/
theorem Kept.left_next (h : Kept P s) (hforce : s.forceStop = true) (hleft : s.left = false)
    (hfree : s.looper.isFree = true) :
    (s.step P .next).left = s.looper.manager.canStop := by
  have hstep : s.step P .next = s.next := by simp [Server.step, hleft, hfree]
  rw [hstep, Server.next, hforce, h.stopped hforce]
  split <;> rfl

omit [Fintype κ] in
/-- A check that does not leave the loop changes nothing. -/
theorem next_eq_self (hforce : s.forceStop = true) (hpolling : s.polling = true)
    (hleft : s.left = false) (hcan : s.looper.manager.canStop = false) : s.step P .next = s := by
  have hnext : s.next = s := by
    rw [Server.next, if_pos hpolling, if_pos hforce, hcan, ← hleft]
  show (if !s.left && s.looper.isFree then s.next else s) = s
  rw [hnext, ite_self]

/-- **After a forced stop** the loop is left at its next check iff no client waits, in every state
in which no job is with the pool and no request is in flight. -/
theorem leaves_iff_not_pending (es : List (ServerEvent υ κ)) :
    let s := Runs.exec (Server.step P) (.init P) es
    s.forceStop = true → s.left = false → s.looper.isFree = true →
      s.looper.manager.jobs = [] → s.looper.manager.upstreamManager.senders = [] →
      ((s.step P .next).left = true ↔ ∀ t, ¬ s.looper.manager.ClientWaits t) := by
  intro s hforce hleft hfree hjobs hsenders
  have h : Kept P s := .exec es
  rw [h.left_next hforce hleft hfree]
  exact h.conserved.canStop_iff hfree h.counted hjobs hsenders

/-! ## A client that is postponed -/

/-- A client's request is postponed, and then the server is stopped. -/
def postponedRun : List (ServerEvent ℕ Unit) :=
  (requestRun ⟨true, false, false⟩ (List.replicate 8 .postpone)).map .loop ++ [.stop true]

/-- A request that is answered, and then the server is stopped. -/
def answeredRun : List (ServerEvent ℕ Unit) :=
  (requestRun ⟨true, false, false⟩ (List.replicate 8 .ok)).map .loop ++ [.stop true]

/-- The loop of the sample is free again when the request has been answered. -/
theorem answeredRun_free :
    let s := Runs.exec (Server.step smallParams) (.init smallParams) answeredRun
    s.forceStop = true ∧ s.left = false ∧ s.looper.isFree = true ∧ s.looper.manager.jobs = [] ∧
      s.looper.manager.upstreamManager.senders = [] := ⟨rfl, rfl, rfl, rfl, rfl⟩

/-- With no client that waits the loop is left. -/
theorem leaves_answeredRun :
    let s := Runs.exec (Server.step smallParams) (.init smallParams) answeredRun
    (s.step smallParams .next).left = true ↔ ∀ t, ¬ s.looper.manager.ClientWaits t := by
  obtain ⟨hforce, hleft, hfree, hjobs, hsenders⟩ := answeredRun_free
  exact leaves_iff_not_pending (P := smallParams) answeredRun hforce hleft hfree hjobs hsenders

/-- **A postponed client keeps the server from stopping**: nothing is under way, and the loop goes
on, however often it is polled. -/
theorem postponed_keeps_running :
    let s := Runs.exec (Server.step smallParams) (.init smallParams) postponedRun
    s.forceStop = true ∧ s.looper.isFree = true ∧ s.looper.manager.jobs = [] ∧
      s.looper.manager.upstreamManager.senders = [] ∧
      ∀ n, (Runs.exec (Server.step smallParams) s (List.replicate n .next)).left = false := by
  intro s
  have hforce : s.forceStop = true := rfl
  have hfree : s.looper.isFree = true := rfl
  have hjobs : s.looper.manager.jobs = [] := rfl
  have hsenders : s.looper.manager.upstreamManager.senders = [] := rfl
  have hpolling : s.polling = true := rfl
  have hleft : s.left = false := rfl
  have hcan : s.looper.manager.canStop = false := rfl
  clear_value s
  refine ⟨hforce, hfree, hjobs, hsenders, fun n => ?_⟩
  have hnext : s.step smallParams .next = s := next_eq_self hforce hpolling hleft hcan
  induction n with
  | zero => exact hleft
  | succ n ih =>
    rw [List.replicate_succ, Runs.exec_cons, hnext]
    exact ih

end Server

end TaskManager
