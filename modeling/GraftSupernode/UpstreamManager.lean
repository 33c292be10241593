/-
# Upstream requests

`UpstreamManager` (`task.cpp`), over any type of tasks.  A `ConnItem` is an upstream node: the
default one (the cryptonode), or one that the configuration names.  It limits the connections to
the node, keeps idle ones for reuse, and queues the tasks that must wait for a connection.

* `send`: a request, or a place in the queue;
* `createUpstreamSender`: a request that is now in flight;
* `onDone`: a request that has been answered, in two parts, since the callback to the task
  manager comes between them (`finish`, `next`).

`holds` counts the tasks that are in flight or queued; the lemmas say what each operation does to
it.  Connections are numbers, in the order of `address`, as the pointers of the source are.
-/
import Mathlib.Algebra.BigOperators.Group.Finset.Basic
import Mathlib.Algebra.Order.Group.Int
import Mathlib.Data.Fintype.Basic
import Mathlib.Data.List.Basic

/-- `UpstreamManager::ConnItem`.  The maps are lists in the order of their keys. -/
structure ConnItem (τ : Type*) where
  uri : String
  maxConnections : ℤ
  keepAlive : Bool
  newId : ℕ := 0
  connCnt : ℤ := 0
  taskQueue : List τ := []
  idleConnections : List (ℕ × ℕ) := []
  activeConnections : List (ℕ × Option ℕ) := []

/-- `std::map::emplace`: an item that is there stays. -/
def emplace {β : Type*} (k : ℕ) (v : β) : List (ℕ × β) → List (ℕ × β)
  | [] => [(k, v)]
  | (k', v') :: l =>
    if k < k' then (k, v) :: (k', v') :: l
    else if k = k' then (k', v') :: l
    else (k', v') :: emplace k v l

namespace ConnItem

variable {τ : Type*}

/-- `ConnItem::getConnection`: the connection's id, and the idle connection that is reused. -/
def getConnection (c : ConnItem τ) : (ℕ × Option ℕ) × ConnItem τ :=
  if c.keepAlive then
    match c.idleConnections with
    | (client, connectionId) :: idle =>
      ((connectionId, some client),
        { c with
          idleConnections := idle
          activeConnections := emplace connectionId (some client) c.activeConnections })
    | [] =>
      ((c.newId + 1, none),
        { c with
          connCnt := c.connCnt + 1
          newId := c.newId + 1
          activeConnections := emplace (c.newId + 1) none c.activeConnections })
  else ((0, none), { c with connCnt := c.connCnt + 1 })

/-- `ConnItem::releaseActive` -/
def releaseActive (c : ConnItem τ) (connectionId : ℕ) (client : Option ℕ) : ConnItem τ :=
  if c.keepAlive then
    let active := c.activeConnections.filter fun e => e.1 ≠ connectionId
    match client with
    | some client =>
      { c with
        idleConnections := emplace client connectionId c.idleConnections
        activeConnections := active }
    | none => { c with connCnt := c.connCnt - 1, activeConnections := active }
  else c

/-- `ConnItem::onCloseIdle` -/
def onCloseIdle (c : ConnItem τ) (client : ℕ) : ConnItem τ :=
  { c with
    connCnt := c.connCnt - 1
    idleConnections := c.idleConnections.filter fun e => e.1 ≠ client }

/-- The assertions of `ConnItem::getConnection`. -/
def getConnectionAsserts (c : ConnItem τ) : Bool :=
  (c.maxConnections = 0 || c.connCnt ≤ c.maxConnections) &&
    (!c.keepAlive || c.getConnection.1.1 ∉ c.activeConnections.map Prod.fst &&
      c.getConnection.2.connCnt = c.getConnection.2.idleConnections.length
        + c.getConnection.2.activeConnections.length)

/-- The assertions of `ConnItem::releaseActive`. -/
def releaseActiveAsserts (c : ConnItem τ) (connectionId : ℕ) (client : Option ℕ) : Bool :=
  (c.keepAlive || connectionId = 0 && client = none) &&
    (!c.keepAlive || match c.activeConnections.find? fun e => e.1 = connectionId with
      | none => false
      | some e => e.2 = none || client = none || e.2 = client)

/-- The assertions of `ConnItem::onCloseIdle`. -/
def onCloseIdleAsserts (c : ConnItem τ) (client : ℕ) : Bool :=
  c.keepAlive && client ∈ c.idleConnections.map Prod.fst

/-- All connections are in use, and there may be no more of them. -/
def full (c : ConnItem τ) : Bool :=
  c.maxConnections ≠ 0 && c.idleConnections.isEmpty && c.connCnt = c.maxConnections

@[simp] theorem getConnection_taskQueue (c : ConnItem τ) :
    c.getConnection.2.taskQueue = c.taskQueue := by
  unfold getConnection
  split
  · split <;> rfl
  · rfl

@[simp] theorem releaseActive_taskQueue (c : ConnItem τ) (connectionId : ℕ) (client : Option ℕ) :
    (c.releaseActive connectionId client).taskQueue = c.taskQueue := by
  unfold releaseActive
  split
  · cases client <;> rfl
  · rfl

@[simp] theorem onCloseIdle_taskQueue (c : ConnItem τ) (client : ℕ) :
    (c.onCloseIdle client).taskQueue = c.taskQueue := rfl

end ConnItem

/-- `UpstreamSender`: a request in flight, for the node `conn`. -/
structure UpstreamSender (τ κ : Type*) where
  bt : τ
  conn : κ
  uri : String
  keepAlive : Bool
  connectionId : ℕ
  upstream : ℕ

/-- What `UpstreamManager` is configured with: the default node and the nodes by name
(`OutHttp::uri_substitutions`).  `address` gives the pointer to the `n`-th connection. -/
structure UpstreamConfig (κ : Type*) where
  default : κ
  conn2item : String → Option κ
  uri : κ → String
  maxConnections : κ → ℤ
  keepAlive : κ → Bool
  address : ℕ → ℕ

/-- The node for a uri; `none` is the exception "cannot find uri substitution". -/
def UpstreamConfig.connItem {κ : Type*} (cfg : UpstreamConfig κ) (uri : String) : Option κ :=
  match uri.toList with
  | '$' :: name => cfg.conn2item (String.ofList name)
  | _ => some cfg.default

/-- `UpstreamManager`: the nodes, and the requests in flight. -/
structure UpstreamManager (τ κ : Type*) where
  cntUpstreamSender : ℕ
  cntUpstreamSenderDone : ℕ
  item : κ → ConnItem τ
  senders : List (UpstreamSender τ κ)
  cntConnections : ℕ

namespace UpstreamManager

variable {τ κ : Type*}

/-- `UpstreamManager::init` -/
def init (cfg : UpstreamConfig κ) : UpstreamManager τ κ where
  cntUpstreamSender := 0
  cntUpstreamSenderDone := 0
  item k :=
    { uri := cfg.uri k, maxConnections := cfg.maxConnections k, keepAlive := cfg.keepAlive k }
  senders := []
  cntConnections := 0

/-- `UpstreamManager::busy` -/
def busy (m : UpstreamManager τ κ) : Bool := m.cntUpstreamSender ≠ m.cntUpstreamSenderDone

section operations

variable [DecidableEq κ] (cfg : UpstreamConfig κ)

/-- The node `k` is changed. -/
def setItem (m : UpstreamManager τ κ) (k : κ) (c : ConnItem τ) : UpstreamManager τ κ :=
  { m with item := Function.update m.item k c }

/-- `UpstreamManager::createUpstreamSender`, for a task whose output has the uri `uri`: only a
node that keeps connections alive counts them. -/
def createUpstreamSender (m : UpstreamManager τ κ) (k : κ) (bt : τ) (uri : String) :
    UpstreamManager τ κ :=
  let c := m.item k
  let url := if k ≠ cfg.default || uri = "" then c.uri else uri
  let m := { m with cntUpstreamSender := m.cntUpstreamSender + 1 }
  if c.keepAlive then
    let (res, c) := c.getConnection
    let (upstream, cnt) := match res.2 with
      | some client => (client, m.cntConnections)
      | none => (cfg.address m.cntConnections, m.cntConnections + 1)
    { m.setItem k c with
      senders := ⟨bt, k, url, true, res.1, upstream⟩ :: m.senders
      cntConnections := cnt }
  else
    { m with
      senders := ⟨bt, k, url, false, 0, cfg.address m.cntConnections⟩ :: m.senders
      cntConnections := m.cntConnections + 1 }

/-- The assertions of `createUpstreamSender`, which gets a connection of a node that keeps them
alive. -/
def createAsserts (m : UpstreamManager τ κ) (k : κ) : Bool :=
  !(m.item k).keepAlive || (m.item k).getConnectionAsserts

/-- `UpstreamManager::send`; `none` is an exception. -/
def send (m : UpstreamManager τ κ) (bt : τ) (uri : String) : Option (UpstreamManager τ κ) :=
  (cfg.connItem uri).map fun k =>
    let c := m.item k
    if c.full then m.setItem k { c with taskQueue := c.taskQueue ++ [bt] }
    else m.createUpstreamSender cfg k bt uri

/-- The assertions of `send`. -/
def sendAsserts (m : UpstreamManager τ κ) (uri : String) : Bool :=
  match cfg.connItem uri with
  | none => true
  | some k => (m.item k).full || m.createAsserts k

/-- `UpstreamManager::onDone` before the callback: the `i`-th request is no longer in flight. -/
def finish (m : UpstreamManager τ κ) (i : ℕ) : UpstreamManager τ κ :=
  { m with
    cntUpstreamSenderDone := m.cntUpstreamSenderDone + 1
    senders := m.senders.eraseIdx i }

/-- `UpstreamManager::onDone` after the callback: the connection is released, and the first task
of the queue is sent. -/
def next (m : UpstreamManager τ κ) (uri : τ → String) (k : κ) (connectionId : ℕ)
    (client : Option ℕ) : UpstreamManager τ κ :=
  let c := (m.item k).releaseActive connectionId client
  match c.taskQueue with
  | [] => m.setItem k c
  | bt :: taskQueue =>
    (m.setItem k { c with taskQueue := taskQueue }).createUpstreamSender cfg k bt (uri bt)

/-- The assertions of `onDone` after the callback. -/
def nextAsserts (m : UpstreamManager τ κ) (k : κ) (connectionId : ℕ) (client : Option ℕ) : Bool :=
  (m.item k).releaseActiveAsserts connectionId client &&
    let c := (m.item k).releaseActive connectionId client
    match c.taskQueue with
    | [] => true
    | _ :: taskQueue => (m.setItem k { c with taskQueue := taskQueue }).createAsserts k

/-- An idle connection of the node `k` is closed. -/
def closeIdle (m : UpstreamManager τ κ) (k : κ) (client : ℕ) : UpstreamManager τ κ :=
  m.setItem k ((m.item k).onCloseIdle client)

/-! ## The tasks that are held -/

variable [Fintype κ] (p : τ → Bool)

/-- The tasks in flight or queued that satisfy `p`. -/
def holds (m : UpstreamManager τ κ) : ℕ :=
  m.senders.countP (fun s => p s.bt) + ∑ k, (m.item k).taskQueue.countP p

omit [DecidableEq κ] in
@[simp] theorem holds_init : (init cfg : UpstreamManager τ κ).holds p = 0 := by
  simp [holds, init]

/-- **A change of one node** changes the count by what it does to the node's queue. -/
theorem holds_setItem (m : UpstreamManager τ κ) (k : κ) (c : ConnItem τ) :
    (m.setItem k c).holds p + (m.item k).taskQueue.countP p = m.holds p + c.taskQueue.countP p := by
  have hrest : ∑ k' ∈ Finset.univ.erase k, (Function.update m.item k c k').taskQueue.countP p
      = ∑ k' ∈ Finset.univ.erase k, (m.item k').taskQueue.countP p :=
    Finset.sum_congr rfl fun k' hk' => by rw [Function.update_of_ne (Finset.ne_of_mem_erase hk')]
  have hnew := Finset.add_sum_erase Finset.univ
    (fun k' => (Function.update m.item k c k').taskQueue.countP p) (Finset.mem_univ k)
  have hold := Finset.add_sum_erase Finset.univ
    (fun k' => (m.item k').taskQueue.countP p) (Finset.mem_univ k)
  rw [hrest, Function.update_self] at hnew
  simp only [holds, setItem, ← hnew, ← hold]
  omega

theorem holds_setItem_of_eq (m : UpstreamManager τ κ) {k : κ} {c : ConnItem τ}
    (h : c.taskQueue = (m.item k).taskQueue) : (m.setItem k c).holds p = m.holds p := by
  have := holds_setItem p m k c
  rw [h] at this
  omega

/-- **A request in flight** holds its task. -/
theorem holds_createUpstreamSender (m : UpstreamManager τ κ) (k : κ) (bt : τ) (uri : String) :
    (m.createUpstreamSender cfg k bt uri).holds p = m.holds p + if p bt then 1 else 0 := by
  unfold createUpstreamSender
  dsimp only
  split
  · have := holds_setItem_of_eq p m (k := k) (c := (m.item k).getConnection.2) (by simp)
    simp only [holds, setItem, List.countP_cons] at this ⊢
    omega
  · simp only [holds, List.countP_cons]
    omega

/-- **A task that is sent** is held. -/
theorem holds_send {m m' : UpstreamManager τ κ} {bt : τ} {uri : String}
    (h : m.send cfg bt uri = some m') : m'.holds p = m.holds p + if p bt then 1 else 0 := by
  obtain ⟨k, -, rfl⟩ := Option.map_eq_some_iff.mp h
  dsimp only
  split
  · have := holds_setItem p m k { m.item k with taskQueue := (m.item k).taskQueue ++ [bt] }
    simp only [List.countP_append, List.countP_singleton] at this
    omega
  · exact holds_createUpstreamSender cfg p m k bt uri

omit [DecidableEq κ] in
/-- **A request that is done** no longer holds its task. -/
theorem holds_finish {m : UpstreamManager τ κ} {i : ℕ} {s : UpstreamSender τ κ}
    (h : m.senders[i]? = some s) :
    m.holds p = (m.finish i).holds p + if p s.bt then 1 else 0 := by
  obtain ⟨hi, rfl⟩ := List.getElem?_eq_some_iff.mp h
  have hperm := (List.getElem_cons_eraseIdx_perm hi).countP_eq fun s => p s.bt
  rw [List.countP_cons] at hperm
  simp only [holds, finish]
  omega

/-- The task at the head of the queue is held before it is sent and after. -/
theorem holds_next (m : UpstreamManager τ κ) (uri : τ → String) (k : κ) (connectionId : ℕ)
    (client : Option ℕ) : (m.next cfg uri k connectionId client).holds p = m.holds p := by
  unfold next
  dsimp only
  have hqueue := (m.item k).releaseActive_taskQueue connectionId client
  split
  · exact holds_setItem_of_eq p m hqueue
  · rename_i bt taskQueue hcons
    have := holds_setItem p m k
      { (m.item k).releaseActive connectionId client with taskQueue := taskQueue }
    rw [← hqueue, hcons, List.countP_cons] at this
    dsimp only at this
    rw [holds_createUpstreamSender]
    omega

@[simp] theorem holds_closeIdle (m : UpstreamManager τ κ) (k : κ) (client : ℕ) :
    (m.closeIdle k client).holds p = m.holds p := holds_setItem_of_eq p m rfl

end operations

end UpstreamManager
