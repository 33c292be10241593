/-
# The limit of connections to an upstream node

A node of the upstream manager that keeps connections alive counts them: the connections that are
idle, and those that a request uses.  `Pooled` says what the counter and the two maps of the node
have to do with the requests that use a connection; `KeepsLimit` adds the limit and the queue.

The run of a manager (`UpstreamRun`) has one event for each thing that happens to it.  The callback
of a request comes between its end and the release of its connection, and can send other requests:
`releasing` is the request whose callback runs.  `sent` and `started` are the tasks that were passed
to `send` and the requests that were created, in their order.

A pointer to a new connection is not that of a connection that is still there (`FreshAddress`).
-/
import GraftSupernode.Runs
import GraftSupernode.UpstreamManager

/-! ## The maps of a node -/

theorem emplace_perm {β : Type*} {k : ℕ} (v : β) {l : List (ℕ × β)} (h : k ∉ l.map Prod.fst) :
    (emplace k v l).Perm ((k, v) :: l) := by
  induction l with
  | nil => exact .refl _
  | cons e l ih =>
    obtain ⟨k', v'⟩ := e
    rw [List.map_cons, List.mem_cons, not_or] at h
    unfold emplace
    by_cases hlt : k < k'
    · rw [if_pos hlt]
    · rw [if_neg hlt, if_neg h.1]
      exact ((ih h.2).cons _).trans (.swap _ _ _)

theorem mem_of_mem_emplace {β : Type*} {k : ℕ} {v : β} {l : List (ℕ × β)} {a : ℕ}
    (h : a ∈ (emplace k v l).map Prod.fst) : a = k ∨ a ∈ l.map Prod.fst := by
  induction l with
  | nil => exact .inl (List.mem_singleton.mp h)
  | cons e l ih =>
    unfold emplace at h
    split at h
    · exact List.mem_cons.mp h
    · split at h
      · exact .inr h
      · rcases List.mem_cons.mp h with rfl | hmem
        · exact .inr List.mem_cons_self
        · exact (ih hmem).imp id (List.mem_cons_of_mem _)

namespace ConnItem

variable {τ : Type*} {c : ConnItem τ} {used used' : List (ℕ × ℕ)}

/-- A node whose connections in use are `used`, by their ids and their pointers. -/
structure Pooled (c : ConnItem τ) (used : List (ℕ × ℕ)) : Prop where
  keepAlive : c.keepAlive = true
  active : (c.activeConnections.map Prod.fst).Perm (used.map Prod.fst)
  cnt : c.connCnt = c.idleConnections.length + c.activeConnections.length
  ids : (c.idleConnections.map Prod.snd ++ used.map Prod.fst).Nodup
  newId : ∀ id ∈ c.idleConnections.map Prod.snd ++ used.map Prod.fst, id ≤ c.newId
  clients : (c.idleConnections.map Prod.fst ++ used.map Prod.snd).Nodup

namespace Pooled

theorem length_active (h : c.Pooled used) : c.activeConnections.length = used.length := by
  have hlen := h.active.length_eq
  rwa [List.length_map, List.length_map] at hlen

/-- The order of the connections in use does not matter. -/
theorem perm (h : c.Pooled used) (hused : used.Perm used') : c.Pooled used' where
  keepAlive := h.keepAlive
  active := h.active.trans (hused.map _)
  cnt := h.cnt
  ids := ((hused.map _).append_left _).nodup_iff.mp h.ids
  newId id hid := h.newId id (((hused.map _).append_left _).mem_iff.mpr hid)
  clients := ((hused.map _).append_left _).nodup_iff.mp h.clients

/-- The queue of the node plays no part. -/
theorem setQueue (h : c.Pooled used) (taskQueue : List τ) :
    ({ c with taskQueue := taskQueue } : ConnItem τ).Pooled used :=
  ⟨h.keepAlive, h.active, h.cnt, h.ids, h.newId, h.clients⟩

/-- **A request takes a connection**, an idle one or a new one with the pointer `address`. -/
theorem getConnection (h : c.Pooled used) {address : ℕ}
    (haddress : address ∉ c.idleConnections.map Prod.fst ++ used.map Prod.snd) :
    c.getConnection.2.Pooled
        ((c.getConnection.1.1, c.getConnection.1.2.getD address) :: used) ∧
      c.getConnection.2.idleConnections = c.idleConnections.tail ∧
      c.getConnection.2.connCnt = c.connCnt + if c.idleConnections = [] then 1 else 0 := by
  obtain ⟨hkeep, hactive, hcnt, hids, hnewId, hclients⟩ := h
  unfold ConnItem.getConnection
  rw [if_pos hkeep]
  cases hidle : c.idleConnections with
  | nil =>
    -- a new connection gets the next id
    rw [hidle] at hcnt hids hnewId hclients haddress
    simp only [List.map_nil, List.nil_append, List.length_nil] at hcnt hids hnewId hclients haddress
    have hnew : c.newId + 1 ∉ used.map Prod.fst := by
      intro hmem
      have hle := hnewId _ hmem
      omega
    have hperm := emplace_perm (none : Option ℕ) (mt hactive.mem_iff.mp hnew)
    refine ⟨⟨hkeep, ?_, ?_, ?_, ?_, ?_⟩, rfl, by rw [if_pos rfl]⟩
    · exact (hperm.map _).trans (hactive.cons _)
    · show c.connCnt + 1 = ((0 : ℕ) : ℤ) + _
      rw [hperm.length_eq, List.length_cons]
      omega
    · exact List.nodup_cons.mpr ⟨hnew, hids⟩
    · intro id hid
      rcases List.mem_cons.mp hid with rfl | hid
      · exact le_rfl
      · exact (hnewId id hid).trans (Nat.le_succ _)
    · exact List.nodup_cons.mpr ⟨haddress, hclients⟩
  | cons e idle =>
    -- an idle connection is used again, with its id
    obtain ⟨client, connectionId⟩ := e
    rw [hidle] at hcnt hids hnewId hclients
    rw [List.map_cons] at hids hnewId hclients
    have hused : connectionId ∉ used.map Prod.fst := by
      intro hmem
      exact (List.nodup_cons.mp hids).1 (List.mem_append_right _ hmem)
    have hperm := emplace_perm (some client) (mt hactive.mem_iff.mp hused)
    refine ⟨⟨hkeep, ?_, ?_, ?_, ?_, ?_⟩, rfl, by simp⟩
    · exact (hperm.map _).trans (hactive.cons _)
    · show c.connCnt = (idle.length : ℤ) + _
      rw [hperm.length_eq, List.length_cons, hcnt, List.length_cons]
      omega
    · exact List.perm_middle.symm.nodup_iff.mp hids
    · intro id hid
      exact hnewId id (List.perm_middle.mem_iff.mp hid)
    · exact List.perm_middle.symm.nodup_iff.mp hclients

/-- **A request gives its connection back**, or the connection is gone. -/
theorem releaseActive {connectionId upstream : ℕ} (h : c.Pooled ((connectionId, upstream) :: used))
    {client : Option ℕ} (hclient : client = none ∨ client = some upstream) :
    (c.releaseActive connectionId client).Pooled used ∧
      (c.releaseActive connectionId client).idleConnections.length
        = c.idleConnections.length + (if client = none then 0 else 1) ∧
      (c.releaseActive connectionId client).connCnt
        = c.connCnt - (if client = none then 1 else 0) := by
  obtain ⟨hkeep, hactive, hcnt, hids, hnewId, hclients⟩ := h
  rw [List.map_cons] at hactive hids hnewId hclients
  have hids' := List.perm_middle.nodup_iff.mp hids
  have hclients' := List.perm_middle.nodup_iff.mp hclients
  obtain ⟨hid, hrest⟩ := List.nodup_cons.mp hids'
  obtain ⟨hup, hrestClients⟩ := List.nodup_cons.mp hclients'
  have hmem (id : ℕ) (hmem : id ∈ c.idleConnections.map Prod.snd ++ used.map Prod.fst) :
      id ≤ c.newId := hnewId id (List.perm_middle.mem_iff.mpr (List.mem_cons_of_mem _ hmem))
  have hlength : c.activeConnections.length = used.length + 1 := by
    have hlen := hactive.length_eq
    rwa [List.length_map, List.length_cons, List.length_map] at hlen
  -- the request's entry is the only one with its id
  have hfilter : ((c.activeConnections.filter fun e => e.1 ≠ connectionId).map Prod.fst).Perm
      (used.map Prod.fst) := by
    have hperm := hactive.filter (fun id => decide (id ≠ connectionId))
    rw [List.filter_map, List.filter_cons_of_neg (by simp)] at hperm
    have hself : (used.map Prod.fst).filter (fun id => decide (id ≠ connectionId))
        = used.map Prod.fst := by
      apply List.filter_eq_self.mpr
      intro id hmem
      rw [decide_eq_true_iff]
      rintro rfl
      exact hid (List.mem_append_right _ hmem)
    rwa [hself] at hperm
  have hfilterLength := hfilter.length_eq
  rw [List.length_map, List.length_map] at hfilterLength
  unfold ConnItem.releaseActive
  rw [if_pos hkeep]
  rcases hclient with rfl | rfl
  · refine ⟨⟨hkeep, hfilter, ?_, hrest, hmem, hrestClients⟩, rfl, rfl⟩
    show c.connCnt - 1 = (c.idleConnections.length : ℤ) + _
    rw [hfilterLength, hcnt, hlength]
    omega
  · have hfresh : upstream ∉ c.idleConnections.map Prod.fst :=
      fun hmem => hup (List.mem_append_left _ hmem)
    have hperm := emplace_perm connectionId hfresh
    have hlen := hperm.length_eq
    rw [List.length_cons] at hlen
    refine ⟨⟨hkeep, hfilter, ?_, ?_, ?_, ?_⟩, hlen, by simp⟩
    · show c.connCnt = ((emplace upstream connectionId c.idleConnections).length : ℤ) + _
      rw [hfilterLength, hlen, hcnt, hlength]
      omega
    · exact ((hperm.map Prod.snd).append_right _).nodup_iff.mpr hids'
    · intro id hmem'
      have hcons := ((hperm.map Prod.snd).append_right _).mem_iff.mp hmem'
      exact hnewId id (List.perm_middle.mem_iff.mpr hcons)
    · exact ((hperm.map Prod.fst).append_right _).nodup_iff.mpr hclients'

/-- The pointer of another connection stays new when one is released. -/
theorem address_releaseActive {connectionId upstream address : ℕ} {client : Option ℕ}
    (hclient : client = none ∨ client = some upstream)
    (haddress : address ∉ c.idleConnections.map Prod.fst
      ++ ((connectionId, upstream) :: used).map Prod.snd) :
    address ∉ (c.releaseActive connectionId client).idleConnections.map Prod.fst
      ++ used.map Prod.snd := by
  simp only [List.map_cons, List.mem_append, List.mem_cons, not_or] at haddress ⊢
  obtain ⟨hidle, hne, hused⟩ := haddress
  refine ⟨?_, hused⟩
  unfold ConnItem.releaseActive
  split
  · rcases hclient with rfl | rfl
    · exact hidle
    · intro hmem
      rcases mem_of_mem_emplace hmem with heq | hmem
      · exact hne heq
      · exact hidle hmem
  · exact hidle

/-- **An idle connection is closed**. -/
theorem onCloseIdle (h : c.Pooled used) {client : ℕ}
    (hclient : client ∈ c.idleConnections.map Prod.fst) : (c.onCloseIdle client).Pooled used := by
  obtain ⟨hkeep, hactive, hcnt, hids, hnewId, hclients⟩ := h
  have hsub : (c.idleConnections.filter fun e => e.1 ≠ client).Sublist c.idleConnections :=
    List.filter_sublist
  refine ⟨hkeep, hactive, ?_, ?_, ?_, ?_⟩
  · -- one entry has the client
    have hone : c.idleConnections.countP (fun e => e.1 = client) = 1 := by
      have hcount := List.count_eq_one_of_mem (List.nodup_append.mp hclients).1 hclient
      rw [List.count_eq_countP, List.countP_map] at hcount
      rw [← hcount]
      apply List.countP_congr
      intro e _
      simp
    have hsplit : c.idleConnections.length = _ :=
      List.length_eq_countP_add_countP fun e => decide (e.1 = client)
    have hfilter : (c.idleConnections.filter fun e => e.1 ≠ client).length
        = c.idleConnections.countP fun e => ¬ (decide (e.1 = client)) = true := by
      rw [List.countP_eq_length_filter]
      simp
    show c.connCnt - 1 = ((c.idleConnections.filter fun e => e.1 ≠ client).length : ℤ) + _
    rw [hfilter, hcnt, hsplit, hone]
    show _ = _ + ((c.activeConnections.length : ℕ) : ℤ)
    omega
  · exact hids.sublist ((hsub.map _).append_right _)
  · intro id hid
    exact hnewId id (((hsub.map _).append_right _).subset hid)
  · exact hclients.sublist ((hsub.map _).append_right _)

end Pooled

/-- A node that has reached its limit when a task waits. -/
structure Limited (c : ConnItem τ) (maxConnections : ℤ) : Prop where
  max : c.maxConnections = maxConnections
  le : c.connCnt ≤ maxConnections
  queue : c.taskQueue ≠ [] → c.idleConnections = [] ∧ c.connCnt = maxConnections

@[simp] theorem getConnection_maxConnections (c : ConnItem τ) :
    c.getConnection.2.maxConnections = c.maxConnections := by
  unfold getConnection
  split
  · split <;> rfl
  · rfl

@[simp] theorem releaseActive_maxConnections (c : ConnItem τ) (connectionId : ℕ)
    (client : Option ℕ) :
    (c.releaseActive connectionId client).maxConnections = c.maxConnections := by
  unfold releaseActive
  split
  · cases client <;> rfl
  · rfl

theorem full_iff {maxConnections : ℤ} (hmax : c.maxConnections = maxConnections)
    (hpos : 0 < maxConnections) :
    c.full = true ↔ c.idleConnections = [] ∧ c.connCnt = maxConnections := by
  unfold full
  rw [hmax]
  simp [hpos.ne', List.isEmpty_iff]

/-- A task is started: there is an idle connection, or there may be one more. -/
theorem Pooled.limited_getConnection (h : c.Pooled used) {address : ℕ}
    (haddress : address ∉ c.idleConnections.map Prod.fst ++ used.map Prod.snd) {maxConnections : ℤ}
    (hmax : c.maxConnections = maxConnections) (hle : c.connCnt ≤ maxConnections)
    (hroom : c.idleConnections = [] → c.connCnt < maxConnections)
    (hqueue : c.taskQueue ≠ [] → c.idleConnections.tail = [] ∧
      c.connCnt + (if c.idleConnections = [] then 1 else 0) = maxConnections) :
    c.getConnection.2.Limited maxConnections := by
  obtain ⟨-, hidle, hcnt⟩ := h.getConnection haddress
  refine ⟨by rw [getConnection_maxConnections, hmax], ?_, fun hne => ?_⟩
  · rw [hcnt]
    split
    · rename_i hnil
      have hlt := hroom hnil
      omega
    · omega
  · rw [getConnection_taskQueue] at hne
    rw [hidle, hcnt]
    exact hqueue hne

end ConnItem

/-! ## Runs of the manager -/

/-- `UpstreamManager::createUpstreamSender`: the new request, and the node afterwards. -/
theorem UpstreamManager.createUpstreamSender_spec {τ κ : Type*} [DecidableEq κ]
    (cfg : UpstreamConfig κ) (m : UpstreamManager τ κ) (k : κ) (bt : τ) (uri : String) :
    let m' := m.createUpstreamSender cfg k bt uri
    ∃ s, m'.senders = s :: m.senders ∧ m'.cntUpstreamSender = m.cntUpstreamSender + 1 ∧
      s.bt = bt ∧ s.conn = k ∧ (∀ k' ≠ k, m'.item k' = m.item k') ∧
      ((m.item k).keepAlive = true → m'.item k = (m.item k).getConnection.2 ∧
        (s.connectionId, s.upstream) = ((m.item k).getConnection.1.1,
          (m.item k).getConnection.1.2.getD (cfg.address m.cntConnections))) := by
  intro m'
  have hm' : m' = m.createUpstreamSender cfg k bt uri := rfl
  unfold createUpstreamSender at hm'
  dsimp only at hm'
  split at hm'
  · refine ⟨_, by rw [hm'], by rw [hm']; rfl, rfl, rfl, fun k' hk' => ?_, fun _ => ⟨?_, ?_⟩⟩
    · rw [hm']
      exact Function.update_of_ne hk' _ _
    · rw [hm']
      exact Function.update_self _ _ _
    · cases h : (m.item k).getConnection.1.2 <;> simp
  · rename_i hkeep
    exact ⟨_, by rw [hm'], by rw [hm'], rfl, rfl, fun _ _ => by rw [hm'], fun h => absurd h hkeep⟩

/-- A run of the manager: the request whose callback runs, with what became of its connection,
and the tasks and requests so far. -/
structure UpstreamRun (τ κ : Type*) where
  manager : UpstreamManager τ κ
  releasing : Option (UpstreamSender τ κ × Bool)
  sent : List (κ × τ)
  started : List (UpstreamSender τ κ)

namespace UpstreamRun

variable {τ κ : Type*} [DecidableEq κ]

/-- What happens to the manager: a task is sent, the `i`-th request is answered and its connection
is kept or not, its callback returns, or an idle connection is closed. -/
inductive Event (τ κ : Type*)
  | send (bt : τ)
  | answer (i : ℕ) (kept : Bool)
  | callbackDone
  | closeIdle (k : κ) (client : ℕ)

/-- The requests that are new in `m'`. -/
def newSenders (m m' : UpstreamManager τ κ) : List (UpstreamSender τ κ) :=
  m'.senders.take (m'.cntUpstreamSender - m.cntUpstreamSender)

/-- The manager has gone on. -/
def goOn (st : UpstreamRun τ κ) (m : UpstreamManager τ κ) : UpstreamRun τ κ :=
  { st with manager := m, started := st.started ++ newSenders st.manager m }

def init (cfg : UpstreamConfig κ) : UpstreamRun τ κ := ⟨UpstreamManager.init cfg, none, [], []⟩

/-- One event; one that cannot happen changes nothing. -/
def step (cfg : UpstreamConfig κ) (uri : τ → String) (st : UpstreamRun τ κ) :
    Event τ κ → UpstreamRun τ κ
  | .send bt =>
    match cfg.connItem (uri bt), st.manager.send cfg bt (uri bt) with
    | some k, some m => { st.goOn m with sent := st.sent ++ [(k, bt)] }
    | _, _ => st
  | .answer i kept =>
    match st.releasing, st.manager.senders[i]? with
    | none, some s => { st with manager := st.manager.finish i, releasing := some (s, kept) }
    | _, _ => st
  | .callbackDone =>
    match st.releasing with
    | some (s, kept) =>
      let client := if s.keepAlive && kept then some s.upstream else none
      { st.goOn (st.manager.next cfg uri s.conn s.connectionId client) with releasing := none }
    | none => st
  | .closeIdle k client =>
    if client ∈ (st.manager.item k).idleConnections.map Prod.fst then
      { st with manager := st.manager.closeIdle k client }
    else st

/-- The requests that use a connection. -/
def inUse (st : UpstreamRun τ κ) : List (UpstreamSender τ κ) :=
  (st.releasing.map Prod.fst).toList ++ st.manager.senders

/-- The connections to a node that are in use. -/
def used (st : UpstreamRun τ κ) (k : κ) : List (ℕ × ℕ) :=
  (st.inUse.filter (·.conn = k)).map fun s => (s.connectionId, s.upstream)

/-- The requests to a node that have been started and are not done. -/
def inFlight (st : UpstreamRun τ κ) (k : κ) : List (UpstreamSender τ κ) :=
  st.manager.senders.filter (·.conn = k)

/-- The tasks passed to `send` for a node. -/
def sentTo (st : UpstreamRun τ κ) (k : κ) : List τ := (st.sent.filter (·.1 = k)).map Prod.snd

/-- The tasks whose requests to a node have been started. -/
def startedAt (st : UpstreamRun τ κ) (k : κ) : List τ :=
  (st.started.filter (·.conn = k)).map (·.bt)

/-- The next new connection has a pointer of its own. -/
def FreshAddress (cfg : UpstreamConfig κ) (st : UpstreamRun τ κ) : Prop :=
  let address := cfg.address st.manager.cntConnections
  (∀ s ∈ st.inUse, s.upstream ≠ address) ∧
    ∀ k, address ∉ (st.manager.item k).idleConnections.map Prod.fst

/-- What holds of a node that keeps connections alive. -/
structure KeepsLimit (cfg : UpstreamConfig κ) (k : κ) (st : UpstreamRun τ κ) : Prop where
  pooled : (st.manager.item k).Pooled (st.used k)
  limited : (st.manager.item k).Limited (cfg.maxConnections k)
  fifo : st.sentTo k = st.startedAt k ++ (st.manager.item k).taskQueue

variable {cfg : UpstreamConfig κ} {uri : τ → String} {k : κ} {st : UpstreamRun τ κ}

theorem FreshAddress.not_mem (h : st.FreshAddress cfg) (k : κ) :
    cfg.address st.manager.cntConnections
      ∉ (st.manager.item k).idleConnections.map Prod.fst ++ (st.used k).map Prod.snd := by
  rw [List.mem_append, not_or]
  refine ⟨h.2 k, ?_⟩
  unfold used
  rw [List.map_map]
  intro hmem
  obtain ⟨s, hs, hs'⟩ := List.mem_map.mp hmem
  exact h.1 s (List.mem_of_mem_filter hs) hs'

/-- What concerns the node stays the same. -/
theorem KeepsLimit.of_eq (h : st.KeepsLimit cfg k) {st' : UpstreamRun τ κ}
    (hitem : st'.manager.item k = st.manager.item k) (hused : (st.used k).Perm (st'.used k))
    (hsent : st'.sentTo k = st.sentTo k) (hstarted : st'.startedAt k = st.startedAt k) :
    st'.KeepsLimit cfg k := by
  refine ⟨?_, ?_, ?_⟩
  · rw [hitem]
    exact h.pooled.perm hused
  · rw [hitem]
    exact h.limited
  · rw [hitem, hsent, hstarted]
    exact h.fifo

/-- **A request is created** in a manager with the requests of the run: what the run shows of it. -/
theorem goOn_createUpstreamSender (cfg : UpstreamConfig κ) (st : UpstreamRun τ κ)
    {m : UpstreamManager τ κ}
    (hsenders : m.senders = st.manager.senders)
    (hcnt : m.cntUpstreamSender = st.manager.cntUpstreamSender) (k₀ : κ) (bt : τ) (u : String) :
    let st' := st.goOn (m.createUpstreamSender cfg k₀ bt u)
    (∀ k ≠ k₀, st'.manager.item k = m.item k ∧ st'.inFlight k = st.inFlight k ∧
      st'.startedAt k = st.startedAt k) ∧
    st'.startedAt k₀ = st.startedAt k₀ ++ [bt] ∧
    (∃ s, st'.inFlight k₀ = s :: st.inFlight k₀ ∧ ((m.item k₀).keepAlive = true →
      st'.manager.item k₀ = (m.item k₀).getConnection.2 ∧
        (s.connectionId, s.upstream) = ((m.item k₀).getConnection.1.1,
          (m.item k₀).getConnection.1.2.getD (cfg.address m.cntConnections)))) := by
  intro st'
  obtain ⟨s, hs, hcnt', hbt, hconn, hother, hkeep⟩ := m.createUpstreamSender_spec cfg k₀ bt u
  have hstarted : st'.started = st.started ++ [s] := by
    show st.started ++ newSenders st.manager _ = _
    unfold newSenders
    rw [hs, hcnt', hcnt, Nat.add_sub_cancel_left]
    rfl
  have hsenders' : st'.manager.senders = s :: st.manager.senders := by
    rw [← hsenders]
    exact hs
  refine ⟨fun k hk => ⟨hother k hk, ?_, ?_⟩, ?_, s, ?_, hkeep⟩
  · have hne : ¬ s.conn = k := fun h => hk (h.symm.trans hconn)
    simp [inFlight, hsenders', hne]
  · have hne : ¬ s.conn = k := fun h => hk (h.symm.trans hconn)
    simp [startedAt, hstarted, hne]
  · simp [startedAt, hstarted, hconn, hbt]
  · simp [inFlight, hsenders', hconn]

/-- No request is created when only a node changes. -/
theorem goOn_setItem (k₀ : κ) (c : ConnItem τ) :
    st.goOn (st.manager.setItem k₀ c) = { st with manager := st.manager.setItem k₀ c } := by
  unfold goOn
  rw [show newSenders st.manager (st.manager.setItem k₀ c) = [] by
    simp [newSenders, UpstreamManager.setItem], List.append_nil]

/-- The connections in use are that of the callback, and those of the requests in flight. -/
theorem used_eq (st : UpstreamRun τ κ) (k : κ) :
    st.used k = (((st.releasing.map Prod.fst).toList.filter (·.conn = k)) ++ st.inFlight k).map
      fun s => (s.connectionId, s.upstream) := by
  rw [used, inUse, List.filter_append]
  rfl

/-- One more request is in flight, and uses one more connection. -/
theorem used_perm_of_inFlight {st' : UpstreamRun τ κ} {s : UpstreamSender τ κ}
    (hreleasing : st'.releasing = st.releasing) (hflight : st'.inFlight k = s :: st.inFlight k) :
    ((s.connectionId, s.upstream) :: st.used k).Perm (st'.used k) := by
  rw [used_eq, used_eq, hreleasing, hflight, List.map_append, List.map_append, List.map_cons]
  exact List.perm_middle.symm

theorem sentTo_append (l : List (κ × τ)) (k₀ : κ) (bt : τ) :
    ({ st with sent := l ++ [(k₀, bt)] } : UpstreamRun τ κ).sentTo k
      = ({ st with sent := l } : UpstreamRun τ κ).sentTo k ++ if k = k₀ then [bt] else [] := by
  by_cases hk : k = k₀
  · simp [sentTo, hk]
  · simp [sentTo, hk, Ne.symm hk]

/-- **A task that must wait**. -/
theorem KeepsLimit.sendFull (h : st.KeepsLimit cfg k) (hpos : 0 < cfg.maxConnections k) {k₀ : κ}
    (hfull : (st.manager.item k₀).full = true) (bt : τ) :
    let c := { st.manager.item k₀ with taskQueue := (st.manager.item k₀).taskQueue ++ [bt] }
    ({ st.goOn (st.manager.setItem k₀ c) with sent := st.sent ++ [(k₀, bt)] } :
      UpstreamRun τ κ).KeepsLimit cfg k := by
  intro c
  rw [goOn_setItem]
  by_cases hk : k = k₀
  · subst hk
    obtain ⟨hidle, hcnt⟩ := (ConnItem.full_iff h.limited.max hpos).mp hfull
    have hitem : (st.manager.setItem k c).item k = c := Function.update_self _ _ _
    refine ⟨?_, ?_, ?_⟩
    · show ((st.manager.setItem k c).item k).Pooled (st.used k)
      rw [hitem]
      exact h.pooled.setQueue _
    · show ((st.manager.setItem k c).item k).Limited _
      rw [hitem]
      exact ⟨h.limited.max, h.limited.le, fun _ => ⟨hidle, hcnt⟩⟩
    · show _ = st.startedAt k ++ ((st.manager.setItem k c).item k).taskQueue
      rw [hitem, sentTo_append, if_pos rfl, ← List.append_assoc, ← h.fifo]
      rfl
  · refine h.of_eq (Function.update_of_ne hk _ _) (.refl _) ?_ rfl
    rw [sentTo_append, if_neg hk, List.append_nil]
    rfl

/-- **A task that is started at once**. -/
theorem KeepsLimit.sendNow (h : st.KeepsLimit cfg k) (hpos : 0 < cfg.maxConnections k)
    (hfresh : st.FreshAddress cfg) {k₀ : κ} (hfull : ¬ (st.manager.item k₀).full = true) (bt : τ)
    (u : String) :
    ({ st.goOn (st.manager.createUpstreamSender cfg k₀ bt u) with
      sent := st.sent ++ [(k₀, bt)] } : UpstreamRun τ κ).KeepsLimit cfg k := by
  have hreleasing : (st.goOn (st.manager.createUpstreamSender cfg k₀ bt u)).releasing
      = st.releasing := rfl
  obtain ⟨hother, hstarted, s, hflight, hkeep⟩ :=
    goOn_createUpstreamSender cfg st (m := st.manager) rfl rfl k₀ bt u
  generalize st.goOn (st.manager.createUpstreamSender cfg k₀ bt u) = st₁ at *
  by_cases hk : k = k₀
  · subst hk
    obtain ⟨hitem, hs⟩ := hkeep h.pooled.keepAlive
    -- where there is a connection to spare nothing is queued
    have hnot := mt (ConnItem.full_iff h.limited.max hpos).mpr hfull
    have hqueue : (st.manager.item k).taskQueue = [] := by
      by_contra hne
      exact hnot (h.limited.queue hne)
    have haddress := hfresh.not_mem k
    refine ⟨?_, ?_, ?_⟩
    · have hpool := (h.pooled.getConnection haddress).1
      rw [← hs, ← hitem] at hpool
      exact hpool.perm (used_perm_of_inFlight hreleasing hflight)
    · show (st₁.manager.item k).Limited _
      rw [hitem]
      refine h.pooled.limited_getConnection haddress h.limited.max h.limited.le ?_ ?_
      · intro hidle
        have hne : (st.manager.item k).connCnt ≠ cfg.maxConnections k :=
          fun heq => hnot ⟨hidle, heq⟩
        have hle := h.limited.le
        omega
      · intro hne
        exact absurd hqueue hne
    · have hfifo := h.fifo
      rw [hqueue, List.append_nil] at hfifo
      rw [sentTo_append, if_pos rfl]
      show st.sentTo k ++ [bt] = st₁.startedAt k ++ (st₁.manager.item k).taskQueue
      rw [hstarted, hitem, ConnItem.getConnection_taskQueue, hqueue, List.append_nil, hfifo]
  · obtain ⟨hitem, hflight, hstarted⟩ := hother k hk
    refine h.of_eq hitem ?_ ?_ hstarted
    · show (st.used k).Perm (st₁.used k)
      rw [used_eq, used_eq, hreleasing, hflight]
    · rw [sentTo_append, if_neg hk, List.append_nil]
      rfl

/-- **A task is sent**. -/
theorem KeepsLimit.send (h : st.KeepsLimit cfg k) (hpos : 0 < cfg.maxConnections k)
    (hfresh : st.FreshAddress cfg) (bt : τ) : (st.step cfg uri (.send bt)).KeepsLimit cfg k := by
  cases hk₀ : cfg.connItem (uri bt) with
  | none => simpa [step, hk₀] using h
  | some k₀ =>
    have hsend : st.manager.send cfg bt (uri bt) = some (if (st.manager.item k₀).full = true
        then st.manager.setItem k₀
          { st.manager.item k₀ with taskQueue := (st.manager.item k₀).taskQueue ++ [bt] }
        else st.manager.createUpstreamSender cfg k₀ bt (uri bt)) := by
      simp [UpstreamManager.send, hk₀]
    simp only [step, hk₀, hsend]
    by_cases hfull : (st.manager.item k₀).full = true
    · simp only [hfull, if_true]
      exact h.sendFull hpos hfull bt
    · simp only [hfull, if_false, Bool.false_eq_true]
      exact h.sendNow hpos hfresh hfull bt _

/-- **A request is answered**: its connection is in use until the callback returns. -/
theorem KeepsLimit.answer (h : st.KeepsLimit cfg k) (i : ℕ) (kept : Bool) :
    (st.step cfg uri (.answer i kept)).KeepsLimit cfg k := by
  unfold step
  dsimp only
  split
  · rename_i s hreleasing hs
    refine h.of_eq rfl ?_ rfl rfl
    obtain ⟨hi, rfl⟩ := List.getElem?_eq_some_iff.mp hs
    have hperm := List.getElem_cons_eraseIdx_perm hi
    unfold used inUse
    rw [hreleasing]
    exact ((hperm.filter _).map _).symm
  · exact h

/-- **An idle connection is closed**. -/
theorem KeepsLimit.closeIdle (h : st.KeepsLimit cfg k) (k₀ : κ) (client : ℕ) :
    (st.step cfg uri (.closeIdle k₀ client)).KeepsLimit cfg k := by
  unfold step
  dsimp only
  split
  · rename_i hclient
    by_cases hk : k = k₀
    · subst hk
      have hitem : (st.manager.closeIdle k client).item k
          = (st.manager.item k).onCloseIdle client := Function.update_self _ _ _
      have hidle : (st.manager.item k).idleConnections ≠ [] := by
        intro hnil
        rw [hnil] at hclient
        cases hclient
      have hqueue : (st.manager.item k).taskQueue = [] := by
        by_contra hne
        exact hidle (h.limited.queue hne).1
      refine ⟨?_, ?_, ?_⟩
      · show ((st.manager.closeIdle k client).item k).Pooled (st.used k)
        rw [hitem]
        exact h.pooled.onCloseIdle hclient
      · show ((st.manager.closeIdle k client).item k).Limited _
        rw [hitem]
        refine ⟨h.limited.max, ?_, fun hne => absurd hqueue hne⟩
        show (st.manager.item k).connCnt - 1 ≤ _
        have hle := h.limited.le
        omega
      · show st.sentTo k = st.startedAt k ++ ((st.manager.closeIdle k client).item k).taskQueue
        rw [hitem, ConnItem.onCloseIdle_taskQueue]
        exact h.fifo
    · exact h.of_eq (Function.update_of_ne hk _ _) (.refl _) rfl rfl
  · exact h

/-- **A callback returns**: the connection is released, and the first task that waits is
started. -/
theorem KeepsLimit.callbackDone (h : st.KeepsLimit cfg k) (hfresh : st.FreshAddress cfg) :
    (st.step cfg uri .callbackDone).KeepsLimit cfg k := by
  cases hreleasing : st.releasing with
  | none =>
    simp only [step, hreleasing]
    exact h
  | some p =>
    obtain ⟨s, kept⟩ := p
    simp only [step, hreleasing]
    generalize hclientEq : (if (s.keepAlive && kept) = true then some s.upstream else none)
      = client
    have hclient : client = none ∨ client = some s.upstream := by
      rw [← hclientEq]
      split
      · exact .inr rfl
      · exact .inl rfl
    by_cases hk : k = s.conn
    · subst hk
      have hused : st.used s.conn = (s.connectionId, s.upstream) ::
          (st.inFlight s.conn).map fun s => (s.connectionId, s.upstream) := by
        rw [used_eq, hreleasing]
        simp
      have hpooled := h.pooled
      have haddress := hfresh.not_mem s.conn
      rw [hused] at hpooled haddress
      obtain ⟨hpool, hidle, hcnt⟩ := hpooled.releaseActive hclient
      replace haddress := ConnItem.Pooled.address_releaseActive hclient haddress
      have hmax := (ConnItem.releaseActive_maxConnections (st.manager.item s.conn) s.connectionId
        client).trans h.limited.max
      have hqueueEq := (st.manager.item s.conn).releaseActive_taskQueue s.connectionId client
      have hle : ((st.manager.item s.conn).releaseActive s.connectionId client).connCnt
          ≤ cfg.maxConnections s.conn := by
        have hle := h.limited.le
        rw [hcnt]
        split <;> omega
      unfold UpstreamManager.next
      generalize (st.manager.item s.conn).releaseActive s.connectionId client = c at *
      dsimp only
      cases hqueue : c.taskQueue with
      | nil =>
        rw [goOn_setItem]
        have hitem : (st.manager.setItem s.conn c).item s.conn = c := Function.update_self _ _ _
        refine ⟨?_, ?_, ?_⟩
        · show ((st.manager.setItem s.conn c).item s.conn).Pooled _
          rw [hitem, used_eq]
          exact hpool
        · show ((st.manager.setItem s.conn c).item s.conn).Limited _
          rw [hitem]
          exact ⟨hmax, hle, fun hne => absurd hqueue hne⟩
        · show st.sentTo s.conn
            = st.startedAt s.conn ++ ((st.manager.setItem s.conn c).item s.conn).taskQueue
          rw [hitem, hqueueEq]
          exact h.fifo
      | cons bt taskQueue =>
        -- the queue was not empty: the node had no idle connection, and no more could be made
        obtain ⟨hnil, hcntMax⟩ := h.limited.queue (by rw [← hqueueEq, hqueue]; simp)
        rw [hnil, List.length_nil, Nat.zero_add] at hidle
        have hitem₁ : (st.manager.setItem s.conn { c with taskQueue := taskQueue }).item s.conn
            = { c with taskQueue := taskQueue } := Function.update_self _ _ _
        obtain ⟨-, hstarted, s', hflight, hkeep⟩ := goOn_createUpstreamSender cfg st
          (m := st.manager.setItem s.conn { c with taskQueue := taskQueue }) rfl rfl s.conn bt
          (uri bt)
        have hsent (m : UpstreamManager τ κ) : (st.goOn m).sent = st.sent := rfl
        generalize hst₁ : st.goOn _ = st₁ at *
        rw [hitem₁] at hkeep
        obtain ⟨hitem, hs'⟩ := hkeep hpool.keepAlive
        refine ⟨?_, ?_, ?_⟩
        · have hpool' := ((hpool.setQueue taskQueue).getConnection haddress).1
          show (st₁.manager.item s.conn).Pooled _
          rw [hitem, used_eq]
          show ConnItem.Pooled _ ((st₁.inFlight s.conn).map _)
          rw [hflight, List.map_cons, hs']
          exact hpool'
        · show (st₁.manager.item s.conn).Limited _
          rw [hitem]
          refine (hpool.setQueue taskQueue).limited_getConnection haddress hmax hle ?_ fun _ => ?_
          · intro hempty
            rw [show c.idleConnections = [] from hempty, List.length_nil] at hidle
            split at hidle
            · rename_i hnone
              show c.connCnt < _
              rw [hcnt, if_pos hnone]
              omega
            · cases hidle
          · show c.idleConnections.tail = [] ∧
              c.connCnt + (if c.idleConnections = [] then 1 else 0) = _
            split at hidle
            · rename_i hnone
              have hempty := List.length_eq_zero_iff.mp hidle
              rw [hempty, if_pos rfl, hcnt, if_pos hnone]
              exact ⟨rfl, by omega⟩
            · rename_i hsome
              obtain ⟨e, he⟩ := List.length_eq_one_iff.mp hidle
              rw [he, if_neg (List.cons_ne_nil _ _), hcnt, if_neg hsome]
              exact ⟨rfl, by omega⟩
        · have hfifo := h.fifo
          rw [← hqueueEq, hqueue] at hfifo
          show (st₁.sent.filter _).map _ =
            st₁.startedAt s.conn ++ (st₁.manager.item s.conn).taskQueue
          rw [← hst₁, hsent, hst₁, hstarted, hitem, ConnItem.getConnection_taskQueue,
            List.append_assoc]
          exact hfifo
    · -- another node
      have hused : st.used k = (st.inFlight k).map fun s => (s.connectionId, s.upstream) := by
        rw [used_eq, hreleasing]
        simp [Ne.symm hk]
      unfold UpstreamManager.next
      generalize (st.manager.item s.conn).releaseActive s.connectionId client = c
      dsimp only
      cases hqueue : c.taskQueue with
      | nil =>
        rw [goOn_setItem]
        refine h.of_eq (Function.update_of_ne hk _ _) ?_ rfl rfl
        rw [hused, used_eq]
        exact .refl _
      | cons bt taskQueue =>
        obtain ⟨hother, -⟩ := goOn_createUpstreamSender cfg st
          (m := st.manager.setItem s.conn { c with taskQueue := taskQueue }) rfl rfl s.conn bt
          (uri bt)
        obtain ⟨hitem, hflight, hstarted⟩ := hother k hk
        refine h.of_eq (hitem.trans (Function.update_of_ne hk _ _)) ?_ rfl hstarted
        rw [hused, used_eq]
        exact .of_eq (congrArg _ hflight.symm)

/-- **One event**. -/
theorem KeepsLimit.step (h : st.KeepsLimit cfg k) (hpos : 0 < cfg.maxConnections k)
    (hfresh : st.FreshAddress cfg) (e : Event τ κ) : (st.step cfg uri e).KeepsLimit cfg k := by
  cases e with
  | send bt => exact h.send hpos hfresh bt
  | answer i kept => exact h.answer i kept
  | callbackDone => exact h.callbackDone hfresh
  | closeIdle k₀ client => exact h.closeIdle k₀ client

theorem KeepsLimit.init (hkeep : cfg.keepAlive k = true) (hpos : 0 < cfg.maxConnections k) :
    (init cfg : UpstreamRun τ κ).KeepsLimit cfg k where
  pooled := ⟨hkeep, .refl _, rfl, .nil, fun _ hid => absurd hid List.not_mem_nil, .nil⟩
  limited := ⟨rfl, hpos.le, fun h => absurd rfl h⟩
  fifo := rfl

/-- **Whole runs**. -/
theorem KeepsLimit.exec (hkeep : cfg.keepAlive k = true) (hpos : 0 < cfg.maxConnections k)
    {es : List (Event τ κ)} (hfresh : Runs.Along (UpstreamRun.step cfg uri)
      (fun st _ => st.FreshAddress cfg) (UpstreamRun.init cfg) es) :
    (Runs.exec (UpstreamRun.step cfg uri) (UpstreamRun.init cfg) es).KeepsLimit cfg k :=
  Runs.exec_invariant (I := fun st => st.KeepsLimit cfg k)
    (fun _ e h hfresh => h.step hpos hfresh e) (.init hkeep hpos) hfresh

/-- The requests in flight and the one whose callback runs use as many connections as are
active. -/
theorem KeepsLimit.length_inFlight_le (h : st.KeepsLimit cfg k) :
    (st.inFlight k).length ≤ (st.manager.item k).activeConnections.length := by
  rw [h.pooled.length_active, used_eq, List.length_map, List.length_append]
  omega

/-- **The pool of a node that keeps connections alive**. -/
theorem keepAlive_pool (hkeep : cfg.keepAlive k = true) (hpos : 0 < cfg.maxConnections k)
    {es : List (Event τ κ)} (hfresh : Runs.Along (UpstreamRun.step cfg uri)
      (fun st _ => st.FreshAddress cfg) (UpstreamRun.init cfg) es) :
    let st := Runs.exec (UpstreamRun.step cfg uri) (UpstreamRun.init cfg) es
    let c := st.manager.item k
    (c.connCnt = c.idleConnections.length + c.activeConnections.length ∧
      c.connCnt ≤ cfg.maxConnections k) ∧
    (c.taskQueue ≠ [] →
      c.idleConnections = [] ∧ (c.activeConnections.length : ℤ) = cfg.maxConnections k) ∧
    ((st.inUse.filter (·.conn = k)).map (·.connectionId)).Nodup ∧
    (c.activeConnections.map Prod.fst).Perm ((st.inUse.filter (·.conn = k)).map (·.connectionId)) ∧
    st.sentTo k = st.startedAt k ++ c.taskQueue ∧
    (st.inUse.filter (·.conn = k) = [] → st.sentTo k = st.startedAt k) := by
  intro st c
  have h : st.KeepsLimit cfg k := .exec hkeep hpos hfresh
  have hids : (st.used k).map Prod.fst = (st.inUse.filter (·.conn = k)).map (·.connectionId) := by
    rw [used, List.map_map]
    rfl
  have hqueue (hne : c.taskQueue ≠ []) :
      c.idleConnections = [] ∧ (c.activeConnections.length : ℤ) = cfg.maxConnections k := by
    obtain ⟨hidle, hcnt⟩ := h.limited.queue hne
    have hsum : c.connCnt = c.idleConnections.length + c.activeConnections.length := h.pooled.cnt
    rw [hidle, List.length_nil] at hsum
    refine ⟨hidle, ?_⟩
    have hcnt' : c.connCnt = cfg.maxConnections k := hcnt
    omega
  refine ⟨⟨h.pooled.cnt, h.limited.le⟩, hqueue, ?_, ?_, h.fifo, fun hnone => ?_⟩
  · rw [← hids]
    exact (List.nodup_append.mp h.pooled.ids).2.1
  · rw [← hids]
    exact h.pooled.active
  · -- without a request in flight no connection is active, and no task waits
    have hempty : c.taskQueue = [] := by
      by_contra hne
      have hlen := (hqueue hne).2
      rw [h.pooled.length_active, used, hnone] at hlen
      simp only [List.map_nil, List.length_nil] at hlen
      omega
    rw [h.fifo, show (st.manager.item k).taskQueue = [] from hempty, List.append_nil]

/-- A node `true` with a name, besides the default one; tasks are numbers. -/
def nodeConfig (keepAlive : Bool) (maxConnections : ℤ) : UpstreamConfig Bool where
  default := false
  conn2item _ := some true
  uri _ := "http://127.0.0.1:28694"
  maxConnections k := if k then maxConnections else 0
  keepAlive k := k && keepAlive
  address n := n

def nodeUri (_ : ℕ) : String := "$node"

theorem connItem_nodeUri (keepAlive : Bool) (maxConnections : ℤ) (t : ℕ) :
    (nodeConfig keepAlive maxConnections).connItem (nodeUri t) = some true := by
  simp [UpstreamConfig.connItem, nodeUri, nodeConfig]

/-- Two tasks for one connection; a third is sent from the callback of the first. -/
def nodeRun : List (Event ℕ Bool) :=
  [.send 1, .send 2, .answer 0 true, .send 3, .callbackDone]

theorem fresh_nodeRun : Runs.Along (UpstreamRun.step (nodeConfig true 1) nodeUri)
    (fun st _ => st.FreshAddress (nodeConfig true 1)) (UpstreamRun.init (nodeConfig true 1))
    nodeRun := by
  simp only [nodeRun, Runs.along_cons, Runs.along_nil, FreshAddress]
  decide

/-- The second task is in flight and the third one waits. -/
theorem keepAlive_pool_nodeRun :
    let st := Runs.exec (UpstreamRun.step (nodeConfig true 1) nodeUri)
      (UpstreamRun.init (nodeConfig true 1)) nodeRun
    st.startedAt true = [1, 2] ∧ st.sentTo true = st.startedAt true ++ [3] := by
  have h := keepAlive_pool (show (nodeConfig true 1).keepAlive true = true from rfl)
    (show 0 < (nodeConfig true 1).maxConnections true by decide) fresh_nodeRun
  exact ⟨rfl, h.2.2.2.2.1⟩

/-! ## The limit of a node -/

/-- However the connections are placed in memory: no more requests to the node are in flight
than it may have connections, and the other tasks wait in its queue, in their order, only while
that many connections are in use. -/
def LimitKept (cfg : UpstreamConfig κ) (uri : τ → String) (k : κ) : Prop :=
  ∀ (address : ℕ → ℕ) (es : List (Event τ κ)),
    let cfg := { cfg with address := address }
    Runs.Along (UpstreamRun.step cfg uri) (fun st _ => st.FreshAddress cfg)
      (UpstreamRun.init cfg) es →
    let st := Runs.exec (UpstreamRun.step cfg uri) (UpstreamRun.init cfg) es
    let taskQueue := (st.manager.item k).taskQueue
    ((st.inFlight k).length : ℤ) ≤ cfg.maxConnections k ∧
      st.sentTo k = st.startedAt k ++ taskQueue ∧
      (taskQueue ≠ [] →
        ((st.inUse.filter (·.conn = k)).length : ℤ) = cfg.maxConnections k)

/-- A node that keeps connections alive keeps to its limit. -/
theorem limitKept_of_keepAlive (hkeep : cfg.keepAlive k = true) (hpos : 0 < cfg.maxConnections k) :
    LimitKept cfg uri k := by
  intro address es cfg' hfresh st taskQueue
  have hkeep' : cfg'.keepAlive k = true := hkeep
  have hpos' : 0 < cfg'.maxConnections k := hpos
  have h : st.KeepsLimit cfg' k := .exec hkeep' hpos' hfresh
  have hcnt : (st.manager.item k).connCnt = (st.manager.item k).idleConnections.length
      + (st.manager.item k).activeConnections.length := h.pooled.cnt
  have hle : (st.manager.item k).connCnt ≤ cfg'.maxConnections k := h.limited.le
  refine ⟨?_, h.fifo, fun hne => ?_⟩
  · have hflight := h.length_inFlight_le
    omega
  · obtain ⟨hidle, hmax⟩ := h.limited.queue hne
    have hused : (st.used k).length = (st.inUse.filter (·.conn = k)).length := List.length_map _
    have hactive := h.pooled.length_active
    rw [hidle, List.length_nil] at hcnt
    omega

/-- The requests to a node that does not keep connections alive, in a run of sends: the counter
stays at zero, and each task is started at once. -/
theorem exec_plain_sends (cfg : UpstreamConfig κ) (hkeep : cfg.keepAlive k = false)
    (haddress : cfg.address = id) {bt : τ} (hbt : cfg.connItem (uri bt) = some k)
    (hpos : 0 < cfg.maxConnections k) (n : ℕ) :
    let st := Runs.exec (UpstreamRun.step cfg uri) (UpstreamRun.init cfg)
      (List.replicate n (.send bt))
    (st.manager.item = (UpstreamRun.init cfg : UpstreamRun τ κ).manager.item ∧
      st.releasing = none ∧ st.manager.cntConnections = n ∧ st.manager.senders.length = n ∧
      ∀ s ∈ st.manager.senders, s.conn = k ∧ s.upstream < n) ∧
    Runs.Along (UpstreamRun.step cfg uri) (fun st _ => st.FreshAddress cfg)
      (UpstreamRun.init cfg) (List.replicate n (.send bt)) := by
  induction n with
  | zero => exact ⟨⟨rfl, rfl, rfl, rfl, fun _ hs => absurd hs List.not_mem_nil⟩, trivial⟩
  | succ n ih =>
    obtain ⟨⟨hitem, hreleasing, hcnt, hlength, hsenders⟩, halong⟩ := ih
    have hfresh : FreshAddress cfg (Runs.exec (UpstreamRun.step cfg uri) (UpstreamRun.init cfg)
        (List.replicate n (.send bt))) := by
      refine ⟨fun s hs => ?_, fun k' => ?_⟩
      · rw [inUse, hreleasing] at hs
        have hlt := (hsenders s hs).2
        rw [haddress, hcnt, id]
        omega
      · rw [hitem]
        exact List.not_mem_nil
    rw [List.replicate_succ', Runs.exec_append, Runs.along_append]
    generalize Runs.exec (UpstreamRun.step cfg uri) (UpstreamRun.init cfg)
      (List.replicate n (.send bt)) = st at *
    refine ⟨?_, halong, hfresh, trivial⟩
    -- the node is never full, for its counter does not move
    have hfull : (st.manager.item k).full = false := by
      rw [hitem]
      simp [ConnItem.full, UpstreamRun.init, UpstreamManager.init, hpos.ne]
    have hplain : (st.manager.item k).keepAlive = false := by
      rw [hitem]
      exact hkeep
    have hsend : st.manager.send cfg bt (uri bt)
        = some (st.manager.createUpstreamSender cfg k bt (uri bt)) := by
      simp [UpstreamManager.send, hbt, hfull]
    rw [Runs.exec_cons, Runs.exec_nil]
    simp only [UpstreamRun.step, hbt, hsend, goOn, UpstreamManager.createUpstreamSender, hplain,
      Bool.false_eq_true, if_false]
    refine ⟨hitem, hreleasing, by rw [hcnt], by rw [List.length_cons, hlength], fun s hs => ?_⟩
    rcases List.mem_cons.mp hs with rfl | hmem
    · refine ⟨rfl, ?_⟩
      show cfg.address st.manager.cntConnections < n + 1
      rw [haddress, hcnt]
      exact Nat.lt_succ_self n
    · exact ⟨(hsenders s hmem).1, Nat.lt_succ_of_lt (hsenders s hmem).2⟩

/-- **The limit is kept exactly by nodes that keep connections alive**. -/
theorem limitKept_iff {bt : τ} (hbt : cfg.connItem (uri bt) = some k)
    (hpos : 0 < cfg.maxConnections k) : LimitKept cfg uri k ↔ cfg.keepAlive k = true := by
  refine ⟨fun h => ?_, fun hkeep => limitKept_of_keepAlive hkeep hpos⟩
  by_contra hplain
  -- one task more than there may be connections
  obtain ⟨⟨-, hreleasing, -, hlength, hsenders⟩, hfresh⟩ :=
    exec_plain_sends { cfg with address := id } ((Bool.not_eq_true _).mp hplain) rfl hbt hpos
      ((cfg.maxConnections k).toNat + 1)
  have hle := (h id _ hfresh).1
  unfold inFlight at hle
  rw [List.filter_eq_self.mpr fun s hs => decide_eq_true (hsenders s hs).1, hlength] at hle
  have hmax : (cfg.maxConnections k).toNat + 1 ≤ cfg.maxConnections k := by exact_mod_cast hle
  omega

theorem limitKept_iff_nodeConfig :
    LimitKept (nodeConfig true 1) nodeUri true ↔ (nodeConfig true 1).keepAlive true = true :=
  limitKept_iff (connItem_nodeUri true 1 0) (by decide)

/-- **More requests than connections**: two tasks are sent to a node that may have one, and
does not keep it alive. -/
theorem limit_exceeded :
    let cfg := nodeConfig false 1
    let es : List (Event ℕ Bool) := [.send 1, .send 2]
    Runs.Along (UpstreamRun.step cfg nodeUri) (fun st _ => st.FreshAddress cfg)
        (UpstreamRun.init cfg) es ∧
      cfg.maxConnections true = 1 ∧
      ((Runs.exec (UpstreamRun.step cfg nodeUri) (UpstreamRun.init cfg) es).inFlight
        true).length = 2 := by
  refine ⟨?_, rfl, rfl⟩
  simp only [Runs.along_cons, Runs.along_nil, FreshAddress]
  decide

end UpstreamRun
