/-
# The assertions of the upstream pools

`ConnItem` asserts that its counter, its two maps and the requests in flight fit together.  `Booked`
says how they do, for a node of any kind: one that keeps its connections alive has an entry of its
own for each connection in use, and one that does not has no entries at all.

* `Booked.getConnection`, …: what the operations of a node do to it;
* `Books.step`: it holds of all nodes in every run of the manager with new pointers;
* `Books.sendAsserts`, `Books.nextAsserts`, `Books.onCloseIdleAsserts`: so no assertion fails.
-/
import GraftSupernode.ConnectionPool

variable {τ κ : Type*}

theorem mem_emplace {β : Type*} {k : ℕ} {v : β} {l : List (ℕ × β)} {e : ℕ × β}
    (h : e ∈ emplace k v l) : e = (k, v) ∨ e ∈ l := by
  induction l with
  | nil => exact .inl (List.mem_singleton.mp h)
  | cons e' l ih =>
    unfold emplace at h
    split at h
    · exact List.mem_cons.mp h
    · split at h
      · exact .inr h
      · rcases List.mem_cons.mp h with rfl | hmem
        · exact .inr List.mem_cons_self
        · exact (ih hmem).imp id (List.mem_cons_of_mem _)

namespace ConnItem

variable {c : ConnItem τ} {keepAlive : Bool} {maxConnections : ℤ} {used used' : List (ℕ × ℕ)}
  {id upstream address : ℕ} {client : Option ℕ}

/-- A node of this kind whose connections in use are `used`, by their ids and their pointers. -/
structure Booked (keepAlive : Bool) (maxConnections : ℤ) (c : ConnItem τ) (used : List (ℕ × ℕ)) :
    Prop where
  keep : c.keepAlive = keepAlive
  max : c.maxConnections = maxConnections
  pooled : keepAlive = true → c.Pooled used
  clients : keepAlive = true → ∀ id p, (id, some p) ∈ c.activeConnections → (id, p) ∈ used
  idle : keepAlive = false → c.idleConnections = []
  ids : keepAlive = false → ∀ e ∈ used, e.1 = 0

/-- A connection that is given back is not counted twice. -/
theorem releaseActive_connCnt_le (c : ConnItem τ) (id : ℕ) (client : Option ℕ) :
    (c.releaseActive id client).connCnt ≤ c.connCnt := by
  unfold releaseActive
  split
  · cases client
    · exact Int.sub_le_self _ zero_le_one
    · exact le_rfl
  · exact le_rfl

namespace Booked

/-- The order of the connections in use does not matter. -/
theorem perm (h : c.Booked keepAlive maxConnections used) (hused : used.Perm used') :
    c.Booked keepAlive maxConnections used' where
  keep := h.keep
  max := h.max
  pooled hkeep := (h.pooled hkeep).perm hused
  clients hkeep id p hmem := hused.mem_iff.mp (h.clients hkeep id p hmem)
  idle := h.idle
  ids hkeep e he := h.ids hkeep e (hused.mem_iff.mpr he)

theorem setQueue (h : c.Booked keepAlive maxConnections used) (taskQueue : List τ) :
    ({ c with taskQueue := taskQueue } : ConnItem τ).Booked keepAlive maxConnections used where
  keep := h.keep
  max := h.max
  pooled hkeep := (h.pooled hkeep).setQueue taskQueue
  clients := h.clients
  idle := h.idle
  ids := h.ids

/-- A connection of a node that keeps them alive is taken. -/
theorem getConnection (h : c.Booked true maxConnections used)
    (haddress : address ∉ c.idleConnections.map Prod.fst ++ used.map Prod.snd) :
    c.getConnection.2.Booked true maxConnections
      ((c.getConnection.1.1, c.getConnection.1.2.getD address) :: used) where
  keep := ((h.pooled rfl).getConnection haddress).1.keepAlive
  max := by rw [getConnection_maxConnections, h.max]
  pooled _ := ((h.pooled rfl).getConnection haddress).1
  clients _ id p hmem := by
    unfold ConnItem.getConnection at hmem ⊢
    rw [if_pos h.keep] at hmem ⊢
    cases hidle : c.idleConnections with
    | nil =>
      rw [hidle] at hmem
      rcases mem_emplace hmem with heq | hmem
      · cases heq
      · exact List.mem_cons_of_mem _ (h.clients rfl id p hmem)
    | cons e idle =>
      rw [hidle] at hmem
      rcases mem_emplace hmem with heq | hmem
      · cases heq
        exact List.mem_cons_self
      · exact List.mem_cons_of_mem _ (h.clients rfl id p hmem)
  idle hkeep := by cases hkeep
  ids hkeep := by cases hkeep

/-- A connection of another node has no id. -/
theorem takeNew (h : c.Booked false maxConnections used) (address : ℕ) :
    c.Booked false maxConnections ((0, address) :: used) where
  keep := h.keep
  max := h.max
  pooled hkeep := by cases hkeep
  clients hkeep := by cases hkeep
  idle := h.idle
  ids hkeep e he := by
    rcases List.mem_cons.mp he with rfl | he
    · rfl
    · exact h.ids hkeep e he

/-- A connection is given back. -/
theorem releaseActive (h : c.Booked keepAlive maxConnections ((id, upstream) :: used))
    (hclient : client = none ∨ client = some upstream) :
    (c.releaseActive id client).Booked keepAlive maxConnections used := by
  cases keepAlive with
  | false =>
    have hself : c.releaseActive id client = c := by
      rw [ConnItem.releaseActive, if_neg (by rw [h.keep]; exact Bool.false_ne_true)]
    rw [hself]
    exact ⟨h.keep, h.max, nofun, nofun, h.idle, fun hkeep e he =>
      h.ids hkeep e (List.mem_cons_of_mem _ he)⟩
  | true =>
    have hpool := ((h.pooled rfl).releaseActive hclient).1
    refine ⟨hpool.keepAlive, by rw [releaseActive_maxConnections, h.max], fun _ => hpool,
      fun _ id' p hmem => ?_, nofun, nofun⟩
    have hmem : (id', some p) ∈ c.activeConnections.filter fun e => e.1 ≠ id := by
      unfold ConnItem.releaseActive at hmem
      rw [if_pos h.keep] at hmem
      cases client <;> exact hmem
    obtain ⟨hmem, hne⟩ := List.mem_filter.mp hmem
    rcases List.mem_cons.mp (h.clients rfl id' p hmem) with heq | hused
    · cases heq
      simp at hne
    · exact hused

/-- An idle connection is closed. -/
theorem onCloseIdle (h : c.Booked keepAlive maxConnections used) {p : ℕ}
    (hp : p ∈ c.idleConnections.map Prod.fst) :
    (c.onCloseIdle p).Booked keepAlive maxConnections used where
  keep := h.keep
  max := h.max
  pooled hkeep := (h.pooled hkeep).onCloseIdle hp
  clients := h.clients
  idle hkeep := by
    rw [h.idle hkeep] at hp
    cases hp
  ids := h.ids

/-! ### The assertions -/

theorem getConnectionAsserts (h : c.Booked true maxConnections used)
    (haddress : address ∉ c.idleConnections.map Prod.fst ++ used.map Prod.snd)
    (hle : maxConnections = 0 ∨ c.connCnt ≤ maxConnections) : c.getConnectionAsserts = true := by
  have hpool := h.pooled rfl
  have hcnt := (hpool.getConnection haddress).1.cnt
  have hnew : c.getConnection.1.1 ∉ c.activeConnections.map Prod.fst := by
    have hids := (hpool.getConnection haddress).1.ids
    have hnodup := List.nodup_cons.mp (List.nodup_append.mp hids).2.1
    exact mt hpool.active.mem_iff.mp hnodup.1
  have hmax : (c.maxConnections = 0 || c.connCnt ≤ c.maxConnections) = true := by
    rw [h.max, Bool.or_eq_true, decide_eq_true_iff, decide_eq_true_iff]
    exact hle
  rw [ConnItem.getConnectionAsserts, hmax, Bool.true_and, Bool.or_eq_true, Bool.and_eq_true,
    decide_eq_true_iff, decide_eq_true_iff]
  exact .inr ⟨hnew, hcnt⟩

theorem releaseActiveAsserts (h : c.Booked keepAlive maxConnections ((id, upstream) :: used))
    (hclient : client = none ∨ client = some upstream) (hkept : keepAlive = false → client = none) :
    c.releaseActiveAsserts id client = true := by
  rw [ConnItem.releaseActiveAsserts, h.keep]
  cases keepAlive with
  | false =>
    have hid : id = 0 := h.ids rfl _ List.mem_cons_self
    rw [hkept rfl, hid]
    rfl
  | true =>
    rw [Bool.true_or, Bool.true_and, Bool.not_true, Bool.false_or]
    have hpool := h.pooled rfl
    have hid : id ∈ c.activeConnections.map Prod.fst :=
      hpool.active.mem_iff.mpr List.mem_cons_self
    cases hfind : c.activeConnections.find? fun e => e.1 = id with
    | none =>
      obtain ⟨e, he, rfl⟩ := List.mem_map.mp hid
      exact absurd (List.find?_eq_none.mp hfind e he) (by simp)
    | some e =>
      obtain ⟨id', active⟩ := e
      have hsame : id' = id := by simpa using List.find?_some hfind
      subst hsame
      have hmem := List.mem_of_find?_eq_some hfind
      cases active with
      | none => rfl
      | some p =>
        -- the entry with the id is that of the request
        have hp : p = upstream := by
          rcases List.mem_cons.mp (h.clients rfl _ _ hmem) with heq | hused
          · cases heq
            rfl
          · have hnodup := List.nodup_cons.mp (List.nodup_append.mp hpool.ids).2.1
            exact absurd (List.mem_map_of_mem hused) hnodup.1
        rcases hclient with rfl | rfl
        · simp
        · simp [hp]

theorem onCloseIdleAsserts (h : c.Booked keepAlive maxConnections used) {p : ℕ}
    (hp : p ∈ c.idleConnections.map Prod.fst) : c.onCloseIdleAsserts p = true := by
  have hkeep : keepAlive = true := by
    by_contra hnot
    rw [h.idle (Bool.eq_false_of_not_eq_true hnot)] at hp
    cases hp
  rw [ConnItem.onCloseIdleAsserts, h.keep, hkeep, Bool.true_and, decide_eq_true_iff]
  exact hp

end Booked

end ConnItem

namespace UpstreamManager

variable [DecidableEq κ] {cfg : UpstreamConfig κ} {m : UpstreamManager τ κ}
  {used : κ → List (ℕ × ℕ)}

/-- Every node is booked, with the connections to it that are in use. -/
def Booked (cfg : UpstreamConfig κ) (m : UpstreamManager τ κ) (used : κ → List (ℕ × ℕ)) : Prop :=
  ∀ k, (m.item k).Booked (cfg.keepAlive k) (cfg.maxConnections k) (used k)

/-- A new connection has a pointer of its own. -/
def NewAddress (cfg : UpstreamConfig κ) (m : UpstreamManager τ κ) (used : κ → List (ℕ × ℕ)) :
    Prop :=
  ∀ k, cfg.address m.cntConnections
    ∉ (m.item k).idleConnections.map Prod.fst ++ (used k).map Prod.snd

/-- The node `k` is changed. -/
theorem Booked.setItem (h : m.Booked cfg used) {k : κ} {c : ConnItem τ} {l : List (ℕ × ℕ)}
    (hc : c.Booked (cfg.keepAlive k) (cfg.maxConnections k) l)
    {used' : κ → List (ℕ × ℕ)} (hself : used' k = l) (hother : ∀ k' ≠ k, used' k' = used k') :
    (m.setItem k c).Booked cfg used' := by
  intro k'
  by_cases hk : k' = k
  · subst hk
    have hitem : (m.setItem k' c).item k' = c := Function.update_self ..
    rw [hitem, hself]
    exact hc
  · have hitem : (m.setItem k c).item k' = m.item k' := Function.update_of_ne hk ..
    rw [hitem, hother k' hk]
    exact h k'

/-- **A request is created**, and uses one more connection. -/
theorem Booked.create (h : m.Booked cfg used) (hnew : m.NewAddress cfg used) (k : κ) (bt : τ)
    (u : String) :
    ∃ s, (m.createUpstreamSender cfg k bt u).senders = s :: m.senders ∧ s.conn = k ∧
      (m.createUpstreamSender cfg k bt u).Booked cfg fun k' =>
        if k' = k then (s.connectionId, s.upstream) :: used k' else used k' := by
  unfold createUpstreamSender
  dsimp only
  have hk := h k
  cases hkeep : cfg.keepAlive k with
  | true =>
    rw [hkeep] at hk
    have hget := hk.getConnection (hnew k)
    rw [if_pos hk.keep]
    refine ⟨_, rfl, rfl, ?_⟩
    refine Booked.setItem (m := { m with cntUpstreamSender := m.cntUpstreamSender + 1 }) h
      (hkeep ▸ hget) ?_ fun k' hk' => if_neg hk'
    rw [if_pos rfl]
    cases (m.item k).getConnection.1.2 <;> rfl
  | false =>
    rw [hkeep] at hk
    rw [if_neg (by rw [hk.keep]; exact Bool.false_ne_true)]
    refine ⟨_, rfl, rfl, fun k' => ?_⟩
    dsimp only
    by_cases hkk : k' = k
    · subst hkk
      rw [if_pos rfl, hkeep]
      exact hk.takeNew _
    · rw [if_neg hkk]
      exact h k'

omit [DecidableEq κ] in
/-- No assertion fails when a request is created. -/
theorem Booked.createAsserts (h : m.Booked cfg used) (hnew : m.NewAddress cfg used) {k : κ}
    (hle : cfg.keepAlive k = true → cfg.maxConnections k = 0 ∨
      (m.item k).connCnt ≤ cfg.maxConnections k) : m.createAsserts k = true := by
  have hk := h k
  rw [UpstreamManager.createAsserts]
  cases hkeep : cfg.keepAlive k with
  | true =>
    rw [hkeep] at hk
    rw [hk.getConnectionAsserts (hnew k) (hle hkeep), Bool.or_true]
  | false =>
    rw [hkeep] at hk
    rw [hk.keep]
    rfl

end UpstreamManager

namespace UpstreamRun

variable [DecidableEq κ] {cfg : UpstreamConfig κ} {uri : τ → String} {st : UpstreamRun τ κ} {k : κ}

/-- **The books of a run.** -/
def Books (cfg : UpstreamConfig κ) (st : UpstreamRun τ κ) : Prop := st.manager.Booked cfg st.used

theorem books_init (cfg : UpstreamConfig κ) : Books cfg (init cfg : UpstreamRun τ κ) :=
  fun _ => ⟨rfl, rfl, fun hkeep => ⟨hkeep, .refl _, rfl, .nil, fun _ hid => absurd hid List.not_mem_nil,
    .nil⟩, fun _ _ _ hmem => absurd hmem List.not_mem_nil, fun _ => rfl,
    fun _ _ he => absurd he List.not_mem_nil⟩

/-- The connections that requests in flight use. -/
def flying (st : UpstreamRun τ κ) (k : κ) : List (ℕ × ℕ) :=
  (st.inFlight k).map fun s => (s.connectionId, s.upstream)

/-- The request whose callback runs uses a connection besides. -/
theorem used_of_releasing {s : UpstreamSender τ κ} {kept : Bool}
    (hreleasing : st.releasing = some (s, kept)) (k : κ) :
    st.used k = (if k = s.conn then [(s.connectionId, s.upstream)] else []) ++ st.flying k := by
  rw [used_eq, hreleasing, flying, List.map_append]
  by_cases hk : k = s.conn
  · simp [hk]
  · simp [hk, Ne.symm hk]

/-- **The connection of a request that is done** is given back. -/
theorem Books.release (h : Books cfg st) (hfresh : st.FreshAddress cfg) {s : UpstreamSender τ κ}
    {kept : Bool} (hreleasing : st.releasing = some (s, kept)) {client : Option ℕ}
    (hclient : client = none ∨ client = some s.upstream) (taskQueue : List τ) :
    let m := st.manager.setItem s.conn
      { (st.manager.item s.conn).releaseActive s.connectionId client with taskQueue := taskQueue }
    m.Booked cfg st.flying ∧ m.NewAddress cfg st.flying := by
  have hused := used_of_releasing hreleasing
  have hself := h s.conn
  have haddress := hfresh.not_mem s.conn
  rw [hused, if_pos rfl, List.singleton_append] at hself haddress
  refine ⟨?_, fun k => ?_⟩
  · refine UpstreamManager.Booked.setItem h ((hself.releaseActive hclient).setQueue taskQueue) rfl
      fun k hk => ?_
    rw [hused, if_neg hk, List.nil_append]
  · show cfg.address st.manager.cntConnections ∉ _
    by_cases hk : k = s.conn
    · subst hk
      have hitem (c : ConnItem τ) : (st.manager.setItem s.conn c).item s.conn = c :=
        Function.update_self ..
      rw [hitem]
      exact ConnItem.Pooled.address_releaseActive hclient haddress
    · have hitem (c : ConnItem τ) : (st.manager.setItem s.conn c).item k = st.manager.item k :=
        Function.update_of_ne hk ..
      have hother := hfresh.not_mem k
      rw [hused, if_neg hk, List.nil_append] at hother
      rw [hitem]
      exact hother

variable (st) in
/-- A request that is new in a run uses one more connection. -/
theorem used_perm (st' : UpstreamRun τ κ) {s : UpstreamSender τ κ}
    (hreleasing : st'.releasing = st.releasing)
    (hsenders : st'.manager.senders = s :: st.manager.senders) (k : κ) :
    (if k = s.conn then (s.connectionId, s.upstream) :: st.used k else st.used k).Perm
      (st'.used k) := by
  by_cases hk : k = s.conn
  · rw [if_pos hk]
    exact used_perm_of_inFlight hreleasing (by simp [inFlight, hsenders, hk])
  · rw [if_neg hk, used_eq, used_eq, hreleasing]
    refine .of_eq ?_
    simp [inFlight, hsenders, Ne.symm hk]

/-- A request that is answered uses its connection until its callback returns. -/
theorem used_answer_perm {i : ℕ} {kept : Bool} {s : UpstreamSender τ κ}
    (hreleasing : st.releasing = none) (hs : st.manager.senders[i]? = some s) (k : κ) :
    (st.used k).Perm (({ st with
      manager := st.manager.finish i
      releasing := some (s, kept) } : UpstreamRun τ κ).used k) := by
  obtain ⟨hi, rfl⟩ := List.getElem?_eq_some_iff.mp hs
  have hperm := List.getElem_cons_eraseIdx_perm hi
  unfold used inUse
  rw [hreleasing]
  exact ((hperm.filter _).map _).symm

/-- One event. -/
theorem Books.step (h : Books cfg st) (hfresh : st.FreshAddress cfg) (e : Event τ κ) :
    Books cfg (st.step cfg uri e) := by
  cases e with
  | send bt =>
    cases hk₀ : cfg.connItem (uri bt) with
    | none => simpa [UpstreamRun.step, hk₀] using h
    | some k₀ =>
      simp only [UpstreamRun.step, hk₀, UpstreamManager.send, Option.map_some]
      split
      · exact UpstreamManager.Booked.setItem h ((h k₀).setQueue _) rfl fun _ _ => rfl
      · obtain ⟨s, hsenders, rfl, hbooked⟩ :=
          UpstreamManager.Booked.create h hfresh.not_mem k₀ bt (uri bt)
        refine fun k => (hbooked k).perm ?_
        exact used_perm st { st.goOn _ with sent := _ } rfl hsenders k
  | answer i kept =>
    simp only [UpstreamRun.step]
    split
    · rename_i s hreleasing hs
      exact fun k => (h k).perm (used_answer_perm hreleasing hs k)
    · exact h
  | callbackDone =>
    cases hreleasing : st.releasing with
    | none =>
      simp only [UpstreamRun.step, hreleasing]
      exact h
    | some r =>
      obtain ⟨s, kept⟩ := r
      simp only [UpstreamRun.step, hreleasing]
      have hclient : (if (s.keepAlive && kept) = true then some s.upstream else none) = none ∨
          (if (s.keepAlive && kept) = true then some s.upstream else none) = some s.upstream := by
        split
        · exact .inr rfl
        · exact .inl rfl
      have hrelease := h.release hfresh hreleasing hclient
      generalize (if (s.keepAlive && kept) = true then some s.upstream else none) = client at *
      unfold UpstreamManager.next
      dsimp only
      split
      · obtain ⟨hbooked, -⟩ := hrelease
          ((st.manager.item s.conn).releaseActive s.connectionId client).taskQueue
        exact fun k => (hbooked k).perm (.of_eq (by simp [used, inUse, flying, inFlight,
          goOn, UpstreamManager.setItem]))
      · rename_i bt taskQueue hqueue
        obtain ⟨hbooked, hnew⟩ := hrelease taskQueue
        obtain ⟨s', hsenders, hconn, hcreated⟩ := hbooked.create hnew s.conn bt (uri bt)
        refine fun k => (hcreated k).perm ?_
        -- the callback has returned, so only requests in flight use a connection
        have hperm := used_perm { st with releasing := none }
          { st.goOn _ with releasing := none } rfl hsenders k
        rw [hconn] at hperm
        exact hperm
  | closeIdle k₀ client =>
    simp only [UpstreamRun.step]
    split
    · rename_i hmem
      exact UpstreamManager.Booked.setItem h ((h k₀).onCloseIdle hmem) rfl fun _ _ => rfl
    · exact h

/-! ## The assertions in a run -/

/-- No node that keeps its connections alive has more of them than it may have. -/
def Within (cfg : UpstreamConfig κ) (st : UpstreamRun τ κ) : Prop :=
  ∀ k, cfg.keepAlive k = true →
    cfg.maxConnections k = 0 ∨ (st.manager.item k).connCnt ≤ cfg.maxConnections k

/-- The limits of the configuration are kept, if none is negative. -/
theorem within_of_keepsLimit (hmax : ∀ k, 0 ≤ cfg.maxConnections k)
    (h : ∀ k, cfg.keepAlive k = true → 0 < cfg.maxConnections k → st.KeepsLimit cfg k) :
    Within cfg st := fun k hkeep =>
  (hmax k).eq_or_lt.imp Eq.symm fun hpos => (h k hkeep hpos).limited.le

/-- **No assertion fails in `send`.** -/
theorem Books.sendAsserts (h : Books cfg st) (hwithin : Within cfg st)
    (hfresh : st.FreshAddress cfg) (u : String) : st.manager.sendAsserts cfg u = true := by
  unfold UpstreamManager.sendAsserts
  split
  · rfl
  · rename_i k hk
    rw [UpstreamManager.Booked.createAsserts h hfresh.not_mem (hwithin k), Bool.or_true]

/-- **No assertion fails when a request is done.** -/
theorem Books.nextAsserts (h : Books cfg st) (hwithin : Within cfg st)
    (hfresh : st.FreshAddress cfg) {s : UpstreamSender τ κ} {kept : Bool}
    (hreleasing : st.releasing = some (s, kept)) {client : Option ℕ}
    (hclient : client = none ∨ client = some s.upstream)
    (hkept : cfg.keepAlive s.conn = false → client = none) :
    st.manager.nextAsserts s.conn s.connectionId client = true := by
  have hself := h s.conn
  rw [used_of_releasing hreleasing, if_pos rfl, List.singleton_append] at hself
  rw [UpstreamManager.nextAsserts, hself.releaseActiveAsserts hclient hkept, Bool.true_and]
  dsimp only
  split
  · rfl
  · rename_i taskQueue hqueue
    obtain ⟨hbooked, hnew⟩ := h.release hfresh hreleasing hclient taskQueue
    refine hbooked.createAsserts hnew fun hkeep => (hwithin s.conn hkeep).imp_right fun hle => ?_
    have hitem (c : ConnItem τ) : (st.manager.setItem s.conn c).item s.conn = c :=
      Function.update_self ..
    rw [hitem]
    exact (ConnItem.releaseActive_connCnt_le ..).trans hle

/-- **No assertion fails when an idle connection is closed.** -/
theorem Books.onCloseIdleAsserts (h : Books cfg st) {p : ℕ}
    (hp : p ∈ (st.manager.item k).idleConnections.map Prod.fst) :
    (st.manager.item k).onCloseIdleAsserts p = true :=
  ConnItem.Booked.onCloseIdleAsserts (h k) hp

end UpstreamRun
