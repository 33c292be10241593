/-
# What the connections to upstream nodes guarantee

In every run in which the memory of a new connection is not in use:

* `sound_run`: a connection in the pool of a node is open and calls the stub of the node, and the
  connection of a request in flight is open and calls the request; so no request is sent over a
  connection that is gone, no handler is called for a request that is done, and an assertion fails
  only in a stub, when mongoose reports data on an idle connection;
* `run_step`: the manager goes through a run of `UpstreamRun`, in which each new connection has a
  pointer of its own;
* `open_le_maxConnections`: there are never more connections to a node than it allows.
-/
import GraftSupernode.UpstreamConnection

open Runs

namespace UpstreamConnection

variable {τ κ : Type*}

/-- What a connection with this handler is for. -/
def Role (m : UpstreamManager τ κ) (rel : Option (UpstreamSender τ κ × Bool)) (p : ℕ) :
    Handler τ κ → Prop
  | .sender s => s.upstream = p ∧ (s ∈ m.senders ∨ rel = some (s, true) ∧ s.keepAlive = true)
  | .stub k => p ∈ (m.item k).idleConnections.map Prod.fst
  | .staticEmpty => True

/-- **The connections are what the manager takes them for.** -/
structure Sound (m : UpstreamManager τ κ) (rel : Option (UpstreamSender τ κ × Bool))
    (conns : ℕ → Option (Conn τ κ)) : Prop where
  busy : ∀ s ∈ m.senders, ∃ c, conns s.upstream = some c ∧ c.handler = .sender s
  nodup : (m.senders.map (·.upstream)).Nodup
  idle : ∀ k p, p ∈ (m.item k).idleConnections.map Prod.fst →
    ∃ c, conns p = some c ∧ c.handler = .stub k
  idleNodup : ∀ k, ((m.item k).idleConnections.map Prod.fst).Nodup
  role : ∀ p c, conns p = some c → Role m rel p c.handler
  keepAlive : ∀ s, s ∈ m.senders ∨ (∃ kept, rel = some (s, kept)) → s.keepAlive = true →
    (m.item s.conn).keepAlive = true
  releasing : ∀ s kept, rel = some (s, kept) → s ∉ m.senders ∧ ∃ c, conns s.upstream = some c ∧
    c.handler = if (s.keepAlive && kept) = true then .sender s else .staticEmpty

variable {m : UpstreamManager τ κ} {rel : Option (UpstreamSender τ κ × Bool)}
  {conns : ℕ → Option (Conn τ κ)}

namespace Sound

/-- A connection that is in use belongs to one request. -/
theorem eq_of_upstream (h : Sound m rel conns) {s s' : UpstreamSender τ κ} (hs : s ∈ m.senders)
    (hs' : s' ∈ m.senders) (heq : s.upstream = s'.upstream) : s = s' := by
  obtain ⟨c, hc, hhandler⟩ := h.busy s hs
  obtain ⟨c', hc', hhandler'⟩ := h.busy s' hs'
  rw [heq, hc'] at hc
  cases hc
  rw [hhandler'] at hhandler
  exact (Handler.sender.inj hhandler).symm

/-- A connection in a pool is in no other one, and no request uses it. -/
theorem not_busy (h : Sound m rel conns) {k : κ} {p : ℕ}
    (hp : p ∈ (m.item k).idleConnections.map Prod.fst) :
    (∀ s ∈ m.senders, s.upstream ≠ p) ∧
      (∀ k', p ∈ (m.item k').idleConnections.map Prod.fst → k' = k) ∧
      ∀ s kept, rel = some (s, kept) → s.upstream ≠ p := by
  obtain ⟨c, hc, hhandler⟩ := h.idle k p hp
  refine ⟨fun s hs heq => ?_, fun k' hp' => ?_, fun s kept hs heq => ?_⟩
  · obtain ⟨c', hc', hhandler'⟩ := h.busy s hs
    rw [heq, hc] at hc'
    cases hc'
    rw [hhandler] at hhandler'
    cases hhandler'
  · obtain ⟨c', hc', hhandler'⟩ := h.idle k' p hp'
    rw [hc] at hc'
    cases hc'
    rw [hhandler] at hhandler'
    exact (Handler.stub.inj hhandler').symm
  · obtain ⟨-, c', hc', hhandler'⟩ := h.releasing s kept hs
    rw [heq, hc] at hc'
    cases hc'
    rw [hhandler] at hhandler'
    split at hhandler' <;> cases hhandler'

/-- A connection that is not there is not used. -/
theorem not_used (h : Sound m rel conns) {p : ℕ} (hp : conns p = none) :
    (∀ s ∈ m.senders, s.upstream ≠ p) ∧
      (∀ k, p ∉ (m.item k).idleConnections.map Prod.fst) ∧
      ∀ s kept, rel = some (s, kept) → s.upstream ≠ p := by
  refine ⟨fun s hs heq => ?_, fun k hk => ?_, fun s kept hs heq => ?_⟩
  · obtain ⟨c, hc, -⟩ := h.busy s hs
    rw [heq, hp] at hc
    cases hc
  · obtain ⟨c, hc, -⟩ := h.idle k p hk
    rw [hp] at hc
    cases hc
  · obtain ⟨-, c, hc, -⟩ := h.releasing s kept hs
    rw [heq, hp] at hc
    cases hc

/-- **A request is sent** over a connection that is new, or was in a pool. -/
theorem attach (h : Sound m rel conns) {m' : UpstreamManager τ κ} {s : UpstreamSender τ κ}
    (hsenders : m'.senders = s :: m.senders)
    (hfree : conns s.upstream = none ∨ ∃ k, s.upstream ∈ (m.item k).idleConnections.map Prod.fst)
    (hidle : ∀ k p, p ∈ (m'.item k).idleConnections.map Prod.fst ↔
      p ∈ (m.item k).idleConnections.map Prod.fst ∧ p ≠ s.upstream)
    (hnodup : ∀ k, ((m'.item k).idleConnections.map Prod.fst).Nodup)
    (hkeep : ∀ k, (m'.item k).keepAlive = (m.item k).keepAlive)
    (hs : s.keepAlive = true → (m.item s.conn).keepAlive = true) {c : Conn τ κ}
    (hc : c.handler = .sender s) :
    Sound m' rel (Function.update conns s.upstream (some c)) := by
  have hunused : (∀ s' ∈ m.senders, s'.upstream ≠ s.upstream) ∧
      ∀ s' kept, rel = some (s', kept) → s'.upstream ≠ s.upstream := by
    rcases hfree with hnone | ⟨k, hk⟩
    · exact ⟨(h.not_used hnone).1, (h.not_used hnone).2.2⟩
    · exact ⟨(h.not_busy hk).1, (h.not_busy hk).2.2⟩
  refine ⟨?_, ?_, ?_, hnodup, ?_, ?_, ?_⟩
  · rw [hsenders]
    intro s' hs'
    rcases List.mem_cons.mp hs' with rfl | hs'
    · exact ⟨c, Function.update_self .., hc⟩
    · rw [Function.update_of_ne (hunused.1 s' hs')]
      exact h.busy s' hs'
  · rw [hsenders, List.map_cons, List.nodup_cons]
    refine ⟨fun hmem => ?_, h.nodup⟩
    obtain ⟨s', hs', heq⟩ := List.mem_map.mp hmem
    exact hunused.1 s' hs' heq
  · intro k p hp
    obtain ⟨hp, hne⟩ := (hidle k p).mp hp
    rw [Function.update_of_ne hne]
    exact h.idle k p hp
  · intro p c' hc'
    by_cases hp : p = s.upstream
    · subst hp
      rw [Function.update_self] at hc'
      cases hc'
      rw [hc]
      exact ⟨rfl, .inl (by rw [hsenders]; exact List.mem_cons_self)⟩
    · rw [Function.update_of_ne hp] at hc'
      have hrole := h.role p c' hc'
      cases hhandler : c'.handler with
      | sender s' =>
        rw [hhandler] at hrole
        refine ⟨hrole.1, hrole.2.imp_left fun hmem => ?_⟩
        rw [hsenders]
        exact List.mem_cons_of_mem _ hmem
      | stub k =>
        rw [hhandler] at hrole
        exact (hidle k p).mpr ⟨hrole, hp⟩
      | staticEmpty => trivial
  · intro s' hs' hkeep'
    rw [hkeep]
    rw [hsenders, List.mem_cons, or_assoc] at hs'
    rcases hs' with rfl | hs'
    · exact hs hkeep'
    · exact h.keepAlive s' hs' hkeep'
  · intro s' kept hrel
    obtain ⟨hnot, hconn⟩ := h.releasing s' kept hrel
    have hne := hunused.2 s' kept hrel
    rw [hsenders, List.mem_cons, not_or, Function.update_of_ne hne]
    exact ⟨⟨fun heq => hne (heq ▸ rfl), hnot⟩, hconn⟩

/-- What the manager says of the connections stays the same. -/
theorem of_eq (h : Sound m rel conns) {m' : UpstreamManager τ κ}
    (hsenders : m'.senders = m.senders)
    (hitem : ∀ k, (m'.item k).idleConnections = (m.item k).idleConnections ∧
      (m'.item k).keepAlive = (m.item k).keepAlive) : Sound m' rel conns where
  busy := by rw [hsenders]; exact h.busy
  nodup := by rw [hsenders]; exact h.nodup
  idle k p hp := h.idle k p (by rwa [(hitem k).1] at hp)
  idleNodup k := by rw [(hitem k).1]; exact h.idleNodup k
  role p c hc := by
    have hrole := h.role p c hc
    cases hhandler : c.handler with
    | sender s =>
      rw [hhandler] at hrole
      exact ⟨hrole.1, hrole.2.imp_left fun hmem => by rwa [hsenders]⟩
    | stub k =>
      rw [hhandler] at hrole
      show p ∈ (m'.item k).idleConnections.map Prod.fst
      rwa [(hitem k).1]
    | staticEmpty => trivial
  keepAlive s hs hkeep := by
    rw [(hitem s.conn).2]
    rw [hsenders] at hs
    exact h.keepAlive s hs hkeep
  releasing := by rw [hsenders]; exact h.releasing

/-- **What is closed and has no handler is freed.** -/
theorem free (h : Sound m none conns) {p : ℕ} {c : Conn τ κ} (hc : conns p = some c)
    (hhandler : c.handler = .staticEmpty) : Sound m none (Function.update conns p none) := by
  have hne {p' : ℕ} {hd : Handler τ κ} (hhd : hd ≠ .staticEmpty)
      (hp' : ∃ c', conns p' = some c' ∧ c'.handler = hd) : p' ≠ p := by
    rintro rfl
    obtain ⟨c', hc', hhandler'⟩ := hp'
    rw [hc] at hc'
    cases hc'
    exact hhd (hhandler'.symm.trans hhandler)
  refine ⟨fun s hs => ?_, h.nodup, fun k p' hp' => ?_, h.idleNodup, fun p' c' hc' => ?_,
    h.keepAlive, by simp⟩
  · have hbusy := h.busy s hs
    rw [Function.update_of_ne (hne (by simp) hbusy)]
    exact hbusy
  · have hidle := h.idle k p' hp'
    rw [Function.update_of_ne (hne (by simp) hidle)]
    exact hidle
  · have hp : p' ≠ p := by
      rintro rfl
      rw [Function.update_self] at hc'
      cases hc'
    rw [Function.update_of_ne hp] at hc'
    exact h.role p' c' hc'

/-- **A request is done**: it is no longer in flight, and its connection is kept or let go of. -/
theorem finish [DecidableEq τ] [DecidableEq κ] (h : Sound m none conns) {s : UpstreamSender τ κ}
    (hs : s ∈ m.senders) {kept : Bool} {c : Conn τ κ}
    (hc : c.handler = if (s.keepAlive && kept) = true then .sender s else .staticEmpty) :
    Sound (m.finish (m.senders.idxOf s)) (some (s, kept))
      (Function.update conns s.upstream (some c)) := by
  have hsenders : (m.finish (m.senders.idxOf s)).senders = m.senders.erase s := by
    rw [List.erase_eq_eraseIdx_of_idxOf rfl]
    rfl
  have hnodup : m.senders.Nodup := h.nodup.of_map
  have hmem {s' : UpstreamSender τ κ} : s' ∈ m.senders.erase s ↔ s' ≠ s ∧ s' ∈ m.senders :=
    hnodup.mem_erase_iff
  have hother {s' : UpstreamSender τ κ} (hs' : s' ∈ m.senders.erase s) :
      s'.upstream ≠ s.upstream := by
    rw [hmem] at hs'
    intro heq
    exact hs'.1 (h.eq_of_upstream hs'.2 hs heq)
  refine ⟨?_, ?_, fun k p hp => ?_, h.idleNodup, fun p c' hc' => ?_, fun s' hs' hkeep => ?_,
    fun s' kept' hrel => ?_⟩
  · rw [hsenders]
    intro s' hs'
    rw [Function.update_of_ne (hother hs')]
    exact h.busy s' (hmem.mp hs').2
  · rw [hsenders]
    exact h.nodup.sublist (List.erase_sublist.map _)
  · have hp' : p ≠ s.upstream := Ne.symm ((h.not_busy hp).1 s hs)
    rw [Function.update_of_ne hp']
    exact h.idle k p hp
  · by_cases hp : p = s.upstream
    · subst hp
      rw [Function.update_self] at hc'
      cases hc'
      rw [hc]
      split
      · rename_i hkept
        rw [Bool.and_eq_true] at hkept
        exact ⟨rfl, .inr ⟨by rw [hkept.2], hkept.1⟩⟩
      · trivial
    · rw [Function.update_of_ne hp] at hc'
      have hrole := h.role p c' hc'
      cases hhandler : c'.handler with
      | sender s' =>
        rw [hhandler] at hrole
        obtain ⟨hup, hs' | ⟨hrel, -⟩⟩ := hrole
        · refine ⟨hup, .inl ?_⟩
          rw [hsenders, hmem]
          exact ⟨fun heq => hp (by rw [← hup, heq]), hs'⟩
        · cases hrel
      | stub k =>
        rw [hhandler] at hrole
        exact hrole
      | staticEmpty => trivial
  · rw [hsenders] at hs'
    rcases hs' with hs' | ⟨kept', hrel⟩
    · exact h.keepAlive s' (.inl (hmem.mp hs').2) hkeep
    · cases hrel
      exact h.keepAlive s (.inl hs) hkeep
  · cases hrel
    rw [hsenders]
    exact ⟨fun hs' => (hmem.mp hs').1 rfl, c, Function.update_self .., hc⟩

variable [DecidableEq κ]

/-- **An idle connection is closed.** -/
theorem closeIdle (h : Sound m none conns) {k : κ} {p : ℕ}
    (hp : p ∈ (m.item k).idleConnections.map Prod.fst) {c : Conn τ κ}
    (hc : c.handler = .staticEmpty) :
    Sound (m.closeIdle k p) none (Function.update conns p (some c)) := by
  obtain ⟨hbusy, hpool, -⟩ := h.not_busy hp
  have hsub (k' : κ) : ((m.closeIdle k p).item k').idleConnections.Sublist
      (m.item k').idleConnections ∧ ((m.closeIdle k p).item k').keepAlive = (m.item k').keepAlive ∧
      ∀ q, q ∈ ((m.closeIdle k p).item k').idleConnections.map Prod.fst ↔
        q ∈ (m.item k').idleConnections.map Prod.fst ∧ q ≠ p := by
    by_cases hk : k' = k
    · subst hk
      simp only [UpstreamManager.closeIdle, UpstreamManager.setItem, Function.update_self,
        ConnItem.onCloseIdle]
      refine ⟨List.filter_sublist, trivial, fun q => ?_⟩
      simp only [List.mem_map, List.mem_filter, decide_eq_true_eq]
      constructor
      · rintro ⟨e, ⟨he, hne⟩, rfl⟩
        exact ⟨⟨e, he, rfl⟩, hne⟩
      · rintro ⟨⟨e, he, rfl⟩, hne⟩
        exact ⟨e, ⟨he, hne⟩, rfl⟩
    · simp only [UpstreamManager.closeIdle, UpstreamManager.setItem, Function.update_of_ne hk]
      exact ⟨.refl _, trivial, fun q =>
        ⟨fun hq => ⟨hq, fun hqp => hk (hpool k' (hqp ▸ hq))⟩, And.left⟩⟩
  refine ⟨fun s hs => ?_, h.nodup, fun k' q hq => ?_, fun k' => ?_, fun q c' hc' => ?_,
    fun s hs hkeep => ?_, by simp⟩
  · rw [Function.update_of_ne (hbusy s hs)]
    exact h.busy s hs
  · obtain ⟨hq, hne⟩ := ((hsub k').2.2 q).mp hq
    rw [Function.update_of_ne hne]
    exact h.idle k' q hq
  · exact (h.idleNodup k').sublist ((hsub k').1.map _)
  · by_cases hqp : q = p
    · subst hqp
      rw [Function.update_self] at hc'
      cases hc'
      rw [hc]
      trivial
    · rw [Function.update_of_ne hqp] at hc'
      have hrole := h.role q c' hc'
      cases hhandler : c'.handler with
      | stub k' =>
        rw [hhandler] at hrole
        exact ((hsub k').2.2 q).mpr ⟨hrole, hqp⟩
      | _ =>
        rw [hhandler] at hrole
        exact hrole
  · rw [(hsub s.conn).2.1]
    exact h.keepAlive s hs hkeep

/-- **A connection goes back to the pool**, and calls the stub. -/
theorem releaseKept {s : UpstreamSender τ κ} (h : Sound m (some (s, true)) conns)
    (hkeep : s.keepAlive = true) {c : Conn τ κ} (hc : c.handler = .stub s.conn) :
    Sound (m.setItem s.conn ((m.item s.conn).releaseActive s.connectionId (some s.upstream))) none
      (Function.update conns s.upstream (some c)) := by
  obtain ⟨hnot, c₀, hc₀, hhandler₀⟩ := h.releasing s true rfl
  rw [hkeep, Bool.and_self, if_pos rfl] at hhandler₀
  have hitemKeep := h.keepAlive s (.inr ⟨true, rfl⟩) hkeep
  have hbusy (s' : UpstreamSender τ κ) (hs' : s' ∈ m.senders) : s'.upstream ≠ s.upstream := by
    intro heq
    obtain ⟨c', hc', hhandler'⟩ := h.busy s' hs'
    rw [heq, hc₀] at hc'
    cases hc'
    rw [hhandler₀] at hhandler'
    rw [Handler.sender.inj hhandler'] at hnot
    exact hnot hs'
  have hpool (k : κ) : s.upstream ∉ (m.item k).idleConnections.map Prod.fst :=
    fun hmem => (h.not_busy hmem).2.2 s true rfl rfl
  generalize hm' : m.setItem s.conn _ = m'
  have hitem (k : κ) : (m'.item k).keepAlive = (m.item k).keepAlive ∧
      ((m'.item k).idleConnections.map Prod.fst).Perm
        ((if k = s.conn then [s.upstream] else []) ++ (m.item k).idleConnections.map Prod.fst) := by
    by_cases hk : k = s.conn
    · subst hk
      rw [← hm', if_pos rfl]
      simp only [UpstreamManager.setItem, Function.update_self, ConnItem.releaseActive,
        if_pos hitemKeep, true_and]
      exact (emplace_perm s.connectionId (hpool s.conn)).map Prod.fst
    · rw [← hm', if_neg hk]
      simp only [UpstreamManager.setItem, Function.update_of_ne hk, true_and]
      exact .refl _
  have hsenders : m'.senders = m.senders := by rw [← hm']; rfl
  refine ⟨?_, ?_, fun k p hp => ?_, fun k => ?_, fun p c' hc' => ?_, fun s' hs' hk => ?_, by simp⟩
  · rw [hsenders]
    intro s' hs'
    rw [Function.update_of_ne (hbusy s' hs')]
    exact h.busy s' hs'
  · rw [hsenders]
    exact h.nodup
  · rw [(hitem k).2.mem_iff, List.mem_append] at hp
    rcases hp with hp | hp
    · split at hp
      · rename_i hk
        rw [List.mem_singleton.mp hp, hk]
        exact ⟨c, Function.update_self .., hc⟩
      · cases hp
    · have hne : p ≠ s.upstream := fun hpe => hpool k (hpe ▸ hp)
      rw [Function.update_of_ne hne]
      exact h.idle k p hp
  · rw [(hitem k).2.nodup_iff]
    split
    · exact List.nodup_cons.mpr ⟨hpool k, h.idleNodup k⟩
    · exact h.idleNodup k
  · by_cases hp : p = s.upstream
    · subst hp
      rw [Function.update_self] at hc'
      cases hc'
      rw [hc]
      exact (hitem s.conn).2.mem_iff.mpr (by rw [if_pos rfl]; exact List.mem_cons_self)
    · rw [Function.update_of_ne hp] at hc'
      have hrole := h.role p c' hc'
      cases hhandler : c'.handler with
      | sender s' =>
        rw [hhandler] at hrole
        obtain ⟨hup, hs' | ⟨hrel, -⟩⟩ := hrole
        · exact ⟨hup, .inl (by rwa [hsenders])⟩
        · cases hrel
          exact absurd hup.symm hp
      | stub k =>
        rw [hhandler] at hrole
        exact (hitem k).2.mem_iff.mpr (List.mem_append_right _ hrole)
      | staticEmpty => trivial
  · rw [(hitem s'.conn).1]
    rw [hsenders] at hs'
    rcases hs' with hs' | ⟨kept, hrel⟩
    · exact h.keepAlive s' (.inl hs') hk
    · cases hrel

/-- A connection that was let go of is not in a pool. -/
theorem releaseGone {s : UpstreamSender τ κ} {kept : Bool} (h : Sound m (some (s, kept)) conns)
    (hkept : ¬ (s.keepAlive && kept) = true) :
    Sound (m.setItem s.conn ((m.item s.conn).releaseActive s.connectionId none)) none conns := by
  have hnone : Sound m none conns := by
    refine ⟨h.busy, h.nodup, h.idle, h.idleNodup, fun p c hc => ?_, fun s' hs' hk => ?_, nofun⟩
    · have hrole := h.role p c hc
      cases hhandler : c.handler with
      | sender s' =>
        rw [hhandler] at hrole
        obtain ⟨hup, hs' | ⟨hrel, hkeep⟩⟩ := hrole
        · exact ⟨hup, .inl hs'⟩
        · cases hrel
          rw [hkeep] at hkept
          exact absurd rfl hkept
      | stub k =>
        rw [hhandler] at hrole
        exact hrole
      | staticEmpty => trivial
    · rcases hs' with hs' | ⟨kept', hrel⟩
      · exact h.keepAlive s' (.inl hs') hk
      · cases hrel
  refine hnone.of_eq rfl fun k => ?_
  by_cases hk : k = s.conn
  · subst hk
    simp only [UpstreamManager.setItem, Function.update_self, ConnItem.releaseActive]
    split <;> exact ⟨rfl, rfl⟩
  · simp only [UpstreamManager.setItem, Function.update_of_ne hk, and_self]

/-- **A request gets a connection**: an idle one, or a new one. -/
theorem createUpstreamSender (h : Sound m rel conns) {cfg : UpstreamConfig κ}
    (hfresh : conns (cfg.address m.cntConnections) = none) (k : κ) (bt : τ) (u : String) :
    let m' := m.createUpstreamSender cfg k bt u
    ∃ s, m'.senders = s :: m.senders ∧ m'.cntUpstreamSender = m.cntUpstreamSender + 1 ∧
      (m'.cntConnections = m.cntConnections → conns s.upstream ≠ none) ∧
      ∀ c : Conn τ κ, c.handler = .sender s →
        Sound m' rel (Function.update conns s.upstream (some c)) := by
  intro m'
  have hm' : m' = m.createUpstreamSender cfg k bt u := rfl
  have hunused := (h.not_used hfresh).2.1
  unfold UpstreamManager.createUpstreamSender at hm'
  dsimp only at hm'
  split at hm'
  · rename_i hkeep
    unfold ConnItem.getConnection at hm'
    rw [if_pos hkeep] at hm'
    cases hidle : (m.item k).idleConnections with
    | cons e idle =>
      rw [hidle] at hm'
      dsimp only at hm'
      have hhead : e.1 ∈ (m.item k).idleConnections.map Prod.fst := by
        rw [hidle]
        exact List.mem_cons_self
      have hnodup := h.idleNodup k
      rw [hidle, List.map_cons, List.nodup_cons] at hnodup
      refine ⟨_, by rw [hm'], by rw [hm']; rfl, fun _ => ?_, fun c hc => ?_⟩
      · obtain ⟨c, hc, -⟩ := h.idle k e.1 hhead
        rw [hc]
        nofun
      · -- the first idle connection leaves the pool
        have hitem : m'.item = Function.update m.item k { m.item k with
            idleConnections := idle
            activeConnections := emplace e.2 (some e.1) (m.item k).activeConnections } := by
          rw [hm']
          rfl
        refine h.attach (by rw [hm']) (.inr ⟨k, hhead⟩) (fun k' p => ?_) (fun k' => ?_)
          (fun k' => ?_) (fun _ => hkeep) hc
        · rw [hitem]
          by_cases hk : k' = k
          · subst hk
            rw [Function.update_self, hidle, List.map_cons, List.mem_cons]
            refine ⟨fun hp => ⟨.inr hp, fun hpe => hnodup.1 (by rwa [hpe] at hp)⟩, ?_⟩
            rintro ⟨hp | hp, hne⟩
            · exact absurd hp hne
            · exact hp
          · rw [Function.update_of_ne hk]
            refine ⟨fun hp => ⟨hp, fun hpe => ?_⟩, And.left⟩
            rw [hpe] at hp
            exact hk ((h.not_busy hhead).2.1 k' hp)
        · rw [hitem]
          by_cases hk : k' = k
          · subst hk
            rw [Function.update_self]
            exact hnodup.2
          · rw [Function.update_of_ne hk]
            exact h.idleNodup k'
        · rw [hitem]
          by_cases hk : k' = k
          · subst hk
            rw [Function.update_self]
          · rw [Function.update_of_ne hk]
    | nil =>
      rw [hidle] at hm'
      dsimp only at hm'
      refine ⟨_, by rw [hm'], by rw [hm']; rfl, fun hcnt => ?_, fun c hc => ?_⟩
      · rw [hm'] at hcnt
        exact absurd hcnt (Nat.succ_ne_self _)
      · -- the pool of the node is empty, and stays so
        have hpool (k' : κ) : (m'.item k').idleConnections = (m.item k').idleConnections ∧
            (m'.item k').keepAlive = (m.item k').keepAlive := by
          by_cases hk : k' = k
          · subst hk
            rw [hm', hidle]
            simp [UpstreamManager.setItem]
          · rw [hm']
            simp [UpstreamManager.setItem, Function.update_of_ne hk]
        refine h.attach (by rw [hm']) (.inl hfresh) (fun k' p => ?_) (fun k' => ?_)
          (fun k' => (hpool k').2) (fun _ => hkeep) hc
        · rw [(hpool k').1]
          exact ⟨fun hp => ⟨hp, fun hpe => hunused k' (by rwa [hpe] at hp)⟩, And.left⟩
        · rw [(hpool k').1]
          exact h.idleNodup k'
  · rename_i hkeep
    refine ⟨_, by rw [hm'], by rw [hm'], fun hcnt => ?_, fun c hc => ?_⟩
    · rw [hm'] at hcnt
      exact absurd hcnt (Nat.succ_ne_self _)
    · have hitem : m'.item = m.item := by rw [hm']
      refine h.attach (by rw [hm']) (.inl hfresh) (fun k' p => ?_) (fun k' => ?_) (fun k' => ?_)
        (fun hkeep' => by cases hkeep') hc
      · rw [hitem]
        exact ⟨fun hp => ⟨hp, fun hpe => hunused k' (by rwa [hpe] at hp)⟩, And.left⟩
      · rw [hitem]
        exact h.idleNodup k'
      · rw [hitem]

end Sound

/-! ## Events -/

/-- The connections are right, and `fault` says whether something has gone wrong. -/
structure Good (fault : Bool) (st : State τ κ) : Prop where
  sound : Sound st.run.manager st.run.releasing st.conns
  fault_eq : st.fault = fault

variable {cfg : UpstreamConfig κ} {uri : τ → String} {st : State τ κ} {fault : Bool}

/-- An assertion fails or does not. -/
theorem Good.check (h : Good fault st) (b : Bool) : Good (fault || !b) (st.check b) := by
  cases b with
  | true => exact ⟨h.sound, by rw [Bool.not_true, Bool.or_false]; exact h.fault_eq⟩
  | false => exact ⟨h.sound, (Bool.or_true fault).symm⟩

theorem Good.fail (h : Good fault st) : Good true st.fail := ⟨h.sound, rfl⟩

@[simp] theorem run_check (st : State τ κ) (b : Bool) : (st.check b).run = st.run := by
  cases b <;> rfl

@[simp] theorem conns_check (st : State τ κ) (b : Bool) : (st.check b).conns = st.conns := by
  cases b <;> rfl

/-- The manager goes on without a new request. -/
theorem good_goOn_of_eq {run : UpstreamRun τ κ}
    (hcnt : run.manager.cntUpstreamSender = st.run.manager.cntUpstreamSender)
    (h : Sound run.manager run.releasing st.conns) (hfault : st.fault = fault) :
    Good fault (st.goOn run) := by
  unfold State.goOn UpstreamRun.newSenders
  rw [hcnt, Nat.sub_self, List.take_zero, List.foldl_nil]
  exact ⟨h, hfault⟩

theorem good_init (cfg : UpstreamConfig κ) : Good false (init cfg : State τ κ) where
  sound :=
    { busy := fun s hs => by cases hs
      nodup := List.nodup_nil
      idle := fun k p hp => by cases hp
      idleNodup := fun k => List.nodup_nil
      role := fun p c hc => by cases hc
      keepAlive := fun s hs => by rcases hs with hs | ⟨kept, hs⟩ <;> cases hs
      releasing := fun s kept hrel => by cases hrel }
  fault_eq := rfl

/-- A new connection has a pointer of its own. -/
theorem Good.freshAddress (h : Good fault st) (hfresh : Fresh cfg st) : st.run.FreshAddress cfg := by
  obtain ⟨hbusy, hidle, hrel⟩ := h.sound.not_used hfresh
  refine ⟨fun s hs => ?_, hidle⟩
  rcases List.mem_append.mp hs with hs | hs
  · obtain ⟨⟨s', kept⟩, hr, rfl⟩ := List.mem_map.mp (Option.toList_map .. ▸ hs)
    exact hrel s' kept (Option.mem_toList.mp hr)
  · exact hbusy s hs

/-- The manager goes on as it is told. -/
theorem run_goOn (st : State τ κ) (run : UpstreamRun τ κ) : (st.goOn run).run = run := by
  have hsend (st : State τ κ) (reused : Bool) (s : UpstreamSender τ κ) :
      (st.send reused s).run = st.run := by
    unfold State.send
    split
    · split <;> rfl
    · rfl
  unfold State.goOn
  generalize hst : ({ st with run := run } : State τ κ) = st'
  have hrun : st'.run = run := by rw [← hst]
  clear hst
  induction UpstreamRun.newSenders st.run.manager run.manager generalizing st' with
  | nil => exact hrun
  | cons s l ih => exact ih _ ((hsend _ _ _).trans hrun)

variable [DecidableEq κ]

/-- **The manager creates a request**, which is sent. -/
theorem good_goOn {run : UpstreamRun τ κ} {m : UpstreamManager τ κ}
    (h : Sound m run.releasing st.conns) (hfault : st.fault = fault)
    (hfresh : st.conns (cfg.address m.cntConnections) = none)
    (hcnt : m.cntUpstreamSender = st.run.manager.cntUpstreamSender)
    (hconn : m.cntConnections = st.run.manager.cntConnections) {k : κ} {bt : τ} {u : String}
    (hrun : run.manager = m.createUpstreamSender cfg k bt u) : Good fault (st.goOn run) := by
  obtain ⟨s, hsenders, hcnt', hreuse, hsound⟩ := h.createUpstreamSender hfresh k bt u
  have hnew : UpstreamRun.newSenders st.run.manager run.manager = [s] := by
    unfold UpstreamRun.newSenders
    rw [hrun, hsenders, hcnt', hcnt, Nat.add_sub_cancel_left]
    rfl
  unfold State.goOn
  rw [hnew, List.foldl_cons, List.foldl_nil, ← hconn]
  unfold State.send
  split
  · rename_i hsame
    rw [decide_eq_true_iff, hrun] at hsame
    cases hc : st.conns s.upstream with
    | none => exact absurd hc (hreuse hsame)
    | some c =>
      refine ⟨?_, hfault⟩
      show Sound run.manager run.releasing _
      rw [hrun]
      exact hsound _ rfl
  · refine ⟨?_, hfault⟩
    show Sound run.manager run.releasing _
    rw [hrun]
    exact hsound _ rfl

/-! ### The assertions that an event meets -/

/-- The assertions of the pools and of the stubs hold at this event. -/
def State.asserts (cfg : UpstreamConfig κ) (uri : τ → String) (st : State τ κ) : Event τ → Bool
  | .send bt => st.run.manager.sendAsserts cfg (uri bt)
  | .callbackDone =>
    match st.run.releasing with
    | none => true
    | some (s, kept) =>
      st.run.manager.nextAsserts s.conn s.connectionId
          (if s.keepAlive && kept then some s.upstream else none) &&
        (!(s.keepAlive && kept) || s.conn ≠ cfg.default)
  | .mg p ev =>
    match st.run.releasing, st.conns p with
    | none, some c =>
      match c.handler, ev with
      | .stub k, .close => (st.run.manager.item k).onCloseIdleAsserts p
      | .stub _, .timer => !c.timer
      | .stub _, .poll => true
      | .stub _, _ => false
      | _, _ => true
    | _, _ => true

namespace Good

/-- A task is sent, or it waits. -/
theorem send (h : Good fault st) (hfresh : Fresh cfg st) (bt : τ) :
    Good fault (st.goOn (st.run.step cfg uri (.send bt))) := by
  simp only [UpstreamRun.step]
  cases hk : cfg.connItem (uri bt) with
  | none => exact good_goOn_of_eq rfl h.sound h.fault_eq
  | some k =>
    simp only [UpstreamManager.send, hk, Option.map_some]
    split
    · refine good_goOn_of_eq rfl (h.sound.of_eq rfl fun k' => ?_) h.fault_eq
      by_cases hkk : k' = k
      · subst hkk
        simp [UpstreamRun.goOn, UpstreamManager.setItem]
      · simp [UpstreamRun.goOn, UpstreamManager.setItem, Function.update_of_ne hkk]
    · exact good_goOn h.sound h.fault_eq hfresh rfl rfl rfl

/-- **A callback returns**: the pool has the connection, if it was kept, and the first task that
waits is sent. -/
theorem callbackDone (h : Good fault st) (hfresh : Fresh cfg st) :
    Good (fault || !st.asserts cfg uri .callbackDone) (st.callbackDone cfg uri) := by
  unfold State.callbackDone State.asserts
  cases hrel : st.run.releasing with
  | none => exact h.check true
  | some r =>
    obtain ⟨s, kept⟩ := r
    have hsound := h.sound
    rw [hrel] at hsound
    have hunused := hsound.not_used hfresh
    dsimp only
    generalize hclient : (if (s.keepAlive && kept) = true then some s.upstream else none) = client
    have hcheck := h.check (st.run.manager.nextAsserts s.conn s.connectionId client)
    generalize st.run.manager.nextAsserts s.conn s.connectionId client = asserts at *
    -- what the connections are before the first task of the queue is sent
    suffices hnext : ∀ (st' : State τ κ) (fault' : Bool), st'.run = st.run →
        st'.fault = fault' → st'.conns (cfg.address st.run.manager.cntConnections) = none →
        Sound (st.run.manager.setItem s.conn ((st.run.manager.item s.conn).releaseActive
          s.connectionId client)) none st'.conns →
        Good fault' (st'.goOn (st.run.step cfg uri .callbackDone)) by
      by_cases hkept : (s.keepAlive && kept) = true
      · rw [if_pos hkept, hkept, Bool.not_true, Bool.false_or]
        rw [if_pos hkept] at hclient
        obtain ⟨-, c, hc, -⟩ := hsound.releasing s kept rfl
        have hboth := (Bool.and_eq_true _ _).mp hkept
        rw [hboth.2] at hsound
        have hset : (st.check asserts).setConnection cfg s.upstream s.conn
            = ((st.check asserts).check (s.conn ≠ cfg.default)).setConn s.upstream
                (some { c with handler := .stub s.conn }) := by
          simp only [State.setConnection, conns_check, hc]
        rw [hset]
        refine hnext _ _ ?_ ?_ ?_ ?_
        · show ((st.check asserts).check _).run = st.run
          rw [run_check, run_check]
        · rw [Bool.not_and, ← Bool.or_assoc]
          exact (hcheck.check _).fault_eq
        · show Function.update ((st.check asserts).check _).conns _ _ _ = none
          rw [conns_check, conns_check]
          exact (Function.update_of_ne (hunused.2.2 s kept rfl).symm ..).trans hfresh
        · show Sound _ none (Function.update ((st.check asserts).check _).conns _ _)
          rw [conns_check, conns_check, ← hclient]
          exact hsound.releaseKept hboth.1 rfl
      · rw [if_neg hkept, (Bool.not_eq_true _).mp hkept, Bool.not_false, Bool.true_or,
          Bool.and_true]
        rw [if_neg hkept] at hclient
        refine hnext _ _ (run_check st _) hcheck.fault_eq ?_ ?_
        · rw [conns_check]
          exact hfresh
        · rw [conns_check, ← hclient]
          exact hsound.releaseGone hkept
    intro st' fault' hrun hfault hfresh' hs
    simp only [UpstreamRun.step, hrel]
    rw [hclient]
    unfold UpstreamManager.next
    dsimp only
    cases hqueue : ((st.run.manager.item s.conn).releaseActive s.connectionId client).taskQueue with
    | nil => exact good_goOn_of_eq (by rw [hrun]; rfl) hs hfault
    | cons bt taskQueue =>
      refine good_goOn (m := st.run.manager.setItem s.conn
        { (st.run.manager.item s.conn).releaseActive s.connectionId client with
          taskQueue := taskQueue }) (hs.of_eq rfl fun k => ?_) hfault hfresh' (by rw [hrun]; rfl)
        (by rw [hrun]; rfl) rfl
      by_cases hk : k = s.conn
      · subst hk
        simp [UpstreamManager.setItem]
      · simp [UpstreamManager.setItem, Function.update_of_ne hk]

variable [DecidableEq τ]

/-- The request that uses a connection is done. -/
theorem done (h : Good fault st) (hrel : st.run.releasing = none) {s : UpstreamSender τ κ}
    (hs : s ∈ st.run.manager.senders) {kept : Bool} {c : Conn τ κ}
    (hc : c.handler = if (s.keepAlive && kept) = true then .sender s else .staticEmpty) :
    Good fault ((st.setConn s.upstream (some c)).done cfg uri s kept) := by
  have hsound := h.sound
  rw [hrel] at hsound
  have hidx : st.run.manager.senders[st.run.manager.senders.idxOf s]? = some s := by
    rw [List.getElem?_eq_getElem (List.idxOf_lt_length_of_mem hs), List.getElem_idxOf]
  have hstep : st.run.step cfg uri (.answer (st.run.manager.senders.idxOf s) kept)
      = { st.run with
          manager := st.run.manager.finish (st.run.manager.senders.idxOf s)
          releasing := some (s, kept) } := by
    simp only [UpstreamRun.step, hrel, hidx]
  refine ⟨?_, h.fault_eq⟩
  show Sound (st.run.step cfg uri (.answer (st.run.manager.senders.idxOf s) kept)).manager
    (st.run.step cfg uri (.answer (st.run.manager.senders.idxOf s) kept)).releasing _
  rw [hstep]
  exact hsound.finish hs hc

/-- **A connection calls the request that uses it.** -/
theorem callSender (h : Good fault st) (hrel : st.run.releasing = none) {p : ℕ} {c : Conn τ κ}
    (hc : st.conns p = some c) {s : UpstreamSender τ κ} (hhandler : c.handler = .sender s)
    (ev : MgEvent) : Good fault (st.call cfg uri p c ev) := by
  have hrole := h.sound.role p c hc
  rw [hrel, hhandler] at hrole
  obtain ⟨rfl, hs | ⟨hnone, -⟩⟩ := hrole
  · unfold State.call
    rw [hhandler]
    dsimp only
    rw [if_pos ⟨hs, rfl⟩]
    cases ev with
    | connectError => exact h.done hrel hs (by rw [Bool.and_false]; rfl)
    | httpReply =>
      simp only [State.evSender]
      split
      · rename_i hkeep
        exact h.done hrel hs (by rw [hkeep]; exact hhandler)
      · rename_i hkeep
        exact h.done hrel hs (by rw [Bool.and_true, if_neg hkeep]; rfl)
    | close => exact h.done hrel hs (by rw [Bool.and_false]; rfl)
    | timer => exact h.done hrel hs (by rw [Bool.and_false]; rfl)
    | poll => exact h
    | other => exact h
  · cases hnone

/-- **An idle connection is closed**, and its stub takes it out of the pool. -/
theorem closeStub (h : Good fault st) (hrel : st.run.releasing = none) {p : ℕ} {c : Conn τ κ}
    (hc : st.conns p = some c) {k : κ} (hhandler : c.handler = .stub k) :
    Good (fault || !(st.run.manager.item k).onCloseIdleAsserts p)
      (st.call cfg uri p c .close) := by
  have hsound := h.sound
  rw [hrel] at hsound
  have hmem := hsound.role p c hc
  rw [hhandler] at hmem
  have hmem : p ∈ (st.run.manager.item k).idleConnections.map Prod.fst := hmem
  unfold State.call
  rw [hhandler]
  refine ⟨?_, (h.check _).fault_eq⟩
  show Sound (st.run.step cfg uri (.closeIdle k p)).manager
    (st.run.step cfg uri (.closeIdle k p)).releasing (Function.update (st.check _).conns p _)
  simp only [UpstreamRun.step, if_pos hmem, hrel, conns_check]
  exact hsound.closeIdle hmem rfl

/-- **A connection calls its handler.** -/
theorem call (h : Good fault st) (hrel : st.run.releasing = none) {p : ℕ} {c : Conn τ κ}
    (hc : st.conns p = some c) {ev : MgEvent} (htimer : ev = .timer → c.timer = true) :
    Good (fault || !st.asserts cfg uri (.mg p ev)) (st.call cfg uri p c ev) := by
  simp only [State.asserts, hrel, hc]
  cases hhandler : c.handler with
  | sender s => exact (Bool.or_false fault).symm ▸ h.callSender hrel hc hhandler ev
  | stub k =>
    cases ev with
    | close => exact h.closeStub hrel hc hhandler
    | timer =>
      rw [htimer rfl, Bool.not_true, Bool.not_false, Bool.or_true]
      unfold State.call
      rw [hhandler]
      exact h.fail
    | poll =>
      rw [Bool.not_true, Bool.or_false]
      unfold State.call
      rw [hhandler]
      exact h
    | _ =>
      rw [Bool.not_false, Bool.or_true]
      unfold State.call
      rw [hhandler]
      exact h.fail
  | staticEmpty =>
    rw [Bool.not_true, Bool.or_false]
    unfold State.call
    rw [hhandler]
    cases ev with
    | close =>
      refine ⟨?_, h.fault_eq⟩
      have hsound := h.sound
      show Sound st.run.manager st.run.releasing _
      rw [hrel] at hsound ⊢
      exact hsound.free hc hhandler
    | _ => exact h

/-- **One event.** -/
theorem step (h : Good fault st) (hfresh : Fresh cfg st) (e : Event τ) :
    Good (fault || !st.asserts cfg uri e) (UpstreamConnection.step cfg uri st e) := by
  cases e with
  | send bt =>
    have hcheck := h.check (st.run.manager.sendAsserts cfg (uri bt))
    have hfresh' : Fresh cfg (st.check (st.run.manager.sendAsserts cfg (uri bt))) := by
      unfold Fresh
      rw [conns_check, run_check]
      exact hfresh
    have hsend : Good _ (State.goOn _ (UpstreamRun.step cfg uri _ (.send bt))) :=
      hcheck.send hfresh' bt
    rw [run_check] at hsend
    exact hsend
  | callbackDone => exact h.callbackDone hfresh
  | mg p ev =>
    simp only [UpstreamConnection.step]
    cases hrel : st.run.releasing with
    | some r =>
      simp only [State.asserts, hrel]
      exact h.check true
    | none =>
      cases hc : st.conns p with
      | none =>
        simp only [State.asserts, hrel, hc]
        exact h.check true
      | some c =>
        cases ev with
        | timer =>
          dsimp only
          split
          · rename_i htimer
            exact h.call hrel hc fun _ => htimer
          · rename_i htimer
            simp only [State.asserts, hrel, hc]
            rw [(Bool.not_eq_true _).mp htimer]
            cases c.handler <;> exact h.check true
        | _ => exact h.call hrel hc fun htimer => by cases htimer

end Good

/-! ## Runs -/

variable [DecidableEq τ]

/-- **A connection's event is one of the manager**, or it is none. -/
theorem run_step (cfg : UpstreamConfig κ) (uri : τ → String) (st : State τ κ) (e : Event τ) :
    (step cfg uri st e).run = st.run ∨
      ∃ e', (step cfg uri st e).run = st.run.step cfg uri e' := by
  cases e with
  | send bt => exact .inr ⟨_, run_goOn _ _⟩
  | callbackDone =>
    simp only [step, State.callbackDone]
    split
    · exact .inl rfl
    · exact .inr ⟨_, run_goOn _ _⟩
  | mg p ev =>
    have hsender (c : Conn τ κ) (s : UpstreamSender τ κ) (ev : MgEvent) :
        (st.evSender cfg uri p c s ev).run = st.run ∨
          ∃ e', (st.evSender cfg uri p c s ev).run = st.run.step cfg uri e' := by
      cases ev with
      | poll => exact .inl rfl
      | other => exact .inl rfl
      | httpReply =>
        simp only [State.evSender]
        split <;> exact .inr ⟨.answer (st.run.manager.senders.idxOf s) true, rfl⟩
      | _ => exact .inr ⟨.answer (st.run.manager.senders.idxOf s) false, rfl⟩
    have hcall (c : Conn τ κ) (ev : MgEvent) : (st.call cfg uri p c ev).run = st.run ∨
        ∃ e', (st.call cfg uri p c ev).run = st.run.step cfg uri e' := by
      unfold State.call
      split
      · split
        · exact hsender c _ ev
        · exact .inl rfl
      · cases ev with
        | close => exact .inr ⟨.closeIdle _ p, rfl⟩
        | _ => exact .inl rfl
      · split <;> exact .inl rfl
    simp only [step]
    split
    · split
      · split
        · exact hcall _ .timer
        · exact .inl rfl
      · exact hcall _ ev
    · exact .inl rfl

/-- What holds in every run: the connections are right, the books of the nodes are, and the nodes
that have a limit keep to it. -/
structure Kept (cfg : UpstreamConfig κ) (st : State τ κ) : Prop where
  sound : Sound st.run.manager st.run.releasing st.conns
  books : st.run.Books cfg
  limit : ∀ k, cfg.keepAlive k = true → 0 < cfg.maxConnections k → st.run.KeepsLimit cfg k

namespace Kept

omit [DecidableEq τ] in
theorem good (h : Kept cfg st) : Good st.fault st := ⟨h.sound, rfl⟩

omit [DecidableEq τ] in
theorem init (cfg : UpstreamConfig κ) : Kept cfg (init cfg : State τ κ) where
  sound := (good_init cfg).sound
  books := UpstreamRun.books_init cfg
  limit _ hkeep hpos := .init hkeep hpos

/-- One event. -/
theorem step (h : Kept cfg st) (hfresh : Fresh cfg st) (e : Event τ) :
    Kept cfg (UpstreamConnection.step cfg uri st e) := by
  have haddress := h.good.freshAddress hfresh
  refine ⟨(h.good.step hfresh e).sound, ?_, fun k hkeep hpos => ?_⟩
  · rcases run_step cfg uri st e with hsame | ⟨e', he'⟩
    · rw [hsame]
      exact h.books
    · rw [he']
      exact h.books.step haddress e'
  · rcases run_step cfg uri st e with hsame | ⟨e', he'⟩
    · rw [hsame]
      exact h.limit k hkeep hpos
    · rw [he']
      exact (h.limit k hkeep hpos).step hpos haddress e'

end Kept

/-- Each new connection gets memory that is not in use. -/
def AllFresh (cfg : UpstreamConfig κ) (uri : τ → String) (es : List (Event τ)) : Prop :=
  Along (step cfg uri) (fun st _ => Fresh cfg st) (init cfg) es

instance (cfg : UpstreamConfig κ) (uri : τ → String) (es : List (Event τ)) :
    Decidable (AllFresh cfg uri es) := inferInstanceAs (Decidable (Along ..))

theorem kept_run {es : List (Event τ)} (h : AllFresh cfg uri es) :
    Kept cfg (exec (step cfg uri) (init cfg) es) :=
  exec_invariant (fun _ e hkept hfresh => hkept.step hfresh e) (.init cfg) h

/-! ### What goes wrong -/

/-- Mongoose reports something of an idle connection that is neither a poll nor its end. -/
def Stray (st : State τ κ) : Event τ → Prop
  | .mg p ev => st.run.releasing = none ∧ ev ≠ .close ∧ ev ≠ .poll ∧
      ∃ c k, st.conns p = some c ∧ c.handler = .stub k ∧ (ev = .timer → c.timer = true)
  | _ => False

omit [DecidableEq τ] in
/-- **The pools make no assertion fail**, and the stubs do only at such an event. -/
theorem Kept.asserts_iff (h : Kept cfg st) (hfresh : Fresh cfg st)
    (hdefault : cfg.keepAlive cfg.default = false) (hmax : ∀ k, 0 ≤ cfg.maxConnections k)
    (e : Event τ) : st.asserts cfg uri e = true ↔ ¬ Stray st e := by
  have haddress := h.good.freshAddress hfresh
  have hwithin := UpstreamRun.within_of_keepsLimit hmax h.limit
  cases e with
  | send bt => exact iff_of_true (h.books.sendAsserts hwithin haddress _) id
  | callbackDone =>
    refine iff_of_true ?_ id
    unfold State.asserts
    cases hrel : st.run.releasing with
    | none => rfl
    | some r =>
      obtain ⟨s, kept⟩ := r
      dsimp only
      -- only a node that keeps its connections alive gets one back
      have hkeep (hboth : (s.keepAlive && kept) = true) : cfg.keepAlive s.conn = true := by
        have hitem := h.sound.keepAlive s (.inr ⟨kept, hrel⟩) ((Bool.and_eq_true _ _).mp hboth).1
        rwa [(h.books s.conn).keep] at hitem
      rw [Bool.and_eq_true]
      by_cases hboth : (s.keepAlive && kept) = true
      · rw [if_pos hboth]
        refine ⟨h.books.nextAsserts hwithin haddress hrel (.inr rfl) fun hnot => ?_, ?_⟩
        · rw [hkeep hboth] at hnot
          cases hnot
        · rw [hboth, Bool.not_true, Bool.false_or, decide_eq_true_iff]
          intro heq
          rw [← heq, hkeep hboth] at hdefault
          cases hdefault
      · rw [if_neg hboth, (Bool.not_eq_true _).mp hboth]
        exact ⟨h.books.nextAsserts hwithin haddress hrel (.inl rfl) fun _ => rfl, rfl⟩
  | mg p ev =>
    simp only [State.asserts, Stray]
    cases hrel : st.run.releasing with
    | some r => simp
    | none =>
      cases hc : st.conns p with
      | none => simp
      | some c =>
        cases hhandler : c.handler with
        | stub k =>
          have hmem := h.sound.role p c hc
          rw [hhandler] at hmem
          have hclose := h.books.onCloseIdleAsserts hmem
          cases ev <;> simp [hhandler, hclose]
        | sender s => simp [hhandler]
        | staticEmpty => simp [hhandler]

/-- **Something goes wrong** exactly if a stub is called for what it does not expect. -/
theorem fault_run (hdefault : cfg.keepAlive cfg.default = false)
    (hmax : ∀ k, 0 ≤ cfg.maxConnections k) {es : List (Event τ)} (h : AllFresh cfg uri es) :
    (exec (step cfg uri) (init cfg) es).fault = true ↔
      Sometime (step cfg uri) Stray (init cfg) es := by
  have hfault := exec_iff_sometime (I := Kept cfg) (Q := fun st => st.fault = true) (R := Stray)
    (fun _ e hkept hfresh => hkept.step hfresh e) (fun st e hkept hfresh => ?_) (.init cfg) h
  · rw [hfault]
    exact or_iff_right Bool.false_ne_true
  · have hstep : (step cfg uri st e).fault = _ := (hkept.good.step hfresh e).fault_eq
    have hasserts : st.asserts cfg uri e = true ↔ _ := hkept.asserts_iff hfresh hdefault hmax e
    rw [hstep, Bool.or_eq_true, Bool.not_eq_true', ← Bool.not_eq_true, hasserts, not_not]

/-- Two connections to a node that keeps them alive. -/
def twoAlive : UpstreamConfig Bool := UpstreamRun.nodeConfig true 2

/-- A reply, the connection used again and closed under the second request, a third request, and a
poll of its connection when it is idle. -/
def reuse : List (Event ℕ) :=
  [.send 5, .mg 0 .httpReply, .callbackDone, .send 6, .mg 0 .close, .callbackDone, .send 7,
    .mg 1 .httpReply, .callbackDone, .mg 1 .poll]

theorem allFresh_reuse : AllFresh twoAlive UpstreamRun.nodeUri reuse := by decide

/-- **No connection that is gone is used**, in any run: what a pool holds is open and calls the stub
of the node, what a request uses is open and calls the request.  No assertion of a pool fails, and
that of the stub fails exactly when something else than a poll or the end of an idle connection is
reported. -/
theorem sound_run (hdefault : cfg.keepAlive cfg.default = false)
    (hmax : ∀ k, 0 ≤ cfg.maxConnections k) {es : List (Event τ)} (h : AllFresh cfg uri es) :
    ((exec (step cfg uri) (init cfg) es).fault = true ↔
        Sometime (step cfg uri) Stray (init cfg) es) ∧
      (∀ k p, p ∈ ((exec (step cfg uri) (init cfg) es).run.manager.item k).idleConnections.map
          Prod.fst →
        ∃ c, (exec (step cfg uri) (init cfg) es).conns p = some c ∧ c.handler = .stub k) ∧
      ∀ s ∈ (exec (step cfg uri) (init cfg) es).run.manager.senders,
        ∃ c, (exec (step cfg uri) (init cfg) es).conns s.upstream = some c ∧
          c.handler = .sender s :=
  ⟨fault_run hdefault hmax h, (kept_run h).sound.idle, (kept_run h).sound.busy⟩

/-- Data that comes on the idle connection makes the assertion fail. -/
theorem sound_run_reuse :
    (exec (step twoAlive UpstreamRun.nodeUri) (init twoAlive) reuse).fault = false ∧
      (exec (step twoAlive UpstreamRun.nodeUri) (init twoAlive)
        (reuse ++ [.mg 1 .other])).fault = true ∧
      ¬ Sometime (step twoAlive UpstreamRun.nodeUri) Stray (init twoAlive) reuse ∧
      Sometime (step twoAlive UpstreamRun.nodeUri) Stray (init twoAlive)
        (reuse ++ [.mg 1 .other]) := by
  have hmax : ∀ k, 0 ≤ twoAlive.maxConnections k := by decide
  refine ⟨by decide, by decide, ?_, ?_⟩
  · rw [← (sound_run rfl hmax allFresh_reuse).1]
    decide
  · rw [← (sound_run rfl hmax (by decide)).1]
    decide

/-- The connection is one to the node: a request to it uses it, or its pool holds it. -/
def Handler.IsTo (k : κ) : Handler τ κ → Prop
  | .sender s => s.conn = k
  | .stub k' => k' = k
  | .staticEmpty => False

/-- **There are never more connections to a node than it allows**: those that a request uses and
those in the pool. -/
theorem open_le_maxConnections {es : List (Event τ)} (h : AllFresh cfg uri es) {k : κ}
    (hkeep : cfg.keepAlive k = true) (hpos : 0 < cfg.maxConnections k) (ps : Finset ℕ)
    (hps : ∀ p ∈ ps, ∃ c, (exec (step cfg uri) (init cfg) es).conns p = some c ∧
      c.handler.IsTo k) : (ps.card : ℤ) ≤ cfg.maxConnections k := by
  have hkept := kept_run h
  have hlimit := hkept.limit k hkeep hpos
  generalize exec (step cfg uri) (init cfg) es = st at *
  have hsub : ps ⊆ ((st.run.manager.item k).idleConnections.map Prod.fst ++
      (st.run.used k).map Prod.snd).toFinset := by
    intro p hp
    obtain ⟨c, hc, hto⟩ := hps p hp
    have hrole := hkept.sound.role p c hc
    rw [List.mem_toFinset, List.mem_append]
    cases hhandler : c.handler with
    | sender s =>
      rw [hhandler] at hrole hto
      obtain ⟨rfl, hs⟩ := hrole
      have huse : s ∈ st.run.inUse := by
        rcases hs with hs | ⟨hrel, -⟩
        · exact List.mem_append_right _ hs
        · exact List.mem_append_left _ (by rw [hrel]; exact List.mem_singleton.mpr rfl)
      refine .inr (List.mem_map.mpr ⟨(s.connectionId, s.upstream), ?_, rfl⟩)
      exact List.mem_map.mpr ⟨s, List.mem_filter.mpr ⟨huse, decide_eq_true hto⟩, rfl⟩
    | stub k' =>
      rw [hhandler] at hrole hto
      obtain rfl : k' = k := hto
      exact .inl hrole
    | staticEmpty =>
      rw [hhandler] at hto
      exact hto.elim
  have hcard := (Finset.card_le_card hsub).trans (List.toFinset_card_le _)
  rw [List.length_append, List.length_map, List.length_map,
    ← hlimit.pooled.length_active] at hcard
  have hcnt := hlimit.pooled.cnt
  have hle := hlimit.limited.le
  omega

/-- The connection of the third request, which is idle. -/
theorem open_le_maxConnections_reuse : (({1} : Finset ℕ).card : ℤ) ≤ twoAlive.maxConnections true :=
  open_le_maxConnections allFresh_reuse rfl (by decide) {1} (by
    intro p hp
    rw [Finset.mem_singleton.mp hp]
    exact ⟨_, rfl, rfl⟩)

end UpstreamConnection
