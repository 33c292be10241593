/-
# What the connections of clients guarantee

In every run of the events of the connections and of the answers of the task manager:

* `no_fault`: no handler uses a pointer to a task that is gone, and no answer goes to a connection
  that is gone;
* `replies_le_one`: a connection gets the answer of one task at most, and nothing after it;
* `timer_iff_not_ignored`: a connection that waits for a request has its timer, unless a request
  with an unknown method has come.
-/
import GraftSupernode.ClientConnection

open Runs

namespace ClientConnection

open StateMachine

variable {s : State}

/-- The answer of a task to the connection `c`. -/
def Sent.isReply (c : ℕ) : Sent → Bool
  | .reply c' _ _ _ => c' = c
  | .error _ _ _ => false

/-- The answers of tasks to the connection `c`. -/
def State.replies (s : State) (c : ℕ) : ℕ := s.sent.countP (Sent.isReply c)

/-- A connection that no task serves: its handler does not expect one, it does if it waits for a
request, and a connection that has been answered has no handler. -/
structure Conn.Free (k : Conn) (replies : ℕ) : Prop where
  handler : k.handler ≠ .clientTask
  http : k.handler = .http → k.userData = .http
  coap : k.handler = .coap → k.userData = .coap
  replied : 0 < replies → k.handler = .staticEmpty

/-- A connection that has no handler any more. -/
theorem free_of_staticEmpty {k : Conn} (hk : k.handler = .staticEmpty) (n : ℕ) : k.Free n where
  handler := by rw [hk]; decide
  http hw := by rw [hk] at hw; cases hw
  coap hw := by rw [hk] at hw; cases hw
  replied _ := hk

/-- A connection that is cut off before it was served. -/
theorem free_of_handlerEmpty {k : Conn} (hk : k.handler = .handlerEmpty) : k.Free 0 where
  handler := by rw [hk]; decide
  http hw := by rw [hk] at hw; cases hw
  coap hw := by rw [hk] at hw; cases hw
  replied hpos := absurd hpos (lt_irrefl 0)

/-- The connection waits for a request, with the manager of its protocol. -/
def Conn.Waiting (k : Conn) : Prop :=
  k.handler = .http ∧ k.userData = .http ∨ k.handler = .coap ∧ k.userData = .coap

theorem Conn.Waiting.free {k : Conn} (h : k.Waiting) : k.Free 0 := by
  rcases h with ⟨hh, hdata⟩ | ⟨hh, hdata⟩
  · refine ⟨by rw [hh]; decide, fun _ => hdata, fun hw => ?_, fun hpos => absurd hpos (lt_irrefl 0)⟩
    rw [hh] at hw
    cases hw
  · refine ⟨by rw [hh]; decide, fun hw => ?_, fun _ => hdata, fun hpos => absurd hpos (lt_irrefl 0)⟩
    rw [hh] at hw
    cases hw

/-- **The pointers between connections and tasks.** -/
structure Linked (s : State) : Prop where
  serving : ∀ c k, s.conns c = some k → (∃ t, s.tasks t = some (some c) ∧ k.handler = .clientTask ∧
    k.userData = .task t ∧ s.replies c = 0) ∨ k.Free (s.replies c)
  served : ∀ t c, s.tasks t = some (some c) →
    ∃ k, s.conns c = some k ∧ k.handler = .clientTask ∧ k.userData = .task t
  freshConn : ∀ c, s.accepted ≤ c → s.conns c = none ∧ s.replies c = 0
  freshTask : ∀ t, s.created ≤ t → s.tasks t = none
  once : ∀ c, s.replies c ≤ 1
  ok : s.fault = false

theorem linked_init : Linked init where
  serving c k h := by cases h
  served t c h := by cases h
  freshConn c _ := ⟨rfl, rfl⟩
  freshTask t _ := rfl
  once c := Nat.zero_le _
  ok := rfl

namespace Linked

/-- A connection that no task serves is changed, or it is gone. -/
theorem setConn (h : Linked s) {c : ℕ} (hfree : ∀ t, s.tasks t ≠ some (some c))
    (hc : c < s.accepted) {k' : Option Conn} (hk' : ∀ k ∈ k', k.Free (s.replies c)) :
    Linked (s.setConn c k') where
  serving c' k hk := by
    by_cases hcc : c' = c
    · subst hcc
      simp only [State.setConn, Function.update_self] at hk
      exact .inr (hk' k hk)
    · simp only [State.setConn, Function.update_of_ne hcc] at hk
      exact h.serving c' k hk
  served t c' ht := by
    have hcc : c' ≠ c := fun hcc => hfree t (hcc ▸ ht)
    simp only [State.setConn, Function.update_of_ne hcc]
    exact h.served t c' ht
  freshConn c' hle := by
    have hcc : c' ≠ c := fun hcc => by
      have : s.accepted ≤ c' := hle
      omega
    simp only [State.setConn, Function.update_of_ne hcc]
    exact h.freshConn c' hle
  freshTask := h.freshTask
  once := h.once
  ok := h.ok

/-- A task without a client is gone, or has no client. -/
theorem setTask (h : Linked s) {t : ℕ} (ht : s.tasks t = some none) {client : Option (Option ℕ)}
    (hclient : ∀ c, client ≠ some (some c)) : Linked (s.setTask t client) where
  serving c k hk := by
    refine (h.serving c k hk).imp_left ?_
    rintro ⟨t', ht', hrest⟩
    have htt : t' ≠ t := fun htt => by
      rw [htt, ht] at ht'
      cases ht'
    refine ⟨t', ?_, hrest⟩
    simp only [State.setTask, Function.update_of_ne htt]
    exact ht'
  served t' c ht' := by
    have htt : t' ≠ t := fun htt => by
      subst htt
      simp only [State.setTask, Function.update_self] at ht'
      exact hclient c ht'
    simp only [State.setTask, Function.update_of_ne htt] at ht'
    exact h.served t' c ht'
  freshConn := h.freshConn
  freshTask t' hle := by
    have htt : t' ≠ t := fun htt => by
      have := h.freshTask t' hle
      rw [htt, ht] at this
      cases this
    simp only [State.setTask, Function.update_of_ne htt]
    exact h.freshTask t' hle
  once := h.once
  ok := h.ok

/-- A connection that exists was accepted. -/
theorem lt_accepted (h : Linked s) {c : ℕ} {k : Conn} (hk : s.conns c = some k) :
    c < s.accepted := by
  by_contra hle
  rw [(h.freshConn c (by omega)).1] at hk
  cases hk

theorem lt_created (h : Linked s) {t : ℕ} {client : Option ℕ} (ht : s.tasks t = some client) :
    t < s.created := by
  by_contra hle
  rw [h.freshTask t (by omega)] at ht
  cases ht

/-- A connection whose handler does not expect a task is not served. -/
theorem not_served (h : Linked s) {c : ℕ} {k : Conn} (hk : s.conns c = some k)
    (hhandler : k.handler ≠ .clientTask) :
    (∀ t, s.tasks t ≠ some (some c)) ∧ k.Free (s.replies c) := by
  constructor
  · intro t ht
    obtain ⟨k', hk', hhandler', -⟩ := h.served t c ht
    rw [hk] at hk'
    cases hk'
    exact hhandler hhandler'
  · rcases h.serving c k hk with ⟨t, -, hhandler', -⟩ | hfree
    · exact absurd hhandler' hhandler
    · exact hfree

/-- A new connection waits for a request. -/
theorem accept (h : Linked s) {k : Conn} (hk : k.Waiting) : Linked (s.accept k) where
  serving c k' hk' := by
    by_cases hc : c = s.accepted
    · subst hc
      simp only [State.accept, State.setConn, Function.update_self, Option.some.injEq] at hk'
      subst hk'
      have hnone : (s.accept k).replies s.accepted = 0 := (h.freshConn _ le_rfl).2
      rw [hnone]
      exact .inr hk.free
    · simp only [State.accept, State.setConn, Function.update_of_ne hc] at hk'
      exact h.serving c k' hk'
  served t c ht := by
    have hc : c ≠ s.accepted := fun hc => by
      obtain ⟨k', hk', -⟩ := h.served t c ht
      rw [hc, (h.freshConn _ le_rfl).1] at hk'
      cases hk'
    simp only [State.accept, State.setConn, Function.update_of_ne hc]
    exact h.served t c ht
  freshConn c hle := by
    have hle' : s.accepted + 1 ≤ c := hle
    simp only [State.accept, State.setConn, Function.update_of_ne (by omega : c ≠ s.accepted)]
    exact h.freshConn c (by omega)
  freshTask := h.freshTask
  once := h.once
  ok := h.ok

/-- **A connection that waits for a request is handed over to a new task.** -/
theorem serve (h : Linked s) {c : ℕ} {k : Conn} (hk : s.conns c = some k)
    (hhandler : k.handler = .http ∨ k.handler = .coap) (k' : Conn) : Linked (s.serve c k') := by
  have hne : k.handler ≠ .clientTask := by
    rcases hhandler with hh | hh <;> rw [hh] <;> decide
  obtain ⟨hfree, hkfree⟩ := h.not_served hk hne
  have hzero : s.replies c = 0 := by
    by_contra hpos
    have hempty := hkfree.replied (by omega)
    rcases hhandler with hh | hh <;> rw [hh] at hempty <;> cases hempty
  have hc := h.lt_accepted hk
  refine ⟨fun c' k'' hk'' => ?_, fun t c' ht => ?_, fun c' hle => ?_, fun t hle => ?_, h.once, h.ok⟩
  · by_cases hcc : c' = c
    · subst hcc
      simp only [State.serve, State.setConn, State.setTask, Function.update_self,
        Option.some.injEq] at hk''
      subst hk''
      exact .inl ⟨s.created, Function.update_self .., rfl, rfl, hzero⟩
    · simp only [State.serve, State.setConn, State.setTask, Function.update_of_ne hcc] at hk''
      refine (h.serving c' k'' hk'').imp_left ?_
      rintro ⟨t, ht, hrest⟩
      have htt : t ≠ s.created := (h.lt_created ht).ne
      exact ⟨t, (Function.update_of_ne htt ..).trans ht, hrest⟩
  · by_cases htt : t = s.created
    · subst htt
      simp only [State.serve, State.setConn, State.setTask, Function.update_self,
        Option.some.injEq] at ht
      subst ht
      exact ⟨_, Function.update_self .., rfl, rfl⟩
    · simp only [State.serve, State.setConn, State.setTask, Function.update_of_ne htt] at ht
      have hcc : c' ≠ c := fun hcc => hfree t (hcc ▸ ht)
      obtain ⟨k'', hk'', hrest⟩ := h.served t c' ht
      exact ⟨k'', (Function.update_of_ne hcc ..).trans hk'', hrest⟩
  · have hcc : c' ≠ c := fun hcc => by
      have : s.accepted ≤ c' := hle
      omega
    simp only [State.serve, State.setConn, State.setTask, Function.update_of_ne hcc]
    exact h.freshConn c' hle
  · have hle' : s.created + 1 ≤ t := hle
    simp only [State.serve, State.setConn, State.setTask,
      Function.update_of_ne (by omega : t ≠ s.created)]
    exact h.freshTask t (by omega)

/-- **A task and its connection part**: the handler of the connection does nothing any more. -/
theorem part (h : Linked s) {t c : ℕ} (ht : s.tasks t = some (some c)) {k' : Conn}
    (hk' : k'.handler = .staticEmpty) {client : Option (Option ℕ)}
    (hclient : ∀ c, client ≠ some (some c)) :
    Linked ((s.setConn c (some k')).setTask t client) := by
  obtain ⟨k, hk, -, hdata⟩ := h.served t c ht
  have hc := h.lt_accepted hk
  have htc := h.lt_created ht
  have hother {t' c' : ℕ} (htt : t' ≠ t) (ht' : s.tasks t' = some (some c')) : c' ≠ c := by
    rintro rfl
    obtain ⟨k', hk', -, hdata'⟩ := h.served t' c' ht'
    rw [hk] at hk'
    cases hk'
    rw [hdata] at hdata'
    cases hdata'
    exact htt rfl
  refine ⟨fun c' k'' hk'' => ?_, fun t' c' ht' => ?_, fun c' hle => ?_, fun t' hle => ?_, h.once,
    h.ok⟩
  · by_cases hcc : c' = c
    · subst hcc
      simp only [State.setConn, State.setTask, Function.update_self, Option.some.injEq] at hk''
      subst hk''
      exact .inr (free_of_staticEmpty hk' _)
    · simp only [State.setConn, State.setTask, Function.update_of_ne hcc] at hk''
      refine (h.serving c' k'' hk'').imp_left ?_
      rintro ⟨t', ht', hrest⟩
      have htt : t' ≠ t := fun htt => by
        subst htt
        rw [ht] at ht'
        cases ht'
        exact hcc rfl
      exact ⟨t', (Function.update_of_ne htt ..).trans ht', hrest⟩
  · have htt : t' ≠ t := fun htt => by
      subst htt
      simp only [State.setConn, State.setTask, Function.update_self] at ht'
      exact hclient c' ht'
    simp only [State.setConn, State.setTask, Function.update_of_ne htt] at ht'
    obtain ⟨k'', hk'', hrest⟩ := h.served t' c' ht'
    exact ⟨k'', (Function.update_of_ne (hother htt ht') ..).trans hk'', hrest⟩
  · have hcc : c' ≠ c := fun hcc => by
      have : s.accepted ≤ c' := hle
      omega
    simp only [State.setConn, State.setTask, Function.update_of_ne hcc]
    exact h.freshConn c' hle
  · have htt : t' ≠ t := fun htt => by
      have : s.created ≤ t' := hle
      omega
    simp only [State.setConn, State.setTask, Function.update_of_ne htt]
    exact h.freshTask t' hle

/-- An error is sent to a client. -/
theorem sendError (h : Linked s) (c code : ℕ) (reason : String) :
    Linked { s with sent := s.sent ++ [.error c code reason] } := by
  have hreplies (c' : ℕ) :
      ({ s with sent := s.sent ++ [.error c code reason] } : State).replies c' = s.replies c' := by
    simp [State.replies, Sent.isReply]
  refine ⟨fun c' k hk => ?_, h.served, fun c' hle => ?_, h.freshTask, fun c' => ?_, h.ok⟩
  · rw [hreplies]
    exact h.serving c' k hk
  · rw [hreplies]
    exact h.freshConn c' hle
  · rw [hreplies]
    exact h.once c'

/-- The first answer of a task is sent to a client whose connection has no handler any more. -/
theorem sendReply (h : Linked s) {c : ℕ} (hzero : s.replies c = 0) {k : Conn}
    (hk : s.conns c = some k) (hhandler : k.handler = .staticEmpty) (t code : ℕ) (body : String) :
    Linked { s with sent := s.sent ++ [.reply c t code body] } := by
  have hreplies (c' : ℕ) :
      ({ s with sent := s.sent ++ [.reply c t code body] } : State).replies c'
        = s.replies c' + if c = c' then 1 else 0 := by
    simp [State.replies, Sent.isReply, List.countP_singleton]
  have hc := h.lt_accepted hk
  refine ⟨fun c' k' hk' => ?_, h.served, fun c' hle => ?_, h.freshTask, fun c' => ?_, h.ok⟩
  · by_cases hcc : c = c'
    · subst hcc
      obtain rfl : k = k' := Option.some.inj (hk.symm.trans hk')
      exact .inr (free_of_staticEmpty hhandler _)
    · rw [hreplies, if_neg hcc]
      exact h.serving c' k' hk'
  · have hle' : s.accepted ≤ c' := hle
    rw [hreplies, if_neg (by omega)]
    exact h.freshConn c' hle'
  · rw [hreplies]
    split
    · rename_i hcc
      rw [← hcc, hzero]
    · exact h.once c'

/-! ## The handlers -/

/-- What is left of a connection that waits for a request, or is cut off. -/
theorem free_of_http {k k' : Conn} {n : ℕ} (hfree : k.Free n) (hk : k.handler = .http)
    (hk' : k'.handler = .http ∧ k'.userData = k.userData ∨ k'.handler = .handlerEmpty) :
    k'.Free n := by
  have hzero : n = 0 := by
    by_contra hpos
    have := hfree.replied (by omega)
    rw [hk] at this
    cases this
  subst hzero
  rcases hk' with ⟨hh, hdata⟩ | hh
  · exact Conn.Waiting.free (.inl ⟨hh, hdata.trans (hfree.http hk)⟩)
  · exact free_of_handlerEmpty hh

theorem evHandlerHttp (h : Linked s) {c : ℕ} {k : Conn} (hk : s.conns c = some k)
    (hhandler : k.handler = .http) (ev : MgEvent) : Linked (s.evHandlerHttp c k ev) := by
  obtain ⟨hserved, hfree⟩ := h.not_served hk (by rw [hhandler]; decide)
  have hc := h.lt_accepted hk
  unfold State.evHandlerHttp
  split
  · dsimp only
    split
    · refine h.setConn hserved hc fun k' hk' => ?_
      cases hk'
      exact free_of_http hfree hhandler (.inl ⟨hhandler, rfl⟩)
    · rw [hfree.http hhandler]
      dsimp only
      split
      · exact h.serve hk (.inl hhandler) _
      · refine (h.setConn hserved hc fun k' hk' => ?_).sendError c 500 "invalid parameter"
        cases hk'
        exact free_of_http hfree hhandler (.inl ⟨hhandler, (hfree.http hhandler).symm⟩)
  · refine h.setConn hserved hc fun k' hk' => ?_
    cases hk'
    exact free_of_http hfree hhandler (.inr rfl)
  · exact h

theorem evHandlerCoap (h : Linked s) {c : ℕ} {k : Conn} (hk : s.conns c = some k)
    (hhandler : k.handler = .coap) (ev : MgEvent) : Linked (s.evHandlerCoap c k ev) := by
  obtain ⟨-, hfree⟩ := h.not_served hk (by rw [hhandler]; decide)
  unfold State.evHandlerCoap
  split
  · split
    · exact h
    · split
      · rw [hfree.coap hhandler]
        dsimp only
        split
        · exact h.serve hk (.inr hhandler) _
        · exact h
      · rw [hfree.coap hhandler]
        dsimp only
        split
        · exact h.serve hk (.inr hhandler) _
        · exact h
      · exact h
      · exact h
  · exact h

/-- A task learns that its client is gone, and nothing else. -/
theorem evHandlerClient (h : Linked s) {c : ℕ} {k : Conn} (hk : s.conns c = some k)
    (hhandler : k.handler = .clientTask) (ev : MgEvent) : Linked (s.evHandlerClient c k ev) := by
  rcases h.serving c k hk with ⟨t, ht, -, hdata, -⟩ | hfree
  · unfold State.evHandlerClient
    rw [hdata]
    dsimp only
    rw [if_pos ht]
    split
    · exact h.part ht rfl nofun
    · exact h
  · exact absurd hhandler hfree.handler

theorem call (h : Linked s) {c : ℕ} {k : Conn} (hk : s.conns c = some k) (ev : MgEvent) :
    Linked (s.call c k ev) := by
  unfold State.call
  split
  · exact h.evHandlerHttp hk ‹_› ev
  · exact h.evHandlerCoap hk ‹_› ev
  · exact h.evHandlerClient hk ‹_› ev
  · exact h
  · exact h

/-- A connection that is closed is gone. -/
theorem close (h : Linked s) {c : ℕ} {k : Conn} (hk : s.conns c = some k) :
    Linked ((s.call c k .close).setConn c none) := by
  have hcall := h.call hk .close
  have hlast : ∃ k', (s.call c k .close).conns c = some k' ∧ k'.handler ≠ .clientTask := by
    cases hhandler : k.handler with
    | clientTask =>
      rcases h.serving c k hk with ⟨t, ht, -, hdata, -⟩ | hfree
      · refine ⟨{ k with handler := .staticEmpty }, ?_, nofun⟩
        simp only [State.call, hhandler, State.evHandlerClient, hdata, if_pos ht, State.setTask,
          State.setConn, Function.update_self]
      · exact absurd hhandler hfree.handler
    | _ => exact ⟨k, by simp only [State.call, hhandler]; exact hk, by rw [hhandler]; nofun⟩
  obtain ⟨k', hk', hne⟩ := hlast
  exact hcall.setConn (hcall.not_served hk' hne).1 (hcall.lt_accepted hk') nofun

/-- **The answer of a task** goes to the connection that the task serves, if it is still there. -/
theorem respond (h : Linked s) (t : ℕ) (status : Status) (body : String) (die : Bool) :
    Linked (s.respond t status body die) := by
  unfold State.respond
  split
  · exact h
  · rename_i ht
    split
    · exact h.setTask ht nofun
    · exact h
  · rename_i c ht
    obtain ⟨k, hk, hhandler, -⟩ := h.served t c ht
    have hzero : s.replies c = 0 := by
      rcases h.serving c k hk with ⟨-, -, -, -, hzero⟩ | hfree
      · exact hzero
      · exact absurd hhandler hfree.handler
    rw [hk]
    have hclient (c' : ℕ) : (if die then none else some none) ≠ some (some c') := by
      cases die <;> nofun
    have hempty : { k with sendAndClose := true, handler := .staticEmpty }.handler
        = .staticEmpty := rfl
    have hpart := h.part ht hempty hclient
    exact hpart.sendReply hzero (Function.update_self ..) rfl t _ body

theorem step (h : Linked s) (e : Event) : Linked (ClientConnection.step s e) := by
  cases e with
  | acceptHttp stopped allowed deadline =>
    simp only [ClientConnection.step]
    split
    · exact h.accept (.inl ⟨rfl, rfl⟩)
    · split
      · exact h.accept (.inl ⟨rfl, rfl⟩)
      · exact h.accept (.inl ⟨rfl, rfl⟩)
  | acceptCoap stopped => exact h.accept (.inr ⟨rfl, rfl⟩)
  | mg c ev =>
    simp only [ClientConnection.step]
    split
    · exact h
    · rename_i k hk
      split
      · split
        · exact h
        · exact h.call hk .timer
      · exact h.close hk
      · exact h.call hk ev
  | respond t status body die => exact h.respond t status body die

end Linked

/-- The pointers are right in every run. -/
theorem linked_run (es : List Event) : Linked (exec step init es) :=
  exec_of_step (fun _ e h => h.step e) linked_init es

/-- **No handler and no answer uses a pointer to what is gone**, and each task that has a client
is the one that serves its connection. -/
theorem no_fault (es : List Event) :
    (exec step init es).fault = false ∧ ∀ t c, (exec step init es).tasks t = some (some c) ↔
      ∃ k, (exec step init es).conns c = some k ∧ k.handler = .clientTask ∧
        k.userData = .task t := by
  have h := linked_run es
  refine ⟨h.ok, fun t c => ⟨h.served t c, ?_⟩⟩
  rintro ⟨k, hk, hhandler, hdata⟩
  rcases h.serving c k hk with ⟨t', ht', -, hdata', -⟩ | hfree
  · rw [hdata] at hdata'
    cases hdata'
    exact ht'
  · exact absurd hhandler hfree.handler

/-- **A connection gets one answer at most**; a connection that has got one has no handler that
could create another task. -/
theorem replies_le_one (es : List Event) (c : ℕ) :
    (exec step init es).replies c ≤ 1 ∧ ((exec step init es).replies c = 1 →
      ∀ k, (exec step init es).conns c = some k → k.handler = .staticEmpty) := by
  have h := linked_run es
  refine ⟨h.once c, fun hone k hk => ?_⟩
  rcases h.serving c k hk with ⟨-, -, -, -, hzero⟩ | hfree
  · omega
  · exact hfree.replied (by omega)

/-! ## Timers -/

/-- A request whose method is not known: nothing is done but to stop the timer. -/
def ignored (s : State) : Event → Option ℕ
  | .mg c (.httpRequest method _) =>
    match s.conns c with
    | some k =>
      if k.handler = .http ∧ HttpConnectionManager.translateMethod method = none then some c
      else none
    | none => none
  | _ => none

/-- A connection that waits for a request has a timer, or a request has been ignored. -/
def Conn.Waits (k : Conn) (c : ℕ) (l : List ℕ) : Prop :=
  k.handler = .http → k.closing = false → (k.timer = none ↔ c ∈ l)

/-- The connections, and those of them that a request has been ignored of. -/
structure Timed (s : State) (l : List ℕ) : Prop where
  waits : ∀ c k, s.conns c = some k → k.Waits c l
  lt : ∀ c ∈ l, c < s.accepted

namespace Timed

variable {l : List ℕ}

/-- Only the connection `c` changes. -/
theorem of_update (h : Timed s l) {s' : State} {c : ℕ} {k' : Option Conn} {o : Option ℕ}
    (hconns : s'.conns = Function.update s.conns c k') (haccepted : s.accepted ≤ s'.accepted)
    (hc : c < s'.accepted) (ho : ∀ c' ∈ o, c' = c)
    (hk' : ∀ k ∈ k', k.Waits c (l ++ o.toList)) : Timed s' (l ++ o.toList) where
  waits c' k hk := by
    rw [hconns] at hk
    by_cases hcc : c' = c
    · subst hcc
      rw [Function.update_self] at hk
      exact hk' k hk
    · rw [Function.update_of_ne hcc] at hk
      have hmem : c' ∈ l ++ o.toList ↔ c' ∈ l := by
        rw [List.mem_append, or_iff_left]
        intro hmem
        exact hcc (ho c' (Option.mem_toList.mp hmem))
      intro hhandler hclosing
      rw [hmem]
      exact h.waits c' k hk hhandler hclosing
  lt c' hc' := by
    rcases List.mem_append.mp hc' with hmem | hmem
    · exact (h.lt c' hmem).trans_le haccepted
    · rw [ho c' (Option.mem_toList.mp hmem)]
      exact hc

/-- A connection that has another handler does not wait for a request. -/
theorem waits_of_ne {k : Conn} (hk : k.handler ≠ .http) (c : ℕ) (l : List ℕ) : k.Waits c l :=
  fun hhandler => absurd hhandler hk

theorem ignored_of_ne {c : ℕ} {k : Conn} (hk : s.conns c = some k) (hne : k.handler ≠ .http)
    (ev : MgEvent) : ignored s (.mg c ev) = none := by
  cases ev with
  | httpRequest method routed =>
    simp only [ignored, hk]
    exact if_neg fun h => hne h.1
  | _ => rfl

/-- A connection that waits for a request calls its handler. -/
theorem exists_http (h : Timed s l) {c : ℕ} {k : Conn} (hk : s.conns c = some k)
    (hhandler : k.handler = .http) (ev : MgEvent) :
    (s.evHandlerHttp c k ev).accepted = s.accepted ∧
      ∃ k', (s.evHandlerHttp c k ev).conns = Function.update s.conns c (some k') ∧
        k'.Waits c (l ++ (ignored s (.mg c ev)).toList) := by
  have hsame : s.conns = Function.update s.conns c (some k) := by rw [← hk, Function.update_eq_self]
  have hwaits : k.Waits c (l ++ (none : Option ℕ).toList) := by
    rw [Option.toList_none, List.append_nil]
    exact h.waits c k hk
  cases ev with
  | httpRequest method routed =>
    simp only [State.evHandlerHttp, ignored, hk, hhandler, true_and]
    cases hmethod : HttpConnectionManager.translateMethod method with
    | none =>
      refine ⟨rfl, _, rfl, fun _ _ => ?_⟩
      rw [if_pos rfl]
      exact iff_of_true rfl (List.mem_append_right _ (List.mem_singleton.mpr rfl))
    | some m =>
      rw [if_neg (Option.some_ne_none m)]
      dsimp only
      split
      · exact ⟨rfl, k, hsame, hwaits⟩
      · exact ⟨rfl, k, hsame, hwaits⟩
      · split
        · exact ⟨rfl, _, rfl, waits_of_ne (by simp) c _⟩
        · refine ⟨rfl, _, rfl, fun _ hclosing => ?_⟩
          simp [Conn.closing] at hclosing
  | timer => exact ⟨rfl, _, rfl, waits_of_ne (by simp) c _⟩
  | _ => exact ⟨rfl, k, hsame, hwaits⟩

/-- A connection that does not wait for a request goes on not to. -/
theorem exists_of_ne {c : ℕ} {k : Conn} (hk : s.conns c = some k) (hne : k.handler ≠ .http)
    (ev : MgEvent) : (s.call c k ev).accepted = s.accepted ∧
      ∃ k', (s.call c k ev).conns = Function.update s.conns c (some k') ∧ k'.handler ≠ .http := by
  have hsame : s.conns = Function.update s.conns c (some k) := by rw [← hk, Function.update_eq_self]
  have hself : s.accepted = s.accepted ∧
      ∃ k', s.conns = Function.update s.conns c (some k') ∧ k'.handler ≠ .http :=
    ⟨rfl, k, hsame, hne⟩
  unfold State.call
  split
  · rename_i hhandler
    exact absurd hhandler hne
  · cases ev with
    | coapMessage ev codeClass routed =>
      simp only [State.evHandlerCoap]
      split
      · exact hself
      · split
        · split
          · exact hself
          · exact hself
          · split
            · exact ⟨rfl, _, rfl, by simp⟩
            · exact hself
        · split
          · exact hself
          · exact hself
          · split
            · exact ⟨rfl, _, rfl, by simp⟩
            · exact hself
        · exact hself
        · exact hself
    | _ => exact hself
  · simp only [State.evHandlerClient]
    split
    · exact hself
    · exact hself
    · split
      · split
        · exact ⟨rfl, _, rfl, by simp⟩
        · exact hself
      · exact hself
  · exact hself
  · exact hself

theorem accepted_call (h : Timed s l) {c : ℕ} {k : Conn} (hk : s.conns c = some k) (ev : MgEvent) :
    (s.call c k ev).accepted = s.accepted := by
  by_cases hhandler : k.handler = .http
  · have hcall : s.call c k ev = s.evHandlerHttp c k ev := by
      simp only [State.call, hhandler]
    rw [hcall]
    exact (h.exists_http hk hhandler ev).1
  · exact (exists_of_ne hk hhandler ev).1

theorem call (h : Timed s l) (hlinked : Linked s) {c : ℕ} {k : Conn} (hk : s.conns c = some k)
    (ev : MgEvent) : Timed (s.call c k ev) (l ++ (ignored s (.mg c ev)).toList) := by
  have hc := hlinked.lt_accepted hk
  by_cases hhandler : k.handler = .http
  · obtain ⟨haccepted, k', hconns, hwaits⟩ := h.exists_http hk hhandler ev
    have hcall : s.call c k ev = s.evHandlerHttp c k ev := by
      simp only [State.call, hhandler]
    rw [hcall]
    refine h.of_update hconns haccepted.ge (haccepted ▸ hc) (fun c' hc' => ?_) fun k'' hk'' => ?_
    · simp only [ignored] at hc'
      split at hc'
      · rename_i heq
        cases heq
        rw [hk] at hc'
        dsimp only at hc'
        split at hc' <;> cases hc'
        rfl
      · cases hc'
    · cases hk''
      exact hwaits
  · obtain ⟨haccepted, k', hconns, hne⟩ := exists_of_ne hk hhandler ev
    rw [ignored_of_ne hk hhandler]
    refine h.of_update hconns haccepted.ge (haccepted ▸ hc) nofun fun k'' hk'' => ?_
    cases hk''
    exact waits_of_ne hne c _

theorem step (h : Timed s l) (hlinked : Linked s) (e : Event) :
    Timed (ClientConnection.step s e) (l ++ (ignored s e).toList) := by
  have haccept (k : Conn) (hk : k.Waits s.accepted l) : Timed (s.accept k) (l ++ []) := by
    refine h.of_update (o := none) rfl (Nat.le_succ _) (Nat.lt_succ_self _) nofun fun k' hk' => ?_
    cases hk'
    rw [Option.toList_none, List.append_nil]
    exact hk
  have hnew : s.accepted ∉ l := fun hmem => lt_irrefl _ (h.lt _ hmem)
  cases e with
  | acceptHttp stopped allowed deadline =>
    simp only [ClientConnection.step, ignored]
    split
    · exact haccept _ fun _ hclosing => by simp [Conn.closing] at hclosing
    · split
      · exact haccept _ fun _ hclosing => by simp [Conn.closing] at hclosing
      · exact haccept _ fun _ _ => iff_of_false nofun hnew
  | acceptCoap stopped => exact haccept _ (waits_of_ne (by simp) _ _)
  | mg c ev =>
    simp only [ClientConnection.step]
    cases hk : s.conns c with
    | none =>
      have hnone : ignored s (.mg c ev) = none := by
        cases ev <;> simp [ignored, hk]
      rw [hnone, Option.toList_none, List.append_nil]
      exact h
    | some k =>
      cases ev with
      | timer =>
        dsimp only
        split
        · show Timed s (l ++ [])
          rwa [List.append_nil]
        · exact h.call hlinked hk .timer
      | close =>
        have hcall := h.call hlinked hk .close
        rw [← List.append_nil (l ++ _)]
        refine hcall.of_update (o := none) rfl le_rfl ?_ nofun nofun
        show c < (s.call c k .close).accepted
        rw [h.accepted_call hk]
        exact hlinked.lt_accepted hk
      | httpRequest method routed => exact h.call hlinked hk _
      | coapMessage ev codeClass routed => exact h.call hlinked hk _
      | other => exact h.call hlinked hk _
  | respond t status body die =>
    show Timed (s.respond t status body die) (l ++ [])
    have hsame : Timed s (l ++ []) := by rwa [List.append_nil]
    unfold State.respond
    split
    · exact hsame
    · split
      · exact ⟨hsame.waits, hsame.lt⟩
      · exact hsame
    · rename_i c ht
      obtain ⟨k, hk, -⟩ := hlinked.served t c ht
      rw [hk]
      refine h.of_update (o := none) (c := c) rfl le_rfl (hlinked.lt_accepted hk) nofun
        fun k' hk' => ?_
      cases hk'
      exact waits_of_ne (by simp) c _

end Timed

/-- **A connection that waits for a request is cut off in time**, unless it has sent a request
whose method is not known; no task has answered it. -/
theorem timer_iff_not_ignored (es : List Event) (c : ℕ) (k : Conn)
    (hk : (exec ClientConnection.step init es).conns c = some k) (hhandler : k.handler = .http)
    (hclosing : k.closing = false) :
    (k.timer = none ↔ c ∈ trace ClientConnection.step ignored init es) ∧
      (exec ClientConnection.step init es).replies c = 0 := by
  have hstart : Linked init ∧ Timed init [] := by
    refine ⟨linked_init, fun c k hk => ?_, fun c hc => ?_⟩
    · cases hk
    · cases hc
  have hstep (s : State) (l : List ℕ) (e : Event) (h : Linked s ∧ Timed s l) :
      Linked (step s e) ∧ Timed (step s e) (l ++ (ignored s e).toList) :=
    ⟨h.1.step e, h.2.step h.1 e⟩
  have hrun := trace_invariant hstep hstart es
  refine ⟨hrun.2.waits c k hk hhandler hclosing, ?_⟩
  rcases hrun.1.serving c k hk with ⟨-, -, -, -, hzero⟩ | hfree
  · exact hzero
  · by_contra hne
    have hempty := hfree.replied (Nat.pos_of_ne_zero hne)
    rw [hhandler] at hempty
    cases hempty

/-- Two connections: a request of the second one is ignored, and the first one is answered. -/
theorem timer_iff_not_ignored_options :
    let es : List Event :=
      [.acceptHttp false true 360, .acceptHttp false true 360,
        .mg 0 (.httpRequest "GET".toList true), .mg 1 (.httpRequest "OPTIONS".toList true),
        .respond 0 .ok "" true]
    ((none : Option ℕ) = none ↔ 1 ∈ trace ClientConnection.step ignored init es) ∧
      (exec ClientConnection.step init es).replies 1 = 0 :=
  timer_iff_not_ignored _ 1 ⟨.http, .http, none, false, false⟩ rfl rfl rfl

end ClientConnection
