/-
# What is seen of a task

The log of the task manager, task by task: a client gets one response at most, `onClientDone` is
called when the task ends and not before, no handler runs afterwards, and a periodic task ends
when it has stopped (`Books`).  The counters `m_cntBaseTask` and `m_cntBaseTaskDone` follow.
-/
import GraftSupernode.Looper

open StateMachine

namespace TaskManager

variable {υ κ : Type*} [LinearOrder υ]

namespace Note

/-- A response to the client of `t`. -/
def isRespond (t : ℕ) : Note → Bool
  | .respond t' _ _ => t' = t
  | _ => false

/-- `onClientDone` for `t`. -/
def isClientDone (t : ℕ) : Note → Bool
  | .clientDone t' _ => t' = t
  | _ => false

/-- A handler of `t`. -/
def isHandler (t : ℕ) : Note → Bool
  | .handler t' => t' = t
  | _ => false

/-- The notes that are not about the end of a task, nor about its handlers. -/
def isNeutral : Note → Bool
  | .respond _ _ _ | .clientDone _ _ | .handler _ => false
  | _ => true

/-- A neutral note is about no client and no handler. -/
theorem isNeutral_spec {n : Note} (h : n.isNeutral = true) (t : ℕ) :
    n.isRespond t = false ∧ n.isClientDone t = false ∧ n.isHandler t = false := by
  cases n <;> first | exact ⟨rfl, rfl, rfl⟩ | cases h

end Note

/-- The client tasks that have not ended. -/
def State.liveClients (m : State υ κ) : Finset ℕ :=
  (Finset.range m.created).filter fun t => (m.task t).kind = .client ∧ (m.task t).self = true

/-- A client task is alive as long as it holds itself. -/
theorem State.mem_liveClients {m : State υ κ} {t : ℕ} :
    t ∈ m.liveClients ↔ t < m.created ∧ (m.task t).kind = .client ∧ (m.task t).self = true := by
  simp [liveClients]

/-- The log is as the tasks are. -/
structure Books (m : State υ κ) : Prop where
  /-- A client gets one response, and then it is gone. -/
  responses : ∀ t, m.log.countP (Note.isRespond t) + (m.task t).client.toNat ≤ 1
  /-- `onClientDone` is called when the task ends. -/
  done : ∀ t, (m.task t).kind = .client →
    m.log.countP (Note.isClientDone t) + (m.task t).self.toNat = 1
  periodic : ∀ t, (m.task t).kind = .periodic → m.log.countP (Note.isClientDone t) = 0
  /-- It is not called for `Again`. -/
  status : ∀ t s, .clientDone t s ∈ m.log → s ≠ .again
  /-- No handler runs afterwards. -/
  handlers : m.log.Pairwise fun later earlier =>
    ∀ t, later.isHandler t = true → earlier.isClientDone t = false
  /-- A periodic task ends with `Stop`. -/
  stopped : ∀ t < m.created, (m.task t).kind = .periodic → (m.task t).self = false →
    (m.task t).status = .stop
  counters : m.cntBaseTask = m.cntBaseTaskDone + m.liveClients.card
  fresh : ∀ t, m.created ≤ t →
    (m.task t).kind = .periodic ∧ m.log.countP (Note.isRespond t) = 0

namespace Books

variable {m m' : State υ κ} {t : ℕ}

/-- The books are about the tasks, the counters and the notes only. -/
theorem of_eq (h : Books m) (htask : m'.task = m.task) (hcreated : m'.created = m.created)
    (hcnt : m'.cntBaseTask = m.cntBaseTask) (hdone : m'.cntBaseTaskDone = m.cntBaseTaskDone)
    (hlog : m'.log = m.log) : Books m' := by
  have hlive : m'.liveClients = m.liveClients := by
    simp only [State.liveClients, htask, hcreated]
  constructor
  · rw [hlog, htask]; exact h.responses
  · rw [hlog, htask]; exact h.done
  · rw [hlog, htask]; exact h.periodic
  · rw [hlog]; exact h.status
  · rw [hlog]; exact h.handlers
  · rw [hcreated, htask]; exact h.stopped
  · rw [hcnt, hdone, hlive]; exact h.counters
  · rw [hcreated, hlog, htask]; exact h.fresh

/-- Only tasks that have been created are client tasks. -/
theorem lt_created (h : Books m) (hkind : (m.task t).kind = .client) : t < m.created := by
  by_contra hle
  have := (h.fresh t (not_lt.mp hle)).1
  rw [hkind] at this
  cases this

/-- A task that has not ended has not been reported as done. -/
theorem not_done (h : Books m) (hself : (m.task t).self = true) :
    m.log.countP (Note.isClientDone t) = 0 := by
  cases hkind : (m.task t).kind with
  | client =>
    have := h.done t hkind
    rw [hself, Bool.toNat_true] at this
    omega
  | periodic => exact h.periodic t hkind

/-- **A change of one task** that keeps its kind and whether it has ended, and gives it no
client. -/
theorem modify (h : Books m) {f : Task υ → Task υ}
    (hkind : (f (m.task t)).kind = (m.task t).kind) (hself : (f (m.task t)).self = (m.task t).self)
    (hclient : (f (m.task t)).client.toNat ≤ (m.task t).client.toNat)
    (hstatus : (f (m.task t)).status = (m.task t).status ∨ (m.task t).self = true) :
    Books (m.modify t f) := by
  have htask (t' : ℕ) : ((m.modify t f).task t').kind = (m.task t').kind ∧
      ((m.modify t f).task t').self = (m.task t').self ∧
      ((m.modify t f).task t').client.toNat ≤ (m.task t').client.toNat ∧
      (((m.modify t f).task t').status = (m.task t').status ∨ (m.task t').self = true) := by
    by_cases ht : t' = t
    · subst ht
      rw [State.modify_task_self]
      exact ⟨hkind, hself, hclient, hstatus⟩
    · rw [State.modify_task_of_ne m ht]
      exact ⟨rfl, rfl, le_rfl, .inl rfl⟩
  have hlive : (m.modify t f).liveClients = m.liveClients :=
    Finset.filter_congr fun t' _ => by rw [(htask t').1, (htask t').2.1]
  refine ⟨fun t' => ?_, fun t' hk => ?_, fun t' hk => ?_, h.status, h.handlers,
    fun t' ht' hk hs => ?_, by rw [hlive]; exact h.counters, fun t' ht' => ?_⟩
  · exact (Nat.add_le_add_left (htask t').2.2.1 _).trans (h.responses t')
  · rw [(htask t').2.1]
    exact h.done t' ((htask t').1 ▸ hk)
  · exact h.periodic t' ((htask t').1 ▸ hk)
  · rw [(htask t').2.1] at hs
    rw [(htask t').1] at hk
    rcases (htask t').2.2.2 with hst | hst
    · rw [hst]
      exact h.stopped t' ht' hk hs
    · rw [hs] at hst
      cases hst
  · rw [(htask t').1]
    exact h.fresh t' ht'

/-- A neutral note leaves the books right. -/
theorem note (h : Books m) {n : Note} (hn : n.isNeutral = true) : Books (m.note n) := by
  have hspec := Note.isNeutral_spec hn
  refine ⟨fun t => ?_, fun t hk => ?_, fun t hk => ?_, fun t s hmem => ?_, ?_, h.stopped,
    h.counters, fun t ht => ?_⟩
  · simpa [State.note, List.countP_cons, (hspec t).1] using h.responses t
  · simpa [State.note, List.countP_cons, (hspec t).2.1] using h.done t hk
  · simpa [State.note, List.countP_cons, (hspec t).2.1] using h.periodic t hk
  · rcases List.mem_cons.mp hmem with heq | hmem
    · rw [← heq] at hn
      cases hn
    · exact h.status t s hmem
  · refine List.pairwise_cons.mpr ⟨fun e _ t hhandler => ?_, h.handlers⟩
    rw [(hspec t).2.2] at hhandler
    cases hhandler
  · simpa [State.note, List.countP_cons, (hspec t).1] using h.fresh t ht

/-- **A handler** runs while its task has not ended. -/
theorem handler (h : Books m) (hself : (m.task t).self = true) : Books (m.note (.handler t)) := by
  refine ⟨h.responses, h.done, h.periodic, fun t' s hmem => ?_, ?_, h.stopped, h.counters,
    h.fresh⟩
  · exact h.status t' s ((List.mem_cons.mp hmem).resolve_left (by simp))
  · refine List.pairwise_cons.mpr ⟨fun e he t' hhandler => ?_, h.handlers⟩
    have heq : t = t' := by simpa [Note.isHandler] using hhandler
    subst heq
    have := List.countP_eq_zero.mp (h.not_done hself) e he
    simpa using this

/-! ## The answer -/

/-- A task that is answered has one reply, if it has a client. -/
theorem countP_isRespond_replies (t' : ℕ) (body : String) :
    (m.replies t body).countP (Note.isRespond t') =
      if t' = t ∧ (m.task t).kind = .client ∧ (m.task t).client = true then 1 else 0 := by
  unfold State.replies
  cases hkind : (m.task t).kind <;> cases hclient : (m.task t).client <;>
    by_cases hstatus : (m.task t).status = .again <;>
    simp [hstatus, Note.isRespond, List.countP_cons, eq_comm]

/-- A task that is answered is done once, unless it runs again. -/
theorem countP_isClientDone_replies (t' : ℕ) (body : String) :
    (m.replies t body).countP (Note.isClientDone t') =
      if t' = t ∧ (m.task t).kind = .client ∧ (m.task t).status ≠ .again then 1 else 0 := by
  unfold State.replies
  cases hkind : (m.task t).kind <;> cases hclient : (m.task t).client <;>
    by_cases hstatus : (m.task t).status = .again <;>
    simp [hstatus, Note.isClientDone, List.countP_cons, eq_comm]

/-- No handler is called for an answer. -/
theorem isHandler_replies {body : String} {n : Note} (h : n ∈ m.replies t body) (t' : ℕ) :
    n.isHandler t' = false := by
  unfold State.replies at h
  cases hkind : (m.task t).kind <;> cases hclient : (m.task t).client <;>
    by_cases hstatus : (m.task t).status = .again <;> simp [hkind, hclient, hstatus] at h
  all_goals rcases h with rfl | rfl <;> rfl

/-- A task that runs again is not done. -/
theorem status_replies {body : String} {t' : ℕ} {st : Status}
    (h : .clientDone t' st ∈ m.replies t body) : st ≠ .again := by
  unfold State.replies at h
  cases hkind : (m.task t).kind <;> cases hclient : (m.task t).client <;>
    by_cases hstatus : (m.task t).status = .again <;> simp [hkind, hclient, hstatus] at h
  all_goals exact h.2 ▸ hstatus

/-- The client tasks that are left. -/
theorem liveClients_respondAndDie (P : Params υ κ) (body : String) (die : Bool) :
    (m.respondAndDie P t body die).liveClients =
      if (m.task t).kind = .client ∧ die = true then m.liveClients.erase t else m.liveClients := by
  ext t'
  have hcreated : (m.respondAndDie P t body die).created = m.created := by
    rw [State.respondAndDie_eq]
  rw [State.mem_liveClients, hcreated, State.respondAndDie_task]
  by_cases ht : t' = t
  · subst ht
    rw [if_pos rfl, Task.answered_kind, Task.answered_self]
    cases hkind : (m.task t').kind <;> cases die <;> simp [State.mem_liveClients, hkind]
  · rw [if_neg ht]
    split
    · rw [Finset.mem_erase, State.mem_liveClients, and_iff_right ht]
    · rw [State.mem_liveClients]

/-- **The answer**: a task that dies has not said `Again`, one that says `Again` lives on. -/
theorem respondAndDie {P : Params υ κ} (h : Books m) (hself : (m.task t).self = true)
    (body : String) {die : Bool} (hdie : die = true ↔ (m.task t).status ≠ .again) :
    Books (m.respondAndDie P t body die) := by
  have htask := State.respondAndDie_task P m t body die
  have hlog : (m.respondAndDie P t body die).log = m.replies t body ++ m.log := by
    rw [State.respondAndDie_eq]
  have hcreated : (m.respondAndDie P t body die).created = m.created := by
    rw [State.respondAndDie_eq]
  have hkinds (t' : ℕ) : ((m.respondAndDie P t body die).task t').kind = (m.task t').kind := by
    rw [htask]
    split <;> simp [*]
  have hstatuses (t' : ℕ) :
      ((m.respondAndDie P t body die).task t').status = (m.task t').status := by
    rw [htask]
    split <;> simp [*]
  refine ⟨fun t' => ?_, fun t' hk => ?_, fun t' hk => ?_, fun t' st hmem => ?_, ?_,
    fun t' ht' hk hs => ?_, ?_, fun t' ht' => ?_⟩
  · -- the response has used the client of its task up
    have := h.responses t'
    rw [hlog, List.countP_append, countP_isRespond_replies, htask]
    by_cases ht : t' = t
    · subst ht
      have hsum : (if t' = t' ∧ (m.task t').kind = .client ∧ (m.task t').client = true then 1
          else 0) + ((m.task t').client && (m.task t').kind = .periodic).toNat =
          (m.task t').client.toNat := by
        cases (m.task t').kind <;> cases (m.task t').client <;> simp
      rw [if_pos rfl, Task.answered_client]
      omega
    · simpa [ht] using this
  · -- the handler is told when the task dies
    rw [hkinds] at hk
    have := h.done t' hk
    rw [hlog, List.countP_append, countP_isClientDone_replies, htask]
    by_cases ht : t' = t
    · subst ht
      rw [if_pos rfl, Task.answered_self]
      cases die <;> simp_all
    · simpa [ht] using this
  · rw [hkinds] at hk
    rw [hlog, List.countP_append, countP_isClientDone_replies, h.periodic t' hk, if_neg]
    rintro ⟨rfl, hclient, -⟩
    rw [hk] at hclient
    cases hclient
  · rw [hlog] at hmem
    exact (List.mem_append.mp hmem).elim status_replies (h.status t' st)
  · rw [hlog]
    -- the new notes are of no handler
    refine List.pairwise_append.mpr ⟨?_, h.handlers, fun n hn _ _ t' hh => ?_⟩
    · exact List.pairwise_iff_forall_sublist.mpr fun hsub t' hh => by
        rw [isHandler_replies (hsub.subset List.mem_cons_self) t'] at hh
        cases hh
    · rw [isHandler_replies hn t'] at hh
      cases hh
  · rw [hcreated] at ht'
    rw [hkinds] at hk
    rw [hstatuses]
    by_cases ht : t' = t
    · subst ht
      rw [htask, if_pos rfl, Task.answered_self, hself, hk] at hs
      -- only a dead task has lost its own reference
      simpa using (by simpa using hs : die = true ∧ (m.task t').status = .stop).2
    · rw [htask, if_neg ht] at hs
      exact h.stopped t' ht' hk hs
  · -- the counter of clients goes down exactly when one dies
    rw [liveClients_respondAndDie, State.respondAndDie_eq]
    have hcounters := h.counters
    dsimp only
    by_cases hkind : (m.task t).kind = .client
    · by_cases hagain : (m.task t).status = .again
      · have : die = false := by simpa [hagain] using hdie
        simpa [hkind, hagain, this] using hcounters
      · have hmem : t ∈ m.liveClients := by
          simp [State.mem_liveClients, h.lt_created hkind, hkind, hself]
        have hcard := Finset.card_erase_add_one hmem
        rw [if_pos ⟨hkind, hagain⟩, if_pos ⟨hkind, hdie.mpr hagain⟩]
        omega
    · simpa [hkind] using hcounters
  · rw [hcreated] at ht'
    rw [hkinds, hlog, List.countP_append, countP_isRespond_replies, (h.fresh t' ht').2, if_neg]
    · exact ⟨(h.fresh t' ht').1, rfl⟩
    · rintro ⟨rfl, hclient, -⟩
      exact absurd (h.lt_created hclient) (not_lt.mpr ht')

/-! ## What a task does -/

/-- A handler leaves the books right. -/
theorem handled (h : Books m) (hself : (m.task t).self = true) (hm : m.Handled t m') :
    Books m' := by
  cases hm with
  | rest => exact h
  | called f hf =>
    exact (h.handler hself).modify (hf.kind _) (hf.self _) (by rw [hf.client]) (.inr hself)

/-- The pre action leaves the books right. -/
theorem runPreAction {o : Option (Outcome υ)} (h : Books m) (hself : (m.task t).self = true)
    (hm : m.runPreAction t o = some m') : Books m' :=
  h.handled hself (State.handled_runPreAction hm)

/-- The post action leaves the books right. -/
theorem runPostAction {o : Option (Outcome υ)} (h : Books m) (hself : (m.task t).self = true)
    (hm : m.runPostAction t o = some m') : Books m' :=
  h.handled hself (State.handled_runPostAction hm)

/-- The end of a worker action leaves the books right. -/
theorem workerDone {o : Option (Outcome υ)} (h : Books m)
    (hself : (m.task t).self = true) (hm : m.workerDone t o = some m') : Books m' := by
  obtain ⟨m₁, hrun, rfl⟩ := Option.map_eq_some_iff.mp hm
  obtain ⟨o, -, rfl⟩ := Option.map_eq_some_iff.mp hrun
  have hmod := (h.handler hself).modify (t := t)
    (f := fun bt => { bt with
      status := o.status, output := o.output, nextUuid := o.nextUuid
      input := if o.status = .ok ∧ bt.h3.postAction ∨ o.status = .forward
        then bt.input.assign o.output else bt.input }) rfl rfl le_rfl (.inr hself)
  dsimp only
  split <;> exact hmod.of_eq rfl rfl rfl rfl rfl

/-- A task may get a new input. -/
theorem resumeTask (h : Books m) (t : ℕ) (input : Input) : Books (m.resumeTask t input) :=
  ((h.note rfl).modify (f := fun bt => { bt with input := input }) rfl rfl le_rfl
    (.inl rfl)).of_eq rfl rfl rfl rfl rfl

/-- A task may be postponed. -/
theorem postponeTask {P : Params υ κ} (h : Books m) (t : ℕ) : Books (m.postponeTask P t) := by
  unfold State.postponeTask
  dsimp only
  split
  · refine resumeTask ?_ t _
    exact h.of_eq rfl rfl rfl rfl rfl
  · exact (h.note (n := .postpone t m.now) rfl).of_eq rfl rfl rfl rfl rfl

/-- A task that was postponed may go on. -/
theorem resumeNext (h : Books m) (t : ℕ) : Books (m.resumeNext t) := by
  unfold State.resumeNext
  dsimp only
  split
  · exact h
  · split
    · exact h.of_eq rfl rfl rfl rfl rfl
    · exact (h.resumeTask _ _).of_eq rfl rfl rfl rfl rfl

/-- `processOk` leaves the books right: it answers, and starts a periodic task again. -/
theorem processOk {P : Params υ κ} (h : Books m) (hself : (m.task t).self = true)
    (hstatus : (m.task t).status ≠ .again) : Books (m.processOk P t) := by
  obtain ⟨input, htask⟩ := m.resumeNext_task t t
  refine (h.resumeNext t).respondAndDie ?_ _ ?_ <;> rw [htask]
  · exact hself
  · exact iff_of_true rfl hstatus

/-- A task that expires is answered. -/
theorem expireTask {P : Params υ κ} (h : Books m) (hself : (m.task t).self = true) :
    Books (m.expireTask P t) := by
  have hnote : Books ((m.note (.expire t m.now)).setLastStatus t .error) :=
    (h.note rfl).modify rfl rfl le_rfl (.inr hself)
  refine hnote.respondAndDie ?_ _ ?_
  · simpa [State.setLastStatus, State.note] using hself
  · simp [State.setLastStatus]

/-! ## New tasks, and clients that leave -/

/-- A client may close its connection. -/
theorem closeClient (h : Books m) (t : ℕ) : Books (m.closeClient t) :=
  h.modify rfl rfl (Nat.zero_le _) (.inl rfl)

/-- The client tasks that have not ended, when a task is created. -/
theorem liveClients_create {bt : Task υ} (hself : bt.self = true) :
    (m.create bt).liveClients.card =
      m.liveClients.card + if bt.kind = .client then 1 else 0 := by
  have hnot : m.created ∉ m.liveClients := fun hmem =>
    absurd (State.mem_liveClients.mp hmem).1 (lt_irrefl _)
  have hset : (m.create bt).liveClients =
      if bt.kind = .client then insert m.created m.liveClients else m.liveClients := by
    ext t'
    rw [State.mem_liveClients]
    have hcreated : (m.create bt).created = m.created + 1 := rfl
    by_cases ht : t' = m.created
    · subst ht
      split <;> simp [*]
    · rw [State.create_task_of_ne m bt ht, hcreated]
      split <;> simp [State.mem_liveClients, ht] <;> omega
  rw [hset]
  split
  · exact Finset.card_insert_of_notMem hnot
  · rfl

/-- **A new task** has not been seen before. -/
theorem create (h : Books m) {b : Task υ} (hself : b.self = true)
    (hm : m'.cntBaseTask = m.cntBaseTask + if b.kind = .client then 1 else 0)
    (hcreate : m'.task = (m.create b).task ∧ m'.created = m.created + 1 ∧
      m'.cntBaseTaskDone = m.cntBaseTaskDone ∧ m'.log = m.log) : Books m' := by
  obtain ⟨htask, hcreated, hcnt, hlog⟩ := hcreate
  have hnew : m'.task m.created = b := by rw [htask, State.create_task_self]
  have hold {t' : ℕ} (ht : t' ≠ m.created) : m'.task t' = m.task t' := by
    rw [htask, State.create_task_of_ne m b ht]
  obtain ⟨hkind, hresponses⟩ := h.fresh _ le_rfl
  refine ⟨fun t' => ?_, fun t' hk => ?_, fun t' hk => ?_, by rw [hlog]; exact h.status,
    by rw [hlog]; exact h.handlers, fun t' ht' hk hs => ?_, ?_, fun t' ht' => ?_⟩
  · rw [hlog]
    by_cases ht : t' = m.created
    · subst ht
      rw [hresponses, Nat.zero_add]
      exact Bool.toNat_le _
    · rw [hold ht]
      exact h.responses t'
  · rw [hlog]
    by_cases ht : t' = m.created
    · subst ht
      rw [hnew, hself, h.periodic _ hkind]
      rfl
    · rw [hold ht] at hk ⊢
      exact h.done t' hk
  · rw [hlog]
    by_cases ht : t' = m.created
    · subst ht
      exact h.periodic _ hkind
    · rw [hold ht] at hk
      exact h.periodic t' hk
  · by_cases ht : t' = m.created
    · subst ht
      rw [hnew, hself] at hs
      cases hs
    · rw [hold ht] at hk hs ⊢
      exact h.stopped t' (by omega) hk hs
  · have hlive : m'.liveClients = (m.create b).liveClients := by
      rw [State.liveClients, htask, hcreated]
      rfl
    rw [hlive, liveClients_create hself, hm, hcnt, h.counters]
    omega
  · rw [hlog, hold (by omega)]
    exact h.fresh t' (by omega)

end Books

end TaskManager
