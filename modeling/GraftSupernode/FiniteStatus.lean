/-
# Finite statuses

Six handlers write the status of a payment, and their operations on the global context
interleave in any way, together with the clock and the cleanup of the table.  Of the six only
`updateSaleStatusHandler` asks whether the stored status is finite, and it writes in a second
step.

* `StatusCall`: a call of one of the handlers; `statusStep`: a turn;
* `Late`: a write that comes after one of another finite status, which is still in the table:
  for an update, after one that came between its own check and its write;
* `status_origin`: in every run, a status in the table was written by an earlier turn, or it was
  there before the run;
* `finite_status_kept_iff`: finite statuses are kept in exactly the runs without late writes;
* `finite_status_changed`: a rejection changes a status that is finite.
-/
import GraftSupernode.AuthDecision
import GraftSupernode.HandlerOps

open AtomicProgram GlobalContext Runs

namespace Request

variable {E : Externals}

/-! ## Calls of the handlers -/

/-- A call of a handler that writes statuses. -/
inductive StatusCall (E : Externals)
  | saleClient (c : Call E) (generated : String)
  | saleCryptonode (c : Call E)
  | updateSaleStatus (c : Call E)
  | rejectSale (c : Call E)
  | rejectPay (c : Call E)
  | authorizeRtaTxResponse (c : Call E)

/-- What a call runs. -/
def StatusCall.handler : StatusCall E → Handler E
  | saleClient c generated => Handler.saleClientHandler c generated
  | saleCryptonode c => Handler.saleCryptonodeHandler c
  | updateSaleStatus c => Handler.updateSaleStatusHandler c
  | rejectSale c => Handler.rejectSaleHandler c
  | rejectPay c => Handler.rejectPayHandler c
  | authorizeRtaTxResponse c => Handler.authorizeRtaTxResponseHandler c

/-- The call is one of `updateSaleStatusHandler`. -/
def StatusCall.Asks : StatusCall E → Prop
  | updateSaleStatus _ => True
  | _ => False

theorem StatusCall.Asks.eq {call : StatusCall E} (h : call.Asks) :
    ∃ c, call = .updateSaleStatus c := by
  cases call with
  | updateSaleStatus c => exact ⟨c, rfl⟩
  | _ => exact h.elim

/-! ## What the handlers write -/

/-- An operation that writes a status stores an integer. -/
def StatusOp (o : StoreOp (Any E)) : Prop :=
  ∀ paymentId, o.writes = some (ContextKey.status.of paymentId) →
    ∃ (s : ℤ) (ttl : ℕ), o = .set (ContextKey.status.of paymentId) (.int s) ttl

theorem Issued.statusOp {o : StoreOp (Any E)} (h : Issued o) : StatusOp o := by
  intro paymentId hwrites
  cases h with
  | hasKey k id hk => cases hwrites
  | get k id hd hk => cases hwrites
  | getServer k hd => cases hwrites
  | setServer k hv =>
    rw [StoreOp.writes_set, Option.some_inj] at hwrites
    exact absurd hwrites.symm (k.of_ne_name _ _)
  | @set k id v ttl hv httl hk =>
    rw [StoreOp.writes_set, Option.some_inj, ContextKey.of_eq_of] at hwrites
    obtain ⟨rfl, rfl⟩ := hwrites
    obtain ⟨s, rfl⟩ := Any.type_eq_int.mp hv
    exact ⟨s, ttl, rfl⟩

/-- The operations of a call. -/
theorem StatusCall.issued (call : StatusCall E) : call.handler.Every Issued := by
  cases call with
  | saleClient c generated => exact Handler.issued_saleClientHandler c generated
  | saleCryptonode c => exact Handler.issued_saleCryptonodeHandler c
  | updateSaleStatus c => exact Handler.issued_updateSaleStatusHandler c
  | rejectSale c => exact Handler.issued_rejectHandler _ c
  | rejectPay c => exact Handler.issued_rejectHandler _ c
  | authorizeRtaTxResponse c => exact Handler.issued_authorizeRtaTxResponseHandler c

/-- **What the handlers write** under the key of a status is an integer. -/
theorem StatusCall.statusOp (call : StatusCall E) : call.handler.Every StatusOp :=
  call.issued.mono fun _ ho => ho.statusOp

/-! ## Runs -/

/-- The calls, each with a worker of its own, and the global context. -/
abbrev StatusPool (ι : Type*) (E : Externals) : Type _ :=
  Config ι (GlobalContextMap (Any E)) (StoreOp (Any E)) StoreOp.Reply (Except Fault (Reply E))

/-- What happens to the global context besides the calls. -/
inductive Maintenance
  | tick (seconds : ℕ)
  | cleanup (visited : String → Bool)

def Maintenance.apply (m : GlobalContextMap (Any E)) : Maintenance → GlobalContextMap (Any E)
  | tick seconds => m.tick seconds
  | cleanup visited => m.cleanup visited

variable {ι : Type*} [DecidableEq ι]

/-- No call has done anything yet. -/
def statusPool (m : GlobalContextMap (Any E)) (calls : ι → StatusCall E) : StatusPool ι E :=
  ⟨m, fun i => (calls i).handler⟩

/-- A worker performs its next operation, or the clock or the cleanup runs. -/
def statusStep : StatusPool ι E → Turn ι Maintenance → StatusPool ι E :=
  Config.step handle fun e m => e.apply m

/-- The next operation of a worker writes the status of a payment. -/
def AboutToWrite (paymentId : String) (c : StatusPool ι E) (i : ι) (s : ℤ) : Prop :=
  ∃ ttl k, c.thread i = .call (.set (ContextKey.status.of paymentId) (.int s) ttl) k

/-- The payment has a status in the state before each of the turns. -/
def Stays (paymentId : String) (c : StatusPool ι E) (ts : List (Turn ι Maintenance)) : Prop :=
  Along statusStep (fun c _ => c.store.lookup (ContextKey.status.of paymentId) ≠ none) c ts

/-- A turn of `pre` writes the status `s`, in a state of which `Q` holds, and `ts` come after. -/
def Wrote (paymentId : String) (c : StatusPool ι E) (pre ts : List (Turn ι Maintenance)) (s : ℤ)
    (Q : StatusPool ι E → Prop) : Prop :=
  ∃ pre₁ j pre₂, pre = pre₁ ++ .thread j :: pre₂ ∧
    AboutToWrite paymentId (exec statusStep c pre₁) j s ∧ Q (exec statusStep c pre₁) ∧
    Stays paymentId (exec statusStep c (pre₁ ++ [.thread j])) (pre₂ ++ ts)

/-- The write of `s` that comes after `pre` is late: another finite status was written before and
has been in the table since.  Where the handler asks, its write was then about to come. -/
def Late (paymentId : String) (calls : ι → StatusCall E) (c : StatusPool ι E)
    (pre : List (Turn ι Maintenance)) (i : ι) (s : ℤ) : Prop :=
  ∃ s', isFiniteRtaStatus s' = true ∧ s' ≠ s ∧
    (Wrote paymentId c pre [.thread i] s'
        (fun c' => (calls i).Asks → AboutToWrite paymentId c' i s) ∨
      ¬ (calls i).Asks ∧ c.store.lookup (ContextKey.status.of paymentId) = some (.int s') ∧
        Stays paymentId c (pre ++ [.thread i]))

/-- A finite status stays what it is, or a cleanup drops it because it has expired. -/
def Kept (paymentId : String) (c : StatusPool ι E) (t : Turn ι Maintenance) : Prop :=
  ∀ s, c.store.lookup (ContextKey.status.of paymentId) = some (.int s) →
    isFiniteRtaStatus s = true →
    (statusStep c t).store.lookup (ContextKey.status.of paymentId) = some (.int s) ∨
      (∃ visited, t = .env (.cleanup visited)) ∧
        (statusStep c t).store.lookup (ContextKey.status.of paymentId) = none ∧
        ∃ n, c.store.node (ContextKey.status.of paymentId) = some n ∧
          n.expired c.store.now = true

/-! ## Updates -/

/-- What may be left of an update. -/
inductive UpdateStage (c : Call E) : Handler E → Prop
  | returned (a : Except Fault (Reply E)) : UpdateStage c (.ret a)
  | getSupernode {k : Any E → Handler E}
      (hk : ∀ v, (∃ a, k v = .ret a) ∨ ∃ ussb, k v = Handler.checkStatus c ussb) :
      UpdateStage c (.call (.get contextKeySupernode (.supernode none)) k)
  | checkStatus (ussb : UpdateSaleStatusBroadcast) : UpdateStage c (Handler.checkStatus c ussb)
  | storeStatus (ussb : UpdateSaleStatusBroadcast) : UpdateStage c (Handler.storeStatus c ussb)

theorem updateStage_handler (c : Call E) : UpdateStage c (Handler.updateSaleStatusHandler c) := by
  rw [Handler.updateSaleStatusHandler]
  split
  · exact .returned _
  split
  · exact .returned _
  refine .getSupernode fun v => ?_
  split
  · exact .inl ⟨_, rfl⟩
  split
  · exact .inr ⟨_, rfl⟩
  · exact .inl ⟨_, rfl⟩

/-- An update does not start by writing. -/
theorem updateSaleStatusHandler_ne_set {c : Call E} {key : String} {v : Any E} {ttl : ℕ}
    {k : Unit → Handler E} : Handler.updateSaleStatusHandler c ≠ .call (.set key v ttl) k := by
  intro h
  rw [Handler.updateSaleStatusHandler] at h
  split at h
  · cases h
  split at h <;> cases h

/-- An update goes on to write a status when it has read one that is not finite. -/
theorem decideStatus_cases (c : Call E) (ussb : UpdateSaleStatusBroadcast) (v : Any E) :
    (∃ a, Handler.decideStatus c ussb v = .ret a) ∨
      Handler.decideStatus c ussb v = Handler.storeStatus c ussb ∧
        ∃ s, v.toInt? = some s ∧ isFiniteRtaStatus s = false := by
  rw [Handler.decideStatus]
  split
  · exact .inl ⟨_, rfl⟩
  rename_i s hs
  split
  · rename_i hfinite
    exact .inr ⟨rfl, s, hs, hfinite⟩
  · exact .inl ⟨_, rfl⟩

/-- What is left of an update after its next operation. -/
theorem UpdateStage.next {c : Call E} {o : StoreOp (Any E)} {k : o.Reply → Handler E}
    (h : UpdateStage c (.call o k)) (r : o.Reply) : UpdateStage c (k r) := by
  generalize hp : Prog.call o k = p at h
  cases h with
  | returned a => cases hp
  | getSupernode hk =>
    cases hp
    rcases hk r with ⟨a, ha⟩ | ⟨ussb, hussb⟩
    · exact ha ▸ .returned a
    · exact hussb ▸ .checkStatus ussb
  | checkStatus ussb =>
    cases hp
    rcases decideStatus_cases c ussb r with ⟨a, ha⟩ | ⟨hstore, -⟩
    · exact ha ▸ .returned a
    · exact hstore ▸ .storeStatus ussb
  | storeStatus ussb =>
    cases hp
    exact .returned _

/-- The status of a payment is not finite, or it is `s` already. -/
def MayBecome (f : Store E) (paymentId : String) (s : ℤ) : Prop :=
  ∀ current, f (ContextKey.status.of paymentId) = some (.int current) →
    isFiniteRtaStatus current = true → s = current

/-- An update that is about to write a status after its next operation finds one that is not
finite. -/
theorem UpdateStage.mayBecome {c : Call E} {o : StoreOp (Any E)} {k : o.Reply → Handler E}
    (h : UpdateStage c (.call o k)) (f : Store E) {paymentId : String} {s : ℤ} {ttl : ℕ}
    {k' : Unit → Handler E}
    (hnext : k (handleLookup o f).1
      = .call (.set (ContextKey.status.of paymentId) (.int s) ttl) k') :
    MayBecome (handleLookup o f).2 paymentId s := by
  generalize hp : Prog.call o k = p at h
  cases h with
  | returned a => cases hp
  | getSupernode hk =>
    cases hp
    rcases hk _ with ⟨a, ha⟩ | ⟨ussb, hussb⟩
    · cases ha.symm.trans hnext
    · cases hussb.symm.trans hnext
  | checkStatus ussb =>
    cases hp
    intro current hcurrent hfinite
    rcases decideStatus_cases c ussb _ with ⟨a, ha⟩ | ⟨hstore, s', hs', hnot⟩
    · cases ha.symm.trans hnext
    · have hop := (Prog.call.inj (hstore.symm.trans hnext)).1
      obtain ⟨-, rfl⟩ := ContextKey.of_eq_of.mp (StoreOp.set.inj hop).1
      have hcurrent : f (ContextKey.status.of ussb.paymentId) = some (.int current) := hcurrent
      rw [handleLookup, hcurrent] at hs'
      cases hs'
      rw [hnot] at hfinite
      cases hfinite
  | storeStatus ussb =>
    cases hp
    cases hnext

/-- What is known of the threads in every run. -/
structure Staged (calls : ι → StatusCall E) (c : StatusPool ι E) : Prop where
  ops : ∀ i, (c.thread i).Every StatusOp
  stage : ∀ i call, calls i = .updateSaleStatus call → UpdateStage call (c.thread i)

section turns

variable {paymentId : String} {calls : ι → StatusCall E} {c : StatusPool ι E}

/-- A turn that writes no status of the payment. -/
theorem lookup_step_of_not_write {i : ι} {o : StoreOp (Any E)} {k : o.Reply → Handler E}
    (hi : c.thread i = .call o k) (ho : o.writes ≠ some (ContextKey.status.of paymentId)) :
    (statusStep c (.thread i)).store.lookup (ContextKey.status.of paymentId)
      = c.store.lookup (ContextKey.status.of paymentId) := by
  rw [statusStep, Config.step_thread_of_call hi, (lookup_handle _ _).2]
  exact handleLookup_of_not_writes ho _

/-- A turn that writes it. -/
theorem lookup_step_of_write {i : ι} {s : ℤ} (hi : AboutToWrite paymentId c i s) :
    (statusStep c (.thread i)).store.lookup (ContextKey.status.of paymentId) = some (.int s) := by
  obtain ⟨ttl, k, hi⟩ := hi
  rw [statusStep, Config.step_thread_of_call hi, (lookup_handle _ _).2]
  exact Function.update_self _ _ _

variable (paymentId) in
/-- A turn writes the status of the payment, leaves it alone, or is a cleanup that drops it because
it has expired. -/
theorem Staged.turn_cases (h : Staged calls c) (t : Turn ι Maintenance) :
    (∃ i s, t = .thread i ∧ AboutToWrite paymentId c i s) ∨
      (statusStep c t).store.lookup (ContextKey.status.of paymentId)
        = c.store.lookup (ContextKey.status.of paymentId) ∨
      (∃ visited, t = .env (.cleanup visited)) ∧
        (statusStep c t).store.lookup (ContextKey.status.of paymentId) = none ∧
        ∃ n, c.store.node (ContextKey.status.of paymentId) = some n ∧
          n.expired c.store.now = true := by
  cases t with
  | env e =>
    cases e with
    | tick seconds => exact .inr (.inl rfl)
    | cleanup visited =>
      rcases c.store.lookup_cleanup visited (ContextKey.status.of paymentId) with hsame | hdropped
      · exact .inr (.inl hsame)
      · exact .inr (.inr ⟨⟨visited, rfl⟩, hdropped⟩)
  | thread i =>
    cases hi : c.thread i with
    | ret a =>
      rw [statusStep, Config.step_thread_of_ret hi]
      exact .inr (.inl rfl)
    | call o k =>
      by_cases ho : o.writes = some (ContextKey.status.of paymentId)
      · have hop := h.ops i
        rw [hi] at hop
        obtain ⟨s, ttl, rfl⟩ := hop.1 paymentId ho
        exact .inl ⟨i, s, rfl, ttl, k, hi⟩
      · exact .inr (.inl (lookup_step_of_not_write hi ho))

theorem Staged.step (h : Staged calls c) (t : Turn ι Maintenance) :
    Staged calls (statusStep c t) := by
  refine ⟨Config.every_step h.ops t, fun j call hcall => ?_⟩
  have hstage := h.stage j call hcall
  cases t with
  | env e => exact hstage
  | thread i =>
    by_cases hij : j = i
    · subst hij
      cases hi : c.thread j with
      | ret a => rwa [statusStep, Config.step_thread_of_ret hi]
      | call o k =>
        rw [hi] at hstage
        rw [statusStep, Config.step_thread_of_call hi]
        simpa using hstage.next _
    · rwa [statusStep, Config.step_thread_ne hij]

/-- An update that is about to write after its own turn has just read what it is to replace. -/
theorem Staged.mayBecome (h : Staged calls c) {i : ι} {s : ℤ} (hasks : (calls i).Asks)
    (hi : AboutToWrite paymentId (statusStep c (.thread i)) i s) :
    MayBecome (statusStep c (.thread i)).store.lookup paymentId s := by
  obtain ⟨ttl, k', hk⟩ := hi
  cases hi : c.thread i with
  | ret a =>
    rw [statusStep, Config.step_thread_of_ret hi, hi] at hk
    cases hk
  | call o k =>
    obtain ⟨call, hcall⟩ := hasks.eq
    have hstage := h.stage i call hcall
    rw [hi] at hstage
    rw [statusStep, Config.step_thread_of_call hi] at hk ⊢
    replace hk := (Function.update_self _ _ _).symm.trans hk
    rw [(lookup_handle _ _).1] at hk
    rw [(lookup_handle _ _).2]
    exact hstage.mayBecome _ hk

/-- Another turn, or one of the clock or the cleanup, does not bring a write about. -/
theorem aboutToWrite_of_step {i : ι} {s : ℤ} {t : Turn ι Maintenance} (ht : t ≠ .thread i)
    (hi : AboutToWrite paymentId (statusStep c t) i s) : AboutToWrite paymentId c i s := by
  cases t with
  | env e => exact hi
  | thread j =>
    have hij : i ≠ j := fun heq => ht (heq ▸ rfl)
    rwa [AboutToWrite, statusStep, Config.step_thread_ne hij] at hi

end turns

/-! ## Where a status comes from -/

section origin

variable {paymentId : String} {calls : ι → StatusCall E} {m : GlobalContextMap (Any E)}
  {c : StatusPool ι E} {pre : List (Turn ι Maintenance)} {t : Turn ι Maintenance} {s : ℤ}
  {Q : StatusPool ι E → Prop}

omit [DecidableEq ι] in
/-- No call has done anything. -/
theorem staged_statusPool (m : GlobalContextMap (Any E)) (calls : ι → StatusCall E) :
    Staged calls (statusPool m calls) := by
  refine ⟨fun i => (calls i).statusOp, fun i call hi => ?_⟩
  show UpdateStage call (calls i).handler
  rw [hi]
  exact updateStage_handler call

omit [DecidableEq ι] in
theorem not_aboutToWrite_statusPool {i : ι} (hasks : (calls i).Asks) :
    ¬ AboutToWrite paymentId (statusPool m calls) i s := by
  rintro ⟨ttl, k, hk⟩
  obtain ⟨call, hcall⟩ := hasks.eq
  have hk : (calls i).handler = _ := hk
  rw [hcall] at hk
  exact updateSaleStatusHandler_ne_set hk

/-- The status is in the table in one more state. -/
theorem Stays.concat {ts : List (Turn ι Maintenance)} (h : Stays paymentId c ts)
    (hlast : (exec statusStep c ts).store.lookup (ContextKey.status.of paymentId) ≠ none)
    (t : Turn ι Maintenance) : Stays paymentId c (ts ++ [t]) :=
  (along_append statusStep _ c ts [t]).mpr ⟨h, hlast, trivial⟩

theorem Wrote.concat (h : Wrote paymentId c pre [] s Q)
    (hlast : (exec statusStep c pre).store.lookup (ContextKey.status.of paymentId) ≠ none)
    (t : Turn ι Maintenance) : Wrote paymentId c pre [t] s Q := by
  obtain ⟨pre₁, j, pre₂, rfl, hj, hQ, hstays⟩ := h
  refine ⟨pre₁, j, pre₂, rfl, hj, hQ, ?_⟩
  rw [List.append_nil] at hstays
  refine hstays.concat ?_ t
  rwa [← exec_append, List.append_assoc, List.singleton_append]

theorem Wrote.snoc (h : Wrote paymentId c pre [t] s Q) : Wrote paymentId c (pre ++ [t]) [] s Q := by
  obtain ⟨pre₁, j, pre₂, rfl, hj, hQ, hstays⟩ := h
  refine ⟨pre₁, j, pre₂ ++ [t], by simp, hj, hQ, ?_⟩
  rwa [List.append_nil]

/-- **Where a status comes from**, in every run: a turn wrote it, or it was there before the run,
and it has been in the table since.  If an update is now about to write another one, that turn came
after its check. -/
theorem status_origin (m : GlobalContextMap (Any E)) (calls : ι → StatusCall E)
    (pre : List (Turn ι Maintenance)) {s' : ℤ} (hfinite : isFiniteRtaStatus s' = true)
    (hs' : (exec statusStep (statusPool m calls) pre).store.lookup (ContextKey.status.of paymentId)
      = some (.int s')) :
    (Wrote paymentId (statusPool m calls) pre [] s' (fun _ => True) ∨
      m.lookup (ContextKey.status.of paymentId) = some (.int s') ∧
        Stays paymentId (statusPool m calls) pre) ∧
    ∀ i s, (calls i).Asks → s' ≠ s →
      AboutToWrite paymentId (exec statusStep (statusPool m calls) pre) i s →
      Wrote paymentId (statusPool m calls) pre [] s' fun c' => AboutToWrite paymentId c' i s := by
  induction pre using List.reverseRecOn with
  | nil =>
    exact ⟨.inr ⟨hs', trivial⟩,
      fun i s hasks _ hi => absurd hi (not_aboutToWrite_statusPool hasks)⟩
  | append_singleton pre t ih =>
    have hstaged : Staged calls (exec statusStep (statusPool m calls) pre) :=
      exec_of_step (fun _ t h => h.step t) (staged_statusPool m calls) pre
    rw [exec_append, exec_cons, exec_nil] at hs' ⊢
    generalize hc : exec statusStep (statusPool m calls) pre = c at ih hs' hstaged
    -- what an update is about to write after its own turn, the status may become
    have hown : ∀ i s, (calls i).Asks → s' ≠ s → AboutToWrite paymentId (statusStep c t) i s →
        t ≠ .thread i := by
      rintro i s hasks hne hi rfl
      exact hne (hstaged.mayBecome hasks hi s' hs' hfinite).symm
    rcases hstaged.turn_cases paymentId t with
      ⟨j, s₁, rfl, hj⟩ | hsame | ⟨-, hnone, -⟩
    · -- the turn writes it
      cases (lookup_step_of_write hj).symm.trans hs'
      have hwrote : ∀ Q : StatusPool ι E → Prop, Q c →
          Wrote paymentId (statusPool m calls) (pre ++ [.thread j]) [] s' Q :=
        fun Q hQ => ⟨pre, j, [], rfl, hc ▸ hj, hc ▸ hQ, trivial⟩
      exact ⟨.inl (hwrote _ trivial), fun i s hasks hne hi =>
        hwrote _ (aboutToWrite_of_step (hown i s hasks hne hi) hi)⟩
    · -- it was there before
      rw [hsame] at hs'
      obtain ⟨hsource, hasked⟩ := ih hs'
      have hlast : c.store.lookup (ContextKey.status.of paymentId) ≠ none := by
        rw [hs']
        exact Option.some_ne_none _
      rw [← hc] at hlast
      refine ⟨hsource.imp (fun h => (h.concat hlast t).snoc)
        (fun h => ⟨h.1, h.2.concat hlast t⟩), fun i s hasks hne hi => ?_⟩
      exact ((hasked i s hasks hne
        (aboutToWrite_of_step (hown i s hasks hne hi) hi)).concat hlast t).snoc
    · cases hnone.symm.trans hs'

/-- **What a late write comes upon** is the other status, if finite statuses have been kept. -/
theorem lookup_of_stays {ts : List (Turn ι Maintenance)}
    (hkept : Along statusStep (Kept paymentId) c ts) (hstays : Stays paymentId c (ts ++ [t]))
    (hfinite : isFiniteRtaStatus s = true)
    (hs : c.store.lookup (ContextKey.status.of paymentId) = some (.int s)) :
    (exec statusStep c ts).store.lookup (ContextKey.status.of paymentId) = some (.int s) := by
  induction ts generalizing c with
  | nil => exact hs
  | cons u ts ih =>
    refine ih hkept.2 hstays.2 ?_
    rcases hkept.1 s hs hfinite with hsame | ⟨-, hnone, -⟩
    · exact hsame
    · have hpresent : (statusStep c u).store.lookup (ContextKey.status.of paymentId) ≠ none := by
        cases ts with
        | nil => exact hstays.2.1
        | cons v ts => exact hstays.2.1
      exact absurd hnone hpresent

end origin

/-! ## Finite statuses are kept -/

/-- **Finite statuses are kept**, until they expire, in exactly the runs without late writes. -/
theorem finite_status_kept_iff (m : GlobalContextMap (Any E)) (paymentId : String)
    (calls : ι → StatusCall E) (ts : List (Turn ι Maintenance)) :
    Along statusStep (Kept paymentId) (statusPool m calls) ts ↔
      ∀ pre i post s, ts = pre ++ .thread i :: post →
        AboutToWrite paymentId (exec statusStep (statusPool m calls) pre) i s →
        ¬ Late paymentId calls (statusPool m calls) pre i s := by
  constructor
  · rintro hkept pre i post s rfl hi ⟨s', hfinite, hne, hearlier⟩
    obtain ⟨hpre, hturn, -⟩ := (along_append statusStep _ _ pre (.thread i :: post)).mp hkept
    have hs' : (exec statusStep (statusPool m calls) pre).store.lookup
        (ContextKey.status.of paymentId) = some (.int s') := by
      rcases hearlier with ⟨pre₁, j, pre₂, rfl, hj, -, hstays⟩ | ⟨-, hs', hstays⟩
      · rw [← List.singleton_append, ← List.append_assoc] at hpre ⊢
        rw [exec_append]
        refine lookup_of_stays ((along_append statusStep _ _ _ _).mp hpre).2 hstays hfinite ?_
        rw [exec_append, exec_cons, exec_nil]
        exact lookup_step_of_write hj
      · exact lookup_of_stays hpre hstays hfinite hs'
    rcases hturn s' hs' hfinite with hsame | ⟨⟨visited, hturn⟩, -⟩
    · cases (lookup_step_of_write hi).symm.trans hsame
      exact hne rfl
    · cases hturn
  · intro h
    refine along_of_at_step fun pre t post hts s' hs' hfinite => ?_
    have hstaged : Staged calls (exec statusStep (statusPool m calls) pre) :=
      exec_of_step (fun _ t h => h.step t) (staged_statusPool m calls) pre
    rcases hstaged.turn_cases paymentId t with ⟨i, s, rfl, hi⟩ | hsame | hdropped
    · left
      rw [lookup_step_of_write hi]
      -- another status would be late
      by_contra hne
      have hne : s' ≠ s := fun heq => hne (heq ▸ rfl)
      obtain ⟨hsource, hasked⟩ := status_origin m calls pre hfinite hs'
      have hlast : (exec statusStep (statusPool m calls) pre).store.lookup
          (ContextKey.status.of paymentId) ≠ none := by
        rw [hs']
        exact Option.some_ne_none _
      refine h pre i post s hts hi ⟨s', hfinite, hne, ?_⟩
      by_cases hasks : (calls i).Asks
      · obtain ⟨pre₁, j, pre₂, hpre, hj, hi', hstays⟩ :=
          (hasked i s hasks hne hi).concat hlast (.thread i)
        exact .inl ⟨pre₁, j, pre₂, hpre, hj, fun _ => hi', hstays⟩
      · rcases hsource with hwrote | ⟨hinit, hstays⟩
        · obtain ⟨pre₁, j, pre₂, hpre, hj, -, hstays⟩ := hwrote.concat hlast (.thread i)
          exact .inl ⟨pre₁, j, pre₂, hpre, hj, fun h => absurd h hasks, hstays⟩
        · exact .inr ⟨hasks, hinit, hstays.concat hlast _⟩
    · exact .inl (hsame.trans hs')
    · exact .inr hdropped

/-! ## A rejection after success -/

section runs

variable {c : Call E} {f : Store E}

/-- A sale of a new payment stores the status that comes with it. -/
theorem run_saleCryptonodeHandler {req : MulticastRequestJsonRpc} {sdm : SaleDataMulticast}
    (hreq : E.getMulticastRequest c.input = some req)
    (hsdm : E.getSaleDataMulticastB64 req.data = some sdm)
    (hnew : f (ContextKey.sale.of sdm.paymentId) = none) :
    let g := ((Handler.saleCryptonodeHandler c).run handleLookup f).2
    g (ContextKey.status.of sdm.paymentId) = some (.int sdm.status) ∧
      g contextKeySupernode = f contextKeySupernode := by
  have hkey : ∀ k : ContextKey, contextKeySupernode ≠ k.of sdm.paymentId :=
    fun k => (ContextKey.of_ne (by decide)).symm
  simp only [Handler.saleCryptonodeHandler, hreq, hsdm]
  rw [run_hasKey, hnew, Option.isSome_none, if_pos rfl, run_set, run_set, run_set]
  simp [Handler.reply, hkey]

theorem checkSaleStatusUpdateSignature_eq {paymentId idKey signature : String} {status : ℤ}
    {sign : E.Signature} {key : E.PublicKey} (hsign : E.hexToSignature signature = some sign)
    (hkey : E.hexToPublicKey idKey = some key) :
    checkSaleStatusUpdateSignature E paymentId status idKey signature
      = E.checkSignature (E.cnFastHash (paymentId ++ ":" ++ toString status)) key sign := by
  simp only [checkSaleStatusUpdateSignature, hsign, hkey]
  rfl

/-- A signed update of a status that is not finite is stored. -/
theorem run_updateSaleStatusHandler {req : BroadcastRequestJsonRpc}
    {ussb : UpdateSaleStatusBroadcast} {supernode : Option (Supernode E.toCrypto)} {current : ℤ}
    (hreq : E.getBroadcastRequest c.input = some req)
    (hussb : E.getUpdateSaleStatusBroadcastB64 req.data = some ussb)
    (hsupernode : f contextKeySupernode = some (.supernode supernode))
    (hsign : checkSaleStatusUpdateSignature E ussb.paymentId ussb.status ussb.idKey ussb.signature
      = true)
    (hcurrent : f (ContextKey.status.of ussb.paymentId) = some (.int current))
    (hfinite : isFiniteRtaStatus current = false) :
    ((Handler.updateSaleStatusHandler c).run handleLookup f).2 (ContextKey.status.of ussb.paymentId)
      = some (.int ussb.status) := by
  simp only [Handler.updateSaleStatusHandler, hreq, hussb]
  rw [run_get, hsupernode]
  simp only [Option.getD_some, Any.toSupernode?, hsign, if_true]
  rw [Handler.checkStatus, run_get, hcurrent]
  simp only [Handler.decideStatus, Option.getD_some, Any.toInt?, hfinite, if_true]
  rw [Handler.storeStatus, run_set]
  simp [Handler.reply]

/-- A rejection reads the status and is about to write its own. -/
theorem reaches_rejectHandler {status : RTAStatus} {paymentId : String} {current : ℤ}
    (hreq : E.getRejectRequest c.input = some paymentId) (hid : paymentId ≠ "")
    (hcurrent : f (ContextKey.status.of paymentId) = some (.int current)) (hne : current ≠ 0) :
    ∃ k, Prog.Reaches handleLookup
      (.call (.set (ContextKey.status.of paymentId) (.int status.toInt) 0) k) f
      (Handler.rejectHandler status c) f := by
  refine ⟨fun _ => Handler.reply .ok (c.output.load (.result 0)) c.ctxLocal, ?_⟩
  simp only [Handler.rejectHandler, hreq]
  refine reaches_get ?_
  simp only [hcurrent, Option.getD_some, Any.toInt?, hid, hne, or_self, if_false]
  exact .refl

end runs

/-- Turns of one worker to its end. -/
theorem exists_exec_handler (c : StatusPool ι E) (i : ι) :
    ∃ ts c', exec statusStep c ts = c' ∧ (∀ j ≠ i, c'.thread j = c.thread j) ∧
      c'.store.lookup = ((c.thread i).run handleLookup c.store.lookup).2 := by
  obtain ⟨n, hn⟩ := Config.exists_exec_of_reaches (fun (e : Maintenance) m => e.apply m)
    (Prog.reaches_run handle (c.thread i) c.store)
  refine ⟨_, _, hn, fun j hj => Function.update_of_ne hj _ _, ?_⟩
  exact (Prog.run_of_view (fun o m _ => lookup_handle o m) (Prog.every_true _) _).2

/-- A sale that is multicast, an update of its status to success, and its rejection. -/
def sampleStatusCalls : Fin 3 → StatusCall sampleExternals
  | 0 => .saleCryptonode (sampleCall "payment")
  | 1 => .updateSaleStatus (sampleCall "payment")
  | 2 => .rejectSale (sampleCall "payment")

theorem sampleExternals_signed {id : String} {key : List ℕ} (h : hexToPod 32 id = some key)
    (paymentId : String) (status : ℤ) :
    checkSaleStatusUpdateSignature sampleExternals paymentId status id (id ++ id) = true := by
  rw [checkSaleStatusUpdateSignature_eq (sampleExternals_hexToSignature h) h]
  exact sampleExternals_checkSignature _ _

/-- **A finite status changes**: the payment has succeeded, and a rejection makes it rejected. -/
theorem finite_status_changed :
    ∃ ts i,
      let c := statusPool sampleContext sampleStatusCalls
      (exec statusStep c ts).store.lookup (ContextKey.status.of "payment")
          = some (.int RTAStatus.success.toInt) ∧
        isFiniteRtaStatus RTAStatus.success.toInt = true ∧
        (exec statusStep c (ts ++ [.thread i])).store.lookup (ContextKey.status.of "payment")
          = some (.int RTAStatus.rejectedByPOS.toInt) := by
  have hname : ∀ (k : ContextKey) (id : String), contextKeySupernode ≠ k.of id :=
    fun k id => (ContextKey.of_ne (by decide)).symm
  have hnew : sampleContext.lookup (ContextKey.sale.of "payment") = none := by
    simp [lookup_sampleContext, sampleStore, (hname _ _).symm]
  have hset : sampleContext.lookup contextKeySupernode
      = some (.supernode (some sampleSupernode)) := by
    rw [lookup_sampleContext]
    simp [sampleStore, hname]
  -- the sale
  obtain ⟨ts₁, c₁, h₁, hother₁, hlookup₁⟩ := exists_exec_handler
    (statusPool sampleContext sampleStatusCalls) 0
  have hmulticast : sampleExternals.getMulticastRequest (sampleCall "payment").input
      = some ⟨"multicast", "", [], "", "payment"⟩ := rfl
  have hsale : sampleExternals.getSaleDataMulticastB64 "payment"
      = some ⟨⟨"", 0, 1⟩, "payment", RTAStatus.waiting.toInt, ""⟩ := rfl
  obtain ⟨hwaiting, hsupernode⟩ := run_saleCryptonodeHandler hmulticast hsale hnew
  have hfirst : c₁.store.lookup = ((Handler.saleCryptonodeHandler (sampleCall "payment")).run
      handleLookup sampleContext.lookup).2 := hlookup₁
  rw [← hfirst] at hwaiting hsupernode
  -- the update
  obtain ⟨ts₂, c₂, h₂, hother₂, hlookup₂⟩ := exists_exec_handler c₁ 1
  have hbroadcast : sampleExternals.getBroadcastRequest (sampleCall "payment").input
      = some ⟨"broadcast", "", "", "payment"⟩ := rfl
  have hupdate : sampleExternals.getUpdateSaleStatusBroadcastB64 "payment"
      = some ⟨"payment", RTAStatus.success.toInt, lowerId, lowerId ++ lowerId⟩ := rfl
  have hsuccess := run_updateSaleStatusHandler hbroadcast hupdate (hsupernode.trans hset)
    (sampleExternals_signed hexToPod_ids.1 _ _) hwaiting (by decide)
  have hsecond : c₁.thread 1 = Handler.updateSaleStatusHandler (sampleCall "payment") :=
    hother₁ 1 (by decide)
  rw [← hsecond, ← hlookup₂] at hsuccess
  -- the rejection, up to its write
  have hthird : c₂.thread 2 = Handler.rejectHandler .rejectedByPOS (sampleCall "payment") :=
    (hother₂ 2 (by decide)).trans (hother₁ 2 (by decide))
  have hreject : sampleExternals.getRejectRequest (sampleCall "payment").input = some "payment" :=
    rfl
  obtain ⟨k, hreach⟩ := reaches_rejectHandler hreject (by decide) hsuccess (by decide)
  rw [← hthird] at hreach
  obtain ⟨m, hm, hlookup₃⟩ := hreach.of_view lookup_handle rfl
  obtain ⟨n, h₃⟩ := Config.exists_exec_of_reaches (fun (e : Maintenance) m => e.apply m) hm
  replace h₃ : exec statusStep c₂ _ = _ := h₃
  refine ⟨ts₁ ++ (ts₂ ++ List.replicate n (.thread 2)), 2, ?_, by decide, ?_⟩
  · rw [exec_append, exec_append, h₁, h₂, h₃, hlookup₃]
    exact hsuccess
  · rw [exec_append, exec_append, exec_append, h₁, h₂, h₃, exec_cons, exec_nil]
    refine lookup_step_of_write ?_
    exact ⟨0, k, by simp⟩

end Request
