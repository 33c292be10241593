/-
# The time that payment data is kept

An entry of the global context has the `ttl` that its first writer gave: a later write
replaces the value only.  `handleClientSaleRequest` and the handlers of transactions give
`SALE_TTL` or `RTA_TX_TTL`; `saleCryptonodeHandler` and the rejections write through the proxy,
which gives none, and so does `handleRtaAuthResponseMulticast` for the state it stores under
its own name.

* `PaymentDataBounded`: along a run payment data has a `ttl`, is removed when it is over, and
  nothing is left that never expires;
* `CreatesPermanent`: a turn that writes without `ttl` under a key that is absent;
* `payment_data_bounded`: a run keeps payment data bounded when it has no such turn, and only
  then.
-/
import GraftSupernode.FiniteStatus

open AtomicProgram GlobalContext Runs

namespace Request

variable {E : Externals}

/-! ## Calls -/

/-- A call of a handler of sales, statuses, rejections or transactions. -/
inductive PaymentCall (E : Externals)
  | status (call : StatusCall E)
  | authorizeRtaTxRequest (c : Call E)

/-- What a call runs. -/
def PaymentCall.handler : PaymentCall E → Handler E
  | status call => call.handler
  | authorizeRtaTxRequest c => Handler.authorizeRtaTxRequestHandler c

theorem PaymentCall.issued (call : PaymentCall E) : call.handler.Every Issued := by
  cases call with
  | status call => exact call.issued
  | authorizeRtaTxRequest c => exact Handler.issued_authorizeRtaTxRequestHandler c

variable {ι : Type*} [DecidableEq ι]

/-- No call has done anything yet. -/
def paymentPool (m : GlobalContextMap (Any E)) (calls : ι → PaymentCall E) : StatusPool ι E :=
  ⟨m, fun i => (calls i).handler⟩

/-! ## Entries with a `ttl` -/

/-- The node has one of the two `ttl`s, and expires when it is over. -/
def BoundedNode (now : ℕ) (n : Node (Any E)) : Prop :=
  n.Timed now ∧ (n.ttl = rtaTxTtl ∨ n.ttl = saleTtl)

/-- A turn that does not access a key. -/
def Untouched (key : String) (c : StatusPool ι E) : Turn ι Maintenance → Prop
  | .thread i => ∀ o k, c.thread i = .call o k → o.key ≠ key
  | .env _ => True

/-- A cleanup that visits every bucket. -/
def fullCleanup (m : GlobalContextMap (Any E)) : GlobalContextMap (Any E) :=
  m.cleanup fun _ => true

/-- **Payment data is bounded in time** along a run: in every state on the way the entries under
the id of a payment or of a transaction have a `ttl`, a full cleanup removes them when it has gone
by without an access, and no entry but those of the start never expires. -/
structure PaymentDataBounded (c : StatusPool ι E) (ts : List (Turn ι Maintenance)) : Prop where
  timed : ∀ pre post, ts = pre ++ post → ∀ (k : ContextKey) (id : String) (n : Node (Any E)),
    (exec statusStep c pre).store.node (k.of id) = some n →
      BoundedNode (exec statusStep c pre).store.now n
  removed : ∀ pre mid post, ts = pre ++ mid ++ post →
    ∀ (k : ContextKey) (id : String) (n : Node (Any E)),
      (exec statusStep c pre).store.node (k.of id) = some n →
      Along statusStep (Untouched (k.of id)) (exec statusStep c pre) mid →
      (exec statusStep c pre).store.now + n.ttl ≤ (exec statusStep c (pre ++ mid)).store.now →
      (fullCleanup (exec statusStep c (pre ++ mid)).store).node (k.of id) = none
  noneLeft : ∀ pre post, ts = pre ++ post → ∀ key n,
    (exec statusStep c pre).store.node key = some n → n.Permanent →
      ∃ n₀, c.store.node key = some n₀ ∧ n₀.Permanent

/-- The turn writes without `ttl` under a key that is absent. -/
def CreatesPermanent (c : StatusPool ι E) (t : Turn ι Maintenance) : Prop :=
  ∃ i key v k, t = .thread i ∧ c.thread i = .call (.set key v 0) k ∧ c.store.node key = none

/-- The start: each entry never expires or has one of the `ttl`s, and no payment data is among
those that never expire. -/
structure PaymentsTimed (m : GlobalContextMap (Any E)) : Prop where
  entries : ∀ key n, m.node key = some n → n.Permanent ∨ BoundedNode m.now n
  payments : ∀ (k : ContextKey) (id : String) n, m.node (k.of id) = some n → ¬ n.Permanent

/-! ## One operation -/

namespace Issued

variable {o : StoreOp (Any E)}

theorem ne_remove (h : Issued o) : o ≠ .remove o.key := by
  rintro heq
  rw [heq] at h
  cases h

/-- The `ttl`s that are given. -/
theorem ttl_of_set {key : String} {v : Any E} {ttl : ℕ} (h : Issued (.set key v ttl)) :
    ttl = 0 ∨ ttl = rtaTxTtl ∨ ttl = saleTtl := by
  cases h with
  | set k id hv httl hk =>
    rcases httl with h0 | hsale | hrta
    · exact .inl h0
    · exact .inr (.inr hsale)
    · exact .inr (.inl hrta)
  | setServer k hv => exact .inl rfl

/-- An entry that never expires stays one. -/
theorem permanent (h : Issued o) {n : Node (Any E)} (hn : n.Permanent) (now : ℕ) :
    ∃ n', o.nodeAfter now (some n) = some n' ∧ n'.Permanent := by
  obtain ⟨d, hd⟩ := o.nodeAfter_some h.ne_remove now n
  exact ⟨_, hd, hn.access now d⟩

/-- What an operation leaves under its key. -/
theorem node_cases (h : Issued o) {now : ℕ} {old : Option (Node (Any E))} {n : Node (Any E)}
    (hold : ∀ n₀, old = some n₀ → n₀.Permanent ∨ BoundedNode now n₀)
    (hn : o.nodeAfter now old = some n) :
    BoundedNode now n ∨
      n.Permanent ∧ ((∃ n₀, old = some n₀ ∧ n₀.Permanent) ∨
        old = none ∧ ∃ v, o = .set o.key v 0) := by
  cases old with
  | some n₀ =>
    obtain ⟨d, hd⟩ := o.nodeAfter_some h.ne_remove now n₀
    obtain rfl := Option.some.inj (hd.symm.trans hn)
    rcases hold n₀ rfl with hperm | ⟨htimed, httl⟩
    · exact .inr ⟨hperm.access now d, .inl ⟨n₀, rfl, hperm⟩⟩
    · exact .inl ⟨htimed.access d, httl⟩
  | none =>
    obtain ⟨v, ttl, ho, rfl⟩ := StoreOp.nodeAfter_none hn
    rcases Node.updateTime_new v ttl now with ⟨h0, hperm⟩ | htimed
    · exact .inr ⟨hperm, .inr ⟨rfl, v, by rw [← h0]; exact ho⟩⟩
    · rw [ho] at h
      rcases h.ttl_of_set with h0 | hbounded
      · exact absurd h0 htimed.1.ne'
      · exact .inl ⟨htimed, hbounded⟩

end Issued

/-! ## The invariants -/

section invariant

variable {m : GlobalContextMap (Any E)} {c : StatusPool ι E}

/-- The store after a turn that performs an operation. -/
theorem store_step_of_call {i : ι} {o : StoreOp (Any E)} {k : o.Reply → Handler E}
    (hi : c.thread i = .call o k) :
    (statusStep c (.thread i)).store
      = ⟨c.store.now, Function.update c.store.node o.key
          (o.nodeAfter c.store.now (c.store.node o.key))⟩ := by
  rw [statusStep, Config.step_thread_of_call hi]
  exact handle_snd o c.store

/-- **Entries along a run**: each never expires or has one of the `ttl`s, and what never expired
at the start is there. -/
structure Entries (m : GlobalContextMap (Any E)) (c : StatusPool ι E) : Prop where
  issued : ∀ i, (c.thread i).Every Issued
  entries : ∀ key n, c.store.node key = some n → n.Permanent ∨ BoundedNode c.store.now n
  stays : ∀ key n₀, m.node key = some n₀ → n₀.Permanent →
    ∃ n, c.store.node key = some n ∧ n.Permanent

omit [DecidableEq ι] in
theorem Entries.issued_call (h : Entries m c) {i : ι} {o : StoreOp (Any E)}
    {k : o.Reply → Handler E} (hi : c.thread i = .call o k) : Issued o := by
  have hissued := h.issued i
  rw [hi] at hissued
  exact hissued.1

/-- What never expires stays, whatever the turn is. -/
theorem Entries.permanent_step (h : Entries m c) (t : Turn ι Maintenance) {key : String}
    {n : Node (Any E)} (hn : c.store.node key = some n) (hperm : n.Permanent) :
    ∃ n', (statusStep c t).store.node key = some n' ∧ n'.Permanent := by
  cases t with
  | env e =>
    cases e with
    | tick seconds => exact ⟨n, hn, hperm⟩
    | cleanup visited =>
      refine ⟨n, ?_, hperm⟩
      show (c.store.node key).filter _ = some n
      rw [hn, Option.filter_some, hperm.not_expired, Bool.and_false, Bool.not_false, if_pos rfl]
  | thread i =>
    cases hi : c.thread i with
    | ret a =>
      rw [statusStep, Config.step_thread_of_ret hi]
      exact ⟨n, hn, hperm⟩
    | call o k =>
      rw [store_step_of_call hi]
      by_cases hkey : key = o.key
      · subst hkey
        rw [hn]
        obtain ⟨n', hn', hperm'⟩ := (h.issued_call hi).permanent hperm c.store.now
        exact ⟨n', by simpa using hn', hperm'⟩
      · exact ⟨n, by simpa [Function.update_of_ne hkey] using hn, hperm⟩

/-- An entry after a turn is bounded; or it never expires, and it did not before, or the turn has
created it. -/
theorem Entries.node_step (h : Entries m c) (t : Turn ι Maintenance) {key : String}
    {n : Node (Any E)} (hn : (statusStep c t).store.node key = some n) :
    BoundedNode (statusStep c t).store.now n ∨
      n.Permanent ∧ ((∃ n₀, c.store.node key = some n₀ ∧ n₀.Permanent) ∨ CreatesPermanent c t) := by
  have hsame : ∀ now, c.store.now ≤ now → c.store.node key = some n →
      BoundedNode now n ∨ n.Permanent ∧
        ((∃ n₀, c.store.node key = some n₀ ∧ n₀.Permanent) ∨ CreatesPermanent c t) := by
    intro now hle hold
    rcases h.entries key n hold with hperm | hbounded
    · exact .inr ⟨hperm, .inl ⟨n, hold, hperm⟩⟩
    · exact .inl ⟨hbounded.1.mono hle, hbounded.2⟩
  cases t with
  | env e =>
    cases e with
    | tick seconds => exact hsame _ (Nat.le_add_right _ _) hn
    | cleanup visited => exact hsame _ (le_refl _) (Option.eq_some_of_filter_eq_some hn)
  | thread i =>
    cases hi : c.thread i with
    | ret a =>
      rw [statusStep, Config.step_thread_of_ret hi] at hn ⊢
      exact hsame _ (le_refl _) hn
    | call o k =>
      rw [store_step_of_call hi] at hn ⊢
      by_cases hkey : key = o.key
      · subst hkey
        simp only [Function.update_self] at hn
        rcases (h.issued_call hi).node_cases (h.entries o.key) hn with
          hbounded | ⟨hperm, hold | ⟨hnone, v, ho⟩⟩
        · exact .inl hbounded
        · exact .inr ⟨hperm, .inl hold⟩
        · refine .inr ⟨hperm, .inr ?_⟩
          generalize o.key = key at ho hnone
          subst ho
          exact ⟨i, key, v, k, rfl, hi, hnone⟩
      · exact hsame _ (le_refl _) (by simpa [Function.update_of_ne hkey] using hn)

/-- The step lemma of `Entries`. -/
theorem Entries.step (h : Entries m c) (t : Turn ι Maintenance) :
    Entries m (statusStep c t) := by
  refine ⟨Config.every_step h.issued t, ?_, ?_⟩
  · intro key n hn
    rcases h.node_step t hn with hbounded | ⟨hperm, -⟩
    · exact .inr hbounded
    · exact .inl hperm
  · intro key n₀ hn₀ hperm₀
    obtain ⟨n, hn, hperm⟩ := h.stays key n₀ hn₀ hperm₀
    exact h.permanent_step t hn hperm

theorem entries_paymentPool (hm : PaymentsTimed m) (calls : ι → PaymentCall E)
    (ts : List (Turn ι Maintenance)) :
    Entries m (exec statusStep (paymentPool m calls) ts) := by
  refine exec_invariant (P := fun _ _ => True) (fun _ t h _ => h.step t) ?_ ?_
  · exact ⟨fun i => (calls i).issued, hm.entries, fun key n₀ hn₀ hperm => ⟨n₀, hn₀, hperm⟩⟩
  · exact along_of_at_step fun _ _ _ _ => trivial

/-- What never expires was there at the start. -/
def PermanentOnlyAtStart (m : GlobalContextMap (Any E)) (c : StatusPool ι E) : Prop :=
  ∀ key n, c.store.node key = some n → n.Permanent → ∃ n₀, m.node key = some n₀ ∧ n₀.Permanent

/-- A turn that creates no entry without `ttl`. -/
theorem PermanentOnlyAtStart.step (hold : PermanentOnlyAtStart m c) (h : Entries m c)
    {t : Turn ι Maintenance} (ht : ¬ CreatesPermanent c t) :
    PermanentOnlyAtStart m (statusStep c t) := by
  intro key n hn hperm
  rcases h.node_step t hn with hbounded | ⟨-, ⟨n₀, hn₀, hperm₀⟩ | hcreates⟩
  · exact absurd hperm hbounded.1.not_permanent
  · exact hold key n₀ hn₀ hperm₀
  · exact absurd hcreates ht

/-! ## Entries that are not accessed -/

/-- While a key is not accessed, its node stays what it is, until a cleanup drops it. -/
theorem node_of_untouched {key : String} {n : Node (Any E)} (hn : c.store.node key = some n)
    {mid : List (Turn ι Maintenance)} (h : Along statusStep (Untouched key) c mid) :
    (exec statusStep c mid).store.node key = some n ∨
      (exec statusStep c mid).store.node key = none := by
  refine exec_invariant (I := fun c => c.store.node key = some n ∨ c.store.node key = none)
    ?_ (.inl hn) h
  intro c t hc ht
  cases t with
  | env e =>
    cases e with
    | tick seconds => exact hc
    | cleanup visited =>
      show (c.store.node key).filter _ = some n ∨ (c.store.node key).filter _ = none
      rcases hc with hsome | hnone
      · rw [hsome, Option.filter_some]
        split
        · exact .inl rfl
        · exact .inr rfl
      · rw [hnone]
        exact .inr rfl
  | thread i =>
    cases hi : c.thread i with
    | ret a =>
      rw [statusStep, Config.step_thread_of_ret hi]
      exact hc
    | call o k =>
      rw [store_step_of_call hi]
      simpa [Function.update_of_ne (Ne.symm (ht o k hi))] using hc

/-- **The end of the time**: an entry with a `ttl` that has gone by without an access is removed
by a full cleanup. -/
theorem removed_of_untouched {key : String} {n : Node (Any E)} (hn : c.store.node key = some n)
    (htimed : n.Timed c.store.now) {mid : List (Turn ι Maintenance)}
    (h : Along statusStep (Untouched key) c mid)
    (hle : c.store.now + n.ttl ≤ (exec statusStep c mid).store.now) :
    (fullCleanup (exec statusStep c mid).store).node key = none := by
  show ((exec statusStep c mid).store.node key).filter _ = none
  rcases node_of_untouched hn h with hsome | hnone
  · rw [hsome, Option.filter_some, htimed.expired hle, Bool.and_true, Bool.not_true,
      if_neg Bool.false_ne_true]
  · rw [hnone]
    rfl

end invariant

/-! ## Entries that a turn creates -/

section creates

variable {m : GlobalContextMap (Any E)} {c : StatusPool ι E} {i : ι}

/-- The entry under a key that was absent, after a write without `ttl`. -/
theorem node_of_creates {key : String} {v : Any E} {k : Unit → Handler E}
    (hi : c.thread i = .call (.set key v 0) k) (hnone : c.store.node key = none) :
    ∃ n, (statusStep c (.thread i)).store.node key = some n ∧ n.Permanent := by
  refine ⟨(⟨v, 0, none⟩ : Node (Any E)).updateTime c.store.now, ?_, rfl, rfl⟩
  rw [store_step_of_call hi]
  show Function.update _ key _ key = _
  rw [Function.update_self, StoreOp.key, hnone]
  rfl

/-- A run that keeps payment data bounded has no turn that creates an entry without `ttl`. -/
theorem PaymentDataBounded.not_creates (hm : PaymentsTimed m) {calls : ι → PaymentCall E}
    {ts : List (Turn ι Maintenance)} (h : PaymentDataBounded (paymentPool m calls) ts)
    {pre post : List (Turn ι Maintenance)} {t : Turn ι Maintenance} (hts : ts = pre ++ t :: post) :
    ¬ CreatesPermanent (exec statusStep (paymentPool m calls) pre) t := by
  rintro ⟨i, key, v, k, rfl, hi, hnone⟩
  obtain ⟨n, hn, hperm⟩ := node_of_creates hi hnone
  have hlast : exec statusStep (paymentPool m calls) (pre ++ [.thread i])
      = statusStep (exec statusStep (paymentPool m calls) pre) (.thread i) := by
    rw [exec_append, exec_cons, exec_nil]
  obtain ⟨n₀, hn₀, hperm₀⟩ := h.noneLeft (pre ++ [.thread i]) post (by rw [hts]; simp) key n
    (by rw [hlast]; exact hn) hperm
  -- what was there at the start without a `ttl` has not gone away
  obtain ⟨n', hn', -⟩ := (entries_paymentPool hm calls pre).stays key n₀ hn₀ hperm₀
  rw [hnone] at hn'
  cases hn'

/-- However much time goes by, a full cleanup leaves it. -/
theorem node_fullCleanup_of_permanent {m : GlobalContextMap (Any E)} {key : String}
    {n : Node (Any E)} (hn : m.node key = some n) (hperm : n.Permanent) (seconds : ℕ) :
    (fullCleanup (m.tick seconds)).node key = some n := by
  show (m.node key).filter _ = some n
  rw [hn, Option.filter_some, hperm.not_expired, Bool.and_false, Bool.not_false, if_pos rfl]

/-- When a sale is multicast for a payment without one, the next turn stores it without `ttl`. -/
theorem sale_about_to_be_stored {call : Call E} {req : MulticastRequestJsonRpc}
    {sdm : SaleDataMulticast} (hreq : E.getMulticastRequest call.input = some req)
    (hsdm : E.getSaleDataMulticastB64 req.data = some sdm)
    (hi : c.thread i = Handler.saleCryptonodeHandler call)
    (hnew : c.store.node (ContextKey.sale.of sdm.paymentId) = none) :
    (∃ k, (statusStep c (.thread i)).thread i
        = .call (.set (ContextKey.sale.of sdm.paymentId) (.saleData sdm.saleData) 0) k) ∧
      (statusStep c (.thread i)).store.node (ContextKey.sale.of sdm.paymentId) = none := by
  simp only [Handler.saleCryptonodeHandler, hreq, hsdm] at hi
  have hanswer : (handle (.hasKey (ContextKey.sale.of sdm.paymentId)) c.store).1 = false := by
    show (c.store.node _).isSome = false
    rw [hnew]
    rfl
  constructor
  · rw [statusStep, Config.step_thread_of_call hi, hanswer, if_pos rfl]
    exact ⟨_, Function.update_self _ _ _⟩
  · rw [store_step_of_call hi]
    show Function.update c.store.node _ _ _ = none
    rw [StoreOp.key, Function.update_self, hnew]
    rfl

end creates

/-! ## Payment data is bounded in time -/

/-- **Payment data is bounded in time** along a run if and only if no turn writes without `ttl`
under a key that is absent. -/
theorem payment_data_bounded {m : GlobalContextMap (Any E)} (hm : PaymentsTimed m)
    (calls : ι → PaymentCall E) (ts : List (Turn ι Maintenance)) :
    PaymentDataBounded (paymentPool m calls) ts ↔
      Along statusStep (fun c t => ¬ CreatesPermanent c t) (paymentPool m calls) ts := by
  have hentries := entries_paymentPool hm calls
  constructor
  · intro h
    exact along_of_at_step fun pre t post hts => h.not_creates hm hts
  · intro h
    have hstart : ∀ pre post, ts = pre ++ post →
        PermanentOnlyAtStart m (exec statusStep (paymentPool m calls) pre) := by
      intro pre post hts
      rw [hts] at h
      have hinv := exec_invariant_prefix (I := fun c => PermanentOnlyAtStart m c ∧ Entries m c)
        (fun c t hc ht => ⟨hc.1.step hc.2 ht, hc.2.step t⟩)
        ⟨fun key n hn hperm => ⟨n, hn, hperm⟩, hentries []⟩ h
      exact hinv.1
    have htimed : ∀ pre post, ts = pre ++ post → ∀ (k : ContextKey) (id : String) n,
        (exec statusStep (paymentPool m calls) pre).store.node (k.of id) = some n →
        BoundedNode (exec statusStep (paymentPool m calls) pre).store.now n := by
      intro pre post hts k id n hn
      rcases (hentries pre).entries _ n hn with hperm | hbounded
      · obtain ⟨n₀, hn₀, hperm₀⟩ := hstart pre post hts _ n hn hperm
        exact absurd hperm₀ (hm.payments k id n₀ hn₀)
      · exact hbounded
    refine ⟨htimed, ?_, hstart⟩
    intro pre mid post hts k id n hn huntouched hle
    rw [exec_append] at hle ⊢
    have hbounded := htimed pre (mid ++ post) (by rw [hts, List.append_assoc]) k id n hn
    exact removed_of_untouched hn hbounded.1 huntouched hle

theorem paymentsTimed_sampleContext : PaymentsTimed sampleContext := by
  have hnode : ∀ key n, sampleContext.node key = some n → BoundedNode sampleContext.now n := by
    intro key n hn
    obtain ⟨v, -, rfl⟩ := Option.map_eq_some_iff.mp hn
    exact ⟨⟨Nat.succ_pos _, rtaTxTtl, rfl, Nat.le_add_left _ _⟩, .inl rfl⟩
  exact ⟨fun key n hn => .inr (hnode key n hn), fun k id n hn => (hnode _ n hn).1.not_permanent⟩

/-- An update writes with a `ttl`. -/
theorem updateSaleStatusHandler_gives_ttl (c : Call E) :
    (Handler.updateSaleStatusHandler c).Every fun o => ∀ key v, o ≠ .set key v 0 := by
  rw [Handler.updateSaleStatusHandler]
  split
  · trivial
  split
  · trivial
  refine every_get (fun key v h => by cases h) fun v => ?_
  split
  · trivial
  split
  · refine every_get (fun key v h => by cases h) fun v => ?_
    rw [Handler.decideStatus]
    split
    · trivial
    split
    · exact every_set (fun key v h => absurd (StoreOp.set.inj h).2.2 (by decide)) trivial
    · trivial
  · trivial

/-- An update of the status of a payment, and the time that its entry is kept. -/
theorem payment_data_bounded_of_update :
    PaymentDataBounded
      (paymentPool sampleContext fun _ : Unit => .status (.updateSaleStatus (sampleCall "payment")))
      [.thread (), .thread (), .thread (), .env (.tick rtaTxTtl)] := by
  refine (payment_data_bounded paymentsTimed_sampleContext _ _).mpr ?_
  refine Along.of_invariant (P := fun _ _ => True)
    (I := fun c => ∀ i : Unit, (c.thread i).Every fun o => ∀ key v, o ≠ .set key v 0)
    (fun c t h _ => Config.every_step h t) ?_ (fun _ => updateSaleStatusHandler_gives_ttl _)
    (along_of_at_step fun _ _ _ _ => trivial)
  rintro c t h - ⟨i, key, v, k, rfl, hi, -⟩
  have hi' := h i
  rw [hi] at hi'
  exact hi'.1 key v rfl

/-- **A sale that never expires**: the multicast of a sale stores it without `ttl`, and no cleanup
removes it. -/
theorem sale_never_expires :
    let c := paymentPool sampleContext fun _ : Unit => .status (.saleCryptonode (sampleCall "payment"))
    let turns : List (Turn Unit Maintenance) := [.thread (), .thread ()]
    PaymentsTimed sampleContext ∧ ¬ PaymentDataBounded c turns ∧
      ∃ n, (exec statusStep c turns).store.node (ContextKey.sale.of "payment") = some n ∧
        n.Permanent ∧ ∀ seconds,
          (fullCleanup ((exec statusStep c turns).store.tick seconds)).node
            (ContextKey.sale.of "payment") = some n := by
  intro c turns
  have hnew : sampleContext.node (ContextKey.sale.of "payment") = none := by
    have hname : contextKeySupernode ≠ ContextKey.sale.of "payment" :=
      (ContextKey.of_ne (by decide)).symm
    simp [sampleContext, sampleStore, hname.symm]
  have hmulticast : sampleExternals.getMulticastRequest (sampleCall "payment").input
      = some ⟨"multicast", "", [], "", "payment"⟩ := rfl
  have hsale : sampleExternals.getSaleDataMulticastB64 "payment"
      = some ⟨⟨"", 0, 1⟩, "payment", RTAStatus.waiting.toInt, ""⟩ := rfl
  obtain ⟨⟨k, hk⟩, hnone⟩ := sale_about_to_be_stored (c := c) hmulticast hsale rfl hnew
  refine ⟨paymentsTimed_sampleContext, ?_, ?_⟩
  · intro h
    have hturns : turns = [.thread ()] ++ .thread () :: [] := rfl
    exact h.not_creates paymentsTimed_sampleContext hturns ⟨(), _, _, k, rfl, hk, hnone⟩
  · obtain ⟨n, hn, hperm⟩ := node_of_creates hk hnone
    exact ⟨n, hn, hperm, node_fullCleanup_of_permanent hn hperm⟩

end Request
