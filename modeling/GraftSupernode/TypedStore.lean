/-
# Types in the global context

A value in the global context is a `std::any`, which is read at the type the reader expects: any
other type is `bad_any_cast`.  Each kind of key has one type, but for `saleDetailsResult`: the
details that are cached for a payment and the body of a callback stand under the same suffix, one
behind a payment id, the other behind the text of a path or of a task id.

* `KeyType`: the type of the values under a key, when the ids of callbacks are known;
* `GetsTyped`: a turn that reads finds nothing, or a value of the type it expects;
* `global_store_typed`: when no payment id is the id of a callback, every turn of every run does.
-/
import GraftSupernode.CallbackDelivery

open AtomicProgram GlobalContext Runs

namespace Request

variable {D : DetailsExternals}

/-- A cast succeeds exactly at the type of the value. -/
theorem Any.cast_iff {E : Externals} (v : Any E) :
    (v.toBool?.isSome ↔ v.type = .bool) ∧ (v.toInt?.isSome ↔ v.type = .int) ∧
      (v.toUInt64?.isSome ↔ v.type = .uint64) ∧ (v.toStr?.isSome ↔ v.type = .str) ∧
      (v.toSupernode?.isSome ↔ v.type = .supernode) ∧ (v.toFsl?.isSome ↔ v.type = .fsl) ∧
      (v.toTransaction?.isSome ↔ v.type = .transaction) ∧
      (v.toAuthResult?.isSome ↔ v.type = .authResult) ∧
      (v.toSaleData?.isSome ↔ v.type = .saleData) ∧
      (v.toSaleDetailsResponse?.isSome ↔ v.type = .saleDetailsResponse) := by
  cases v <;>
    simp [Any.type, Any.toBool?, Any.toInt?, Any.toUInt64?, Any.toStr?, Any.toSupernode?,
      Any.toFsl?, Any.toTransaction?, Any.toAuthResult?, Any.toSaleData?,
      Any.toSaleDetailsResponse?]

/-! ## The type of a key -/

/-- The type of the values under a key; `B` are the ids under which bodies of callbacks are stored
or looked for. -/
inductive KeyType (B : String → Prop) (key : String) : AnyType → Prop
  | server (k : ServerKey) (h : key = k.name) : KeyType B key k.type
  | payment (k : ContextKey) (id : String) (hk : k ≠ .saleDetailsResult) (h : key = k.of id) :
      KeyType B key k.type
  | cached (id : String) (hid : ¬ B id) (h : key = ContextKey.saleDetailsResult.of id) :
      KeyType B key .saleDetailsResponse
  | body (id : String) (hid : B id) (h : key = ContextKey.saleDetailsResult.of id) :
      KeyType B key .str

variable {B P : String → Prop}

/-- **A key has one type.** -/
theorem KeyType.unique {key : String} {ty ty' : AnyType} (h : KeyType B key ty)
    (h' : KeyType B key ty') : ty = ty' := by
  cases h with
  | server k hkey =>
    subst hkey
    cases h' with
    | server k' hkey => rw [ServerKey.name_injective hkey]
    | payment k' id hk hkey => exact absurd hkey.symm (k.of_ne_name _ _)
    | cached id hid hkey => exact absurd hkey.symm (k.of_ne_name _ _)
    | body id hid hkey => exact absurd hkey.symm (k.of_ne_name _ _)
  | payment k id hk hkey =>
    subst hkey
    cases h' with
    | server k' hkey => exact absurd hkey (k'.of_ne_name _ _)
    | payment k' id' hk' hkey => rw [(ContextKey.of_eq_of.mp hkey).1]
    | cached id' hid hkey => exact absurd (ContextKey.of_eq_of.mp hkey).1 hk
    | body id' hid hkey => exact absurd (ContextKey.of_eq_of.mp hkey).1 hk
  | cached id hid hkey =>
    subst hkey
    cases h' with
    | server k' hkey => exact absurd hkey (k'.of_ne_name _ _)
    | payment k' id' hk' hkey => exact absurd (ContextKey.of_eq_of.mp hkey).1.symm hk'
    | cached id' hid' hkey => rfl
    | body id' hid' hkey =>
      rw [(ContextKey.of_eq_of.mp hkey).2] at hid
      exact absurd hid' hid
  | body id hid hkey =>
    subst hkey
    cases h' with
    | server k' hkey => exact absurd hkey (k'.of_ne_name _ _)
    | payment k' id' hk' hkey => exact absurd (ContextKey.of_eq_of.mp hkey).1.symm hk'
    | cached id' hid' hkey =>
      rw [(ContextKey.of_eq_of.mp hkey).2] at hid
      exact absurd hid hid'
    | body id' hid' hkey => rfl

/-- The value has the type of the key. -/
def HasKeyType {E : Externals} (B : String → Prop) (key : String) (v : Any E) : Prop :=
  ∀ ty, KeyType B key ty → v.type = ty

/-- What is stored under a key has its type. -/
def TypedStore {E : Externals} (B : String → Prop) (m : GlobalContextMap (Any E)) : Prop :=
  Stored (HasKeyType B) m

/-! ## One operation -/

section op

variable {E : Externals} {o : StoreOp (Any E)}

/-- What an operation writes has the type of its key, when no payment id is the id of a callback. -/
theorem DetailsOp.set_typed (h : DetailsOp P B o) (hdisjoint : ∀ id, P id → ¬ B id) {key : String}
    {v : Any E} {ttl : ℕ} (ho : o = .set key v ttl) : KeyType B key v.type := by
  cases h with
  | issued h =>
    subst ho
    cases h with
    | set k id hv httl hk => exact hv ▸ .payment k id hk.1 rfl
    | setServer k hv => exact hv ▸ .server k rfl
  | cache h r =>
    cases ho
    exact .cached _ (hdisjoint _ h) rfl
  | storeBody h body =>
    cases ho
    exact .body _ h rfl
  | findDetails id => cases ho
  | readCached h => cases ho
  | readBody h => cases ho
  | removeBody h => cases ho

/-- What an operation reads is expected at the type of its key; the conversion that comes with the
proxy is the one for the values of the server. -/
theorem DetailsOp.get_typed (h : DetailsOp P B o) (hdisjoint : ∀ id, P id → ¬ B id) {key : String}
    {d : Any E} (ho : o = .get key d) :
    KeyType B key d.type ∨ d = .empty ∧ ∃ k : ServerKey, key = k.name := by
  cases h with
  | issued h =>
    subst ho
    cases h with
    | get k id hd hk => exact .inl (hd ▸ .payment k id hk rfl)
    | getServer k hd =>
      rcases hd with htype | hempty
      · exact .inl (htype ▸ .server k rfl)
      · exact .inr ⟨hempty, k, rfl⟩
  | readCached h =>
    cases ho
    exact .inl (.cached _ (hdisjoint _ h) rfl)
  | readBody h =>
    cases ho
    exact .inl (.body _ h rfl)
  | findDetails id => cases ho
  | cache h r => cases ho
  | storeBody h body => cases ho
  | removeBody h => cases ho

end op

/-! ## Runs -/

variable {ι : Type*} [DecidableEq ι]

/-- A turn that reads finds nothing, or a value of the type that is expected: that of the default,
or, through the proxy, that of the value the server has stored. -/
def GetsTyped (c : RequestPool ι D) (t : Turn ι Maintenance) : Prop :=
  ∀ i key d k v, t = .thread i → c.thread i = .call (.get key d) k →
    c.store.lookup key = some v →
    v.type = d.type ∨ d = .empty ∧ ∃ s : ServerKey, key = s.name ∧ v.type = s.type

/-- An id for which a call asks or caches the details of a payment. -/
def PaymentIds (calls : ι → RequestCall D) (id : String) : Prop := ∃ i, (calls i).PaymentId id

/-- An id under which a call stores the body of a callback or looks for it. -/
def CallbackIds (calls : ι → RequestCall D) (id : String) : Prop := ∃ i, (calls i).CallbackId id

/-- What holds in every run: each worker issues operations of the handlers, and the store is
typed. -/
abbrev TypedRun (calls : ι → RequestCall D) (c : RequestPool ι D) : Prop :=
  StoredRun (DetailsOp (PaymentIds calls) (CallbackIds calls)) (HasKeyType (CallbackIds calls)) c

section typed

variable {calls : ι → RequestCall D} {c : RequestPool ι D} {m : GlobalContextMap (Any D.toExternals)}

omit [DecidableEq ι] in
theorem typedRun_requestPool (hm : TypedStore (CallbackIds calls) m) :
    TypedRun calls (requestPool m calls) :=
  ⟨fun i => (calls i).detailsOp.mono fun _ ho => ho.mono (fun _ h => ⟨i, h⟩) fun _ h => ⟨i, h⟩, hm⟩

theorem TypedRun.step (h : TypedRun calls c)
    (hdisjoint : ∀ id, PaymentIds calls id → ¬ CallbackIds calls id) (t : Turn ι Maintenance) :
    TypedRun calls (requestStep c t) :=
  StoredRun.step h (fun _ _ _ ho _ hty => (ho.set_typed hdisjoint rfl).unique hty) t

omit [DecidableEq ι] in
/-- In a typed store every turn reads at the right type. -/
theorem TypedRun.gets (h : TypedRun calls c)
    (hdisjoint : ∀ id, PaymentIds calls id → ¬ CallbackIds calls id) (t : Turn ι Maintenance) :
    GetsTyped c t := by
  intro i key d k v _ hi hv
  have ho := h.ops i
  rw [hi] at ho
  rcases ho.1.get_typed hdisjoint rfl with htype | ⟨hempty, s, hs⟩
  · exact .inl (h.stored key v hv _ htype)
  · exact .inr ⟨hempty, s, hs, h.stored key v hv _ (.server s hs)⟩

/-- **The global store is typed**: when no id of a payment whose details are asked for is the id of
a callback, every turn of every run finds nothing, or a value of the type it expects. -/
theorem global_store_typed (hm : TypedStore (CallbackIds calls) m)
    (hdisjoint : ∀ id, PaymentIds calls id → ¬ CallbackIds calls id)
    (ts : List (Turn ι Maintenance)) :
    Along requestStep GetsTyped (requestPool m calls) ts := by
  refine Along.of_invariant (P := fun _ _ => True) (I := TypedRun calls)
    (fun c t h _ => TypedRun.step h hdisjoint t) (fun c t h _ => TypedRun.gets h hdisjoint t)
    (typedRun_requestPool hm) ?_
  exact along_of_at_step fun _ _ _ _ => trivial

end typed

/-! ## A body in place of the details -/

section client

variable {c : DetailsCall D} {f : Store D.toExternals}

/-- A client asks for the details of a payment that waits, and something stands where they are
cached. -/
theorem reaches_readCached {req : SaleDetailsRequest}
    (hreq : D.getSaleDetailsRequest c.input = some req) (hid : req.paymentId ≠ "")
    (hstatus : f (ContextKey.status.of req.paymentId) = some (.int RTAStatus.waiting.toInt))
    (hfound : (f (ContextKey.saleDetailsResult.of req.paymentId)).isSome = true) :
    Prog.Reaches handleLookup (Handler.handleClientRequest.readCached c req.paymentId) f
      (Handler.handleClientRequest c) f := by
  simp only [Handler.handleClientRequest, hreq]
  rw [if_neg hid]
  refine reaches_get ?_
  rw [hstatus]
  refine reaches_hasKey ?_
  rw [if_pos hfound]
  exact .refl

/-- The first call of a client. -/
theorem saleDetailsClientHandler_of_first
    (hlocal : c.ctxLocal.hasKey "saleDetailsClientHandler" = false) :
    ∃ c' : DetailsCall D, c'.input = c.input ∧
      Handler.saleDetailsClientHandler c = Handler.handleClientRequest c' := by
  rw [Handler.saleDetailsClientHandler]
  dsimp only
  rw [if_pos hlocal]
  let l : Local D.toExternals :=
    c.ctxLocal.set "saleDetailsClientHandler" (.saleDetailsClientState .unicastAcknowledge)
  exact ⟨{ c with ctxLocal := l }, rfl, rfl⟩

/-- Reading them throws when they have another type. -/
theorem not_getsTyped_of_type_ne {pool : RequestPool ι D} {i : ι} {id : String}
    {v : Any D.toExternals}
    (hi : pool.thread i = Handler.noNextTask (Handler.handleClientRequest.readCached c id))
    (hv : pool.store.lookup (ContextKey.saleDetailsResult.of id) = some v)
    (htype : v.type ≠ .saleDetailsResponse) :
    ¬ GetsTyped pool (.thread i) ∧
      (requestStep pool (.thread i)).thread i = .ret (.error .badAnyCast) := by
  have hcall : pool.thread i
      = .call (.get (ContextKey.saleDetailsResult.of id) (.saleDetailsResponse ⟨[], ""⟩)) _ := hi
  constructor
  · intro h
    rcases h i _ _ _ v rfl hcall hv with hresponse | ⟨hempty, -⟩
    · exact htype hresponse
    · cases hempty
  · have hcast : v.toSaleDetailsResponse? = none := by
      rw [← Option.not_isSome_iff_eq_none]
      intro hsome
      obtain ⟨-, -, -, -, -, -, -, -, -, hiff⟩ := v.cast_iff
      exact htype (hiff.mp hsome)
    have hreply : (handle (.get (ContextKey.saleDetailsResult.of id)
        (.saleDetailsResponse ⟨[], ""⟩)) pool.store).1 = v := by
      rw [(lookup_handle _ _).1]
      show (pool.store.lookup _).getD _ = v
      rw [hv, Option.getD_some]
    rw [requestStep, Config.step_thread_of_call hcall, hreply]
    simp only [Function.update_self, hcast]
    rfl

end client

/-- Turns of one worker reach what its handler reaches. -/
theorem exists_exec_noNextTask {pool : RequestPool ι D} {i : ι} {p q : Handler D.toExternals}
    {g : Store D.toExternals} (hi : pool.thread i = Handler.noNextTask p)
    (h : Prog.Reaches handleLookup q g p pool.store.lookup) :
    ∃ n, ∃ pool', exec requestStep pool (List.replicate n (.thread i)) = pool' ∧
      pool'.thread i = Handler.noNextTask q ∧ (∀ j ≠ i, pool'.thread j = pool.thread j) ∧
      pool'.store.lookup = g := by
  have hmap : Prog.Reaches handleLookup (Handler.noNextTask q) g (pool.thread i)
      pool.store.lookup := by
    rw [hi]
    exact h.map _
  obtain ⟨m, hm, hlookup⟩ := hmap.of_view lookup_handle rfl
  obtain ⟨n, hn⟩ := Config.exists_exec_of_reaches (fun (e : Maintenance) m => e.apply m) hm
  replace hn : exec requestStep pool _ = _ := hn
  refine ⟨n, _, hn, by simp, fun j hj => Function.update_of_ne hj _ _, hlookup⟩

/-! ## Two pools -/

/-- A sale with a payment id, a callback whose path id is `sampleText`, and a client that asks for
the details of the payment. -/
def sampleTypedCalls (paymentId : String) : Fin 3 → RequestCall sampleDetails
  | 0 => .payment (.status (.saleCryptonode (sampleDetailsCall paymentId none).toCall))
  | 1 => .saleDetailsCallback (sampleDetailsCall "details" (some sampleText))
  | 2 => .saleDetailsClient (sampleDetailsCall paymentId none)

theorem paymentIds_sampleTypedCalls {paymentId id : String}
    (h : PaymentIds (sampleTypedCalls paymentId) id) : id = paymentId := by
  obtain ⟨i, hi⟩ := h
  match i with
  | 0 => exact hi.elim
  | 1 => exact hi.elim
  | 2 =>
    rcases hi with ⟨req, hreq, hid⟩ | hlocal
    · obtain rfl :=
        Option.some.inj (hreq : some (⟨paymentId, 1, ""⟩ : SaleDetailsRequest) = some req)
      exact hid.symm
    · cases hlocal

theorem callbackIds_sampleTypedCalls {paymentId id : String}
    (h : CallbackIds (sampleTypedCalls paymentId) id) : id = sampleText ∨ id = textOfUuid [] := by
  obtain ⟨i, hi⟩ := h
  match i with
  | 0 => exact hi.elim
  | 1 => exact .inl (Option.some.inj hi.1).symm
  | 2 => exact .inr hi

theorem typedStore_sampleDetailsContext (B : String → Prop) :
    TypedStore B sampleDetailsContext := by
  intro key v hv ty hty
  by_cases hkey : key = contextKeySupernode
  · subst hkey
    obtain rfl := hty.unique (.server .supernode rfl)
    simp only [GlobalContextMap.lookup, sampleDetailsContext, Function.update_self,
      Option.map_some, Option.some.injEq] at hv
    rw [← hv]
    rfl
  · simp [GlobalContextMap.lookup, sampleDetailsContext, hkey] at hv

/-- A payment id that is not the id of the callback. -/
theorem global_store_typed_of_payment :
    Along requestStep GetsTyped (requestPool sampleDetailsContext (sampleTypedCalls "payment"))
      [.thread 1, .thread 0, .thread 0, .thread 2, .thread 0, .thread 0, .thread 2] := by
  refine global_store_typed (typedStore_sampleDetailsContext _) ?_ _
  intro id hpayment hcallback
  obtain rfl := paymentIds_sampleTypedCalls hpayment
  rcases callbackIds_sampleTypedCalls hcallback with h | h
  · exact absurd h (by decide)
  · exact absurd h (by decide +kernel)

/-- **A body in place of the details**: the payment id of a sale is the text of a uuid, and a
callback with this path id comes before the client asks for the details. -/
theorem global_store_confused :
    let calls := sampleTypedCalls sampleText
    let start := requestPool sampleDetailsContext calls
    RouteId sampleText ∧ TypedStore (CallbackIds calls) sampleDetailsContext ∧
      ∃ ts, ¬ Along requestStep GetsTyped start ts ∧
        (exec requestStep start ts).thread 2 = .ret (.error .badAnyCast) := by
  intro calls start
  -- the sale
  have hmulticast : sampleDetails.getMulticastRequest
      (sampleDetailsCall sampleText none).toCall.input
        = some ⟨"multicast", "", [], "", sampleText⟩ := rfl
  have hsale : sampleDetails.getSaleDataMulticastB64 sampleText
      = some ⟨⟨"", 0, 1⟩, sampleText, RTAStatus.waiting.toInt, ""⟩ := rfl
  have hnew : start.store.lookup (ContextKey.sale.of sampleText) = none := by
    have hname : ContextKey.sale.of sampleText ≠ contextKeySupernode :=
      ContextKey.of_ne (by decide)
    show sampleDetailsContext.lookup _ = none
    simp [GlobalContextMap.lookup, sampleDetailsContext, hname]
  obtain ⟨hwaiting, -⟩ := run_saleCryptonodeHandler hmulticast hsale hnew
  have hthread₀ : start.thread 0 = Handler.noNextTask
      (Handler.saleCryptonodeHandler (sampleDetailsCall sampleText none).toCall) := rfl
  obtain ⟨n₁, c₁, h₁, -, hother₁, hlookup₁⟩ := exists_exec_noNextTask hthread₀
    (Prog.reaches_run handleLookup _ _)
  rw [← hlookup₁] at hwaiting
  -- the callback
  obtain ⟨htext, -, -⟩ := sampleTexts_stand_for_sampleUuid
  have hthread₁ : c₁.thread 1
      = .call (.set (ContextKey.saleDetailsResult.of sampleText) (.str "details") rtaTxTtl) _ :=
    (hother₁ 1 (by decide)).trans
      (callback_of_uuid (c := sampleDetailsCall "details" (some sampleText)) rfl htext)
  obtain ⟨c₂, h₂⟩ : ∃ c₂, requestStep c₁ (.thread 1) = c₂ := ⟨_, rfl⟩
  have hlookup₂ : c₂.store.lookup = Function.update c₁.store.lookup
      (ContextKey.saleDetailsResult.of sampleText) (some (.str "details")) := by
    rw [← h₂, requestStep, Config.step_thread_of_call hthread₁]
    exact (lookup_handle _ _).2
  have hbody : c₂.store.lookup (ContextKey.saleDetailsResult.of sampleText)
      = some (.str "details") := by
    rw [hlookup₂, Function.update_self]
  have hstatus : c₂.store.lookup (ContextKey.status.of sampleText)
      = some (.int RTAStatus.waiting.toInt) := by
    have hkey : ContextKey.status.of sampleText ≠ ContextKey.saleDetailsResult.of sampleText :=
      fun heq => ContextKey.noConfusion (ContextKey.of_eq_of.mp heq).1
    rw [hlookup₂, Function.update_of_ne hkey]
    exact hwaiting
  -- the client, up to its reading of the details
  have hthread₂ : c₂.thread 2 = Handler.noNextTask
      (Handler.saleDetailsClientHandler (sampleDetailsCall sampleText none)) := by
    rw [← h₂, requestStep, Config.step_thread_ne (by decide), hother₁ 2 (by decide)]
    rfl
  obtain ⟨c', hinput, hfirst⟩ := saleDetailsClientHandler_of_first
    (c := sampleDetailsCall sampleText none) rfl
  have hreq : sampleDetails.getSaleDetailsRequest c'.input = some ⟨sampleText, 1, ""⟩ := by
    rw [hinput]
    rfl
  rw [hfirst] at hthread₂
  obtain ⟨n₃, c₃, h₃, hthread₃, -, hlookup₃⟩ := exists_exec_noNextTask hthread₂
    (reaches_readCached hreq (by decide) hstatus (by rw [hbody]; rfl))
  rw [← hlookup₃] at hbody
  obtain ⟨hgets, hfault⟩ := not_getsTyped_of_type_ne hthread₃ hbody (by decide)
  -- the run
  refine ⟨by decide, typedStore_sampleDetailsContext _,
    List.replicate n₁ (.thread 0) ++ (.thread 1 :: (List.replicate n₃ (.thread 2) ++ [.thread 2])),
    ?_, ?_⟩
  · rw [along_append, h₁, along_cons, h₂, along_append, h₃]
    rintro ⟨-, -, -, h, -⟩
    exact hgets h
  · rw [exec_append, h₁, exec_cons, h₂, exec_append, h₃]
    exact hfault

end Request
