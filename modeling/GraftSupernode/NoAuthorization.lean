/-
# No transaction is authorised

`Supernode::getAmountFromTx` never succeeds, so `handleTxAuthRequest` fails before it stores the
transaction and before it signs a verdict.  No other handler stores a transaction or its payment id:
`handleClientPayRequest`, which would, is disabled.

* `NoTransactions`: neither a transaction nor the payment id of one is stored;
* `post_request`, `post_vote`: a request is not forwarded, and a vote is answered with an error;
* `no_authorization`: so it is in every run of all handlers.
-/
import GraftSupernode.RequestPool

open AtomicProgram GlobalContext Runs

namespace Request

variable {D : DetailsExternals}

/-! ## What is stored -/

/-- Neither a transaction nor the payment id of one is stored. -/
def NoTransactions (m : GlobalContextMap (Any D.toExternals)) : Prop :=
  ∀ txId, m.lookup (ContextKey.txByTxid.of txId) = none ∧
    m.lookup (ContextKey.paymentIdByTxid.of txId) = none

/-- The key is that of something else. -/
def Elsewhere (key : String) (_ : Any D.toExternals) : Prop :=
  ∀ txId, key ≠ ContextKey.txByTxid.of txId ∧ key ≠ ContextKey.paymentIdByTxid.of txId

variable {m : GlobalContextMap (Any D.toExternals)}

/-- No transaction is stored when all that is stored is elsewhere. -/
theorem noTransactions_iff : NoTransactions m ↔ Stored Elsewhere m := by
  constructor
  · intro h key v hv txId
    refine ⟨?_, ?_⟩
    · rintro rfl
      cases (h txId).1.symm.trans hv
    · rintro rfl
      cases (h txId).2.symm.trans hv
  · intro h txId
    refine ⟨?_, ?_⟩
    · by_contra hsome
      obtain ⟨v, hv⟩ := Option.ne_none_iff_exists'.mp hsome
      exact (h _ v hv txId).1 rfl
    · by_contra hsome
      obtain ⟨v, hv⟩ := Option.ne_none_iff_exists'.mp hsome
      exact (h _ v hv txId).2 rfl

/-- **No handler writes there.** -/
theorem DetailsOp.elsewhere {P B : String → Prop} {key : String} {v : Any D.toExternals} {ttl : ℕ}
    (h : DetailsOp P B (.set key v ttl)) : Elsewhere key v := by
  have hkind {k : ContextKey} {id : String} (hk : k ≠ .txByTxid ∧ k ≠ .paymentIdByTxid) :
      Elsewhere (k.of id) v :=
    fun _ => ⟨fun heq => hk.1 (ContextKey.of_eq_of.mp heq).1,
      fun heq => hk.2 (ContextKey.of_eq_of.mp heq).1⟩
  cases h with
  | issued h =>
    cases h with
    | set k id hv httl hk => exact hkind hk.2
    | setServer k hv => exact fun _ => ⟨(k.of_ne_name _ _).symm, (k.of_ne_name _ _).symm⟩
  | cache h r => exact hkind (by decide)
  | storeBody h body => exact hkind (by decide)

/-- The payment id of a transaction is not found. -/
def UnknownReply : (o : StoreOp (Any D.toExternals)) → o.Reply → Prop
  | .hasKey key, known => ∀ txId, key = ContextKey.paymentIdByTxid.of txId → known = false
  | _, _ => True

/-- Where no transaction is stored, no reply knows of one. -/
theorem NoTransactions.reply (h : NoTransactions m) (o : StoreOp (Any D.toExternals)) :
    UnknownReply o (handle o m).1 := by
  cases o with
  | hasKey key =>
    rintro txId rfl
    rw [(lookup_handle (.hasKey _) m).1]
    show (m.lookup _).isSome = false
    rw [(h txId).2]
    rfl
  | get key d => trivial
  | set key v ttl => trivial
  | remove key => trivial

/-! ## What the handlers answer -/

/-- An invocation of `authorizeRtaTxResponseHandler` that handles a vote, not the reply of a
cryptonode. -/
def Call.handlesVote {E : Externals} (c : Call E) : Bool :=
  let self := "authorizeRtaTxResponseHandler"
  !c.ctxLocal.hasKey self || (c.ctxLocal.get self).toAuthResponseState? == some .rtaAuthReply

namespace Handler

variable {E : Externals} {T : (o : StoreOp (Any E)) → o.Reply → Prop}

/-- Nothing is sent on. -/
def NotForwarded (a : Except Fault (Reply E)) : Prop := ∀ r, a = .ok r → r.status ≠ .forward

/-- A fault forwards nothing. -/
theorem notForwarded_error {f : Fault} : NotForwarded (.error f : Except Fault (Reply E)) :=
  fun _ hr => by cases hr

/-- Only the status Forward forwards something. -/
theorem notForwarded_of_status {status : StateMachine.Status} {output : Output} {l : Local E}
    (h : status ≠ .forward) : NotForwarded (.ok ⟨status, output, l⟩) := by
  rintro r hr
  cases hr
  exact h

/-- The first call forwards nothing. -/
theorem post_storeRequestAndReplyOk (c : Call E) :
    (storeRequestAndReplyOk c).Post T NotForwarded := by
  rw [storeRequestAndReplyOk]
  split
  · exact notForwarded_of_status (by decide)
  intro v _
  dsimp only
  split
  · exact notForwarded_error
  split
  · exact notForwarded_of_status (by decide)
  · exact notForwarded_of_status (by decide)

/-- `getAmountFromTx` has failed. -/
theorem post_storeTx (c : Call E) (req : MulticastRequestJsonRpc) (authReq : AuthorizeRtaTxRequest)
    (supernode : Option (Supernode E.toCrypto)) (tx : E.Transaction) (txIdStr : String) :
    (handleTxAuthRequest.storeTx c req authReq supernode tx txIdStr).Post T NotForwarded := by
  rw [handleTxAuthRequest.storeTx]
  intro processed _
  dsimp only
  split
  · exact notForwarded_of_status (by decide)
  · exact fun _ _ => notForwarded_of_status (by decide)

/-- Without an amount, the handler of a transaction forwards nothing. -/
theorem post_handleTxAuthRequest (c : Call E) : (handleTxAuthRequest c).Post T NotForwarded := by
  rw [handleTxAuthRequest]
  split
  · exact notForwarded_of_status (by decide)
  split
  · exact notForwarded_error
  split
  · exact notForwarded_of_status (by decide)
  intro v _
  dsimp only
  split
  · exact notForwarded_error
  split
  · exact notForwarded_of_status (by decide)
  split
  · exact notForwarded_of_status (by decide)
  · exact post_storeTx _ _ _ _ _ _

/-- The reply to a multicast forwards nothing. -/
theorem post_handleCryptonodeMulticastStatus (c : Call E) :
    (handleCryptonodeMulticastStatus c).Post T NotForwarded := by
  rw [handleCryptonodeMulticastStatus]
  split
  · exact notForwarded_of_status (by decide)
  split
  · exact notForwarded_of_status (by decide)
  split
  · exact notForwarded_of_status (by decide)
  · exact notForwarded_of_status (by decide)

/-- **A request**: no verdict is sent. -/
theorem post_request (c : Call E) : (authorizeRtaTxRequestHandler c).Post T NotForwarded := by
  rw [authorizeRtaTxRequestHandler]
  dsimp only
  split
  · exact post_storeRequestAndReplyOk _
  split
  · exact notForwarded_of_status (by decide)
  · exact post_storeRequestAndReplyOk _
  · exact post_handleTxAuthRequest _
  · exact post_handleCryptonodeMulticastStatus _

/-- The status is an error. -/
def AnswersError (a : Except Fault (Reply E)) : Prop := ∃ r, a = .ok r ∧ r.status = .error

/-- The status Error is an error. -/
theorem answersError_error {output : Output} {l : Local E} : AnswersError (.ok ⟨.error, output, l⟩) :=
  ⟨_, rfl, rfl⟩

/-- **A vote**: the transaction is unknown. -/
theorem post_vote {c : Call D.toExternals} (hvote : c.handlesVote = true) :
    (authorizeRtaTxResponseHandler c).Post UnknownReply AnswersError := by
  have hmulticast (l : Local D.toExternals) :
      (handleRtaAuthResponseMulticast { c with ctxLocal := l }).Post UnknownReply AnswersError := by
    rw [handleRtaAuthResponseMulticast]
    split
    · exact answersError_error
    split
    · exact answersError_error
    intro v _
    dsimp only
    split
    · exact answersError_error
    split
    · exact answersError_error
    intro known hknown
    dsimp only
    rw [if_pos (hknown _ rfl)]
    exact answersError_error
  rw [authorizeRtaTxResponseHandler]
  dsimp only
  split
  · exact hmulticast _
  rename_i hkey
  have hstate : (c.ctxLocal.get "authorizeRtaTxResponseHandler").toAuthResponseState?
      = some .rtaAuthReply := by
    simpa [Call.handlesVote, hkey] using hvote
  rw [hstate]
  exact hmulticast _

end Handler

/-! ## Runs -/

variable {ι : Type*} [DecidableEq ι]

/-- What holds in every run: the handlers issue their operations, and no transaction is stored. -/
abbrev UnknownRun (c : RequestPool ι D) : Prop :=
  StoredRun (DetailsOp (fun _ => True) fun _ => True) Elsewhere c

omit [DecidableEq ι] in
/-- A pool of requests over a table without transactions is such a run. -/
theorem unknownRun_requestPool (hm : NoTransactions m) (calls : ι → RequestCall D) :
    UnknownRun (requestPool m calls) :=
  ⟨fun i => (calls i).detailsOp.mono fun _ ho => ho.mono (fun _ _ => trivial) fun _ _ => trivial,
    noTransactions_iff.mp hm⟩

/-- A turn stores no transaction, and every thread stays on a way without one. -/
theorem UnknownRun.step {c : RequestPool ι D} (h : UnknownRun c) (t : Turn ι Maintenance) :
    UnknownRun (requestStep c t) :=
  StoredRun.step h (fun _ _ _ ho => ho.elsewhere) t

/-- **No transaction is authorised**, in any run of any calls of the handlers that begins without
stored transactions: none is stored, no request is answered with a verdict that is sent on, and every
vote is answered with an error. -/
theorem no_authorization (hm : NoTransactions m) (calls : ι → RequestCall D)
    (ts : List (Turn ι Maintenance)) :
    let c := exec requestStep (requestPool m calls) ts
    NoTransactions c.store ∧
      (∀ i call r next, calls i = .payment (.authorizeRtaTxRequest call) →
        c.thread i = .ret (.ok (r, next)) → r.status ≠ .forward) ∧
      ∀ i call a, calls i = .payment (.status (.authorizeRtaTxResponse call)) →
        call.handlesVote = true → c.thread i = .ret a →
          ∃ r, a = .ok (r, none) ∧ r.status = .error := by
  intro c
  have hstart := unknownRun_requestPool hm calls
  have hresult {i : ι} {Q : Returned D → Prop} (hpost : (calls i).handler.Post UnknownReply Q)
      {a : Returned D} (ha : c.thread i = .ret a) : Q a :=
    StoredRun.result hstart (fun _ _ _ ho => ho.elsewhere)
      (fun o _ hm => (noTransactions_iff.mpr hm).reply o) hpost ts ha
  refine ⟨?_, ?_, ?_⟩
  · have hrun : UnknownRun c := exec_of_step (I := fun c : RequestPool ι D => UnknownRun c)
      (fun _ t h => UnknownRun.step h t) hstart ts
    exact noTransactions_iff.mpr hrun.stored
  · intro i call r next hcall hret
    have hpost : (calls i).handler.Post UnknownReply fun a =>
        ∀ r next, a = .ok (r, next) → r.status ≠ .forward := by
      rw [hcall]
      refine (Handler.post_request call).map fun a ha => ?_
      rintro r next hr
      cases a with
      | error f => cases hr
      | ok r' =>
        cases hr
        exact ha _ rfl
    exact hresult hpost hret r next rfl
  · intro i call a hcall hvote hret
    have hpost : (calls i).handler.Post UnknownReply fun a =>
        ∃ r, a = .ok (r, none) ∧ r.status = .error := by
      rw [hcall]
      refine (Handler.post_vote hvote).map ?_
      rintro _ ⟨r, rfl, hr⟩
      exact ⟨r, rfl, hr⟩
    exact hresult hpost hret

/-- The sample table has no transaction. -/
theorem noTransactions_sampleDetailsContext : NoTransactions sampleDetailsContext := by
  have hname (k : ContextKey) (txId : String) : k.of txId ≠ contextKeySupernode :=
    ContextKey.of_ne (by decide)
  intro txId
  simp [GlobalContextMap.lookup, sampleDetailsContext, hname]

/-- A request about a transaction and a vote on it. -/
def sampleAuthorization : Bool → RequestCall sampleDetails
  | true => .payment (.authorizeRtaTxRequest
      { (sampleDetailsCall "" none).toCall with
        ctxLocal := Local.set (Local.set (fun _ => none) "request" (.str "tx"))
          "authorizeRtaTxRequestHandler" (.authRequestState .clientRequestAgain) })
  | false => .payment (.status (.authorizeRtaTxResponse (sampleDetailsCall "A" none).toCall))

/-- The request has stored its amount when the vote comes; both have failed. -/
theorem no_authorization_sample :
    let c := exec requestStep (requestPool sampleDetailsContext sampleAuthorization)
      [.thread true, .thread true, .thread true, .thread false, .thread false]
    NoTransactions c.store ∧
      (∃ r next, c.thread true = .ret (.ok (r, next)) ∧ r.status ≠ .forward) ∧
      ∃ r, c.thread false = .ret (.ok (r, none)) ∧ r.status = .error := by
  intro c
  have h := no_authorization noTransactions_sampleDetailsContext sampleAuthorization
    [.thread true, .thread true, .thread true, .thread false, .thread false]
  obtain ⟨hstore, hrequest, hvote⟩ := h
  refine ⟨hstore, ⟨_, _, rfl, hrequest true _ _ _ rfl rfl⟩, ?_⟩
  obtain ⟨r, hr, hstatus⟩ := hvote false _ _ rfl rfl rfl
  exact ⟨r, congrArg _ hr, hstatus⟩

end Request
