/-
# The phases of an auth response

A task of `authorizeRtaTxResponseHandler` is invoked for a vote, and again for each reply of the
cryptonode to what it has forwarded.  Which handler an invocation runs is in the local context,
under the name of the outer handler (`responsePhase`).  The handlers inside store states of their
own under their names, which nothing reads; the one that rejects a payment means to store the next
phase, but it stores it under its name, and in the global context.

Other workers change the global context at any time, so an invocation is any way through the
handler's program.

* `localReads`: the keys of the local context that an invocation reads, and no others
  (`outcome_authorizeRtaTxResponseHandler`);
* `TaskRun`: the invocations of a task;
* `PhasesFollow`: each reply comes to the handler it is for, and no key is read that was not
  written;
* `response_phases`: this holds of the tasks that do not get a reply to a rejection.
-/
import GraftSupernode.AuthVotes
import GraftSupernode.ProgramPaths

open AtomicProgram GlobalContext Prog

namespace Request

variable {E : Externals}

/-- The other keys keep what they have. -/
theorem Local.set_of_ne {key key' : String} (h : key' ≠ key) (l : Local E) (v : Any E) :
    l.set key v key' = l key' := Function.update_of_ne h _ _

/-- A key that is there has its value. -/
theorem Local.get_of_eq {l : Local E} {key : String} {v : Any E} (h : l key = some v) :
    l.get key = v := by
  rw [Local.get, h, Option.getD_some]

/-- A key that has a value is there. -/
theorem Local.hasKey_of_eq {l : Local E} {key : String} {v : Any E} (h : l key = some v) :
    l.hasKey key = true := by
  rw [Local.hasKey, h, Option.isSome_some]

/-- The state that `authorizeRtaTxResponseHandler` finds in the local context. -/
def responsePhase (l : Local E) : Option RtaAuthResponseHandlerState :=
  if l.hasKey "authorizeRtaTxResponseHandler" = false then some .rtaAuthReply
  else (l.get "authorizeRtaTxResponseHandler").toAuthResponseState?

/-- The call with the next state in its local context. -/
def Call.goOn (c : Call E) (next : RtaAuthResponseHandlerState) : Call E :=
  { c with ctxLocal := c.ctxLocal.set "authorizeRtaTxResponseHandler" (.authResponseState next) }

/-- What an invocation runs in each phase. -/
def Handler.ofPhase (c : Call E) : RtaAuthResponseHandlerState → Handler E
  | .rtaAuthReply => handleRtaAuthResponseMulticast (c.goOn .transactionPushReply)
  | .transactionPushReply => handleCryptonodeTxPushResponse (c.goOn .statusBroadcastReply)
  | .statusBroadcastReply => handleStatusBroadcastResponse c

/-- **The state decides which handler runs**. -/
theorem authorizeRtaTxResponseHandler_of_phase {c : Call E} {s : RtaAuthResponseHandlerState}
    (h : responsePhase c.ctxLocal = some s) :
    Handler.authorizeRtaTxResponseHandler c = Handler.ofPhase c s := by
  unfold Handler.authorizeRtaTxResponseHandler
  dsimp only
  unfold responsePhase at h
  split at h
  · rename_i hkey
    rw [if_pos hkey]
    obtain rfl := Option.some.inj h
    rfl
  · rename_i hkey
    rw [if_neg hkey, h]
    cases s <;> rfl

/-- A state that is none of the handler's is an exception. -/
theorem authorizeRtaTxResponseHandler_of_none {c : Call E} (h : responsePhase c.ctxLocal = none) :
    Handler.authorizeRtaTxResponseHandler c
      = Handler.errorInternalError c.output c.ctxLocal "exception thrown" := by
  unfold responsePhase at h
  unfold Handler.authorizeRtaTxResponseHandler
  split at h
  · cases h
  · rename_i hkey
    dsimp only
    rw [if_neg hkey, h]

/-- The state that is stored is the phase. -/
theorem responsePhase_set_self (l : Local E) (s : RtaAuthResponseHandlerState) :
    responsePhase (l.set "authorizeRtaTxResponseHandler" (.authResponseState s)) = some s := by
  have hset := Local.set_self l "authorizeRtaTxResponseHandler" (.authResponseState s)
  unfold responsePhase
  rw [if_neg (by rw [Local.hasKey_of_eq hset]; decide), Local.get_of_eq hset]
  rfl

/-- The next state is stored under the name of the handler. -/
theorem Call.ctxLocal_goOn_self (c : Call E) (next : RtaAuthResponseHandlerState) :
    (c.goOn next).ctxLocal "authorizeRtaTxResponseHandler" = some (.authResponseState next) :=
  Local.set_self c.ctxLocal "authorizeRtaTxResponseHandler" (.authResponseState next)

/-- The other keys keep what they have. -/
theorem Call.ctxLocal_goOn_of_ne (c : Call E) (next : RtaAuthResponseHandlerState) {key : String}
    (h : key ≠ "authorizeRtaTxResponseHandler") : (c.goOn next).ctxLocal key = c.ctxLocal key :=
  Local.set_of_ne h _ _

/-- The next state is the phase of the next invocation. -/
theorem responsePhase_goOn (c : Call E) (next : RtaAuthResponseHandlerState) :
    responsePhase (c.goOn next).ctxLocal = some next := responsePhase_set_self _ _

/-- A value under another key does not change the phase. -/
theorem responsePhase_set {key : String} (h : "authorizeRtaTxResponseHandler" ≠ key) (l : Local E)
    (v : Any E) : responsePhase (l.set key v) = responsePhase l := by
  unfold responsePhase Local.hasKey Local.get
  rw [Local.set_of_ne h]

/-- The keys of the local context that an invocation reads, besides that of its phase, in their
order: a read that throws is the last one. -/
def localReads (l : Local E) : List String :=
  match responsePhase l with
  | some .transactionPushReply =>
    "payment_id" :: if (l.get "payment_id").toStr?.isSome then [contextTxId] else []
  | some .statusBroadcastReply => ["payment_id"]
  | some .rtaAuthReply | none => []

/-- The first invocation reads no key. -/
theorem hasKey_of_localReads_empty {l : Local E} (h : l = fun _ => none) :
    ∀ key ∈ localReads l, l.hasKey key = true := by
  subst h
  exact fun key hkey => absurd hkey List.not_mem_nil

/-! ## No other key is read -/

/-- What a handler does but for what it leaves in the local context. -/
def Handler.outcome (p : Handler E) :
    Prog (StoreOp (Any E)) StoreOp.Reply (Except Fault (StateMachine.Status × Output)) :=
  p.map fun r => r.map fun r => (r.status, r.output)

/-- The call with another local context. -/
def Call.withLocal (c : Call E) (l : Local E) : Call E := { c with ctxLocal := l }

namespace Handler

/-- Two handlers do the same when they do after each answer to their first operation. -/
theorem outcome_call_congr {o : StoreOp (Any E)} {k k' : StoreOp.Reply o → Handler E}
    (h : ∀ r, outcome (k r) = outcome (k' r)) : outcome (.call o k) = outcome (.call o k') :=
  congrArg (Prog.call o) (funext h)

/-- Two choices do the same when their branches do. -/
theorem outcome_ite_congr {p : Prop} [Decidable p] {h₁ h₁' h₂ h₂' : Handler E}
    (h : outcome h₁ = outcome h₁') (h' : outcome h₂ = outcome h₂') :
    outcome (if p then h₁ else h₂) = outcome (if p then h₁' else h₂') := by
  split
  · exact h
  · exact h'

variable (c : Call E) (l : Local E) (supernode : Option (Supernode E.toCrypto))
  (paymentId : String) (resp : AuthorizeRtaTxResponse)

/-- A rejection does not read the local context. -/
theorem outcome_rejectPayment :
    outcome (rejectPayment (c.withLocal l) supernode paymentId)
      = outcome (rejectPayment c supernode paymentId) := by
  refine outcome_call_congr fun _ => outcome_call_congr fun _ => ?_
  cases supernode <;> rfl

/-- An approval does not read the local context. -/
theorem outcome_pushTx (authResult : RtaAuthResult) :
    outcome (pushTx (c.withLocal l) supernode paymentId resp authResult)
      = outcome (pushTx c supernode paymentId resp authResult) := by
  refine outcome_call_congr fun v => ?_
  cases Any.toTransaction? v with
  | none => rfl
  | some tx => cases supernode <;> rfl

/-- The count does not read the local context. -/
theorem outcome_countVotes (authResult : RtaAuthResult) :
    outcome (countVotes (c.withLocal l) supernode paymentId resp authResult)
      = outcome (countVotes c supernode paymentId resp authResult) := by
  refine outcome_call_congr fun hasAmount => outcome_ite_congr rfl ?_
  refine outcome_call_congr fun v => ?_
  cases Any.toUInt64? v with
  | none => rfl
  | some txAmount =>
    refine outcome_call_congr fun hasTx => outcome_ite_congr rfl ?_
    refine outcome_ite_congr (outcome_rejectPayment c l supernode paymentId) ?_
    exact outcome_ite_congr (outcome_pushTx c l supernode paymentId resp authResult) rfl

/-- A vote is added without the local context. -/
theorem outcome_addVote (authResult : RtaAuthResult) :
    outcome (addVote (c.withLocal l) supernode paymentId resp authResult)
      = outcome (addVote c supernode paymentId resp authResult) :=
  outcome_ite_congr rfl (outcome_call_congr fun _ =>
    outcome_countVotes c l supernode paymentId resp (authResult.push resp))

/-- A vote is handled without the local context. -/
theorem outcome_handleVote :
    outcome (handleVote (c.withLocal l) supernode resp)
      = outcome (handleVote c supernode resp) := by
  refine outcome_call_congr fun known => outcome_ite_congr rfl ?_
  refine outcome_call_congr fun v => ?_
  cases Any.toStr? v with
  | none => rfl
  | some paymentId =>
    refine outcome_ite_congr ?_ rfl
    -- the votes that are stored, if any, are read
    refine outcome_call_congr fun stored => outcome_ite_congr ?_ ?_
    · exact outcome_addVote c l supernode paymentId resp .empty
    · refine outcome_call_congr fun v => ?_
      cases Any.toAuthResult? v with
      | none => rfl
      | some authResult => exact outcome_addVote c l supernode paymentId resp authResult

/-- The handler of a vote does not read the local context. -/
theorem outcome_handleRtaAuthResponseMulticast :
    outcome (handleRtaAuthResponseMulticast (c.withLocal l))
      = outcome (handleRtaAuthResponseMulticast c) := by
  unfold handleRtaAuthResponseMulticast Call.withLocal
  dsimp only
  cases E.getMulticastRequest c.input with
  | none => rfl
  | some req =>
    dsimp only
    cases E.getAuthorizeRtaTxResponseB64 req.data with
    | none => rfl
    | some resp =>
      refine outcome_call_congr fun v => ?_
      cases Any.toSupernode? v with
      | none => rfl
      | some supernode => exact outcome_ite_congr rfl (outcome_handleVote c l supernode resp)

variable {l}

/-- The handler of the reply to `/sendrawtransaction` reads the payment id, and then the transaction
id. -/
theorem outcome_handleCryptonodeTxPushResponse (hpayment : l "payment_id" = c.ctxLocal "payment_id")
    (htx : (c.ctxLocal.get "payment_id").toStr?.isSome → l contextTxId = c.ctxLocal contextTxId) :
    outcome (handleCryptonodeTxPushResponse (c.withLocal l))
      = outcome (handleCryptonodeTxPushResponse c) := by
  unfold handleCryptonodeTxPushResponse Call.withLocal
  dsimp only
  rw [Local.get, hpayment, ← Local.get]
  cases hstr : (c.ctxLocal.get "payment_id").toStr? with
  | none => rfl
  | some _ =>
    dsimp only
    rw [Local.get, htx (by rw [hstr]; rfl), ← Local.get]
    cases (c.ctxLocal.get contextTxId).toStr? with
    | none => rfl
    | some txId =>
      refine outcome_ite_congr rfl (outcome_call_congr fun v => ?_)
      cases Any.toStr? v with
      | none => rfl
      | some paymentId =>
        refine outcome_call_congr fun v => ?_
        dsimp only
        cases Any.toInt? v with
        | none => rfl
        | some status =>
          refine outcome_ite_congr rfl ?_
          cases E.getSendRawTxResponse c.input with
          | none => rfl
          | some resp =>
            refine outcome_ite_congr rfl (outcome_ite_congr rfl (outcome_call_congr fun v => ?_))
            cases Any.toSupernode? v with
            | none => rfl
            | some supernode => cases supernode <;> rfl

/-- The handler of the reply to a broadcast reads the payment id. -/
theorem outcome_handleStatusBroadcastResponse
    (hpayment : l "payment_id" = c.ctxLocal "payment_id") :
    outcome (handleStatusBroadcastResponse (c.withLocal l))
      = outcome (handleStatusBroadcastResponse c) := by
  unfold handleStatusBroadcastResponse Call.withLocal
  dsimp only
  rw [Local.get, hpayment, ← Local.get]
  cases (c.ctxLocal.get "payment_id").toStr? with
  | none => rfl
  | some _ =>
    dsimp only
    cases E.getBroadcastResponse c.input with
    | none => rfl
    | some resp => exact outcome_ite_congr rfl rfl

/-- **An invocation reads these keys only**: it does the same with any local context that has the
same under them and under the key of its phase. -/
theorem outcome_authorizeRtaTxResponseHandler
    (hphase : l "authorizeRtaTxResponseHandler" = c.ctxLocal "authorizeRtaTxResponseHandler")
    (hreads : ∀ key ∈ localReads c.ctxLocal, l key = c.ctxLocal key) :
    outcome (authorizeRtaTxResponseHandler (c.withLocal l))
      = outcome (authorizeRtaTxResponseHandler c) := by
  have hsame : responsePhase l = responsePhase c.ctxLocal := by
    unfold responsePhase Local.hasKey Local.get
    rw [hphase]
  cases h : responsePhase c.ctxLocal with
  | none =>
    rw [authorizeRtaTxResponseHandler_of_none h,
      authorizeRtaTxResponseHandler_of_none (c := c.withLocal l) (hsame.trans h)]
    rfl
  | some s =>
    rw [authorizeRtaTxResponseHandler_of_phase h,
      authorizeRtaTxResponseHandler_of_phase (c := c.withLocal l) (hsame.trans h)]
    unfold localReads at hreads
    rw [h] at hreads
    cases s with
    | rtaAuthReply =>
      exact outcome_handleRtaAuthResponseMulticast (c.goOn .transactionPushReply) _
    | transactionPushReply =>
      have hpayment := hreads _ List.mem_cons_self
      have hgoOn (key : String) (hkey : key ≠ "authorizeRtaTxResponseHandler")
          (hl : l key = c.ctxLocal key) : ((c.withLocal l).goOn .statusBroadcastReply).ctxLocal key
            = (c.goOn .statusBroadcastReply).ctxLocal key := by
        rw [Call.ctxLocal_goOn_of_ne _ _ hkey, Call.ctxLocal_goOn_of_ne _ _ hkey]
        exact hl
      refine outcome_handleCryptonodeTxPushResponse (c.goOn .statusBroadcastReply)
        (hgoOn _ (by decide) hpayment) fun hstr => hgoOn contextTxId (by decide) (hreads _ ?_)
      rw [Local.get, Call.ctxLocal_goOn_of_ne _ _ (by decide), ← Local.get] at hstr
      rw [if_pos hstr]
      exact List.mem_cons_of_mem _ List.mem_cons_self
    | statusBroadcastReply =>
      exact outcome_handleStatusBroadcastResponse c (hreads _ List.mem_cons_self)

end Handler

/-! ## The invocations of a task -/

/-- An invocation: the call, the answers of the global context to the operations of the handler,
and what came of it. -/
structure Invocation (E : Externals) where
  call : Call E
  answers : List (Σ o, StoreOp.Reply (V := Any E) o)
  out : Except Fault (Reply E)

namespace Invocation

/-- The handler has run so. -/
def Valid (i : Invocation E) : Prop :=
  Path (Handler.authorizeRtaTxResponseHandler i.call) i.answers (.ret i.out)

/-- It returns Forward with a status broadcast in its output. -/
def Broadcasts (i : Invocation E) : Prop :=
  ∃ r req, i.out = .ok r ∧ r.status = .forward ∧ r.output.body = .broadcast req

/-- It returns Forward with /sendrawtransaction. -/
def SendsTx (i : Invocation E) : Prop :=
  ∃ r, i.out = .ok r ∧ r.status = .forward ∧ r.output.path = "/sendrawtransaction"

/-- The task is invoked with the reply to what it has forwarded. -/
def Next (i j : Invocation E) : Prop :=
  ∃ r, i.out = .ok r ∧ r.status = .forward ∧ j.call.ctxLocal = r.ctxLocal

/-- The votes are enough to reject the payment, and the handler takes this branch. -/
def Rejects (i : Invocation E) : Prop :=
  ∃ pre supernode paymentId, pre <+: i.answers ∧
    Path (Handler.authorizeRtaTxResponseHandler i.call) pre
      (Handler.rejectPayment (i.call.goOn .transactionPushReply) supernode paymentId)

end Invocation

/-- The invocations of one task, from the first one on. -/
structure TaskRun (is : List (Invocation E)) : Prop where
  first : ∀ i ∈ is.head?, i.call.ctxLocal = fun _ => none
  next : is.IsChain Invocation.Next
  valid : ∀ i ∈ is, i.Valid

/-- The reply to a status broadcast comes to `handleStatusBroadcastResponse` and the one to
/sendrawtransaction to `handleCryptonodeTxPushResponse`, no key of the local context is read that
was not written, and no invocation aborts. -/
structure PhasesFollow (is : List (Invocation E)) : Prop where
  broadcast : is.IsChain fun i j =>
    i.Broadcasts → responsePhase j.call.ctxLocal = some .statusBroadcastReply
  push : is.IsChain fun i j =>
    i.SendsTx → responsePhase j.call.ctxLocal = some .transactionPushReply
  reads : ∀ i ∈ is, ∀ key ∈ localReads i.call.ctxLocal, i.call.ctxLocal.hasKey key = true
  no_abort : ∀ i ∈ is, i.out ≠ .error .abort

/-! ## What each handler leaves behind -/

/-- The invocation does not abort, and its reply satisfies `N` if it is Forward. -/
def Leaves (N : Reply E → Prop) (out : Except Fault (Reply E)) : Prop :=
  out ≠ .error .abort ∧ ∀ r, out = .ok r → r.status = .forward → N r

/-- The transaction has been pushed, and the task waits for the reply. -/
structure AwaitsPush (l : Local E) : Prop where
  phase : responsePhase l = some .transactionPushReply
  paymentId : ∃ id, l "payment_id" = some (.str id)
  txId : ∃ id, id ≠ "" ∧ l contextTxId = some (.str id)

/-- The status of the payment has been broadcast, and the task waits for the reply. -/
structure AwaitsBroadcast (l : Local E) : Prop where
  phase : responsePhase l = some .statusBroadcastReply
  paymentId : ∃ id, l "payment_id" = some (.str id)

/-- The payment has been rejected and the status has been broadcast, but the task is in the phase
of a push. -/
structure AwaitsInVain (l : Local E) : Prop where
  phase : responsePhase l = some .transactionPushReply
  paymentId : ∃ id, l "payment_id" = some (.str id)
  txId : l contextTxId = none

/-- The part of `handleRtaAuthResponseMulticast` that rejects the payment. -/
def IsRejection (c : Call E) (p : Handler E) : Prop :=
  ∃ supernode paymentId, p = Handler.rejectPayment c supernode paymentId

namespace Handler

variable {B : Handler E → Prop} {N : Reply E → Prop}

/-- A fault other than an abort leaves nothing to do. -/
theorem until_fault {f : Fault} (h : f ≠ .abort) : Until B (Leaves N) (fault f) :=
  until_ret ⟨fun heq => h (Except.error.inj heq), fun _ heq => by cases heq⟩

/-- Without Forward there is no next invocation. -/
theorem until_reply {status : StateMachine.Status} {output : Output} {l : Local E}
    (h : status ≠ .forward) : Until B (Leaves N) (reply status output l) := by
  refine until_ret ⟨by simp, fun r hr hforward => ?_⟩
  cases hr
  exact absurd hforward h

/-- With Forward the next invocation finds what is said. -/
theorem until_forward {output : Output} {l : Local E} (h : N ⟨.forward, output, l⟩) :
    Until B (Leaves N) (reply .forward output l) := by
  refine until_ret ⟨by simp, fun r hr _ => ?_⟩
  cases hr
  exact h

section

variable {c : Call E} {supernode : Option (Supernode E.toCrypto)} {paymentId : String}
  {resp : AuthorizeRtaTxResponse} {r : RtaAuthResult}

/-- What the push of a transaction forwards, and the context that it leaves. -/
def PushedTx (r : Reply E) : Prop :=
  r.output.path = "/sendrawtransaction" ∧ (∀ req, r.output.body ≠ .broadcast req) ∧
    AwaitsPush r.ctxLocal

/-- The keys that are written are not that of the phase. -/
theorem awaitsPush_set {l : Local E} {txId : String}
    (hphase : responsePhase l = some .transactionPushReply) (htx : txId ≠ "") (v : Any E) :
    AwaitsPush (((l.set "payment_id" (.str paymentId)).set contextTxId (.str txId)).set
      "handleRtaAuthResponseMulticast" v) := by
  refine ⟨?_, ⟨paymentId, ?_⟩, ⟨txId, htx, ?_⟩⟩
  · rw [responsePhase_set (by decide), responsePhase_set (by decide),
      responsePhase_set (by decide), hphase]
  · rw [Local.set_of_ne (by decide), Local.set_of_ne (by decide), Local.set_self]
  · rw [Local.set_of_ne (by decide), Local.set_self]

/-- An approval leaves the transaction id for the next invocation. -/
theorem until_pushTx (hphase : responsePhase c.ctxLocal = some .transactionPushReply)
    (htx : resp.txId ≠ "") :
    (pushTx c supernode paymentId resp r).Until B (Leaves PushedTx) := by
  refine until_call fun v => ?_
  dsimp only
  split
  · exact until_reply (by decide)
  · cases supernode with
    | none => exact until_fault (by decide)
    | some supernode =>
      exact until_forward ⟨rfl, fun req => Body.noConfusion, awaitsPush_set hphase htx _⟩

/-- The count ends in a rejection, in an approval or without Forward. -/
theorem until_countVotes (hphase : responsePhase c.ctxLocal = some .transactionPushReply)
    (htx : resp.txId ≠ "") :
    (countVotes c supernode paymentId resp r).Until (IsRejection c) (Leaves PushedTx) := by
  refine until_call fun hasAmount => ?_
  split
  · exact until_reply (by decide)
  refine until_call fun v => ?_
  split
  · exact until_reply (by decide)
  refine until_call fun hasTx => ?_
  split
  · exact until_reply (by decide)
  split
  · exact until_of ⟨supernode, paymentId, rfl⟩
  split
  · exact until_pushTx hphase htx
  · exact until_reply (by decide)

/-- A vote that is added is counted. -/
theorem until_addVote (hphase : responsePhase c.ctxLocal = some .transactionPushReply)
    (htx : resp.txId ≠ "") :
    (addVote c supernode paymentId resp r).Until (IsRejection c) (Leaves PushedTx) := by
  unfold addVote
  dsimp only
  split
  · exact until_reply (by decide)
  · exact until_call fun _ => until_countVotes hphase htx

/-- A vote whose predecessors can be read is added. -/
theorem until_readVotes (hphase : responsePhase c.ctxLocal = some .transactionPushReply)
    (htx : resp.txId ≠ "") :
    (readVotes c supernode paymentId resp).Until (IsRejection c) (Leaves PushedTx) := by
  refine until_call fun stored => ?_
  split
  · exact until_addVote hphase htx
  · refine until_call fun v => ?_
    split
    · exact until_reply (by decide)
    · exact until_addVote hphase htx

/-- A vote whose signatures verify has the id of a transaction. -/
theorem txId_ne_of_validate (hhex : E.hexToHash "" = none) {u : Unspecified E.toCrypto}
    (h : validateAuthResponse u resp = true) : resp.txId ≠ "" := by
  intro hempty
  unfold validateAuthResponse at h
  rw [hempty, hhex] at h
  split at h
  · cases h
  · split at h <;> cases h

/-- A vote of a known transaction is read with the others. -/
theorem until_handleVote (hhex : E.hexToHash "" = none)
    (hphase : responsePhase c.ctxLocal = some .transactionPushReply) :
    (handleVote c supernode resp).Until (IsRejection c) (Leaves PushedTx) := by
  refine until_call fun known => ?_
  split
  · exact until_reply (by decide)
  refine until_call fun v => ?_
  split
  · exact until_reply (by decide)
  split
  · rename_i hvalid
    exact until_readVotes hphase (txId_ne_of_validate hhex hvalid)
  · exact until_reply (by decide)

/-- **The first invocation** rejects the payment, or pushes the transaction, or is the last one. -/
theorem until_handleRtaAuthResponseMulticast (hhex : E.hexToHash "" = none)
    (hphase : responsePhase c.ctxLocal = some .transactionPushReply) :
    (handleRtaAuthResponseMulticast c).Until (IsRejection c) (Leaves PushedTx) := by
  unfold handleRtaAuthResponseMulticast
  split
  · exact until_reply (by decide)
  split
  · exact until_reply (by decide)
  refine until_call fun v => ?_
  split
  · exact until_reply (by decide)
  split
  · exact until_reply (by decide)
  · exact until_handleVote hhex hphase

/-- The first invocation as it rejects the payment: the next phase is not stored where it is
looked for. -/
theorem always_rejectPayment (hlocal : ∀ key, c.ctxLocal key =
      if key = "authorizeRtaTxResponseHandler" then
        some (.authResponseState .transactionPushReply) else none) :
    (rejectPayment c supernode paymentId).Always fun out =>
      out ≠ .error .abort ∧ ∀ r, out = .ok r →
        r.status = .forward ∧ (∃ req, r.output.body = .broadcast req) ∧
          AwaitsInVain r.ctxLocal := by
  refine until_call fun _ => until_call fun _ => ?_
  cases supernode with
  | none => exact until_ret ⟨by simp, fun r hr => by cases hr⟩
  | some supernode =>
    refine until_ret ⟨by simp, fun r hr => ?_⟩
    cases hr
    refine ⟨rfl, ⟨_, rfl⟩, ?_, ⟨paymentId, ?_⟩, ?_⟩
    · show responsePhase (c.ctxLocal.set "payment_id" _) = _
      rw [responsePhase_set (by decide), responsePhase, Local.hasKey, Local.get, hlocal]
      rfl
    · show c.ctxLocal.set "payment_id" (.str paymentId) "payment_id" = _
      exact Local.set_self _ _ _
    · show c.ctxLocal.set "payment_id" (.str paymentId) contextTxId = none
      rw [Local.set_of_ne (by decide), hlocal]
      rfl

/-- What the reply to the push of a transaction leaves, if a status is broadcast. -/
def SentStatus (r : Reply E) : Prop :=
  r.output.path ≠ "/sendrawtransaction" ∧ AwaitsBroadcast r.ctxLocal

/-- **The second invocation** of a task that has pushed its transaction. -/
theorem always_handleCryptonodeTxPushResponse
    (hphase : responsePhase c.ctxLocal = some .statusBroadcastReply)
    (hpayment : ∃ id, c.ctxLocal "payment_id" = some (.str id))
    (htx : ∃ id, id ≠ "" ∧ c.ctxLocal contextTxId = some (.str id)) :
    (handleCryptonodeTxPushResponse c).Always (Leaves SentStatus) := by
  obtain ⟨paymentId, hpayment⟩ := hpayment
  obtain ⟨txId, hne, htx⟩ := htx
  unfold handleCryptonodeTxPushResponse
  rw [Local.get_of_eq hpayment, Local.get_of_eq htx]
  simp only [Any.toStr?, if_neg hne]
  refine until_call fun v => ?_
  split
  · exact until_reply (by decide)
  refine until_call fun v => ?_
  split
  · exact until_reply (by decide)
  split
  · exact until_reply (by decide)
  split
  · exact until_reply (by decide)
  split
  · exact until_reply (by decide)
  split
  · exact until_reply (by decide)
  refine until_call fun v => ?_
  split
  · exact until_reply (by decide)
  · exact until_fault (by decide)
  · refine until_forward ⟨?_, ?_, paymentId, ?_⟩
    · show "/json_rpc/rta" ≠ "/sendrawtransaction"
      decide
    · exact (responsePhase_set (by decide) _ _).trans hphase
    · show c.ctxLocal.set "handleCryptonodeTxPushResponse"
        (.authResponseState .statusBroadcastReply) "payment_id" = _
      rw [Local.set_of_ne (by decide), hpayment]

/-- Without the id of a transaction it throws: the key was not written. -/
theorem always_handleCryptonodeTxPushResponse_of_none
    (hpayment : ∃ id, c.ctxLocal "payment_id" = some (.str id))
    (htx : c.ctxLocal contextTxId = none) :
    (handleCryptonodeTxPushResponse c).Always (Leaves fun _ => False) := by
  obtain ⟨paymentId, hpayment⟩ := hpayment
  have hget : c.ctxLocal.get contextTxId = .empty := by
    rw [Local.get, htx, Option.getD_none]
  unfold handleCryptonodeTxPushResponse
  rw [Local.get_of_eq hpayment, hget]
  exact until_reply (by decide)

/-- **The last invocation**. -/
theorem always_handleStatusBroadcastResponse :
    (handleStatusBroadcastResponse c).Always (Leaves fun _ => False) := by
  unfold handleStatusBroadcastResponse
  split
  · exact until_reply (by decide)
  split
  · exact until_reply (by decide)
  split
  · exact until_reply (by decide)
  · exact until_reply (by decide)

end

end Handler

/-! ## One invocation after the other -/

section

variable {i j : Invocation E} {N : Reply E → Prop}

/-- An invocation is a way through the handler of its phase. -/
theorem Invocation.Valid.path (hi : i.Valid) {s : RtaAuthResponseHandlerState}
    (h : responsePhase i.call.ctxLocal = some s) :
    Path (Handler.ofPhase i.call s) i.answers (.ret i.out) := by
  rw [← authorizeRtaTxResponseHandler_of_phase h]
  exact hi

/-- What is left behind is what the next invocation finds. -/
theorem Leaves.next (h : Leaves N i.out) (hnext : i.Next j) :
    ∃ r, i.out = .ok r ∧ N r ∧ j.call.ctxLocal = r.ctxLocal := by
  obtain ⟨r, hout, hforward, hlocal⟩ := hnext
  exact ⟨r, hout, h.2 r hout hforward, hlocal⟩

/-- A task is invoked for the first time. -/
theorem Invocation.Valid.first (hhex : E.hexToHash "" = none) (hi : i.Valid)
    (hlocal : i.call.ctxLocal = fun _ => none) : i.Rejects ∨ Leaves Handler.PushedTx i.out := by
  have hphase : responsePhase i.call.ctxLocal = some .rtaAuthReply := by rw [hlocal]; rfl
  have huntil : (Handler.ofPhase i.call .rtaAuthReply).Until _ _ :=
    Handler.until_handleRtaAuthResponseMulticast hhex (responsePhase_goOn _ _)
  refine ((hi.path hphase).until huntil).imp (fun hpart => ?_) id
  obtain ⟨pre, q, hpre, hpath, supernode, paymentId, rfl⟩ := hpart
  refine ⟨pre, supernode, paymentId, hpre, ?_⟩
  rw [authorizeRtaTxResponseHandler_of_phase hphase]
  exact hpath

/-- **A rejection** broadcasts the status, and leaves the task in the phase of a push. -/
theorem Invocation.Rejects.spec (hrejects : i.Rejects) (hi : i.Valid)
    (hlocal : i.call.ctxLocal = fun _ => none) :
    i.out ≠ .error .abort ∧ ∀ j, i.Next j → i.Broadcasts ∧ AwaitsInVain j.call.ctxLocal := by
  obtain ⟨pre, supernode, paymentId, ⟨post, hpost⟩, hpath⟩ := hrejects
  rw [Invocation.Valid, ← hpost] at hi
  have hempty (key : String) : (i.call.goOn .transactionPushReply).ctxLocal key =
      if key = "authorizeRtaTxResponseHandler" then
        some (.authResponseState .transactionPushReply) else none := by
    split
    · rename_i hkey
      rw [hkey, Call.ctxLocal_goOn_self]
    · rename_i hkey
      rw [Call.ctxLocal_goOn_of_ne _ _ hkey, hlocal]
  obtain ⟨habort, hok⟩ := (hpath.rest hi).always (Handler.always_rejectPayment hempty)
  refine ⟨habort, fun j hnext => ?_⟩
  obtain ⟨r, hout, -, hctx⟩ := hnext
  obtain ⟨hforward, ⟨req, hreq⟩, hvain⟩ := hok r hout
  refine ⟨⟨r, req, hout, hforward, hreq⟩, ?_⟩
  rw [hctx]
  exact hvain

/-- The reply to the broadcast of a rejection reads a key that was not written, and ends the
task. -/
theorem AwaitsInVain.spec (h : AwaitsInVain i.call.ctxLocal) (hi : i.Valid) :
    i.out ≠ .error .abort ∧ ∀ j, ¬ i.Next j := by
  obtain ⟨paymentId, hpayment⟩ := h.paymentId
  have hleaves := (hi.path h.phase).always (Handler.always_handleCryptonodeTxPushResponse_of_none
    ⟨paymentId, (i.call.ctxLocal_goOn_of_ne _ (by decide)).trans hpayment⟩
    ((i.call.ctxLocal_goOn_of_ne _ (by decide)).trans h.txId))
  refine ⟨hleaves.1, fun j hnext => ?_⟩
  obtain ⟨r, -, hfalse, -⟩ := hleaves.next hnext
  exact hfalse

/-- An invocation that is in its phase: the first one, which does not reject the payment, or one
for a reply. -/
inductive Invocation.InPhase (i : Invocation E) : Prop
  | first (hlocal : i.call.ctxLocal = fun _ => none) (hrejects : ¬ i.Rejects)
  | push (h : AwaitsPush i.call.ctxLocal)
  | broadcast (h : AwaitsBroadcast i.call.ctxLocal)

/-- What one invocation has to do with the next one. -/
structure Invocation.Follows (i j : Invocation E) : Prop where
  inPhase : j.InPhase
  broadcast : i.Broadcasts → responsePhase j.call.ctxLocal = some .statusBroadcastReply
  push : i.SendsTx → responsePhase j.call.ctxLocal = some .transactionPushReply

/-- **One invocation**: it does not abort, it reads what was written, and the next one runs the
handler that it has to run. -/
theorem Invocation.InPhase.step (hhex : E.hexToHash "" = none) (h : i.InPhase) (hi : i.Valid) :
    i.out ≠ .error .abort ∧
      (∀ key ∈ localReads i.call.ctxLocal, i.call.ctxLocal.hasKey key = true) ∧
      ∀ j, i.Next j → i.Follows j := by
  cases h with
  | first hlocal hrejects =>
    have hleaves := (hi.first hhex hlocal).resolve_left hrejects
    refine ⟨hleaves.1, hasKey_of_localReads_empty hlocal, fun j hnext => ?_⟩
    obtain ⟨r, hout, ⟨hpath, hbody, hawaits⟩, hctx⟩ := hleaves.next hnext
    rw [← hctx] at hawaits
    refine ⟨.push hawaits, fun hbroadcasts => ?_, fun _ => hawaits.phase⟩
    -- what is pushed is not broadcast
    obtain ⟨r', req, hout', -, hreq⟩ := hbroadcasts
    obtain rfl := Except.ok.inj (hout.symm.trans hout')
    exact absurd hreq (hbody req)
  | push h =>
    obtain ⟨paymentId, hpayment⟩ := h.paymentId
    obtain ⟨txId, hne, htx⟩ := h.txId
    have hleaves := (hi.path h.phase).always (Handler.always_handleCryptonodeTxPushResponse
      (responsePhase_goOn _ _)
      ⟨paymentId, (i.call.ctxLocal_goOn_of_ne _ (by decide)).trans hpayment⟩
      ⟨txId, hne, (i.call.ctxLocal_goOn_of_ne _ (by decide)).trans htx⟩)
    refine ⟨hleaves.1, fun key hkey => ?_, fun j hnext => ?_⟩
    · rw [localReads, h.phase, Local.get_of_eq hpayment] at hkey
      rcases List.mem_cons.mp hkey with rfl | hkey
      · exact Local.hasKey_of_eq hpayment
      · rw [List.mem_singleton.mp hkey]
        exact Local.hasKey_of_eq htx
    · obtain ⟨r, hout, ⟨hpath, hawaits⟩, hctx⟩ := hleaves.next hnext
      rw [← hctx] at hawaits
      refine ⟨.broadcast hawaits, fun _ => hawaits.phase, fun hsends => ?_⟩
      -- what is broadcast is not pushed
      obtain ⟨r', hout', -, hpath'⟩ := hsends
      obtain rfl := Except.ok.inj (hout.symm.trans hout')
      exact absurd hpath' hpath
  | broadcast h =>
    obtain ⟨paymentId, hpayment⟩ := h.paymentId
    have hleaves := (hi.path h.phase).always Handler.always_handleStatusBroadcastResponse
    refine ⟨hleaves.1, fun key hkey => ?_, fun j hnext => ?_⟩
    · rw [localReads, h.phase] at hkey
      rw [List.mem_singleton.mp hkey]
      exact Local.hasKey_of_eq hpayment
    · obtain ⟨r, -, hfalse, -⟩ := hleaves.next hnext
      exact hfalse.elim

end

namespace PhasesFollow

variable {i j : Invocation E} {is : List (Invocation E)}

/-- One invocation follows its phase. -/
theorem singleton (hreads : ∀ key ∈ localReads i.call.ctxLocal, i.call.ctxLocal.hasKey key = true)
    (habort : i.out ≠ .error .abort) : PhasesFollow [i] := by
  refine ⟨.singleton _, .singleton _, fun i' hi' => ?_, fun i' hi' => ?_⟩
  · rwa [List.mem_singleton.mp hi']
  · rwa [List.mem_singleton.mp hi']

/-- An invocation may come before others. -/
theorem cons (h : PhasesFollow (j :: is)) (hfollows : i.Follows j)
    (hreads : ∀ key ∈ localReads i.call.ctxLocal, i.call.ctxLocal.hasKey key = true)
    (habort : i.out ≠ .error .abort) : PhasesFollow (i :: j :: is) := by
  refine ⟨List.isChain_cons_cons.mpr ⟨hfollows.broadcast, h.broadcast⟩,
    List.isChain_cons_cons.mpr ⟨hfollows.push, h.push⟩, fun i' hi' => ?_, fun i' hi' => ?_⟩
  · rcases List.mem_cons.mp hi' with rfl | hmem
    · exact hreads
    · exact h.reads i' hmem
  · rcases List.mem_cons.mp hi' with rfl | hmem
    · exact habort
    · exact h.no_abort i' hmem

/-- **All invocations from one that is in its phase**. -/
theorem of_inPhase (hhex : E.hexToHash "" = none) (hnext : (i :: is).IsChain Invocation.Next)
    (hvalid : ∀ i' ∈ i :: is, i'.Valid) (hi : i.InPhase) : PhasesFollow (i :: is) := by
  induction is generalizing i with
  | nil =>
    obtain ⟨habort, hreads, -⟩ := hi.step hhex (hvalid i List.mem_cons_self)
    exact singleton hreads habort
  | cons j is ih =>
    obtain ⟨hij, hrest⟩ := List.isChain_cons_cons.mp hnext
    obtain ⟨habort, hreads, hfollows⟩ := hi.step hhex (hvalid i List.mem_cons_self)
    have hj := hfollows j hij
    exact (ih hrest (fun i' hi' => hvalid i' (List.mem_cons_of_mem _ hi')) hj.inPhase).cons hj
      hreads habort

end PhasesFollow

/-- **The phases follow each other unless a rejection is replied to**; in any case no invocation
aborts. -/
theorem response_phases (hhex : E.hexToHash "" = none) {is : List (Invocation E)}
    (h : TaskRun is) :
    (∀ i ∈ is, i.out ≠ .error .abort) ∧
      (PhasesFollow is ↔ ∀ i j rest, is = i :: j :: rest → ¬ i.Rejects) := by
  cases is with
  | nil =>
    have hphases : PhasesFollow ([] : List (Invocation E)) :=
      ⟨.nil, .nil, fun _ hi => absurd hi List.not_mem_nil, fun _ hi => absurd hi List.not_mem_nil⟩
    exact ⟨hphases.no_abort, iff_of_true hphases fun _ _ _ heq => by cases heq⟩
  | cons i is =>
    have hlocal : i.call.ctxLocal = fun _ => none := h.first i rfl
    have hi := h.valid i List.mem_cons_self
    by_cases hrejects : i.Rejects
    · obtain ⟨habort, hnext⟩ := hrejects.spec hi hlocal
      have hreads := hasKey_of_localReads_empty hlocal
      cases is with
      | nil =>
        -- the broadcast is not replied to
        have hphases := PhasesFollow.singleton hreads habort
        exact ⟨hphases.no_abort, iff_of_true hphases fun _ _ _ heq => by cases heq⟩
      | cons j is =>
        obtain ⟨hij, hrest⟩ := List.isChain_cons_cons.mp h.next
        obtain ⟨hbroadcasts, hvain⟩ := hnext j hij
        obtain ⟨habort', hlast⟩ :=
          hvain.spec (h.valid j (List.mem_cons_of_mem _ List.mem_cons_self))
        have his : is = [] := by
          cases is with
          | nil => rfl
          | cons k is => exact absurd (List.isChain_cons_cons.mp hrest).1 (hlast k)
        subst his
        refine ⟨fun i' hi' => ?_, iff_of_false (fun hphases => ?_) fun hnot => ?_⟩
        · rcases List.mem_cons.mp hi' with rfl | hmem
          · exact habort
          · rwa [List.mem_singleton.mp hmem]
        · -- the reply is handled as the one to a push
          have hphase := (List.isChain_cons_cons.mp hphases.broadcast).1 hbroadcasts
          rw [hvain.phase] at hphase
          cases hphase
        · exact hnot i j [] rfl hrejects
    · have hphases := PhasesFollow.of_inPhase hhex h.next h.valid (.first hlocal hrejects)
      refine ⟨hphases.no_abort, iff_of_true hphases fun i' j rest heq => ?_⟩
      obtain rfl := (List.cons.inj heq).1
      exact hrejects

/-! ## Where invocations come from -/

/-- An uninterrupted execution is an invocation. -/
theorem exists_invocation (c : Call E) (f : Store E) :
    ∃ i : Invocation E, i.call = c ∧ i.Valid ∧
      i.out = ((Handler.authorizeRtaTxResponseHandler c).run handleLookup f).1 := by
  obtain ⟨answers, hpath⟩ :=
    exists_path_run handleLookup (Handler.authorizeRtaTxResponseHandler c) f
  exact ⟨⟨c, answers, _⟩, rfl, hpath, rfl⟩

/-- **What a worker of a pool does is an invocation**, whatever the others do meanwhile. -/
theorem exists_invocation_of_pool {ι σ Env : Type*} [DecidableEq ι]
    {handle : Meaning (StoreOp (Any E)) StoreOp.Reply σ} {env : Env → σ → σ}
    {pool : Config ι σ (StoreOp (Any E)) StoreOp.Reply (Except Fault (Reply E))} {w : ι}
    {c : Call E} (hstart : pool.thread w = Handler.authorizeRtaTxResponseHandler c)
    {ts : List (Turn ι Env)} {out : Except Fault (Reply E)}
    (hdone : (Runs.exec (Config.step handle env) pool ts).thread w = .ret out) :
    ∃ i : Invocation E, i.call = c ∧ i.Valid ∧ i.out = out := by
  obtain ⟨answers, hpath⟩ := Config.exists_path_exec handle env pool ts w
  rw [hstart, hdone] at hpath
  exact ⟨⟨c, answers, out⟩, rfl, hpath, rfl⟩

/-! ## Two tasks -/

/-- The empty text is no hash. -/
theorem hexToHash_empty : sampleExternals.hexToHash "" = none := by decide

/-- The state of the outer handler matters to no vote. -/
theorem ValidVote.goOn {c : Call E} {txId : String} {resp : AuthorizeRtaTxResponse}
    (h : ValidVote c txId resp) (s : RtaAuthResponseHandlerState) : ValidVote (c.goOn s) txId resp :=
  ⟨h.incoming, h.txId, h.verdict, h.valid⟩

/-- A task for a first vote, and a reply to what it has forwarded. -/
theorem exists_taskRun {c : Call E} {f : Store E} {r : Reply E} (hlocal : c.ctxLocal = fun _ => none)
    (hout : ((Handler.handleRtaAuthResponseMulticast (c.goOn .transactionPushReply)).run
      handleLookup f).1 = .ok r) (hforward : r.status = .forward) (reply : String) :
    ∃ i j : Invocation E, i.call = c ∧ i.out = .ok r ∧ j.call.input = reply ∧
      j.call.ctxLocal = r.ctxLocal ∧ TaskRun [i, j] := by
  have hphase : responsePhase c.ctxLocal = some .rtaAuthReply := by rw [hlocal]; rfl
  obtain ⟨i, hcall, hi, hrun⟩ := exists_invocation c f
  rw [authorizeRtaTxResponseHandler_of_phase hphase] at hrun
  obtain ⟨j, hcall', hj, -⟩ := exists_invocation
    { c with input := reply, output := r.output, ctxLocal := r.ctxLocal } f
  refine ⟨i, j, hcall, hrun.trans hout, by rw [hcall'], by rw [hcall'], ?_, ?_, ?_⟩
  · rintro i' ⟨⟩
    rw [hcall, hlocal]
  · exact .cons_cons ⟨r, hrun.trans hout, hforward, by rw [hcall']⟩ (.singleton _)
  · intro i' hi'
    rcases List.mem_cons.mp hi' with rfl | hmem
    · exact hi
    · rwa [List.mem_singleton.mp hmem]

/-- A second approval pushes the transaction, and its reply is handled as one. -/
theorem response_phases_of_approval :
    ∃ i j : Invocation sampleExternals, i.call = sampleCall ("A" ++ otherId) ∧ i.SendsTx ∧
      TaskRun [i, j] ∧ PhasesFollow [i, j] := by
  have hready :=
    sampleStore_ready.setVotes ⟨[⟨lowerId, lowerId ++ lowerId, lowerId ++ lowerId⟩], []⟩
  have hfresh : otherId ∉
      RtaAuthResult.voters ⟨[⟨lowerId, lowerId ++ lowerId, lowerId ++ lowerId⟩], []⟩ := by
    intro hmem
    exact absurd (List.mem_singleton.mp hmem) (by decide)
  have hvote := (sampleCall_approval hexToPod_ids.2.2.1).goOn .transactionPushReply
  have hrun := (hready.run hvote hfresh).2.1.mpr ⟨rfl, by decide⟩
  obtain ⟨r, hout, hforward, hpath, htx⟩ := hrun
  obtain ⟨i, j, hcall, hi, -, hlocal, htask⟩ := exists_taskRun rfl hout hforward "OK"
  refine ⟨i, j, hcall, ⟨r, hi, hforward, hpath⟩, htask,
    (response_phases hexToHash_empty htask).2.mpr fun i' j' rest heq hrejects => ?_⟩
  -- a rejection would leave no transaction id
  obtain ⟨rfl, hrest⟩ := List.cons.inj heq
  obtain ⟨-, hnext⟩ := hrejects.spec (htask.valid i List.mem_cons_self) (htask.first i rfl)
  have hvain := (hnext j ⟨r, hi, hforward, hlocal⟩).2.txId
  rw [hlocal, htx] at hvain
  cases hvain

/-- **A vote that rejects the payment**: the reply to the broadcast of the status is handled as the
reply to a push, which reads a transaction id that was not written. -/
theorem rejection_phase_lost :
    ∃ i j : Invocation sampleExternals, i.call = sampleCall ("R" ++ otherId) ∧
      j.call.input = "OK" ∧ TaskRun [i, j] ∧ i.Broadcasts ∧
      responsePhase j.call.ctxLocal = some .transactionPushReply ∧
      contextTxId ∈ localReads j.call.ctxLocal ∧ j.call.ctxLocal.hasKey contextTxId = false ∧
      ¬ PhasesFollow [i, j] := by
  have hvote := (sampleCall_rejection hexToPod_ids.2.2.1).goOn .transactionPushReply
  have hrun := (sampleStore_ready.run hvote List.not_mem_nil).2.2.mpr (List.cons_ne_nil _ _)
  obtain ⟨-, r, supernode, hout, hforward, houtput⟩ := hrun
  obtain ⟨i, j, hcall, hi, hinput, hlocal, htask⟩ := exists_taskRun rfl hout hforward "OK"
  have hbroadcasts : i.Broadcasts := ⟨r, _, hi, hforward, by rw [houtput]; rfl⟩
  -- what is broadcast has not been pushed
  have hrejects : i.Rejects := by
    rcases Invocation.Valid.first hexToHash_empty (htask.valid i List.mem_cons_self)
      (htask.first i rfl) with hrejects | hleaves
    · exact hrejects
    · obtain ⟨-, hbody, -⟩ := hleaves.2 r hi hforward
      exact absurd (by rw [houtput]; rfl) (hbody _)
  obtain ⟨-, hnext⟩ := hrejects.spec (htask.valid i List.mem_cons_self) (htask.first i rfl)
  have hvain := (hnext j ⟨r, hi, hforward, hlocal⟩).2
  obtain ⟨paymentId, hpayment⟩ := hvain.paymentId
  have hreads : contextTxId ∈ localReads j.call.ctxLocal := by
    rw [localReads, hvain.phase, Local.get_of_eq hpayment]
    exact List.mem_cons_of_mem _ (List.mem_singleton.mpr rfl)
  have hkey : j.call.ctxLocal.hasKey contextTxId = false := by
    rw [Local.hasKey, hvain.txId]
    rfl
  refine ⟨i, j, hcall, hinput, htask, hbroadcasts, hvain.phase, hreads, hkey, fun hphases => ?_⟩
  have hwritten := hphases.reads j (List.mem_cons_of_mem _ List.mem_cons_self) _ hreads
  rw [hkey] at hwritten
  cases hwritten

end Request
