/-
# Authorising a transaction

The handlers of `authorize_rta_tx.cpp`.  A supernode of the auth sample receives the
transaction (`handleTxAuthRequest`), signs its verdict and multicasts it; every
verdict comes back to `handleRtaAuthResponseMulticast`, which adds the vote to the
`RtaAuthResult` stored for the transaction and, when the votes suffice, pushes the
transaction to the pool or rejects the payment.

`handleRtaAuthResponseMulticast` is written in the parts `handleVote`, `readVotes`,
`getVotes`, `addVote`, `countVotes`, `rejectPayment` and `pushTx`, each of which takes
what the part before it has at hand.  All of them stand inside the `try` of the source:
`exceptionInHandler` is its `catch`.
-/
import GraftSupernode.RequestDefines

open AtomicProgram GlobalContext

namespace Request

/-- `RTA_VOTES_TO_REJECT` -/
def rtaVotesToReject : ℕ := 1

/-- `rta_votes_to_approve` for an amount. -/
def rtaVotesToApprove (coin txAmount : ℕ) : ℕ := if txAmount / coin > 100 then 4 else 2

namespace RtaAuthResult

/-- `RtaAuthResult::contains` -/
def contains (v : List SupernodeSignature) (id : String) : Bool :=
  v.any fun item => item.idKey == id

/-- `RtaAuthResult::alreadyApproved` -/
def alreadyApproved (r : RtaAuthResult) (id : String) : Bool := contains r.approved id

/-- `RtaAuthResult::alreadyRejected` -/
def alreadyRejected (r : RtaAuthResult) (id : String) : Bool := contains r.rejected id

/-- `RtaAuthResult()` -/
def empty : RtaAuthResult := ⟨[], []⟩

/-- The vote is put at the end of the approvals or of the rejections. -/
def push (r : RtaAuthResult) (resp : AuthorizeRtaTxResponse) : RtaAuthResult :=
  if resp.result = rtaAuthResultApproved then { r with approved := r.approved ++ [resp.signature] }
  else { r with rejected := r.rejected ++ [resp.signature] }

end RtaAuthResult

variable {E : Externals}

/-- `putRtaSignaturesToTx`: its body is disabled. -/
def putRtaSignaturesToTx (tx : E.Transaction) (_signatures : List SupernodeSignature)
    (_testnet : Bool) : E.Transaction := tx

/-- `signAuthResponse` -/
def signAuthResponse (u : Unspecified E.toCrypto) (arg : AuthorizeRtaTxResponse)
    (supernode : Supernode E.toCrypto) : AuthorizeRtaTxResponse :=
  let resultSign := supernode.signMessage u 0 (arg.txId ++ ":" ++ toString arg.result)
  let txId := (E.hexToHash arg.txId).getD u.txId
  let txSign := supernode.signHash u 1 txId
  { arg with
    signature :=
      { idKey := supernode.idKeyAsString
        resultSignature := E.signatureToHex resultSign
        txSignature := E.signatureToHex txSign } }

/-- `validateAuthResponse` -/
def validateAuthResponse (u : Unspecified E.toCrypto) (arg : AuthorizeRtaTxResponse) : Bool :=
  match E.hexToSignature arg.signature.resultSignature with
  | none => false
  | some signResult =>
    match E.hexToSignature arg.signature.txSignature with
    | none => false
    | some signTxId =>
      match E.hexToHash arg.txId with
      | none => false
      | some txId =>
        let msg := arg.txId ++ ":" ++ toString arg.result
        -- the result of this `hex_to_pod` is not looked at
        let idKey := (E.hexToPublicKey arg.signature.idKey).getD u.idKey
        let r1 := Supernode.verifySignature E.toCrypto msg idKey signResult
        let r2 := Supernode.verifyHash E.toCrypto txId idKey signTxId
        r1 && r2

namespace Handler

/-! ## The request -/

/-- `storeRequestAndReplyOk`.  It is `noexcept`: an exception ends the program. -/
def storeRequestAndReplyOk (c : Call E) : Handler E :=
  let l := c.ctxLocal.set "request" (.str c.input)
  match E.getMulticastRequest c.input with
  | none =>
    errorCustomError c.output l ("failed to parse request: " ++ c.input) ErrorCode.invalidRequest
  | some req =>
    .call (.get contextKeySupernode (.supernode none)) fun (v : Any E) =>
    match v.toSupernode? with
    | none => fault .badAnyCast
    | some _ =>
      match E.getAuthorizeRtaTxRequestB64 req.data with
      | none => errorInvalidParams c.output l
      | some _ => reply .again (c.output.load (.resultJsonRpc 0)) l

/-- `handleTxAuthRequest`.  It is `noexcept`: an exception ends the program. -/
def handleTxAuthRequest (c : Call E) : Handler E :=
  let l := c.ctxLocal
  if l.hasKey "request" = false then reply .error c.output l
  else
    match (l.get "request").toStr? with
    | none => fault .badAnyCast
    | some body =>
      match E.getMulticastRequest body with
      | none => errorCustomError c.output l ("failed to parse request: " ++ body)
        ErrorCode.invalidRequest
      | some req =>
        .call (.get contextKeySupernode (.supernode none)) fun (v : Any E) =>
        match v.toSupernode? with
        | none => fault .badAnyCast
        | some supernode =>
          match E.getAuthorizeRtaTxRequestB64 req.data with
          | none => errorInvalidParams c.output l
          | some authReq =>
            match E.parseTx authReq.txHex with
            | none => errorInvalidTransaction c.output l authReq.txHex
            | some (tx, txHash) =>
              storeTx c req authReq supernode tx (E.hashToHex txHash)
where
  /-- The part after the transaction has been parsed. -/
  storeTx (c : Call E) (req : MulticastRequestJsonRpc) (authReq : AuthorizeRtaTxRequest)
      (supernode : Option (Supernode E.toCrypto)) (tx : E.Transaction) (txIdStr : String) :
      Handler E :=
    let l := c.ctxLocal
    .call (.hasKey (ContextKey.txByTxid.of txIdStr)) fun (processed : Bool) =>
    if processed then
      errorCustomError c.output l "tx already processed" ErrorCode.invalidParams
    else
      .call (.set (ContextKey.amountByTxId.of txIdStr) (.uint64 authReq.amount) rtaTxTtl) fun _ =>
      match Supernode.getAmountFromTx tx with
      | none =>
        errorCustomError c.output l "can't parse supernode fee for tx" ErrorCode.invalidParams
      | some amount =>
        match supernode with
        | none => fault .nullPointer
        | some supernode =>
          let verdict : AuthorizeRtaTxResponse :=
            { txId := txIdStr
              result :=
                if 0 < amount ∧ E.isRtaTx tx then rtaAuthResultApproved else rtaAuthResultRejected
              signature := ⟨"", "", ""⟩ }
          let authResponse := signAuthResponse c.unspecified verdict supernode
          .call (.set (ContextKey.txByTxid.of txIdStr) (.transaction tx) rtaTxTtl) fun _ =>
          .call
            (.set (ContextKey.paymentIdByTxid.of txIdStr) (.str authReq.paymentId) rtaTxTtl) fun _ =>
          let body := Body.multicast
            { method := "multicast"
              senderAddress := supernode.idKeyAsString
              receiverAddresses := req.receiverAddresses
              callbackUri := "/cryptonode/authorize_rta_tx_response"
              data := E.loadAuthorizeRtaTxResponseB64 authResponse }
          reply .forward { c.output.load body with path := "/json_rpc/rta" }
            (l.set "payment_id" (.str authReq.paymentId))

/-- `handleCryptonodeMulticastStatus`; the `catch` around its call answers "exception thrown". -/
def handleCryptonodeMulticastStatus (c : Call E) : Handler E :=
  let error : Handler E := errorInternalError c.output c.ctxLocal "Error multicasting request"
  match E.getMulticastResponse c.input with
  | none => error
  | some resp =>
    if resp.errorCode ≠ 0 ∨ resp.status ≠ 0 then error
    else
      match (c.ctxLocal.get "payment_id").toStr? with
      | none => errorInternalError c.output (c.ctxLocal.touch "payment_id") "exception thrown"
      | some _ => reply .ok (c.output.load (.resultJsonRpc 0)) c.ctxLocal

/-- `authorizeRtaTxRequestHandler` -/
def authorizeRtaTxRequestHandler (c : Call E) : Handler E :=
  let self := "authorizeRtaTxRequestHandler"
  let goOn (next : RtaAuthRequestHandlerState) : Call E :=
    { c with ctxLocal := c.ctxLocal.set self (.authRequestState next) }
  if c.ctxLocal.hasKey self = false then storeRequestAndReplyOk (goOn .clientRequestAgain)
  else
    match (c.ctxLocal.get self).toAuthRequestState? with
    | none => errorInternalError c.output c.ctxLocal "exception thrown"
    | some .clientRequest => storeRequestAndReplyOk (goOn .clientRequestAgain)
    | some .clientRequestAgain => handleTxAuthRequest (goOn .cryptonodeReply)
    | some .cryptonodeReply => handleCryptonodeMulticastStatus c

/-! ## The votes -/

/-- The `catch` of `handleRtaAuthResponseMulticast`; the exceptions of its `try` are
those of `std::any_cast`. -/
def exceptionInHandler (output : Output) (l : Local E) : Handler E :=
  errorInternalError output l
    ("exception in cryptonode/authorize_rta_tx_response handler: " ++ "bad any_cast")

section parts

variable (c : Call E) (supernode : Option (Supernode E.toCrypto)) (paymentId : String)
  (resp : AuthorizeRtaTxResponse)

/-- The transaction is rejected: the payment fails and the status is broadcast. -/
def rejectPayment : Handler E :=
  let l := c.ctxLocal.set "payment_id" (.str paymentId)
  .call
    (.set "handleRtaAuthResponseMulticast" (.authResponseState .statusBroadcastReply) 0) fun _ =>
  .call (.set (ContextKey.status.of paymentId) (.int RTAStatus.fail.toInt) rtaTxTtl) fun _ =>
  match supernode with
  | none => fault .nullPointer
  | some supernode =>
    reply .forward
      (buildBroadcastSaleStatusOutput c.unspecified paymentId RTAStatus.fail.toInt
        supernode c.output) l

/-- The transaction is approved: it is pushed to the pool. -/
def pushTx (authResult : RtaAuthResult) : Handler E :=
  let l := (c.ctxLocal.set "payment_id" (.str paymentId)).set contextTxId (.str resp.txId)
  .call (.get (ContextKey.txByTxid.of resp.txId) (.transaction E.noTransaction)) fun (v : Any E) =>
  match v.toTransaction? with
  | none => exceptionInHandler c.output l
  | some tx =>
    match supernode with
    | none => fault .nullPointer
    | some supernode =>
      let tx' := putRtaSignaturesToTx tx authResult.approved supernode.testnet
      reply .forward
        { c.output.load (.sendRawTx ⟨E.txToHex tx', false⟩) with path := "/sendrawtransaction" }
        (l.set "handleRtaAuthResponseMulticast" (.authResponseState .transactionPushReply))

/-- The votes are compared with the thresholds. -/
def countVotes (authResult : RtaAuthResult) : Handler E :=
  let l := c.ctxLocal.set "payment_id" (.str paymentId)
  .call (.hasKey (ContextKey.amountByTxId.of resp.txId)) fun (hasAmount : Bool) =>
  if hasAmount = false then
    errorCustomError c.output l ("no amount found for tx id: " ++ resp.txId) ErrorCode.internalError
  else
    .call (.get (ContextKey.amountByTxId.of resp.txId) (.uint64 0)) fun (v : Any E) =>
    match v.toUInt64? with
    | none => exceptionInHandler c.output l
    | some txAmount =>
      .call (.hasKey (ContextKey.txByTxid.of resp.txId)) fun (hasTx : Bool) =>
      if hasTx = false then
        errorCustomError c.output l
          ("rta auth response processed but no tx found for tx id: " ++ resp.txId)
          ErrorCode.internalError
      else if rtaVotesToReject ≤ authResult.rejected.length then
        rejectPayment c supernode paymentId
      else if rtaVotesToApprove E.coin txAmount ≤ authResult.approved.length then
        pushTx c supernode paymentId resp authResult
      else
        reply .ok (c.output.load (.resultJsonRpc 0)) l

/-- The vote is added to the votes that were read, unless its voter is among them. -/
def addVote (authResult : RtaAuthResult) : Handler E :=
  let id := resp.signature.idKey
  if authResult.alreadyApproved id || authResult.alreadyRejected id then
    errorCustomError c.output (c.ctxLocal.set "payment_id" (.str paymentId))
      ("supernode: " ++ id ++ " already processed") ErrorCode.addressInvalid
  else
    .call (.set (ContextKey.authResultByTxid.of resp.txId) (.authResult (authResult.push resp))
      rtaTxTtl)
      fun _ => countVotes c supernode paymentId resp (authResult.push resp)

/-- The stored votes are fetched. -/
def getVotes : Handler E :=
  .call (.get (ContextKey.authResultByTxid.of resp.txId) (.authResult .empty)) fun (v : Any E) =>
  match v.toAuthResult? with
  | none => exceptionInHandler c.output (c.ctxLocal.set "payment_id" (.str paymentId))
  | some authResult => addVote c supernode paymentId resp authResult

/-- The votes stored for the transaction are read, if there are any. -/
def readVotes : Handler E :=
  .call (.hasKey (ContextKey.authResultByTxid.of resp.txId)) fun (stored : Bool) =>
  if stored = false then addVote c supernode paymentId resp .empty
  else getVotes c supernode paymentId resp

/-- The transaction must be known and the signatures of the vote must verify. -/
def handleVote : Handler E :=
  .call (.hasKey (ContextKey.paymentIdByTxid.of resp.txId)) fun (known : Bool) =>
  if known = false then
    errorCustomError c.output c.ctxLocal ("unknown tx: " ++ resp.txId) ErrorCode.internalError
  else
    .call (.get (ContextKey.paymentIdByTxid.of resp.txId) (.str "")) fun (v : Any E) =>
    match v.toStr? with
    | none => exceptionInHandler c.output c.ctxLocal
    | some paymentId =>
      if validateAuthResponse c.unspecified resp then readVotes c supernode paymentId resp
      else
        errorCustomError c.output (c.ctxLocal.set "payment_id" (.str paymentId))
          "failed to validate signature for rta auth response" ErrorCode.rtaSignatureFailed

end parts

/-- `handleRtaAuthResponseMulticast` -/
def handleRtaAuthResponseMulticast (c : Call E) : Handler E :=
  match E.getMulticastRequest c.input with
  | none =>
    errorCustomError c.output c.ctxLocal ("failed to parse request: " ++ c.input)
      ErrorCode.invalidRequest
  | some req =>
    match E.getAuthorizeRtaTxResponseB64 req.data with
    | none => errorInvalidParams c.output c.ctxLocal
    | some resp =>
      .call (.get contextKeySupernode (.supernode none)) fun (v : Any E) =>
      match v.toSupernode? with
      | none => exceptionInHandler c.output c.ctxLocal
      | some supernode =>
        if resp.result ≠ rtaAuthResultApproved ∧ resp.result ≠ rtaAuthResultRejected then
          errorInvalidParams c.output c.ctxLocal
        else handleVote c supernode resp

/-! ## The replies of the cryptonode -/

/-- `handleCryptonodeTxPushResponse` -/
def handleCryptonodeTxPushResponse (c : Call E) : Handler E :=
  match (c.ctxLocal.get "payment_id").toStr? with
  | none => errorInternalError c.output (c.ctxLocal.touch "payment_id") "exception thrown"
  | some _ =>
    match (c.ctxLocal.get contextTxId).toStr? with
    | none => errorInternalError c.output (c.ctxLocal.touch contextTxId) "exception thrown"
    | some txId =>
      if txId = "" then fault .abort
      else
        .call (.get (ContextKey.paymentIdByTxid.of txId) (.str "")) fun (v : Any E) =>
        match v.toStr? with
        | none => errorInternalError c.output c.ctxLocal "exception thrown"
        | some paymentId => withStatus paymentId
where
  /-- The part after the payment id of the transaction is known. -/
  withStatus (paymentId : String) : Handler E :=
    .call (.get (ContextKey.status.of paymentId) (.int RTAStatus.none.toInt)) fun (v : Any E) =>
    match v.toInt? with
    | none => errorInternalError c.output c.ctxLocal "exception thrown"
    | some status =>
      if status = RTAStatus.none.toInt then errorInvalidParams c.output c.ctxLocal
      else
        match E.getSendRawTxResponse c.input with
        | none => errorInvalidParams c.output c.ctxLocal
        | some resp =>
          if status = RTAStatus.success.toInt ∨ status = RTAStatus.fail.toInt
              ∨ status = RTAStatus.rejectedByPOS.toInt
              ∨ status = RTAStatus.rejectedByWallet.toInt then
            sendOkResponseToCryptonode c.output c.ctxLocal
          else if resp.status ≠ "OK" ∧ resp.doubleSpend then
            sendOkResponseToCryptonode c.output c.ctxLocal
          else
            let newStatus :=
              if resp.status ≠ "OK" then RTAStatus.fail.toInt else RTAStatus.success.toInt
            .call (.get contextKeySupernode (.supernode none)) fun (v : Any E) =>
            match v.toSupernode? with
            | none => errorInternalError c.output c.ctxLocal "exception thrown"
            | some none => fault .nullPointer
            | some (some supernode) =>
              reply .forward
                (buildBroadcastSaleStatusOutput c.unspecified paymentId newStatus
                  supernode c.output)
                (c.ctxLocal.set "handleCryptonodeTxPushResponse"
                  (.authResponseState .statusBroadcastReply))

/-- `handleStatusBroadcastResponse` -/
def handleStatusBroadcastResponse (c : Call E) : Handler E :=
  match (c.ctxLocal.get "payment_id").toStr? with
  | none => errorInternalError c.output (c.ctxLocal.touch "payment_id") "exception thrown"
  | some _ =>
    match E.getBroadcastResponse c.input with
    | none =>
      errorCustomError c.output c.ctxLocal "Error broadcasting status" ErrorCode.internalError
    | some resp =>
      if resp.errorCode ≠ 0 ∨ resp.status ≠ 0 then
        errorCustomError c.output c.ctxLocal "Error broadcasting status" ErrorCode.internalError
      else reply .ok (c.output.load (.resultJsonRpc 0)) c.ctxLocal

/-- `authorizeRtaTxResponseHandler`; the `catch` around the calls answers "exception
thrown", which the two handlers of replies above already give. -/
def authorizeRtaTxResponseHandler (c : Call E) : Handler E :=
  let self := "authorizeRtaTxResponseHandler"
  let goOn (next : RtaAuthResponseHandlerState) : Call E :=
    { c with ctxLocal := c.ctxLocal.set self (.authResponseState next) }
  if c.ctxLocal.hasKey self = false then
    handleRtaAuthResponseMulticast (goOn .transactionPushReply)
  else
    match (c.ctxLocal.get self).toAuthResponseState? with
    | none => errorInternalError c.output c.ctxLocal "exception thrown"
    | some .rtaAuthReply => handleRtaAuthResponseMulticast (goOn .transactionPushReply)
    | some .transactionPushReply => handleCryptonodeTxPushResponse (goOn .statusBroadcastReply)
    | some .statusBroadcastReply => handleStatusBroadcastResponse c

end Handler

end Request
