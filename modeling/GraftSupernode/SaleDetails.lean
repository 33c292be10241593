/-
# The details of a sale

The handlers of `sale_details.cpp`, the generic callback of `server.cpp`, and the two
handlers that tell the status of a payment.

A client asks for the details of a sale.  A supernode that has none asks a supernode of the
auth sample for them (`requestRemote`) and waits, `Postpone`d, for a callback: a request to
`/cryptonode/callback/sale_details/{id}`, where `id` is the text of the id of the waiting
task.  `saleDetailsCallbackHandler` stores the body of the callback under the `id` of its path
and names the task that goes on; `handleSaleDetailsResponse` of that task looks for the body
under the text of its own id.
-/
import GraftSupernode.Binary64
import GraftSupernode.HandlerOps

open AtomicProgram GlobalContext

namespace Request

/-! ## The code these handlers call -/

/-- `boost::uuids`, and the readers and writers of the messages about the details of a sale. -/
structure DetailsExternals extends Externals where
  Uuid : Type
  /-- `boost::uuids::string_generator`: `none` when it throws. -/
  stringToUuid : String → Option Uuid
  /-- `boost::uuids::to_string` -/
  uuidToString : Uuid → String
  getSaleDetailsRequest : String → Option SaleDetailsRequest
  /-- `SaleStatusRequest` and `PayStatusRequest`: the payment id. -/
  getStatusRequest : String → Option String
  getUnicastRequest : String → Option UnicastRequestJsonRpc
  getUnicastResponse : String → Option ResponseFromCryptonode
  getSaleDetailsRequestB64 : String → Option SaleDetailsRequest
  getSaleDetailsResponseB64 : String → Option SaleDetailsResponse
  loadSaleDetailsRequestB64 : SaleDetailsRequest → String
  loadSaleDetailsResponseB64 : SaleDetailsResponse → String
  /-- `Supernode::walletAddress` of the supernode with an id. -/
  walletAddress : String → String

variable {D : DetailsExternals}

/-- The arguments of a handler call: besides those of `Call` the id of the task, the status of
its last call, the `id` of the path and the numbers that `utils::random_number` gives. -/
structure DetailsCall (D : DetailsExternals) extends Call D.toExternals where
  id : D.Uuid
  lastStatus : StateMachine.Status
  vars : Option String
  randomNumber : ℕ → ℕ → ℕ

/-- What a handler that may call `setNextTaskId` returns: the reply, and the task named. -/
abbrev Returned (D : DetailsExternals) : Type :=
  Except Fault (Reply D.toExternals × Option D.Uuid)

/-- A handler that may call `setNextTaskId`. -/
abbrev CallbackHandler (D : DetailsExternals) : Type :=
  Prog (StoreOp (Any D.toExternals)) StoreOp.Reply (Returned D)

/-- `AUTHSAMPLE_FEE_PERCENTAGE`, 0.5 -/
def authSampleFeePercentage : Binary64 := ⟨1, -1, by decide⟩

/-- `std::round(Amount * AUTHSAMPLE_FEE_PERCENTAGE / 100.0)` -/
def totalFee (amount : ℕ) : ℕ :=
  ((Binary64.round amount 0).mul authSampleFeePercentage).divNat 100 |>.roundAway

example : totalFee 1000 = 5 ∧ totalFee 1100 = 6 ∧ totalFee 301 = 2 := by decide +kernel

/-- `static_cast<int>` of a status of a task. -/
def statusToInt : StateMachine.Status → ℕ
  | .none => 0
  | .ok => 1
  | .forward => 2
  | .again => 3
  | .error => 4
  | .drop => 5
  | .busy => 6
  | .internalError => 7
  | .postpone => 8
  | .stop => 9

/-- `errorFinishedPayment`: the output when the payment neither waits nor is in progress. -/
def errorFinishedPayment (status : ℤ) (output : Output) : Option Output :=
  if status ≠ RTAStatus.waiting.toInt ∧ status ≠ RTAStatus.inProgress.toInt then
    if status = RTAStatus.success.toInt then
      some (output.load (.bareJsonRpcError ErrorCode.rtaCompleted "Payment is already completed."))
    else some (output.load (.bareJsonRpcError ErrorCode.rtaFailed "Payment is already failed."))
  else none

namespace Handler

/-- A handler that does not call `setNextTaskId`. -/
def noNextTask (p : Handler D.toExternals) : CallbackHandler D :=
  p.map fun r => r.map fun reply => (reply, none)

/-! ## The status of a payment -/

/-- What `saleStatusHandler` and `payStatusHandler` share. -/
def statusHandler (c : DetailsCall D) : Handler D.toExternals :=
  match D.getStatusRequest c.input with
  | none => errorInvalidParams c.output c.ctxLocal
  | some paymentId =>
    .call (.get (ContextKey.status.of paymentId) (.int RTAStatus.none.toInt))
      fun (v : Any D.toExternals) =>
    match v.toInt? with
    | none => fault .badAnyCast
    | some currentStatus =>
      if paymentId = "" ∨ currentStatus = 0 then errorInvalidPaymentID c.output c.ctxLocal
      else reply .ok (c.output.load (.statusResponse currentStatus)) c.ctxLocal

/-- `saleStatusHandler` -/
def saleStatusHandler : DetailsCall D → Handler D.toExternals := statusHandler

/-- `payStatusHandler` -/
def payStatusHandler : DetailsCall D → Handler D.toExternals := statusHandler

/-- `handleClientPayRequest`, which is disabled. -/
def handleClientPayRequest (c : DetailsCall D) : Handler D.toExternals :=
  errorInternalError c.output c.ctxLocal "Not implemented"

/-- `payClientHandler`: `handleClientPayRequest` answers at once, so that the states after the first
are never reached. -/
def payClientHandler (c : DetailsCall D) : Handler D.toExternals :=
  handleClientPayRequest
    { c with ctxLocal := c.ctxLocal.set "PayClientHandlerState" (.payState .txAuthReply) }

/-! ## The request of a client -/

/-- `prepareSaleDetailsResponse`; `failed` goes on with its error, `prepared` with its response. -/
def prepareSaleDetailsResponse (D : DetailsExternals) (paymentId : String)
    (authSample : List String) (failed : ℤ → String → Handler D.toExternals)
    (prepared : SaleDetailsResponse → Handler D.toExternals) : Handler D.toExternals :=
  .call (.hasKey (ContextKey.sale.of paymentId)) fun (known : Bool) =>
  if known = false then
    failed ErrorCode.paymentIdInvalid ("sale data missing for payment: " ++ paymentId)
  else
    .call (.get (ContextKey.saleDetails.of paymentId) (.str "")) fun (v : Any D.toExternals) =>
    match v.toStr? with
    | none => fault .badAnyCast
    | some details =>
      .call (.get (ContextKey.sale.of paymentId) (.saleData ⟨"", 0, 0⟩))
        fun (v : Any D.toExternals) =>
      match v.toSaleData? with
      | none => fault .badAnyCast
      | some saleData =>
        let fee := toString (totalFee saleData.amount / authSample.length)
        prepared
          { authSample := authSample.map fun idKey => ⟨D.walletAddress idKey, idKey, fee⟩
            details := details }

/-- `handleClientRequest` -/
def handleClientRequest (c : DetailsCall D) : Handler D.toExternals :=
  match D.getSaleDetailsRequest c.input with
  | none => errorInvalidParams c.output c.ctxLocal
  | some req =>
    if req.paymentId = "" then errorInvalidPaymentID c.output c.ctxLocal
    else
      .call (.get (ContextKey.status.of req.paymentId) (.int RTAStatus.none.toInt))
        fun (v : Any D.toExternals) =>
      match v.toInt? with
      | none => fault .badAnyCast
      | some currentStatus =>
        match errorFinishedPayment currentStatus c.output with
        | some output => reply .error output c.ctxLocal
        | none =>
          .call (.hasKey (ContextKey.saleDetailsResult.of req.paymentId)) fun (cached : Bool) =>
          if cached then readCached req.paymentId else requestDetails req
where
  /-- The response that has been cached. -/
  readCached (paymentId : String) : Handler D.toExternals :=
    .call (.get (ContextKey.saleDetailsResult.of paymentId) (.saleDetailsResponse ⟨[], ""⟩))
      fun (v : Any D.toExternals) =>
    match v.toSaleDetailsResponse? with
    | none => fault .badAnyCast
    | some sdr => reply .ok (c.output.load (.saleDetailsResponse sdr)) c.ctxLocal
  /-- The part after no response has been found in the cache. -/
  requestDetails (req : SaleDetailsRequest) : Handler D.toExternals :=
    .call (.get contextKeyFullSupernodeList (.fsl none)) fun (v : Any D.toExternals) =>
    match v.toFsl? with
    | none => fault .badAnyCast
    | some fsl =>
      .call (.get contextKeySupernode (.supernode none)) fun (v : Any D.toExternals) =>
      match v.toSupernode? with
      | none => fault .badAnyCast
      | some supernode =>
        match fsl with
        | none => fault .nullPointer
        | some fsl =>
          match fsl.buildAuthSample req.blockNumber req.paymentId with
          | none => errorInternalError c.output c.ctxLocal "Can't build auth sample."
          | some authSample =>
            .call (.hasKey (ContextKey.saleDetails.of req.paymentId)) fun (haveLocally : Bool) =>
            if haveLocally then
              prepareSaleDetailsResponse D req.paymentId authSample
                (fun code message =>
                  reply .error (c.output.load (.bareJsonRpcError code message)) c.ctxLocal)
                (fun sdr => reply .ok (c.output.load (.saleDetailsResponse sdr)) c.ctxLocal)
            else
              match supernode with
              | none => fault .nullPointer
              | some supernode => requestRemote req supernode authSample
  /-- The details are asked of a member of the auth sample. -/
  requestRemote (req : SaleDetailsRequest) (supernode : Supernode D.toCrypto)
      (authSample : List String) : Handler D.toExternals :=
    if supernode.idKeyAsString ∈ authSample then
      errorCustomError c.output c.ctxLocal
        ("Internal error: our supernode is in auth sample but no sale details found for "
          ++ req.paymentId ++ ", auth_sample: " ++ ", ".intercalate authSample)
        ErrorCode.internalError
    else
      let callbackUri := "/cryptonode/callback/sale_details/" ++ D.uuidToString c.id
      match authSample[c.randomNumber 0 (authSample.length - 1)]? with
      | none => fault .outOfRange
      | some receiver =>
        let body := Body.unicast
          { method := "unicast"
            senderAddress := supernode.idKeyAsString
            receiverAddress := receiver
            callbackUri := "/cryptonode/sale_details/"
            data := D.loadSaleDetailsRequestB64 { req with callbackUri := callbackUri }
            waitAnswer := true }
        reply .forward { c.output.load body with path := "/json_rpc/rta" }
          (c.ctxLocal.set "payment_id" (.str req.paymentId))

/-- `handleUnicastAcknowledge` -/
def handleUnicastAcknowledge (c : DetailsCall D) : Handler D.toExternals :=
  let error : Handler D.toExternals :=
    errorInternalError c.output c.ctxLocal "Error unicasting request"
  match D.getUnicastResponse c.input with
  | none => error
  | some resp =>
    if resp.errorCode ≠ 0 ∨ resp.status ≠ 0 then error
    else reply .postpone c.output c.ctxLocal

section response

variable (c : DetailsCall D)

/-- The details have been read: they are cached and the body of the callback is removed. -/
def cacheResponse (paymentId : String) (sdr : SaleDetailsResponse) : Handler D.toExternals :=
  .call (.set (ContextKey.saleDetailsResult.of paymentId) (.saleDetailsResponse sdr) rtaTxTtl)
    fun _ =>
  .call (.remove (ContextKey.saleDetailsResult.of (D.uuidToString c.id))) fun _ =>
  reply .ok (c.output.load (.saleDetailsResponse sdr)) c.ctxLocal

/-- The body of the callback is checked. -/
def checkResponse (body : String) : Handler D.toExternals :=
  match D.getUnicastRequest body with
  | none => errorInternalError c.output c.ctxLocal "Failed to parse response"
  | some req =>
    .call (.get contextKeySupernode (.supernode none)) fun (v : Any D.toExternals) =>
    match v.toSupernode? with
    | none => fault .badAnyCast
    | some supernode =>
      match (c.ctxLocal.get "payment_id").toStr? with
      | none => fault .badAnyCast
      | some paymentId =>
        match supernode with
        | none => fault .nullPointer
        | some supernode =>
          if req.receiverAddress ≠ supernode.idKeyAsString then
            errorInternalError c.output c.ctxLocal
              ("wrong receiver id: " ++ req.receiverAddress ++ ", expected id: "
                ++ supernode.idKeyAsString)
          else
            match D.getSaleDetailsResponseB64 req.data with
            | none => errorInvalidParams c.output c.ctxLocal
            | some sdr => cacheResponse c paymentId sdr

/-- The body of the callback is read. -/
def readResponse : Handler D.toExternals :=
  .call (.get (ContextKey.saleDetailsResult.of (D.uuidToString c.id)) (.str ""))
    fun (v : Any D.toExternals) =>
  match v.toStr? with
  | none => fault .badAnyCast
  | some body => checkResponse c body

/-- The body of the callback is looked for. -/
def findResponse : Handler D.toExternals :=
  .call (.hasKey (ContextKey.saleDetailsResult.of (D.uuidToString c.id))) fun (found : Bool) =>
  if found = false then
    errorInternalError c.output c.ctxLocal
      ("no sale details response found for id: " ++ D.uuidToString c.id)
  else readResponse c

/-- `handleSaleDetailsResponse` -/
def handleSaleDetailsResponse : Handler D.toExternals :=
  if c.lastStatus ≠ .postpone then
    errorInternalError c.output c.ctxLocal
      ("Expected postponed status but status is : " ++ toString (statusToInt c.lastStatus))
  else findResponse c

end response

/-- `saleDetailsClientHandler` -/
def saleDetailsClientHandler (c : DetailsCall D) : Handler D.toExternals :=
  let self := "saleDetailsClientHandler"
  let goOn (next : SaleDetailsClientState) : DetailsCall D :=
    { c with ctxLocal := c.ctxLocal.set self (.saleDetailsClientState next) }
  if c.ctxLocal.hasKey self = false then handleClientRequest (goOn .unicastAcknowledge)
  else
    match (c.ctxLocal.get self).toSaleDetailsClientState? with
    | none => fault .badAnyCast
    | some .clientRequest => handleClientRequest (goOn .unicastAcknowledge)
    | some .unicastAcknowledge => handleUnicastAcknowledge (goOn .callbackFromAuthSample)
    | some .callbackFromAuthSample => handleSaleDetailsResponse c

/-! ## The request of another supernode -/

/-- `handleSaleDetailsUnicastRequest` -/
def handleSaleDetailsUnicastRequest (c : DetailsCall D) : Handler D.toExternals :=
  match D.getUnicastRequest c.input with
  | none => sendOkResponseToCryptonode c.output c.ctxLocal
  | some req =>
    .call (.get contextKeySupernode (.supernode none)) fun (v : Any D.toExternals) =>
    match v.toSupernode? with
    | none => fault .badAnyCast
    | some none => fault .nullPointer
    | some (some supernode) =>
      if req.receiverAddress ≠ supernode.idKeyAsString then
        sendOkResponseToCryptonode c.output c.ctxLocal
      else
        match D.getSaleDetailsRequestB64 req.data with
        | none => sendOkResponseToCryptonode c.output c.ctxLocal
        | some sdr =>
          .call (.get contextKeyFullSupernodeList (.fsl none)) fun (v : Any D.toExternals) =>
          match v.toFsl? with
          | none => fault .badAnyCast
          | some none => fault .nullPointer
          | some (some fsl) =>
            match fsl.buildAuthSample sdr.blockNumber sdr.paymentId with
            | none => sendOkResponseToCryptonode c.output c.ctxLocal
            | some authSample =>
              .call (.hasKey (ContextKey.saleDetails.of sdr.paymentId)) fun (found : Bool) =>
              if found then
                prepareSaleDetailsResponse D sdr.paymentId authSample
                  (fun _ _ => sendOkResponseToCryptonode c.output c.ctxLocal)
                  (sendCallback supernode req.senderAddress sdr.callbackUri)
              else sendOkResponseToCryptonode c.output c.ctxLocal
where
  /-- The response goes to the supernode that has asked. -/
  sendCallback (supernode : Supernode D.toCrypto) (sender callbackUri : String)
      (resp : SaleDetailsResponse) : Handler D.toExternals :=
    let body := Body.unicast
      { method := "unicast"
        senderAddress := supernode.idKeyAsString
        receiverAddress := sender
        callbackUri := callbackUri
        data := D.loadSaleDetailsResponseB64 resp
        waitAnswer := true }
    reply .forward { c.output.load body with path := "/json_rpc/rta" } c.ctxLocal

/-- `saleDetailsUnicastHandler` -/
def saleDetailsUnicastHandler (c : DetailsCall D) : Handler D.toExternals :=
  let self := "saleDetailsUnicastHandler"
  let goOn (next : SaleDetailsUnicastState) : DetailsCall D :=
    { c with ctxLocal := c.ctxLocal.set self (.saleDetailsUnicastState next) }
  let sendOk : Handler D.toExternals :=
    sendOkResponseToCryptonode c.output (goOn .callbackAcknowledge).ctxLocal
  if c.ctxLocal.hasKey self = false then
    handleSaleDetailsUnicastRequest (goOn .callbackToClient)
  else
    match (c.ctxLocal.get self).toSaleDetailsUnicastState? with
    | none => fault .badAnyCast
    | some .clientRequest => handleSaleDetailsUnicastRequest (goOn .callbackToClient)
    | some .callbackToClient => sendOk
    | some .callbackAcknowledge => sendOk

/-! ## Callbacks -/

/-- `saleDetailsCallbackHandler` -/
def saleDetailsCallbackHandler (c : DetailsCall D) : CallbackHandler D :=
  match c.vars with
  | none =>
    noNextTask (errorInternalError c.output c.ctxLocal "Can't parse request id from URL")
  | some id =>
    match D.stringToUuid id with
    | none => .ret (.error .invalidUuid)
    | some uuid =>
      .call (.set (ContextKey.saleDetailsResult.of id) (.str c.input) rtaTxTtl) fun _ =>
      .ret (.ok (⟨.ok, c.output, c.ctxLocal⟩, some uuid))

/-- `genericCallback` of `GraftServer::addGenericCallbackRoute` -/
def genericCallback (c : DetailsCall D) : CallbackHandler D :=
  match c.vars with
  | none =>
    noNextTask (reply .error (c.output.load (.text "Cannot find callback UUID")) c.ctxLocal)
  | some id =>
    match D.stringToUuid id with
    | none => .ret (.error .invalidUuid)
    | some uuid => .ret (.ok (⟨.ok, c.output, c.ctxLocal⟩, some uuid))

end Handler

end Request
