/-
# Sales and the status of a payment

The handlers of `sale.cpp`, `sale_status.cpp`, `reject_sale.cpp` and `reject_pay.cpp`
that write the status of a payment.  `saleClientHandler` is called three times for one
request, with a state it keeps in the local context; the others are called once.  An
exception that a handler does not catch is its `Fault`.
-/
import GraftSupernode.RequestDefines

open AtomicProgram GlobalContext

namespace Request

variable {E : Externals}

/-- `SALE_TTL` -/
def saleTtl : ℕ := 60

/-- `FullSupernodeList::AUTH_SAMPLE_SIZE` -/
def authSampleSize : ℕ := 8

/-- `checkSaleStatusUpdateSignature` -/
def checkSaleStatusUpdateSignature (E : Externals) (paymentId : String) (status : ℤ)
    (idKey signature : String) : Bool :=
  match E.hexToSignature signature with
  | none => false
  | some sign =>
    match E.hexToPublicKey idKey with
    | none => false
    | some key =>
      Supernode.verifySignature E.toCrypto (paymentId ++ ":" ++ toString status) key sign

namespace Handler

/-! ## The request of a point of sale -/

/-- `handleClientSaleRequest`; `generated` is what `generatePaymentID` returns. -/
def handleClientSaleRequest (c : Call E) (generated : String) : Handler E :=
  match E.getSaleRequest c.input with
  | none => errorInvalidParams c.output c.ctxLocal
  | some req =>
    if req.amount = 0 then errorInvalidAmount c.output c.ctxLocal
    else
      .call (.get "testnet" .empty) fun (v : Any E) =>
      match v.toBool? with
      | none => fault .badAnyCast
      | some _ =>
        let paymentId := if req.paymentId = "" then generated else req.paymentId
        .call (.get contextKeySupernode (.supernode none)) fun (v : Any E) =>
        match v.toSupernode? with
        | none => fault .badAnyCast
        | some _ =>
          .call (.get contextKeyFullSupernodeList (.fsl none)) fun (v : Any E) =>
          match v.toFsl? with
          | none => fault .badAnyCast
          | some none => fault .nullPointer
          | some (some fsl) =>
            if req.saleDetails ≠ "" then
              .call
                (.set (ContextKey.saleDetails.of paymentId) (.str req.saleDetails) saleTtl) fun _ =>
              storeSale req fsl paymentId
            else storeSale req fsl paymentId
where
  /-- The part after the details of the sale are stored. -/
  storeSale (req : SaleRequest) (fsl : SampleSource) (paymentId : String) : Handler E :=
    let data : SaleData :=
      { address := req.idKey
        blockNumber := fsl.getBlockchainBasedListMaxBlockNumber
        amount := req.amount }
    match fsl.buildAuthSample data.blockNumber paymentId with
    | none => cantBuildAuthSample
    | some authSample =>
      if authSample.length ≠ authSampleSize then cantBuildAuthSample
      else
        .call (.set (ContextKey.sale.of paymentId) (.saleData data) saleTtl) fun _ =>
        .call
          (.set (ContextKey.status.of paymentId) (.int RTAStatus.waiting.toInt) saleTtl) fun _ =>
        let l := (c.ctxLocal.set "sale_data" (.saleData data)).set "payment_id" (.str paymentId)
        let sdm : SaleDataMulticast :=
          { saleData := data
            paymentId := paymentId
            status := RTAStatus.waiting.toInt
            details := req.saleDetails }
        let body := Body.multicast
          { method := "multicast"
            senderAddress := ""
            receiverAddresses := authSample
            callbackUri := "/cryptonode/sale"
            data := E.loadSaleDataMulticastB64 sdm }
        reply .forward { c.output.load body with path := "/json_rpc/rta" } l
  cantBuildAuthSample : Handler E :=
    errorCustomError c.output c.ctxLocal "Can't build auth sample." ErrorCode.invalidParams

/-- `handleSaleMulticastReply` -/
def handleSaleMulticastReply (c : Call E) : Handler E :=
  let error : Handler E :=
    errorCustomError c.output c.ctxLocal "Error multicasting request" ErrorCode.internalError
  match E.getMulticastResponse c.input with
  | none => error
  | some resp =>
    if resp.errorCode ≠ 0 ∨ resp.status ≠ 0 then error
    else
      .call (.get contextKeySupernode (.supernode none)) fun (v : Any E) =>
      match v.toSupernode? with
      | none => fault .badAnyCast
      | some supernode =>
        match (c.ctxLocal.get "payment_id").toStr? with
        | none => fault .badAnyCast
        | some paymentId =>
          .call (.get (ContextKey.status.of paymentId) (.int RTAStatus.waiting.toInt))
            fun (v : Any E) =>
          match v.toInt? with
          | none => fault .badAnyCast
          | some status =>
            match supernode with
            | none => fault .nullPointer
            | some supernode =>
              reply .forward
                (buildBroadcastSaleStatusOutput c.unspecified paymentId status supernode c.output)
                c.ctxLocal

/-- `handleSaleStatusBroadcastReply` -/
def handleSaleStatusBroadcastReply (c : Call E) : Handler E :=
  let error : Handler E :=
    errorCustomError c.output c.ctxLocal "Error broadcasting request" ErrorCode.internalError
  match E.getBroadcastResponse c.input with
  | none => error
  | some resp =>
    if resp.errorCode ≠ 0 ∨ resp.status ≠ 0 then error
    else
      match (c.ctxLocal.get "sale_data").toSaleData? with
      | none => fault .badAnyCast
      | some data =>
        match (c.ctxLocal.get "payment_id").toStr? with
        | none => fault .badAnyCast
        | some paymentId =>
          reply .ok (c.output.load (.saleResponse data.blockNumber paymentId)) c.ctxLocal

/-- `saleClientHandler` -/
def saleClientHandler (c : Call E) (generated : String) : Handler E :=
  let self := "saleClientHandler"
  let goOn (next : SaleHandlerState) : Call E :=
    { c with ctxLocal := c.ctxLocal.set self (.saleState next) }
  if c.ctxLocal.hasKey self = false then
    handleClientSaleRequest (goOn .saleMulticastReply) generated
  else
    match (c.ctxLocal.get self).toSaleState? with
    | none => fault .badAnyCast
    | some .clientRequest => handleClientSaleRequest (goOn .saleMulticastReply) generated
    | some .saleMulticastReply => handleSaleMulticastReply (goOn .saleStatusReply)
    | some .saleStatusReply => handleSaleStatusBroadcastReply c

/-! ## The sale that is multicast -/

/-- `saleCryptonodeHandler` -/
def saleCryptonodeHandler (c : Call E) : Handler E :=
  match E.getMulticastRequest c.input with
  | none => errorInvalidParams c.output c.ctxLocal
  | some req =>
    match E.getSaleDataMulticastB64 req.data with
    | none => errorInvalidParams c.output c.ctxLocal
    | some sdm =>
      .call (.hasKey (ContextKey.sale.of sdm.paymentId)) fun (known : Bool) =>
      if known = false then
        .call (.set (ContextKey.sale.of sdm.paymentId) (.saleData sdm.saleData) 0) fun _ =>
        .call (.set (ContextKey.status.of sdm.paymentId) (.int sdm.status) 0) fun _ =>
        .call (.set (ContextKey.saleDetails.of sdm.paymentId) (.str sdm.details) 0) fun _ =>
        reply .ok (c.output.load (.statusJsonRpc "OK")) c.ctxLocal
      else reply .ok (c.output.load (.statusJsonRpc "OK")) c.ctxLocal

/-! ## Updates of the status -/

section update

variable (c : Call E) (ussb : UpdateSaleStatusBroadcast)

/-- The status is replaced. -/
def storeStatus : Handler E :=
  .call (.set (ContextKey.status.of ussb.paymentId) (.int ussb.status) rtaTxTtl) fun _ =>
  reply .ok (c.output.load (.statusJsonRpc "OK")) c.ctxLocal

/-- The status is replaced unless the one that has been read is finite. -/
def decideStatus (v : Any E) : Handler E :=
  match v.toInt? with
  | none => fault .badAnyCast
  | some currentStatus =>
    if isFiniteRtaStatus currentStatus = false then storeStatus c ussb
    else reply .ok (c.output.load (.statusJsonRpc "OK")) c.ctxLocal

/-- The status is read, and replaced unless it is finite. -/
def checkStatus : Handler E :=
  .call (.get (ContextKey.status.of ussb.paymentId) (.int RTAStatus.none.toInt))
    (decideStatus c ussb)

end update

/-- `updateSaleStatusHandler`.  The signature is checked by a method of the supernode that reads
nothing of it, so that it does not matter here whether the pointer is null. -/
def updateSaleStatusHandler (c : Call E) : Handler E :=
  match E.getBroadcastRequest c.input with
  | none => errorInvalidParams c.output c.ctxLocal
  | some req =>
    match E.getUpdateSaleStatusBroadcastB64 req.data with
    | none => errorInvalidParams c.output c.ctxLocal
    | some ussb =>
      .call (.get contextKeySupernode (.supernode none)) fun (v : Any E) =>
      match v.toSupernode? with
      | none => fault .badAnyCast
      | some _ =>
        if checkSaleStatusUpdateSignature E ussb.paymentId ussb.status ussb.idKey
            ussb.signature then
          checkStatus c ussb
        else
          errorCustomError c.output c.ctxLocal
            ("status update: failed to validate signature for payment: " ++ ussb.paymentId)
            ErrorCode.rtaSignatureFailed

/-! ## Rejections -/

/-- What `rejectSaleHandler` and `rejectPayHandler` share: `status` is the status of a payment
that is rejected. -/
def rejectHandler (status : RTAStatus) (c : Call E) : Handler E :=
  match E.getRejectRequest c.input with
  | none => fault .jsonParseError
  | some paymentId =>
    .call (.get (ContextKey.status.of paymentId) (.int RTAStatus.none.toInt)) fun (v : Any E) =>
    match v.toInt? with
    | none => fault .badAnyCast
    | some currentStatus =>
      if paymentId = "" ∨ currentStatus = 0 then errorInvalidPaymentID c.output c.ctxLocal
      else
        .call (.set (ContextKey.status.of paymentId) (.int status.toInt) 0) fun _ =>
        reply .ok (c.output.load (.result 0)) c.ctxLocal

/-- `rejectSaleHandler` -/
def rejectSaleHandler : Call E → Handler E := rejectHandler .rejectedByPOS

/-- `rejectPayHandler` -/
def rejectPayHandler : Call E → Handler E := rejectHandler .rejectedByWallet

end Handler

end Request
