/-
# What the request handlers share

`requestdefines.h` and `requestdefines.cpp`: the error replies, the keys of the
global context, the statuses of a payment; and the messages the handlers read and
write.  A message is the record of its fields.  Reading and writing JSON, parsing a
transaction and the amount a transaction pays are code outside the repository, or
parameters of the results: they are the fields of `Externals`.

A handler is a program of operations on the global context (`Handler`): it returns
a status, its output and its local context, or it ends in a `Fault`.
-/
import GraftSupernode.GlobalContext
import GraftSupernode.StateMachine
import GraftSupernode.Supernode

open AtomicProgram GlobalContext

namespace Request

/-! ## Messages -/

/-- `MulticastRequest`, under the method of its JSON-RPC request. -/
structure MulticastRequestJsonRpc where
  method : String
  senderAddress : String
  receiverAddresses : List String
  callbackUri : String
  data : String
  deriving DecidableEq

/-- `BroadcastRequest`, under the method of its JSON-RPC request. -/
structure BroadcastRequestJsonRpc where
  method : String
  senderAddress : String
  callbackUri : String
  data : String
  deriving DecidableEq

/-- `MulticastResponseFromCryptonodeJsonRpc` and `BroadcastResponseFromCryptonodeJsonRpc`:
the code of the error and the status of the result. -/
structure ResponseFromCryptonode where
  errorCode : ℤ
  status : ℤ

structure AuthorizeRtaTxRequest where
  txHex : String
  paymentId : String
  amount : ℕ

structure SupernodeSignature where
  idKey : String
  /-- signature for tx_id + result -/
  resultSignature : String
  /-- signature for tx_id only -/
  txSignature : String
  deriving DecidableEq

structure AuthorizeRtaTxResponse where
  txId : String
  result : ℤ
  signature : SupernodeSignature
  deriving DecidableEq

structure SendRawTxRequest where
  txAsHex : String
  doNotRelay : Bool
  deriving DecidableEq

/-- `SendRawTxResponse`: the fields the handlers read. -/
structure SendRawTxResponse where
  status : String
  doubleSpend : Bool

structure SaleData where
  address : String
  blockNumber : ℕ
  amount : ℕ
  deriving DecidableEq

structure SaleDataMulticast where
  saleData : SaleData
  paymentId : String
  status : ℤ
  details : String

structure SaleRequest where
  idKey : String
  saleDetails : String
  paymentId : String
  amount : ℕ

structure UpdateSaleStatusBroadcast where
  paymentId : String
  status : ℤ
  idKey : String
  signature : String

/-- `UnicastRequest`, under the method of its JSON-RPC request. -/
structure UnicastRequestJsonRpc where
  method : String
  senderAddress : String
  receiverAddress : String
  callbackUri : String
  data : String
  waitAnswer : Bool
  deriving DecidableEq

structure SaleDetailsRequest where
  paymentId : String
  blockNumber : ℕ
  callbackUri : String

/-- The fee of one supernode. -/
structure SupernodeFee where
  address : String
  idKey : String
  fee : String
  deriving DecidableEq

structure SaleDetailsResponse where
  authSample : List SupernodeFee
  details : String
  deriving DecidableEq

/-! ## The code the handlers call -/

/-- The cryptonote functions, the serializers and the parameters of the handlers.  A
reader gives `none` for an input that it cannot parse. -/
structure Externals extends Crypto where
  Transaction : Type
  /-- `cryptonote::transaction()` -/
  noTransaction : Transaction
  /-- `parse_hexstr_to_binbuff` and `parse_and_validate_tx_from_blob` -/
  parseTx : String → Option (Transaction × Hash)
  /-- The reader for `tx.type == tx_type_rta`. -/
  isRtaTx : Transaction → Bool
  /-- The hex form `createSendRawTxRequest` writes. -/
  txToHex : Transaction → String
  /-- `COIN` -/
  coin : ℕ
  getMulticastRequest : String → Option MulticastRequestJsonRpc
  getBroadcastRequest : String → Option BroadcastRequestJsonRpc
  getMulticastResponse : String → Option ResponseFromCryptonode
  getBroadcastResponse : String → Option ResponseFromCryptonode
  getSendRawTxResponse : String → Option SendRawTxResponse
  getSaleRequest : String → Option SaleRequest
  /-- `RejectSaleRequest` and `RejectPayRequest`: the payment id. -/
  getRejectRequest : String → Option String
  getAuthorizeRtaTxRequestB64 : String → Option AuthorizeRtaTxRequest
  getAuthorizeRtaTxResponseB64 : String → Option AuthorizeRtaTxResponse
  getSaleDataMulticastB64 : String → Option SaleDataMulticast
  getUpdateSaleStatusBroadcastB64 : String → Option UpdateSaleStatusBroadcast
  loadAuthorizeRtaTxResponseB64 : AuthorizeRtaTxResponse → String
  loadSaleDataMulticastB64 : SaleDataMulticast → String
  loadUpdateSaleStatusBroadcastB64 : UpdateSaleStatusBroadcast → String

/-- What the sale handler asks of the list of all supernodes: the ids of the sample
built for a height and a payment id. -/
structure SampleSource where
  getBlockchainBasedListMaxBlockNumber : ℕ
  buildAuthSample : ℕ → String → Option (List String)

/-! ## Statuses -/

/-- `RTAStatus`; a status travels as an `int`, which need not be one of these. -/
inductive RTAStatus
  | none
  | waiting
  | inProgress
  | success
  | fail
  | rejectedByWallet
  | rejectedByPOS
  deriving DecidableEq

/-- `static_cast<int>` of a status. -/
def RTAStatus.toInt : RTAStatus → ℤ
  | none => 0
  | waiting => 1
  | inProgress => 2
  | success => 3
  | fail => 4
  | rejectedByWallet => 5
  | rejectedByPOS => 6

/-- `isFiniteRtaStatus`, on the status as an `int`. -/
def isFiniteRtaStatus (status : ℤ) : Bool :=
  !(status == RTAStatus.none.toInt || status == RTAStatus.inProgress.toInt
    || status == RTAStatus.waiting.toInt)

/-- `RTAAuthResult::Approved` -/
def rtaAuthResultApproved : ℤ := 0

/-- `RTAAuthResult::Rejected` -/
def rtaAuthResultRejected : ℤ := 1

/-! ## Keys of the global context -/

/-- The constants `CONTEXT_KEY_…` that are put behind a payment id or a tx id, and
`CONTEXT_SALE_DETAILS_RESULT`, which is put behind a payment id or a task id. -/
inductive ContextKey
  | saleDetails
  | sale
  | status
  | authResultByTxid
  | paymentIdByTxid
  | txByTxid
  | amountByTxId
  | saleDetailsResult
  deriving DecidableEq

namespace ContextKey

def suffix : ContextKey → String
  | saleDetails => ":saledetails"
  | sale => ":sale"
  | status => ":status"
  | authResultByTxid => ":tx_id_to_auth_resp"
  | paymentIdByTxid => ":tx_id_to_payment_id"
  | txByTxid => ":tx_id_to_tx"
  | amountByTxId => ":tx_id_to_amount"
  | saleDetailsResult => ":sale_details_result"

/-- The key for an id: `id + CONTEXT_KEY_…`. -/
def of (k : ContextKey) (id : String) : String := id ++ k.suffix

/-- No suffix ends another one. -/
theorem eq_of_suffix {k k' : ContextKey} (h : k.suffix.toList <:+ k'.suffix.toList) : k = k' := by
  cases k <;> cases k' <;> first | rfl | exact absurd h (by decide)

/-- **Keys do not clash**: a key determines its kind and its id. -/
@[simp] theorem of_eq_of {k k' : ContextKey} {a b : String} :
    k.of a = k'.of b ↔ k = k' ∧ a = b := by
  constructor
  · intro h
    have hlist : a.toList ++ k.suffix.toList = b.toList ++ k'.suffix.toList := by
      simpa [of] using congrArg String.toList h
    have hk : k = k' := by
      rcases List.suffix_or_suffix_of_suffix (List.suffix_append _ _)
        (hlist ▸ List.suffix_append _ _) with hs | hs
      · exact (eq_of_suffix hs).symm
      · exact eq_of_suffix hs
    subst hk
    exact ⟨rfl, String.toList_inj.mp (List.append_cancel_right hlist)⟩
  · rintro ⟨rfl, rfl⟩
    rfl

/-- A key differs from every name without a colon. -/
theorem of_ne {k : ContextKey} {id name : String} (h : ':' ∉ name.toList) : k.of id ≠ name := by
  rintro rfl
  refine h ?_
  cases k <;> simp [of, suffix]

end ContextKey

def contextKeySupernode : String := "supernode"
def contextKeyFullSupernodeList : String := "fsl"
/-- The key of the tx id in the local context. -/
def contextTxId : String := "tx_id"

/-- `RTA_TX_TTL` -/
def rtaTxTtl : ℕ := 60

/-! ## Values of the contexts -/

/-- `RtaAuthResult`: the votes stored for a transaction. -/
structure RtaAuthResult where
  approved : List SupernodeSignature
  rejected : List SupernodeSignature
  deriving DecidableEq

/-- `RtaAuthRequestHandlerState` -/
inductive RtaAuthRequestHandlerState
  | clientRequest
  | clientRequestAgain
  | cryptonodeReply
  deriving DecidableEq

/-- `RtaAuthResponseHandlerState` -/
inductive RtaAuthResponseHandlerState
  | rtaAuthReply
  | transactionPushReply
  | statusBroadcastReply
  deriving DecidableEq

/-- `SaleHandlerState` -/
inductive SaleHandlerState
  | clientRequest
  | saleMulticastReply
  | saleStatusReply
  deriving DecidableEq

/-- `ClientHandlerState` of `saleDetailsClientHandler` -/
inductive SaleDetailsClientState
  | clientRequest
  | unicastAcknowledge
  | callbackFromAuthSample
  deriving DecidableEq

/-- `PayHandlerState` -/
inductive PayHandlerState
  | clientRequest
  | prepareTxReply
  | waitingTxReply
  | txAuthReply
  | statusReply
  deriving DecidableEq

/-- `State` of `saleDetailsUnicastHandler` -/
inductive SaleDetailsUnicastState
  | clientRequest
  | callbackToClient
  | callbackAcknowledge
  deriving DecidableEq

variable {E : Externals}

/-- `std::any`, over the types the handlers store.  A shared pointer is `none` when it
is null. -/
inductive Any (E : Externals)
  | empty
  | bool (b : Bool)
  | int (i : ℤ)
  | uint64 (n : ℕ)
  | str (s : String)
  | supernode (p : Option (Supernode E.toCrypto))
  | fsl (p : Option SampleSource)
  | transaction (tx : E.Transaction)
  | authResult (r : RtaAuthResult)
  | saleData (d : SaleData)
  | authRequestState (s : RtaAuthRequestHandlerState)
  | authResponseState (s : RtaAuthResponseHandlerState)
  | saleState (s : SaleHandlerState)
  | saleDetailsResponse (r : SaleDetailsResponse)
  | saleDetailsClientState (s : SaleDetailsClientState)
  | saleDetailsUnicastState (s : SaleDetailsUnicastState)
  | payState (s : PayHandlerState)

/-! `std::any_cast`: `none` is `std::bad_any_cast`. -/

namespace Any

def toBool? : Any E → Option Bool
  | bool b => some b
  | _ => none

def toInt? : Any E → Option ℤ
  | int i => some i
  | _ => none

def toUInt64? : Any E → Option ℕ
  | uint64 n => some n
  | _ => none

def toStr? : Any E → Option String
  | str s => some s
  | _ => none

def toSupernode? : Any E → Option (Option (Supernode E.toCrypto))
  | supernode p => some p
  | _ => none

def toFsl? : Any E → Option (Option SampleSource)
  | fsl p => some p
  | _ => none

def toTransaction? : Any E → Option E.Transaction
  | transaction tx => some tx
  | _ => none

def toAuthResult? : Any E → Option RtaAuthResult
  | authResult r => some r
  | _ => none

def toSaleData? : Any E → Option SaleData
  | saleData d => some d
  | _ => none

def toAuthRequestState? : Any E → Option RtaAuthRequestHandlerState
  | authRequestState s => some s
  | _ => none

def toAuthResponseState? : Any E → Option RtaAuthResponseHandlerState
  | authResponseState s => some s
  | _ => none

def toSaleState? : Any E → Option SaleHandlerState
  | saleState s => some s
  | _ => none

def toSaleDetailsResponse? : Any E → Option SaleDetailsResponse
  | saleDetailsResponse r => some r
  | _ => none

def toSaleDetailsClientState? : Any E → Option SaleDetailsClientState
  | saleDetailsClientState s => some s
  | _ => none

def toSaleDetailsUnicastState? : Any E → Option SaleDetailsUnicastState
  | saleDetailsUnicastState s => some s
  | _ => none

end Any

/-- `Context::Local`: the values a task keeps between its handler calls. -/
def Local (E : Externals) : Type := String → Option (Any E)

namespace Local

def hasKey (l : Local E) (key : String) : Bool := (l key).isSome

/-- `local[key] = v` -/
def set (l : Local E) (key : String) (v : Any E) : Local E := Function.update l key (some v)

/-- The value that `local[key]` is cast from; a key that is absent gets an empty value. -/
def get (l : Local E) (key : String) : Any E := (l key).getD .empty

/-- The context after `local[key]` has been read. -/
def touch (l : Local E) (key : String) : Local E := l.set key (l.get key)

@[simp] theorem set_self (l : Local E) (key : String) (v : Any E) : l.set key v key = some v :=
  Function.update_self _ _ _

theorem get_set_of_ne {key key' : String} (h : key' ≠ key) (l : Local E) (v : Any E) :
    (l.set key v).get key' = l.get key' := by
  have hkey : l.set key v key' = l key' := Function.update_of_ne h _ _
  rw [get, hkey, get]

end Local

/-! ## Replies -/

/-- The body of an output, before it is written as JSON. -/
inductive Body
  | empty
  /-- `JsonRpcErrorResponse` -/
  | error (code : ℤ) (message : String)
  /-- A JSON-RPC response with the field `Result`. -/
  | resultJsonRpc (result : ℤ)
  /-- `RejectSaleResponse`, `RejectPayResponse` -/
  | result (result : ℤ)
  /-- `MulticastResponseToCryptonodeJsonRpc`, `BroadcastResponseToCryptonodeJsonRpc` -/
  | statusJsonRpc (status : String)
  | saleResponse (blockNumber : ℕ) (paymentId : String)
  | multicast (req : MulticastRequestJsonRpc)
  | broadcast (req : BroadcastRequestJsonRpc)
  | sendRawTx (req : SendRawTxRequest)
  /-- `JsonRpcError` alone, without the `JsonRpcErrorResponse` around it. -/
  | bareJsonRpcError (code : ℤ) (message : String)
  /-- `SaleStatusResponseJsonRpc`, `PayStatusResponseJsonRpc` -/
  | statusResponse (status : ℤ)
  | saleDetailsResponse (r : SaleDetailsResponse)
  | unicast (req : UnicastRequestJsonRpc)
  /-- A body that is not JSON. -/
  | text (s : String)
  deriving DecidableEq

/-- `Output` -/
structure Output where
  body : Body
  path : String
  deriving DecidableEq

/-- `OutHttp::load` -/
def Output.load (out : Output) (body : Body) : Output := { out with body := body }

/-- How a handler can end without a status. -/
inductive Fault
  | badAnyCast
  | jsonParseError
  | nullPointer
  | abort
  | outOfRange
  | invalidUuid
  deriving DecidableEq

/-- What a handler returns: the status, the output and the local context. -/
structure Reply (E : Externals) where
  status : StateMachine.Status
  output : Output
  ctxLocal : Local E

/-- A handler call: a program over the global context. -/
abbrev Handler (E : Externals) : Type :=
  Prog (StoreOp (Any E)) StoreOp.Reply (Except Fault (Reply E))

/-- The arguments of a handler call. -/
structure Call (E : Externals) where
  input : String
  output : Output
  ctxLocal : Local E
  unspecified : Unspecified E.toCrypto

namespace Handler

/-- The handler returns. -/
def reply (status : StateMachine.Status) (output : Output) (l : Local E) : Handler E :=
  .ret (.ok ⟨status, output, l⟩)

/-- The handler ends in a fault. -/
def fault (f : Fault) : Handler E := .ret (.error f)

end Handler

/-! ## Errors -/

namespace ErrorCode

def invalidRequest : ℤ := -32600
def invalidParams : ℤ := -32602
def internalError : ℤ := -32603
def amountInvalid : ℤ := -32050
def paymentIdInvalid : ℤ := -32051
def addressInvalid : ℤ := -32052
def rtaCompleted : ℤ := -32070
def rtaFailed : ℤ := -32071
def rtaSignatureFailed : ℤ := -32080
def transactionInvalid : ℤ := -32090

end ErrorCode

namespace Handler

variable (output : Output) (l : Local E)

/-- `errorCustomError` -/
def errorCustomError (message : String) (code : ℤ) : Handler E :=
  reply .error (output.load (.error code message)) l

/-- `errorInternalError` -/
def errorInternalError (message : String) : Handler E :=
  reply .error (output.load (.error ErrorCode.internalError message)) l

/-- `errorInvalidParams` -/
def errorInvalidParams : Handler E :=
  reply .error
    (output.load (.error ErrorCode.invalidParams "The request parameters are invalid.")) l

/-- `errorInvalidAmount` -/
def errorInvalidAmount : Handler E :=
  reply .error (output.load (.error ErrorCode.amountInvalid "Amount is invalid.")) l

/-- `errorInvalidPaymentID` -/
def errorInvalidPaymentID : Handler E :=
  reply .error (output.load (.error ErrorCode.paymentIdInvalid "Payment ID is invalid.")) l

/-- `errorInvalidTransaction` -/
def errorInvalidTransaction (txData : String) : Handler E :=
  reply .error
    (output.load (.error ErrorCode.transactionInvalid
      ("Can't parse transaction" ++ " : " ++ txData))) l

/-- `sendOkResponseToCryptonode` -/
def sendOkResponseToCryptonode : Handler E :=
  reply .ok (output.load (.resultJsonRpc 0)) l

end Handler

/-- `buildBroadcastSaleStatusOutput` -/
def buildBroadcastSaleStatusOutput (u : Unspecified E.toCrypto) (paymentId : String) (status : ℤ)
    (supernode : Supernode E.toCrypto) (output : Output) : Output :=
  let sign := supernode.signMessage u 0 (paymentId ++ ":" ++ toString status)
  let ussb : UpdateSaleStatusBroadcast :=
    { paymentId := paymentId
      status := status
      idKey := supernode.idKeyAsString
      signature := E.signatureToHex sign }
  let body := Body.broadcast
    { method := "broadcast"
      senderAddress := ""
      callbackUri := "/cryptonode/update_sale_status"
      data := E.loadUpdateSaleStatusBroadcastB64 ussb }
  { output.load body with path := "/json_rpc/rta" }

end Request
