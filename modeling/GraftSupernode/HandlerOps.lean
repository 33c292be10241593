/-
# What the handlers ask of the global context

The global context is a map to values of any type, and each handler reads a key at the type
it expects.  `ContextKey.type` is the type of the values under the keys of a kind,
`ServerKey` are the names that carry no id.

`Issued` describes the operations of the handlers that deal with sales and transactions:
the key and the type of what is read and written, and the `ttl`s that are given.  The keys
under `saleDetailsResult` are not among theirs.  Each
handler has its theorem; what follows from the description alone follows for all of them
(`Every.mono`).
-/
import GraftSupernode.AuthorizeRtaTx
import GraftSupernode.SaleHandlers

open AtomicProgram GlobalContext

namespace Request

variable {E : Externals}

/-! ## The types of the values -/

/-- The types that a `std::any` of the handlers can have. -/
inductive AnyType
  | empty
  | bool
  | int
  | uint64
  | str
  | supernode
  | fsl
  | transaction
  | authResult
  | saleData
  | authRequestState
  | authResponseState
  | saleState
  | saleDetailsResponse
  | saleDetailsClientState
  | saleDetailsUnicastState
  | payState
  deriving DecidableEq

/-- `std::any::type` -/
def Any.type : Any E → AnyType
  | empty => .empty
  | bool _ => .bool
  | int _ => .int
  | uint64 _ => .uint64
  | str _ => .str
  | supernode _ => .supernode
  | fsl _ => .fsl
  | transaction _ => .transaction
  | authResult _ => .authResult
  | saleData _ => .saleData
  | authRequestState _ => .authRequestState
  | authResponseState _ => .authResponseState
  | saleState _ => .saleState
  | saleDetailsResponse _ => .saleDetailsResponse
  | saleDetailsClientState _ => .saleDetailsClientState
  | saleDetailsUnicastState _ => .saleDetailsUnicastState
  | payState _ => .payState

/-- A value has the type `int` just if it is a number. -/
theorem Any.type_eq_int {v : Any E} : v.type = .int ↔ ∃ i, v = .int i := by
  constructor
  · intro h
    cases v with
    | int i => exact ⟨i, rfl⟩
    | _ => cases h
  · rintro ⟨i, rfl⟩
    rfl

/-- The type of the values under the keys of a kind.  Under `saleDetailsResult` it is the type of
the details that are cached for a payment. -/
def ContextKey.type : ContextKey → AnyType
  | saleDetails => .str
  | sale => .saleData
  | status => .int
  | authResultByTxid => .authResult
  | paymentIdByTxid => .str
  | txByTxid => .transaction
  | amountByTxId => .uint64
  | saleDetailsResult => .saleDetailsResponse

/-- The keys that carry no id: what the server stores when it starts, and the state that
`handleRtaAuthResponseMulticast` stores under its own name. -/
inductive ServerKey
  | supernode
  | fullSupernodeList
  | testnet
  | watchonlyWalletsPath
  | cryptonodeRpcAddress
  | authResponseState

namespace ServerKey

def name : ServerKey → String
  | supernode => contextKeySupernode
  | fullSupernodeList => contextKeyFullSupernodeList
  | testnet => "testnet"
  | watchonlyWalletsPath => "watchonly_wallets_path"
  | cryptonodeRpcAddress => "cryptonode_rpc_address"
  | authResponseState => "handleRtaAuthResponseMulticast"

def type : ServerKey → AnyType
  | supernode => .supernode
  | fullSupernodeList => .fsl
  | testnet => .bool
  | watchonlyWalletsPath => .str
  | cryptonodeRpcAddress => .str
  | authResponseState => .authResponseState

/-- The names of the server have no separator, which every key with an id has. -/
theorem colon_not_mem (k : ServerKey) : ':' ∉ k.name.toList := by
  cases k <;> decide

/-- The names of the server are different. -/
theorem name_injective : Function.Injective name := by
  intro k k' h
  cases k <;> cases k' <;> first | rfl | exact absurd h (by decide)

/-- A key with an id is no name of the server. -/
theorem of_ne_name (k : ServerKey) (kind : ContextKey) (id : String) : kind.of id ≠ k.name :=
  ContextKey.of_ne k.colon_not_mem

end ServerKey

/-! ## The operations -/

/-- The kinds of the keys that are written.  The code that stores a transaction and its payment id
comes after `getAmountFromTx`, which never succeeds. -/
def ContextKey.Written (k : ContextKey) : Prop :=
  k ≠ .saleDetailsResult ∧ k ≠ .txByTxid ∧ k ≠ .paymentIdByTxid

instance (k : ContextKey) : Decidable k.Written := inferInstanceAs (Decidable (_ ∧ _))

/-- An operation of the handlers of sales and transactions.  A default is given with every `get`;
reading through the proxy has the empty value for one. -/
inductive Issued : StoreOp (Any E) → Prop
  | hasKey (k : ContextKey) (id : String) (hk : k ≠ .saleDetailsResult) :
      Issued (.hasKey (k.of id))
  | get (k : ContextKey) (id : String) {d : Any E} (hd : d.type = k.type)
      (hk : k ≠ .saleDetailsResult) : Issued (.get (k.of id) d)
  | getServer (k : ServerKey) {d : Any E} (hd : d.type = k.type ∨ d = .empty) :
      Issued (.get k.name d)
  | set (k : ContextKey) (id : String) {v : Any E} {ttl : ℕ} (hv : v.type = k.type)
      (httl : ttl = 0 ∨ ttl = saleTtl ∨ ttl = rtaTxTtl)
      (hk : k.Written) : Issued (.set (k.of id) v ttl)
  | setServer (k : ServerKey) {v : Any E} (hv : v.type = k.type) : Issued (.set k.name v 0)

namespace Issued

/-- The supernode is read. -/
theorem getSupernode : Issued (.get contextKeySupernode (.supernode none) : StoreOp (Any E)) :=
  .getServer .supernode (.inl rfl)

/-- The list of supernodes is read. -/
theorem getFsl : Issued (.get contextKeyFullSupernodeList (.fsl none) : StoreOp (Any E)) :=
  .getServer .fullSupernodeList (.inl rfl)

/-- The name of the network is read. -/
theorem getTestnet : Issued (.get "testnet" .empty : StoreOp (Any E)) :=
  .getServer .testnet (.inr rfl)

end Issued

namespace Handler

variable {c : Call E}

/-! ## The handlers of `authorize_rta_tx.cpp` -/

/-- The first call reads the supernode, and stores nothing. -/
theorem issued_storeRequestAndReplyOk (c : Call E) : (storeRequestAndReplyOk c).Every Issued := by
  rw [storeRequestAndReplyOk]
  split
  · trivial
  refine every_get .getSupernode fun v => ?_
  split
  · trivial
  split <;> trivial

/-- The amount of a transaction that is new is stored, and nothing after it. -/
theorem issued_handleTxAuthRequest (c : Call E) : (handleTxAuthRequest c).Every Issued := by
  have hstore : ∀ req authReq supernode tx txIdStr,
      (handleTxAuthRequest.storeTx c req authReq supernode tx txIdStr).Every Issued := by
    intro req authReq supernode tx txIdStr
    rw [handleTxAuthRequest.storeTx]
    refine every_hasKey (.hasKey .txByTxid _ nofun) fun processed => ?_
    split
    · trivial
    exact every_set (.set .amountByTxId _ rfl (.inr (.inr rfl)) (by decide)) trivial
  rw [handleTxAuthRequest]
  split
  · trivial
  split
  · trivial
  split
  · trivial
  refine every_get .getSupernode fun v => ?_
  split
  · trivial
  split
  · trivial
  split
  · trivial
  · exact hstore _ _ _ _ _

/-- The reply to the multicast of a vote reads and stores nothing. -/
theorem issued_handleCryptonodeMulticastStatus (c : Call E) :
    (handleCryptonodeMulticastStatus c).Every Issued := by
  rw [handleCryptonodeMulticastStatus]
  split
  · trivial
  split
  · trivial
  split <;> trivial

/-- `authorizeRtaTxRequestHandler` issues what the handler of its phase does. -/
theorem issued_authorizeRtaTxRequestHandler (c : Call E) :
    (authorizeRtaTxRequestHandler c).Every Issued := by
  rw [authorizeRtaTxRequestHandler]
  dsimp only
  split
  · exact issued_storeRequestAndReplyOk _
  split
  · trivial
  · exact issued_storeRequestAndReplyOk _
  · exact issued_handleTxAuthRequest _
  · exact issued_handleCryptonodeMulticastStatus _

/-- A rejection stores the state of the handler and the status of the payment. -/
theorem issued_rejectPayment {supernode : Option (Supernode E.toCrypto)} {paymentId : String} :
    (rejectPayment c supernode paymentId).Every Issued := by
  refine every_set (.setServer .authResponseState rfl)
    (every_set (.set .status _ rfl (.inr (.inr rfl)) (by decide)) ?_)
  cases supernode <;> trivial

/-- An approval reads the transaction. -/
theorem issued_pushTx {supernode : Option (Supernode E.toCrypto)} {paymentId : String}
    {resp : AuthorizeRtaTxResponse} {r : RtaAuthResult} :
    (pushTx c supernode paymentId resp r).Every Issued := by
  refine every_get (.get .txByTxid _ rfl nofun) fun v => ?_
  split
  · trivial
  · cases supernode <;> trivial

/-- A vote is stored before the votes are counted. -/
theorem issued_addVote {supernode : Option (Supernode E.toCrypto)} {paymentId : String}
    {resp : AuthorizeRtaTxResponse} {r : RtaAuthResult} :
    (addVote c supernode paymentId resp r).Every Issued := by
  rw [addVote]
  split
  · trivial
  refine every_set (.set .authResultByTxid _ rfl (.inr (.inr rfl)) (by decide)) ?_
  refine every_hasKey (.hasKey .amountByTxId _ nofun) fun hasAmount => ?_
  split
  · trivial
  refine every_get (.get .amountByTxId _ rfl nofun) fun v => ?_
  split
  · trivial
  refine every_hasKey (.hasKey .txByTxid _ nofun) fun hasTx => ?_
  split
  · trivial
  split
  · exact issued_rejectPayment
  split
  · exact issued_pushTx
  · trivial

/-- The handler of a vote reads the supernode, the payment id of the transaction and the votes, and
stores the votes and the status. -/
theorem issued_handleRtaAuthResponseMulticast (c : Call E) :
    (handleRtaAuthResponseMulticast c).Every Issued := by
  rw [handleRtaAuthResponseMulticast]
  split
  · trivial
  split
  · trivial
  refine every_get .getSupernode fun v => ?_
  split
  · trivial
  split
  · trivial
  refine every_hasKey (.hasKey .paymentIdByTxid _ nofun) fun known => ?_
  split
  · trivial
  refine every_get (.get .paymentIdByTxid _ rfl nofun) fun v => ?_
  split
  · trivial
  split
  · refine every_hasKey (.hasKey .authResultByTxid _ nofun) fun stored => ?_
    split
    · exact issued_addVote
    refine every_get (.get .authResultByTxid _ rfl nofun) fun v => ?_
    split
    · trivial
    · exact issued_addVote
  · trivial

/-- The reply to `/sendrawtransaction` leads to the status of the payment being read and stored. -/
theorem issued_handleCryptonodeTxPushResponse (c : Call E) :
    (handleCryptonodeTxPushResponse c).Every Issued := by
  rw [handleCryptonodeTxPushResponse]
  split
  · trivial
  split
  · trivial
  split
  · trivial
  refine every_get (.get .paymentIdByTxid _ rfl nofun) fun v => ?_
  split
  · trivial
  refine every_get (.get .status _ rfl nofun) fun v => ?_
  split
  · trivial
  split
  · trivial
  split
  · trivial
  split
  · trivial
  split
  · trivial
  refine every_get .getSupernode fun v => ?_
  split <;> trivial

/-- The reply to the broadcast of a status reads and stores nothing. -/
theorem issued_handleStatusBroadcastResponse (c : Call E) :
    (handleStatusBroadcastResponse c).Every Issued := by
  rw [handleStatusBroadcastResponse]
  split
  · trivial
  split
  · trivial
  split <;> trivial

/-- `authorizeRtaTxResponseHandler` issues what the handler of its phase does. -/
theorem issued_authorizeRtaTxResponseHandler (c : Call E) :
    (authorizeRtaTxResponseHandler c).Every Issued := by
  rw [authorizeRtaTxResponseHandler]
  dsimp only
  split
  · exact issued_handleRtaAuthResponseMulticast _
  split
  · trivial
  · exact issued_handleRtaAuthResponseMulticast _
  · exact issued_handleCryptonodeTxPushResponse _
  · exact issued_handleStatusBroadcastResponse _

/-! ## The handlers of sales -/

/-- A sale stores its data, its details and the status Waiting. -/
theorem issued_handleClientSaleRequest (c : Call E) (generated : String) :
    (handleClientSaleRequest c generated).Every Issued := by
  have hstore : ∀ req fsl paymentId,
      (handleClientSaleRequest.storeSale c req fsl paymentId).Every Issued := by
    intro req fsl paymentId
    rw [handleClientSaleRequest.storeSale]
    dsimp only
    split
    · trivial
    split
    · trivial
    · exact every_set (.set .sale _ rfl (.inr (.inl rfl)) (by decide))
        (every_set (.set .status _ rfl (.inr (.inl rfl)) (by decide)) trivial)
  rw [handleClientSaleRequest]
  split
  · trivial
  split
  · trivial
  refine every_get .getTestnet fun v => ?_
  split
  · trivial
  refine every_get .getSupernode fun v => ?_
  split
  · trivial
  refine every_get .getFsl fun v => ?_
  split
  · trivial
  · trivial
  split
  · exact every_set (.set .saleDetails _ rfl (.inr (.inl rfl)) (by decide)) (hstore _ _ _)
  · exact hstore _ _ _

/-- The reply to the multicast of a sale reads the supernode and the status of the payment. -/
theorem issued_handleSaleMulticastReply (c : Call E) :
    (handleSaleMulticastReply c).Every Issued := by
  rw [handleSaleMulticastReply]
  split
  · trivial
  split
  · trivial
  refine every_get .getSupernode fun v => ?_
  split
  · trivial
  split
  · trivial
  refine every_get (.get .status _ rfl nofun) fun v => ?_
  split
  · trivial
  split <;> trivial

/-- The reply to the broadcast of the status of a sale reads and stores nothing. -/
theorem issued_handleSaleStatusBroadcastReply (c : Call E) :
    (handleSaleStatusBroadcastReply c).Every Issued := by
  rw [handleSaleStatusBroadcastReply]
  split
  · trivial
  split
  · trivial
  split
  · trivial
  split <;> trivial

/-- `saleClientHandler` issues what the handler of its phase does. -/
theorem issued_saleClientHandler (c : Call E) (generated : String) :
    (saleClientHandler c generated).Every Issued := by
  rw [saleClientHandler]
  dsimp only
  split
  · exact issued_handleClientSaleRequest _ _
  split
  · trivial
  · exact issued_handleClientSaleRequest _ _
  · exact issued_handleSaleMulticastReply _
  · exact issued_handleSaleStatusBroadcastReply _

/-- A sale from another supernode is stored unless there is one. -/
theorem issued_saleCryptonodeHandler (c : Call E) : (saleCryptonodeHandler c).Every Issued := by
  rw [saleCryptonodeHandler]
  split
  · trivial
  split
  · trivial
  refine every_hasKey (.hasKey .sale _ nofun) fun known => ?_
  split
  · exact every_set (.set .sale _ rfl (.inl rfl) (by decide))
      (every_set (.set .status _ rfl (.inl rfl) (by decide))
        (every_set (.set .saleDetails _ rfl (.inl rfl) (by decide)) trivial))
  · trivial

/-! ## The handlers of statuses -/

/-- A status is stored when it may follow the one that is read. -/
theorem issued_checkStatus (ussb : UpdateSaleStatusBroadcast) :
    (checkStatus c ussb).Every Issued := by
  refine every_get (.get .status _ rfl nofun) fun v => ?_
  rw [decideStatus]
  split
  · trivial
  split
  · exact every_set (.set .status _ rfl (.inr (.inr rfl)) (by decide)) trivial
  · trivial

/-- A broadcast of a status is checked against the stored status. -/
theorem issued_updateSaleStatusHandler (c : Call E) :
    (updateSaleStatusHandler c).Every Issued := by
  rw [updateSaleStatusHandler]
  split
  · trivial
  split
  · trivial
  refine every_get .getSupernode fun v => ?_
  split
  · trivial
  split
  · exact issued_checkStatus _
  · trivial

/-- A rejection by either side reads the status and stores the one of the side. -/
theorem issued_rejectHandler (status : RTAStatus) (c : Call E) :
    (rejectHandler status c).Every Issued := by
  rw [rejectHandler]
  split
  · trivial
  refine every_get (.get .status _ rfl nofun) fun v => ?_
  split
  · trivial
  split
  · trivial
  · exact every_set (.set .status _ rfl (.inl rfl) (by decide)) trivial

end Handler

end Request
