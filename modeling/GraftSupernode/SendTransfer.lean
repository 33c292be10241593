/-
# Sending a list of transactions

`sendTransferHandler` (`send_transfer.cpp`) sends the transactions of a request to the cryptonode,
one in each invocation: the list and the index of the next transaction are in the local context of
the task, and the reply to one transaction makes the handler send the next one.

The first invocation stores the index as an `int`, and the others read and store it as an
`unsigned int`.

* `taskRun`: the invocations for a request and the replies that come for it;
* `Forwarded`: the transactions are sent one by one, and then the request is answered;
* `forwarded_of_unsigned`: so it is when the index is stored as it is read;
* `send_transfer`: as it is stored, the first reply makes the handler throw.
-/
import GraftSupernode.AnyMap
import GraftSupernode.AuthVotes
import Mathlib.Algebra.Group.Nat.Defs

namespace Request

/-- `SendTransferHandlerState` -/
inductive SendTransferHandlerState
  | clientRequest
  | txStatusReply

/-- The cryptonote functions, and the reader of `SendTransferRequest`: its transactions. -/
structure TransferExternals extends Externals where
  getSendTransferRequest : String → Option (List String)

namespace SendTransfer

/-- The types of the values in the local context. -/
inductive LocalType
  | int
  | unsignedInt
  | strings
  | handlerState
  deriving DecidableEq

/-- Their values. -/
abbrev LocalType.El : LocalType → Type
  | .int => ℤ
  | .unsignedInt => UInt32
  | .strings => List String
  | .handlerState => SendTransferHandlerState

/-- `Context::Local` -/
abbrev Local := AnyMap String LocalType.El

/-- The arguments of an invocation. -/
structure Call where
  input : String
  output : Output
  ctxLocal : Local

/-- What an invocation returns. -/
structure Reply where
  status : StateMachine.Status
  output : Output
  ctxLocal : Local

def scLastSendTxIndex : String := "SendTransfer_txindex"
def scTxList : String := "SendTransfer_txs"

/-- A reply with an error in its output. -/
def errorReply (c : Call) (code : ℤ) (message : String) : Except Fault Reply :=
  .ok ⟨.error, c.output.load (.error code message), c.ctxLocal⟩

/-- `errorInvalidParams` -/
def errorInvalidParams (c : Call) : Except Fault Reply :=
  errorReply c ErrorCode.invalidParams "The request parameters are invalid."

/-- `errorInvalidTransaction` -/
def errorInvalidTransaction (c : Call) (txData : String) : Except Fault Reply :=
  errorReply c ErrorCode.transactionInvalid ("Can't parse transaction" ++ " : " ++ txData)

/-- A transaction goes to the cryptonode. -/
def sendRawTransaction (c : Call) (tx : String) (l : Local) : Except Fault Reply :=
  .ok ⟨.forward, { c.output.load (.sendRawTx ⟨tx, false⟩) with path := "/sendrawtransaction" }, l⟩

variable (T : TransferExternals)

/-- `handleClientSendRequest` -/
def handleClientSendRequest (c : Call) : Except Fault Reply :=
  match T.getSendTransferRequest c.input with
  | none => errorInvalidParams c
  | some [] => errorInvalidTransaction c "tx empty"
  | some (tx :: txs) =>
    match (tx :: txs).find? fun tx => (T.parseTx tx).isNone with
    | some invalid => errorInvalidTransaction c invalid
    | none =>
      -- the literal that is stored is an `int`
      let l := (c.ctxLocal.set scLastSendTxIndex .int (1 : ℤ)).set scTxList .strings (tx :: txs)
      sendRawTransaction c tx l

/-- `handleTxStatusReply` -/
def handleTxStatusReply (c : Call) : Except Fault Reply :=
  match c.ctxLocal.read scTxList .strings with
  | none => .error .badAnyCast
  | some (txs : List String) =>
    match c.ctxLocal.read scLastSendTxIndex .unsignedInt with
    | none => .error .badAnyCast
    | some (txIndex : UInt32) =>
      match txs[txIndex.toNat]? with
      | some tx =>
        sendRawTransaction c tx (c.ctxLocal.set scLastSendTxIndex .unsignedInt (txIndex + 1))
      | none => .ok ⟨.ok, c.output.load (.result 0), c.ctxLocal⟩

/-- `sendTransferHandler` -/
def sendTransferHandler (c : Call) : Except Fault Reply :=
  let self := "sendTransferHandler"
  let goOn : Call := { c with ctxLocal := c.ctxLocal.set self .handlerState .txStatusReply }
  if c.ctxLocal.hasKey self = false then handleClientSendRequest T goOn
  else
    match c.ctxLocal.read self .handlerState with
    | none => .error .badAnyCast
    | some .clientRequest => handleClientSendRequest T goOn
    | some .txStatusReply => handleTxStatusReply c

/-- The invocations for a task whose context and output are these, with their inputs: the next one
comes with the reply to what the last one has sent, if it has sent something. -/
def taskRun (output : Output) (l : Local) : List String → List (Except Fault Reply)
  | [] => []
  | input :: inputs =>
    match sendTransferHandler T ⟨input, output, l⟩ with
    | .error f => [.error f]
    | .ok r =>
      .ok r :: (if r.status = .forward then taskRun r.output r.ctxLocal inputs else [])

/-! ## Sending the transactions one by one -/

variable {T}

/-- The reply sends the transaction to the cryptonode. -/
def Reply.Sends (r : Reply) (tx : String) : Prop :=
  r.status = .forward ∧ r.output.body = .sendRawTx ⟨tx, false⟩ ∧
    r.output.path = "/sendrawtransaction"

/-- The reply answers the request. -/
def Reply.Answers (r : Reply) : Prop := r.status = .ok ∧ r.output.body = .result 0

/-- What `n` invocations, or less when the request has been answered, have to return for these
transactions: each is sent once and in its turn, and then the request is answered. -/
inductive Forwarded : List String → ℕ → List (Except Fault Reply) → Prop
  | stop (txs : List String) : Forwarded txs 0 []
  | next {tx : String} {txs : List String} {n : ℕ} {r : Reply} {rs : List (Except Fault Reply)}
      (h : r.Sends tx) (hrest : Forwarded txs n rs) : Forwarded (tx :: txs) (n + 1) (.ok r :: rs)
  | done {n : ℕ} {r : Reply} (h : r.Answers) : Forwarded [] (n + 1) [.ok r]

/-- No invocation throws. -/
theorem Forwarded.not_error {txs : List String} {n : ℕ} {rs : List (Except Fault Reply)}
    (h : Forwarded txs n rs) (f : Fault) : .error f ∉ rs := by
  induction h with
  | stop => exact List.not_mem_nil
  | next _ _ ih => simpa using ih
  | done => simp

/-- An invocation that has sent a transaction is followed by the one for its reply. -/
theorem taskRun_of_sends {input : String} {output : Output} {l : Local} {r : Reply} {tx : String}
    (h : sendTransferHandler T ⟨input, output, l⟩ = .ok r) (hr : r.Sends tx)
    (inputs : List String) :
    taskRun T output l (input :: inputs) = .ok r :: taskRun T r.output r.ctxLocal inputs := by
  rw [taskRun, h]
  simp only [if_pos hr.1]

/-- The context after a transaction has been sent: all of them are in the list, and the index is
that of the next one, with the type `t`. -/
structure Waiting (l : Local) (txs : List String) (t : LocalType) (index : t.El) : Prop where
  state : l.Holds "sendTransferHandler" .handlerState .txStatusReply
  list : l.Holds scTxList .strings txs
  index : l.Holds scLastSendTxIndex t index

/-- The reply to a transaction that has been sent. -/
theorem Waiting.handler_eq {l : Local} {txs : List String} {t : LocalType} {index : t.El}
    (h : Waiting l txs t index) (input : String) (output : Output) :
    sendTransferHandler T ⟨input, output, l⟩ = handleTxStatusReply ⟨input, output, l⟩ := by
  unfold sendTransferHandler
  dsimp only
  rw [if_neg (by simp [h.state.hasKey]), h.state.read]

/-- **The first invocation** sends the first transaction, and stores the index as an `int`. -/
theorem request_sends {input : String} {tx : String} {txs : List String}
    (hreq : T.getSendTransferRequest input = some (tx :: txs))
    (hvalid : ∀ tx' ∈ tx :: txs, (T.parseTx tx').isSome = true) (output : Output) :
    ∃ r, sendTransferHandler T ⟨input, output, .empty⟩ = .ok r ∧ r.Sends tx ∧
      Waiting r.ctxLocal (tx :: txs) .int (1 : ℤ) := by
  have hfind : (tx :: txs).find? (fun tx => (T.parseTx tx).isNone) = none := by
    rw [List.find?_eq_none]
    intro tx' htx'
    simp [Option.isSome_iff_ne_none.mp (hvalid tx' htx')]
  unfold sendTransferHandler
  dsimp only
  rw [if_pos (AnyMap.hasKey_empty _)]
  unfold handleClientSendRequest
  dsimp only
  rw [hreq]
  simp only [hfind]
  refine ⟨_, rfl, ⟨rfl, rfl, rfl⟩, ?_, ?_, ?_⟩
  · exact ((AnyMap.holds_set _ _ _).set (by decide) _).set (by decide) _
  · exact AnyMap.holds_set _ _ _
  · exact (AnyMap.holds_set _ _ _).set (by decide) _

/-- **The reply after that** is not dealt with: the handler throws. -/
theorem Waiting.throws {l : Local} {txs : List String} (h : Waiting l txs .int (1 : ℤ))
    (input : String) (output : Output) :
    sendTransferHandler T ⟨input, output, l⟩ = .error .badAnyCast := by
  rw [h.handler_eq]
  unfold handleTxStatusReply
  dsimp only
  rw [h.list.read]
  dsimp only
  rw [h.index.read_of_ne (by decide)]

/-- The reply finds the index at the type that it reads. -/
theorem Waiting.reply_eq {l : Local} {txs : List String} {index : UInt32}
    (h : Waiting l txs .unsignedInt index) (input : String) (output : Output) :
    sendTransferHandler T ⟨input, output, l⟩ =
      match txs[index.toNat]? with
      | some tx => sendRawTransaction ⟨input, output, l⟩ tx
          (l.set scLastSendTxIndex .unsignedInt (index + 1))
      | none => .ok ⟨.ok, output.load (.result 0), l⟩ := by
  rw [h.handler_eq]
  unfold handleTxStatusReply
  dsimp only
  rw [h.list.read]
  dsimp only
  rw [h.index.read]

/-- **An index with the type that is read** serves for one transaction, and the next index is
stored with the same type. -/
theorem Waiting.sends {l : Local} {txs : List String} {index : UInt32}
    (h : Waiting l txs .unsignedInt index) (hindex : index.toNat < txs.length)
    (input : String) (output : Output) :
    ∃ r, sendTransferHandler T ⟨input, output, l⟩ = .ok r ∧ r.Sends txs[index.toNat] ∧
      Waiting r.ctxLocal txs .unsignedInt (index + 1) := by
  rw [h.reply_eq, List.getElem?_eq_getElem hindex]
  refine ⟨_, rfl, ⟨rfl, rfl, rfl⟩, ?_, ?_, ?_⟩
  · exact h.state.set (by decide) _
  · exact h.list.set (by decide) _
  · exact AnyMap.holds_set _ _ _

/-- When all have been sent, the request is answered. -/
theorem Waiting.answers {l : Local} {txs : List String} {index : UInt32}
    (h : Waiting l txs .unsignedInt index) (hindex : index.toNat = txs.length)
    (input : String) (output : Output) :
    ∃ r, sendTransferHandler T ⟨input, output, l⟩ = .ok r ∧ r.Answers := by
  rw [h.reply_eq, List.getElem?_eq_none hindex.ge]
  exact ⟨_, rfl, rfl, rfl⟩

/-- **The loop over the invocations**: with an index that is stored as it is read, all the
transactions from there on are sent in their order. -/
theorem forwarded_of_unsigned {l : Local} {txs : List String} {index : UInt32}
    (h : Waiting l txs .unsignedInt index) (hindex : index.toNat ≤ txs.length)
    (hlength : txs.length < 2 ^ 32) (output : Output) (replies : List String) :
    Forwarded (txs.drop index.toNat) replies.length (taskRun T output l replies) := by
  induction replies generalizing index l output with
  | nil => exact .stop _
  | cons reply replies ih =>
    rcases hindex.lt_or_eq with hlt | heq
    · obtain ⟨r, hr, hsends, hwaiting⟩ := h.sends (T := T) hlt reply output
      have hsucc : (index + 1).toNat = index.toNat + 1 := by
        rw [UInt32.toNat_add]
        show (index.toNat + 1) % 2 ^ 32 = _
        exact Nat.mod_eq_of_lt (by omega)
      rw [taskRun_of_sends hr hsends, List.drop_eq_getElem_cons hlt]
      refine .next hsends ?_
      rw [← hsucc]
      exact ih hwaiting (by omega) _
    · obtain ⟨r, hr, hanswers⟩ := h.answers (T := T) heq reply output
      have hrun : taskRun T output l (reply :: replies) = [.ok r] := by
        rw [taskRun, hr]
        simp only [hanswers.1]
        rfl
      rw [hrun, heq, List.drop_length]
      exact .done hanswers

/-- **Transactions are forwarded exactly as long as no reply has come**: the second invocation
reads the index at another type than the first one has stored it with. -/
theorem send_transfer {input : String} {txs : List String}
    (hreq : T.getSendTransferRequest input = some txs) (hne : txs ≠ [])
    (hvalid : ∀ tx ∈ txs, (T.parseTx tx).isSome = true) (output : Output)
    (replies : List String) :
    Forwarded txs (replies.length + 1) (taskRun T output .empty (input :: replies)) ↔
      replies = [] := by
  obtain ⟨tx, txs, rfl⟩ := List.exists_cons_of_ne_nil hne
  obtain ⟨r, hr, hsends, hwaiting⟩ := request_sends hreq hvalid output
  rw [taskRun_of_sends hr hsends]
  cases replies with
  | nil => exact iff_of_true (.next hsends (.stop _)) rfl
  | cons reply replies =>
    refine iff_of_false (fun h => ?_) (List.cons_ne_nil _ _)
    rw [taskRun, hwaiting.throws] at h
    exact h.not_error .badAnyCast (List.mem_cons_of_mem _ List.mem_cons_self)

/-- A request with these transactions, whatever it says. -/
def sampleTransfer (txs : List String) : TransferExternals :=
  { sampleExternals with getSendTransferRequest := fun _ => some txs }

/-- A request for two transactions whose replies are still to come. -/
theorem send_transfer_first :
    Forwarded ["tx", "tx'"] 1 (taskRun (sampleTransfer ["tx", "tx'"]) ⟨.empty, ""⟩ .empty [""]) :=
  (send_transfer (T := sampleTransfer ["tx", "tx'"]) rfl (by decide) (fun _ _ => rfl) _ []).mpr rfl

/-- **One transaction and the reply to it**: the request is not answered, the handler throws. -/
theorem send_transfer_throws :
    ¬ Forwarded ["tx"] 2 (taskRun (sampleTransfer ["tx"]) ⟨.empty, ""⟩ .empty ["", "reply"]) := by
  intro h
  have hrun : ∃ r, taskRun (sampleTransfer ["tx"]) ⟨.empty, ""⟩ .empty ["", "reply"]
      = [.ok r, .error .badAnyCast] := ⟨_, rfl⟩
  obtain ⟨r, hr⟩ := hrun
  rw [hr] at h
  exact h.not_error .badAnyCast (List.mem_cons_of_mem _ List.mem_cons_self)

end SendTransfer

end Request
