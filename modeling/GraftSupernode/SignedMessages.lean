/-
# The strings that are signed

A supernode signs the status of a payment, and the verdict on a transaction.  Both strings are an
id and a number with a colon between them; nothing in them says which kind they are.  Such a
string determines its id and its number, since a number has no colon (`joined_inj`), and a string
of one kind is one of the other kind for the same id and the same number.
-/
import GraftSupernode.AuthVotes
import GraftSupernode.SaleHandlers

namespace Request

variable {E : Externals}

/-- The string of which `signSaleStatusUpdate` and `buildBroadcastSaleStatusOutput` make a
signature. -/
def saleStatusMessage (paymentId : String) (status : ℤ) : String :=
  paymentId ++ ":" ++ toString status

/-- The string of which `signAuthResponse` makes the result signature. -/
def authResponseMessage (txId : String) (result : ℤ) : String := txId ++ ":" ++ toString result

/-- `signSaleStatusUpdate` -/
def signSaleStatusUpdate (u : Unspecified E.toCrypto) (paymentId : String) (status : ℤ)
    (supernode : Supernode E.toCrypto) : String :=
  E.signatureToHex (supernode.signMessage u 0 (saleStatusMessage paymentId status))

/-! ## Where the strings are used -/

/-- A status is broadcast with its signature. -/
theorem buildBroadcastSaleStatusOutput_body (u : Unspecified E.toCrypto) (paymentId : String)
    (status : ℤ) (supernode : Supernode E.toCrypto) (output : Output) :
    (buildBroadcastSaleStatusOutput u paymentId status supernode output).body =
      .broadcast
        { method := "broadcast"
          senderAddress := ""
          callbackUri := "/cryptonode/update_sale_status"
          data := E.loadUpdateSaleStatusBroadcastB64
            { paymentId := paymentId
              status := status
              idKey := supernode.idKeyAsString
              signature := signSaleStatusUpdate u paymentId status supernode } } := rfl

theorem checkSaleStatusUpdateSignature_iff {paymentId idKey signature : String} {status : ℤ} :
    checkSaleStatusUpdateSignature E paymentId status idKey signature = true ↔
      ∃ sign key, E.hexToSignature signature = some sign ∧ E.hexToPublicKey idKey = some key ∧
        Supernode.verifySignature E.toCrypto (saleStatusMessage paymentId status) key sign
          = true := by
  unfold checkSaleStatusUpdateSignature
  cases hsign : E.hexToSignature signature with
  | none => simp
  | some sign =>
    cases hkey : E.hexToPublicKey idKey with
    | none => simp
    | some key => simp [saleStatusMessage]

theorem signAuthResponse_resultSignature (u : Unspecified E.toCrypto)
    (arg : AuthorizeRtaTxResponse) (supernode : Supernode E.toCrypto) :
    (signAuthResponse u arg supernode).signature.resultSignature
      = E.signatureToHex (supernode.signMessage u 0 (authResponseMessage arg.txId arg.result)) :=
  rfl

/-- A vote is accepted only if its result signature is one of its string. -/
theorem verifies_of_validateAuthResponse {u : Unspecified E.toCrypto}
    {arg : AuthorizeRtaTxResponse} (h : validateAuthResponse u arg = true) :
    ∃ sign key, E.hexToSignature arg.signature.resultSignature = some sign ∧
      Supernode.verifySignature E.toCrypto (authResponseMessage arg.txId arg.result) key sign
        = true := by
  obtain ⟨sign, hsign, hcheck⟩ := (validateAuthResponse_iff.mp h).result
  exact ⟨sign, _, hsign, hcheck⟩

/-! ## An id, a colon and a number -/

theorem notMem_repr {c : Char} (hc : c.isDigit = false) (n : ℕ) : c ∉ (Nat.repr n).toList := by
  intro h
  rw [Nat.toList_repr] at h
  rw [Nat.isDigit_of_mem_toDigits (by decide) (by decide) h] at hc
  cases hc

/-- The text of a negative number. -/
theorem toList_toString_negSucc (n : ℕ) :
    (toString (Int.negSucc n)).toList = '-' :: (Nat.repr (n + 1)).toList :=
  String.toList_append

theorem colon_notMem_toString (n : ℤ) : ':' ∉ (toString n).toList := by
  cases n with
  | ofNat n => exact notMem_repr rfl n
  | negSucc n =>
    rw [toList_toString_negSucc, List.mem_cons]
    rintro (h | h)
    · revert h
      decide
    · exact notMem_repr rfl _ h

theorem eq_of_repr_eq {m n : ℕ} (h : (Nat.repr m).toList = (Nat.repr n).toList) : m = n := by
  rw [Nat.toList_repr, Nat.toList_repr] at h
  rw [← Nat.ofDigitChars_ten_toDigits (n := m), h, Nat.ofDigitChars_ten_toDigits]

/-- The text of a number determines it. -/
theorem eq_of_toString_eq {m n : ℤ} (h : (toString m).toList = (toString n).toList) : m = n := by
  cases m with
  | ofNat m =>
    cases n with
    | ofNat n => exact congrArg Int.ofNat (eq_of_repr_eq h)
    | negSucc n =>
      refine absurd ?_ (notMem_repr (c := '-') rfl m)
      show '-' ∈ (toString (Int.ofNat m)).toList
      rw [h, toList_toString_negSucc]
      exact List.mem_cons_self
  | negSucc m =>
    cases n with
    | ofNat n =>
      refine absurd ?_ (notMem_repr (c := '-') rfl n)
      show '-' ∈ (toString (Int.ofNat n)).toList
      rw [← h, toList_toString_negSucc]
      exact List.mem_cons_self
    | negSucc n =>
      rw [toList_toString_negSucc, toList_toString_negSucc] at h
      have hsucc := eq_of_repr_eq (List.cons.inj h).2
      exact congrArg Int.negSucc (Nat.succ.inj hsucc)

/-- Where the last separator stands is determined. -/
theorem append_cons_inj_right {α : Type*} {x : α} {a b c d : List α} (hc : x ∉ c) (hd : x ∉ d)
    (h : a ++ x :: c = b ++ x :: d) : a = b ∧ c = d := by
  rcases List.append_eq_append_iff.mp h with ⟨l, rfl, hrest⟩ | ⟨l, rfl, hrest⟩
  · cases l with
    | nil =>
      rw [List.nil_append, List.cons.injEq] at hrest
      exact ⟨(List.append_nil a).symm, hrest.2⟩
    | cons y l =>
      rw [List.cons_append, List.cons.injEq] at hrest
      refine absurd ?_ hc
      rw [hrest.2]
      exact List.mem_append_right _ List.mem_cons_self
  · cases l with
    | nil =>
      rw [List.nil_append, List.cons.injEq] at hrest
      exact ⟨List.append_nil b, hrest.2.symm⟩
    | cons y l =>
      rw [List.cons_append, List.cons.injEq] at hrest
      refine absurd ?_ hd
      rw [hrest.2]
      exact List.mem_append_right _ List.mem_cons_self

theorem joined_inj {a b : String} {m n : ℤ} :
    a ++ ":" ++ toString m = b ++ ":" ++ toString n ↔ a = b ∧ m = n := by
  constructor
  · intro h
    have hlist : a.toList ++ ':' :: (toString m).toList =
        b.toList ++ ':' :: (toString n).toList := by
      simpa using congrArg String.toList h
    obtain ⟨hid, hnumber⟩ := append_cons_inj_right (colon_notMem_toString m)
      (colon_notMem_toString n) hlist
    exact ⟨String.toList_inj.mp hid, eq_of_toString_eq hnumber⟩
  · rintro ⟨rfl, rfl⟩
    rfl

/-- **A signed string determines what was signed**, and is one of the other kind for the same id
and number only. -/
theorem signed_messages (paymentId paymentId' txId txId' : String)
    (status status' result result' : ℤ) :
    (saleStatusMessage paymentId status = saleStatusMessage paymentId' status' ↔
      paymentId = paymentId' ∧ status = status') ∧
    (authResponseMessage txId result = authResponseMessage txId' result' ↔
      txId = txId' ∧ result = result') ∧
    (saleStatusMessage paymentId status = authResponseMessage txId result ↔
      paymentId = txId ∧ status = result) :=
  ⟨joined_inj, joined_inj, joined_inj⟩

/-- A payment with the id of a transaction: that it is waiting is signed like a rejection of the
transaction. -/
theorem waiting_is_rejected :
    sampleTxId.toList.length = 64 ∧ (∀ c ∈ sampleTxId.toList, c ∈ "0123456789abcdef".toList) ∧
      saleStatusMessage sampleTxId RTAStatus.waiting.toInt
        = authResponseMessage sampleTxId rtaAuthResultRejected := by
  have hdigits : sampleTxId.toList = List.replicate 64 '1' := rfl
  refine ⟨by rw [hdigits, List.length_replicate], fun c hc => ?_, rfl⟩
  rw [hdigits] at hc
  rw [List.eq_of_mem_replicate hc]
  decide

end Request
