/-
# What a call does to the votes

The results about the votes of a transaction rest on one account of
`handleRtaAuthResponseMulticast`, given here for the uninterrupted handler on a plain
map (`lookup_handle` carries it to the table).

* `Accepts`: the checks a vote passes before it is stored;
* `run_of_accepts`: such a vote is put behind the votes stored for its transaction,
  and then the votes are counted;
* `run_of_not_accepts`: any other call changes nothing and answers with an error;
* `countVotes_cases`: what counting the votes can lead to.
-/
import GraftSupernode.AuthorizeRtaTx

open AtomicProgram GlobalContext

namespace Request

variable {E : Externals}

/-- What a handler sees of the global context. -/
abbrev Store (E : Externals) : Type := String → Option (Any E)

/-- The votes stored for a transaction; none are stored under an absent key. -/
def votesOf (f : Store E) (txId : String) : RtaAuthResult :=
  (((f (ContextKey.authResultByTxid.of txId)).bind Any.toAuthResult?).getD .empty)

/-- The vote a request carries. -/
def incomingVote (c : Call E) : Option AuthorizeRtaTxResponse :=
  (E.getMulticastRequest c.input).bind fun req => E.getAuthorizeRtaTxResponseB64 req.data

/-- The supernode is set up. -/
def SupernodeSet (f : Store E) : Prop := ∃ s, f contextKeySupernode = some (.supernode (some s))

/-! ## Signatures -/

/-- Both signatures of a vote verify under a key. -/
structure VerifiesUnder (E : Externals) (arg : AuthorizeRtaTxResponse) (key : E.PublicKey) :
    Prop where
  result : ∃ sign, E.hexToSignature arg.signature.resultSignature = some sign ∧
    E.checkSignature (E.cnFastHash (arg.txId ++ ":" ++ toString arg.result)) key sign = true
  tx : ∃ txId sign, E.hexToHash arg.txId = some txId ∧
    E.hexToSignature arg.signature.txSignature = some sign ∧
    E.checkSignature txId key sign = true

/-- `validateAuthResponse` checks both signatures under the key that the id decodes to,
and under an arbitrary key when it decodes to none. -/
theorem validateAuthResponse_iff {u : Unspecified E.toCrypto} {arg : AuthorizeRtaTxResponse} :
    validateAuthResponse u arg = true ↔
      VerifiesUnder E arg ((E.hexToPublicKey arg.signature.idKey).getD u.idKey) := by
  constructor
  · intro h
    unfold validateAuthResponse at h
    split at h
    · cases h
    rename_i signResult hresult
    split at h
    · cases h
    rename_i signTxId htx
    split at h
    · cases h
    rename_i txId hid
    obtain ⟨h1, h2⟩ := Bool.and_eq_true_iff.mp h
    exact ⟨⟨signResult, hresult, h1⟩, ⟨txId, signTxId, hid, htx, h2⟩⟩
  · rintro ⟨⟨signResult, hresult, h1⟩, ⟨txId, signTxId, hid, htx, h2⟩⟩
    simp only [validateAuthResponse, hresult, htx, hid]
    exact Bool.and_eq_true_iff.mpr ⟨h1, h2⟩

/-! ## Pushing a vote -/

namespace RtaAuthResult

variable {r : RtaAuthResult} {resp : AuthorizeRtaTxResponse}

/-- An approval comes behind the others. -/
theorem push_of_approved (h : resp.result = rtaAuthResultApproved) :
    r.push resp = ⟨r.approved ++ [resp.signature], r.rejected⟩ := by
  simp [push, h]

/-- A rejection comes behind the others. -/
theorem push_of_rejected (h : resp.result = rtaAuthResultRejected) :
    r.push resp = ⟨r.approved, r.rejected ++ [resp.signature]⟩ := by
  simp [push, h, rtaAuthResultApproved, rtaAuthResultRejected]

/-- The ids of all votes. -/
def voters (r : RtaAuthResult) : List String := (r.approved ++ r.rejected).map (·.idKey)

/-- The duplicate check compares the ids as strings. -/
theorem already_eq_false_iff {id : String} :
    (r.alreadyApproved id || r.alreadyRejected id) = false ↔ id ∉ r.voters := by
  simp [alreadyApproved, alreadyRejected, contains, voters]

end RtaAuthResult

/-! ## One call -/

/-- The vote `resp` passes the checks that come before it is stored. -/
structure Accepts (f : Store E) (c : Call E) (resp : AuthorizeRtaTxResponse)
    (supernode : Option (Supernode E.toCrypto)) (paymentId : String) : Prop where
  incoming : incomingVote c = some resp
  supernode : ((f contextKeySupernode).getD (.supernode none)).toSupernode? = some supernode
  verdict : resp.result = rtaAuthResultApproved ∨ resp.result = rtaAuthResultRejected
  known : ∃ v, f (ContextKey.paymentIdByTxid.of resp.txId) = some v ∧ v.toStr? = some paymentId
  valid : validateAuthResponse c.unspecified resp = true
  stored : ∀ v, f (ContextKey.authResultByTxid.of resp.txId) = some v → v.toAuthResult?.isSome
  fresh : resp.signature.idKey ∉ (votesOf f resp.txId).voters

namespace Handler

variable {f : Store E} {c : Call E} {resp : AuthorizeRtaTxResponse}
  {supernode : Option (Supernode E.toCrypto)} {paymentId : String}

/-- The store after the votes of a transaction have been replaced. -/
def setVotes (f : Store E) (txId : String) (r : RtaAuthResult) : Store E :=
  Function.update f (ContextKey.authResultByTxid.of txId) (some (.authResult r))

/-- A vote of a new voter is stored, and then the votes are counted. -/
theorem addVote_of_fresh {r : RtaAuthResult} (h : resp.signature.idKey ∉ r.voters) :
    (addVote c supernode paymentId resp r).run handleLookup f
      = (countVotes c supernode paymentId resp (r.push resp)).run handleLookup
          (setVotes f resp.txId (r.push resp)) := by
  simp only [addVote, RtaAuthResult.already_eq_false_iff.mpr h, Bool.false_eq_true, if_false,
    Prog.run_call]
  rfl

/-- The votes are read before the check for duplicates. -/
theorem reaches_addVote_of_stored
    (h : ∀ v, f (ContextKey.authResultByTxid.of resp.txId) = some v → v.toAuthResult?.isSome) :
    Prog.Reaches handleLookup (addVote c supernode paymentId resp (votesOf f resp.txId)) f
      (readVotes c supernode paymentId resp) f := by
  refine reaches_hasKey ?_
  cases hv : f (ContextKey.authResultByTxid.of resp.txId) with
  | none =>
    rw [Option.isSome_none, if_pos rfl, votesOf, hv]
    exact .refl
  | some v =>
    obtain ⟨r, hr⟩ := Option.isSome_iff_exists.mp (h v hv)
    rw [Option.isSome_some, if_neg (by simp), getVotes]
    refine reaches_get ?_
    simp only [hv, Option.getD_some, hr, votesOf, Option.bind_some]
    exact .refl

/-- **A vote that passes the checks** gets to the check for duplicates, and nothing is written
before. -/
theorem reaches_addVote (h : Accepts f c resp supernode paymentId) :
    Prog.Reaches handleLookup (addVote c supernode paymentId resp (votesOf f resp.txId)) f
      (handleRtaAuthResponseMulticast c) f := by
  obtain ⟨req, hreq, hresp⟩ := Option.bind_eq_some_iff.mp h.incoming
  obtain ⟨v, hv, hpaymentId⟩ := h.known
  have hverdict :
      ¬ (resp.result ≠ rtaAuthResultApproved ∧ resp.result ≠ rtaAuthResultRejected) := by
    have := h.verdict
    tauto
  simp only [handleRtaAuthResponseMulticast, hreq, hresp]
  refine reaches_get ?_
  simp only [h.supernode, if_neg hverdict, handleVote]
  refine reaches_hasKey ?_
  rw [hv, Option.isSome_some, if_neg (by simp)]
  refine reaches_get ?_
  simp only [hv, Option.getD_some, hpaymentId, h.valid, if_true]
  exact reaches_addVote_of_stored h.stored

/-- **An accepted vote** is put behind the stored votes, and the votes are counted. -/
theorem run_of_accepts (h : Accepts f c resp supernode paymentId) :
    (handleRtaAuthResponseMulticast c).run handleLookup f
      = (countVotes c supernode paymentId resp ((votesOf f resp.txId).push resp)).run handleLookup
          (setVotes f resp.txId ((votesOf f resp.txId).push resp)) := by
  rw [(reaches_addVote h).run_eq, addVote_of_fresh h.fresh]

/-- The handler changes nothing and answers with an error, or ends in a fault. -/
def Refuses (f : Store E) (p : Handler E) : Prop :=
  (p.run handleLookup f).2 = f ∧ ∀ r, (p.run handleLookup f).1 = .ok r → r.status = .error

/-- An error stores nothing and sends nothing. -/
theorem refuses_reply {output : Output} {l : Local E} :
    Refuses f (Handler.reply .error output l) :=
  ⟨rfl, fun r h => by cases h; rfl⟩

/-- A read changes nothing. -/
theorem refuses_hasKey {key : String} {k : Bool → Handler E} (h : Refuses f (k (f key).isSome)) :
    Refuses f (.call (.hasKey key) k) := h

@[inherit_doc refuses_hasKey]
theorem refuses_get {key : String} {d : Any E} {k : Any E → Handler E}
    (h : Refuses f (k ((f key).getD d))) : Refuses f (.call (.get key d) k) := h

/-- A vote is refused when the stored votes cannot be read, or its voter is among them. -/
theorem readVotes_refuses (h : ¬ ((∀ v, f (ContextKey.authResultByTxid.of resp.txId) = some v →
      v.toAuthResult?.isSome) ∧ resp.signature.idKey ∉ (votesOf f resp.txId).voters)) :
    Refuses f (readVotes c supernode paymentId resp) := by
  by_cases hstored : ∀ v, f (ContextKey.authResultByTxid.of resp.txId) = some v →
      v.toAuthResult?.isSome
  · have hold : (votesOf f resp.txId).alreadyApproved resp.signature.idKey ||
        (votesOf f resp.txId).alreadyRejected resp.signature.idKey := by
      rw [← Bool.not_eq_false, RtaAuthResult.already_eq_false_iff]
      tauto
    unfold Refuses
    rw [(reaches_addVote_of_stored hstored).run_eq, addVote, if_pos hold]
    exact refuses_reply
  · simp only [not_forall, Bool.not_eq_true, Option.isSome_eq_false_iff,
      Option.isNone_iff_eq_none] at hstored
    obtain ⟨v, hv, hr⟩ := hstored
    refine refuses_hasKey ?_
    simp only [hv, Option.isSome_some, Bool.true_eq_false, if_false]
    rw [getVotes]
    refine refuses_get ?_
    simp only [hv, Option.getD_some, hr]
    exact refuses_reply

/-- **A vote that is not accepted** changes nothing and is answered with an error. -/
theorem refuses_of_not_accepts
    (h : ∀ resp supernode paymentId, ¬ Accepts f c resp supernode paymentId) :
    Refuses f (handleRtaAuthResponseMulticast c) := by
  unfold handleRtaAuthResponseMulticast
  cases hreq : E.getMulticastRequest c.input with
  | none => exact refuses_reply
  | some req =>
    dsimp only
    cases hresp : E.getAuthorizeRtaTxResponseB64 req.data with
    | none => exact refuses_reply
    | some resp =>
      -- from here on the call reads the context, and each thing that it reads can be missing
      refine refuses_get ?_
      cases hsupernode : ((f contextKeySupernode).getD (.supernode none)).toSupernode? with
      | none => exact refuses_reply
      | some supernode =>
        dsimp only
        split
        · exact refuses_reply
        rename_i hverdict
        refine refuses_hasKey ?_
        split
        · exact refuses_reply
        rename_i hknown
        obtain ⟨v, hv⟩ := Option.isSome_iff_exists.mp (Bool.not_eq_false _ ▸ hknown)
        refine refuses_get ?_
        rw [hv, Option.getD_some]
        cases hpaymentId : v.toStr? with
        | none => exact refuses_reply
        | some paymentId =>
          dsimp only
          split
          · rename_i hvalid
            refine readVotes_refuses fun hrest => ?_
            exact h resp supernode paymentId
              { incoming := Option.bind_eq_some_iff.mpr ⟨req, hreq, hresp⟩
                supernode := hsupernode
                verdict := by tauto
                known := ⟨v, hv, hpaymentId⟩
                valid := hvalid
                stored := hrest.1
                fresh := hrest.2 }
          · exact refuses_reply

/-! ## Counting the votes -/

/-- The store after a payment has been rejected. -/
def failPayment (f : Store E) (paymentId : String) : Store E :=
  Function.update
    (Function.update f "handleRtaAuthResponseMulticast"
      (some (.authResponseState .statusBroadcastReply)))
    (ContextKey.status.of paymentId) (some (.int RTAStatus.fail.toInt))

/-- The handler forwards the transaction to the pool of the cryptonode. -/
def Pushes (txId : String) (out : Except Fault (Reply E)) : Prop :=
  ∃ r, out = .ok r ∧ r.status = .forward ∧ r.output.path = "/sendrawtransaction" ∧
    r.ctxLocal contextTxId = some (.str txId)

/-- The handler stores and broadcasts that a payment has failed. -/
def FailsPayment (paymentId : String) (c : Call E) (out : Except Fault (Reply E)) (f : Store E) :
    Prop :=
  f (ContextKey.status.of paymentId) = some (.int RTAStatus.fail.toInt) ∧
    ∃ r supernode, out = .ok r ∧ r.status = .forward ∧
      r.output = buildBroadcastSaleStatusOutput c.unspecified paymentId RTAStatus.fail.toInt
        supernode c.output

variable {r : RtaAuthResult}

/-- What counting the votes can lead to. -/
inductive Counted (f : Store E) (c : Call E) (supernode : Option (Supernode E.toCrypto))
    (paymentId : String) (resp : AuthorizeRtaTxResponse) (r : RtaAuthResult) :
    Except Fault (Reply E) × Store E → Prop
  | answered (status : StateMachine.Status) (output : Output) (l : Local E)
      (h : status ≠ .forward) : Counted f c supernode paymentId resp r (.ok ⟨status, output, l⟩, f)
  | rejected (h : rtaVotesToReject ≤ r.rejected.length) :
      Counted f c supernode paymentId resp r
        ((rejectPayment c supernode paymentId).run handleLookup f)
  | approved (v : Any E) (txAmount : ℕ) (hv : f (ContextKey.amountByTxId.of resp.txId) = some v)
      (hamount : v.toUInt64? = some txAmount) (hrejected : r.rejected = [])
      (h : rtaVotesToApprove E.coin txAmount ≤ r.approved.length) :
      Counted f c supernode paymentId resp r
        ((pushTx c supernode paymentId resp r).run handleLookup f)

/-- The count ends in one of these ways. -/
theorem countVotes_cases :
    Counted f c supernode paymentId resp r
      ((countVotes c supernode paymentId resp r).run handleLookup f) := by
  have hanswer : ∀ (status : StateMachine.Status) (output : Output) (l : Local E),
      status ≠ .forward →
      Counted f c supernode paymentId resp r ((reply status output l).run handleLookup f) :=
    Counted.answered
  rw [countVotes, run_hasKey]
  split
  · exact hanswer _ _ _ (by decide)
  rename_i hv
  rw [run_get]
  split
  · exact hanswer _ _ _ (by decide)
  rename_i txAmount hamount
  rw [run_hasKey]
  split
  · exact hanswer _ _ _ (by decide)
  split
  · rename_i hreject
    exact .rejected hreject
  rename_i hreject
  split
  · rename_i happrove
    obtain ⟨v, hv⟩ := Option.isSome_iff_exists.mp (Bool.not_eq_false _ ▸ hv)
    rw [hv] at hamount
    refine .approved v txAmount hv hamount ?_ happrove
    rw [rtaVotesToReject] at hreject
    exact List.length_eq_zero_iff.mp (by omega)
  · exact hanswer _ _ _ (by decide)

/-- A rejection fails the payment, and sends the status if there is a supernode to sign it. -/
theorem run_rejectPayment :
    (rejectPayment c supernode paymentId).run handleLookup f
      = (match supernode with
          | none => .error .nullPointer
          | some s => .ok ⟨.forward, buildBroadcastSaleStatusOutput c.unspecified paymentId
              RTAStatus.fail.toInt s c.output, c.ctxLocal.set "payment_id" (.str paymentId)⟩,
        failPayment f paymentId) := by
  cases supernode <;> rfl

/-- An approval stores nothing. -/
theorem run_pushTx_store : ((pushTx c supernode paymentId resp r).run handleLookup f).2 = f := by
  rw [pushTx, run_get]
  split
  · rfl
  · cases supernode <;> rfl

/-- Counting the votes leaves the store alone, or fails the payment. -/
theorem countVotes_store :
    ((countVotes c supernode paymentId resp r).run handleLookup f).2 = f ∨
      ((countVotes c supernode paymentId resp r).run handleLookup f).2
        = failPayment f paymentId := by
  generalize hout : (countVotes c supernode paymentId resp r).run handleLookup f = out
  cases hout ▸ countVotes_cases (f := f) with
  | answered => exact .inl rfl
  | rejected => rw [run_rejectPayment]; exact .inr rfl
  | approved => exact .inl run_pushTx_store

/-- The id of the transaction that is pushed is in the local context. -/
theorem of_pushTx_pushes {txId : String}
    (h : Pushes txId ((pushTx c supernode paymentId resp r).run handleLookup f).1) :
    txId = resp.txId ∧ supernode ≠ none := by
  obtain ⟨out, hout, hstatus, -, hlocal⟩ := h
  rw [pushTx, run_get] at hout
  split at hout
  · cases hout; cases hstatus
  · cases supernode with
    | none => cases hout
    | some s =>
      cases hout
      exact ⟨by simpa [Local.set, contextTxId, eq_comm] using hlocal, Option.some_ne_none s⟩

/-- A transaction is pushed only when enough votes approve it and none rejects it. -/
theorem of_countVotes_pushes {txId : String}
    (h : Pushes txId ((countVotes c supernode paymentId resp r).run handleLookup f).1) :
    (txId = resp.txId ∧ supernode ≠ none) ∧ r.rejected = [] ∧
      ∃ v txAmount, f (ContextKey.amountByTxId.of resp.txId) = some v ∧
        v.toUInt64? = some txAmount ∧ rtaVotesToApprove E.coin txAmount ≤ r.approved.length := by
  generalize hrun : (countVotes c supernode paymentId resp r).run handleLookup f = out at h
  cases hrun ▸ countVotes_cases (f := f) with
  | answered _ _ _ hstatus =>
    obtain ⟨out, hout, hforward, -⟩ := h
    cases hout
    exact absurd hforward hstatus
  | rejected =>
    rw [run_rejectPayment] at h
    obtain ⟨out, hout, -, hpath, -⟩ := h
    cases supernode <;> cases hout
    exact absurd hpath (by decide : "/json_rpc/rta" ≠ "/sendrawtransaction")
  | approved v txAmount hv hamount hrejected happroved =>
    exact ⟨of_pushTx_pushes h, hrejected, v, txAmount, hv, hamount, happroved⟩

end Handler

/-! ## The votes after a call -/

section votes

variable {f : Store E} {txId : String}

/-- The votes that are stored are there. -/
@[simp] theorem votesOf_setVotes (r : RtaAuthResult) :
    votesOf (Handler.setVotes f txId r) txId = r := by
  simp [votesOf, Handler.setVotes, Any.toAuthResult?]

/-- The votes of the other transactions stay. -/
theorem votesOf_setVotes_of_ne {txId' : String} (h : txId ≠ txId') (r : RtaAuthResult) :
    votesOf (Handler.setVotes f txId' r) txId = votesOf f txId := by
  simp [votesOf, Handler.setVotes, h]

/-- Counting changes no key of the transaction. -/
theorem countVotes_of_key {c : Call E} {resp : AuthorizeRtaTxResponse}
    {supernode : Option (Supernode E.toCrypto)} {paymentId : String} {r : RtaAuthResult}
    {k : ContextKey} (hk : k ≠ .status) (id : String) :
    ((Handler.countVotes c supernode paymentId resp r).run handleLookup f).2 (k.of id)
      = f (k.of id) := by
  have hname : k.of id ≠ "handleRtaAuthResponseMulticast" := ContextKey.of_ne (by decide)
  rcases Handler.countVotes_store (f := f) with h | h <;> rw [h]
  simp [Handler.failPayment, hk, hname]

/-- A call leaves the supernode alone. -/
theorem run_supernode (c : Call E) :
    ((Handler.handleRtaAuthResponseMulticast c).run handleLookup f).2 contextKeySupernode
      = f contextKeySupernode := by
  by_cases hacc : ∃ resp supernode paymentId, Accepts f c resp supernode paymentId
  · obtain ⟨resp, supernode, paymentId, hacc⟩ := hacc
    have hkey : ∀ (k : ContextKey) (id : String), contextKeySupernode ≠ k.of id :=
      fun k id => (ContextKey.of_ne (by decide)).symm
    have hname : contextKeySupernode ≠ "handleRtaAuthResponseMulticast" := by decide
    rw [Handler.run_of_accepts hacc]
    rcases Handler.countVotes_store (f := Handler.setVotes f resp.txId _) with h | h <;> rw [h] <;>
      simp [Handler.setVotes, Handler.failPayment, hkey, hname]
  · push Not at hacc
    rw [(Handler.refuses_of_not_accepts hacc).1]

/-- Only a supernode that is set up pushes a transaction. -/
theorem SupernodeSet.of_pushes {c : Call E}
    (h : Handler.Pushes txId ((Handler.handleRtaAuthResponseMulticast c).run handleLookup f).1) :
    SupernodeSet f := by
  by_cases hacc : ∃ resp supernode paymentId, Accepts f c resp supernode paymentId
  · obtain ⟨resp, supernode, paymentId, hacc⟩ := hacc
    rw [Handler.run_of_accepts hacc] at h
    obtain ⟨s, rfl⟩ := Option.ne_none_iff_exists'.mp (Handler.of_countVotes_pushes h).1.2
    have hsupernode := hacc.supernode
    cases hv : f contextKeySupernode with
    | none => rw [hv] at hsupernode; cases hsupernode
    | some v =>
      rw [hv, Option.getD_some] at hsupernode
      cases v <;> cases hsupernode
      exact ⟨s, hv⟩
  · push Not at hacc
    obtain ⟨r, hr, hforward, -⟩ := h
    rw [(Handler.refuses_of_not_accepts hacc).2 r hr] at hforward
    cases hforward

/-- The votes after a call: the accepted vote is put behind those of its transaction. -/
theorem votesOf_run_of_accepts {c : Call E} {resp : AuthorizeRtaTxResponse}
    {supernode : Option (Supernode E.toCrypto)} {paymentId : String}
    (h : Accepts f c resp supernode paymentId) :
    votesOf ((Handler.handleRtaAuthResponseMulticast c).run handleLookup f).2 txId
      = if txId = resp.txId then (votesOf f txId).push resp else votesOf f txId := by
  rw [Handler.run_of_accepts h]
  have hcount : ∀ g : Store E, votesOf ((Handler.countVotes c supernode paymentId resp
      ((votesOf f resp.txId).push resp)).run handleLookup g).2 txId = votesOf g txId := by
    intro g
    rw [votesOf, countVotes_of_key (by decide), votesOf]
  rw [hcount]
  split
  · rename_i htx
    subst htx
    exact votesOf_setVotes _
  · rename_i htx
    exact votesOf_setVotes_of_ne htx _

end votes

/-! ## The keys the handler names -/

/-- The keys that counting the votes names. -/
def CountKey (key : String) : Prop :=
  key = "handleRtaAuthResponseMulticast" ∨
    ∃ (k : ContextKey) (id : String), k ≠ .authResultByTxid ∧ key = k.of id

/-- The keys that handling a vote names. -/
def VoteKey (key : String) : Prop :=
  key = contextKeySupernode ∨ CountKey key ∨ ∃ id, key = ContextKey.authResultByTxid.of id

/-- A key of another kind is one that the count uses. -/
theorem countKey_of {k : ContextKey} (hk : k ≠ .authResultByTxid) (id : String) :
    CountKey (k.of id) := .inr ⟨k, id, hk, rfl⟩

/-- The count does not use the votes. -/
theorem CountKey.ne_of {key : String} (h : CountKey key) (id : String) :
    key ≠ ContextKey.authResultByTxid.of id := by
  rcases h with rfl | ⟨k, id', hk, rfl⟩
  · exact (ContextKey.of_ne (by decide)).symm
  · simp [hk]

/-- The handler of a vote does not use the list of supernodes. -/
theorem VoteKey.ne_fsl {key : String} (h : VoteKey key) : key ≠ contextKeyFullSupernodeList := by
  rcases h with rfl | (rfl | ⟨k, id, -, rfl⟩) | ⟨id, rfl⟩
  · decide
  · decide
  · exact ContextKey.of_ne (by decide)
  · exact ContextKey.of_ne (by decide)

namespace Handler

variable {c : Call E} {supernode : Option (Supernode E.toCrypto)} {paymentId : String}
  {resp : AuthorizeRtaTxResponse} {r : RtaAuthResult}

/-- An approval uses none of the votes that are stored. -/
theorem every_pushTx : (pushTx c supernode paymentId resp r).Every fun o => CountKey o.key := by
  refine every_get (countKey_of (by decide) _) fun v => ?_
  split
  · trivial
  · cases supernode <;> trivial

/-- A rejection uses none of the votes that are stored. -/
theorem every_rejectPayment :
    (rejectPayment c supernode paymentId).Every fun o => CountKey o.key := by
  refine every_set (.inl rfl) (every_set (countKey_of (by decide) _) ?_)
  cases supernode <;> trivial

/-- The count uses none of the votes that are stored. -/
theorem every_countVotes :
    (countVotes c supernode paymentId resp r).Every fun o => CountKey o.key := by
  refine every_hasKey (countKey_of (by decide) _) fun hasAmount => ?_
  split
  · trivial
  refine every_get (countKey_of (by decide) _) fun v => ?_
  split
  · trivial
  refine every_hasKey (countKey_of (by decide) _) fun hasTx => ?_
  split
  · trivial
  split
  · exact every_rejectPayment
  split
  · exact every_pushTx
  · trivial

/-- To add a vote, the stored votes and what the count uses are enough. -/
theorem every_addVote : (addVote c supernode paymentId resp r).Every fun o => VoteKey o.key := by
  rw [addVote]
  split
  · trivial
  · exact every_set (.inr (.inr ⟨_, rfl⟩)) (every_countVotes.mono fun o h => .inr (.inl h))

/-- To get the votes, the stored votes and what the count uses are enough. -/
theorem every_getVotes : (getVotes c supernode paymentId resp).Every fun o => VoteKey o.key := by
  refine every_get (.inr (.inr ⟨_, rfl⟩)) fun v => ?_
  split
  · trivial
  · exact every_addVote

/-- To read the votes, the stored votes and what the count uses are enough. -/
theorem every_readVotes : (readVotes c supernode paymentId resp).Every fun o => VoteKey o.key := by
  refine every_hasKey (.inr (.inr ⟨_, rfl⟩)) fun stored => ?_
  split
  · exact every_addVote
  · exact every_getVotes

/-- The handler of a vote uses the supernode, the votes and what the count uses. -/
theorem every_handleRtaAuthResponseMulticast (c : Call E) :
    (handleRtaAuthResponseMulticast c).Every fun o => VoteKey o.key := by
  have hpaymentId : ∀ id, VoteKey (ContextKey.paymentIdByTxid.of id) :=
    fun id => .inr (.inl (countKey_of (by decide) id))
  rw [handleRtaAuthResponseMulticast]
  split
  · trivial
  split
  · trivial
  refine every_get (.inl rfl) fun v => ?_
  split
  · trivial
  split
  · trivial
  refine every_hasKey (hpaymentId _) fun known => ?_
  split
  · trivial
  refine every_get (hpaymentId _) fun v => ?_
  split
  · trivial
  split
  · exact every_readVotes
  · trivial

end Handler

/-! ## The tally -/

/-- The votes that are stored after `votes` have been accepted. -/
def tally (r : RtaAuthResult) (votes : List AuthorizeRtaTxResponse) : RtaAuthResult :=
  votes.foldl RtaAuthResult.push r

/-- Without a vote nothing changes. -/
@[simp] theorem tally_nil (r : RtaAuthResult) : tally r [] = r := rfl

/-- The first vote is added first. -/
@[simp] theorem tally_cons (r : RtaAuthResult) (v : AuthorizeRtaTxResponse)
    (votes : List AuthorizeRtaTxResponse) : tally r (v :: votes) = tally (r.push v) votes := rfl

/-- A vote is an approval or a rejection. -/
def IsVerdict (v : AuthorizeRtaTxResponse) : Prop :=
  v.result = rtaAuthResultApproved ∨ v.result = rtaAuthResultRejected

/-- No verdict is both. -/
theorem not_approved_of_rejected {v : AuthorizeRtaTxResponse}
    (h : v.result = rtaAuthResultRejected) :
    v.result ≠ rtaAuthResultApproved := by
  rw [h]
  decide

/-- Approvals are all counted as such. -/
theorem length_tally_approved {r : RtaAuthResult} {votes : List AuthorizeRtaTxResponse}
    (h : ∀ v ∈ votes, v.result = rtaAuthResultApproved) :
    (tally r votes).approved.length = r.approved.length + votes.length := by
  induction votes generalizing r with
  | nil => rfl
  | cons v votes ih =>
    rw [tally_cons, ih fun w hw => h w (List.mem_cons_of_mem _ hw),
      RtaAuthResult.push_of_approved (h v List.mem_cons_self)]
    simp only [List.length_append, List.length_cons, List.length_nil]
    omega

/-- Nobody has rejected when all have approved. -/
theorem tally_rejected_eq_nil_iff {r : RtaAuthResult} {votes : List AuthorizeRtaTxResponse}
    (h : ∀ v ∈ votes, IsVerdict v) :
    (tally r votes).rejected = [] ↔
      r.rejected = [] ∧ ∀ v ∈ votes, v.result = rtaAuthResultApproved := by
  induction votes generalizing r with
  | nil => simp
  | cons v votes ih =>
    rw [tally_cons, ih fun w hw => h w (List.mem_cons_of_mem _ hw), List.forall_mem_cons]
    rcases h v List.mem_cons_self with hv | hv
    · simp [RtaAuthResult.push_of_approved hv, hv]
    · simp [RtaAuthResult.push_of_rejected hv, not_approved_of_rejected hv]

/-- The voters of a vote that is pushed are those before and its own. -/
theorem mem_voters_push {r : RtaAuthResult} {v : AuthorizeRtaTxResponse} {id : String} :
    id ∈ (r.push v).voters ↔ id ∈ r.voters ∨ id = v.signature.idKey := by
  unfold RtaAuthResult.push RtaAuthResult.voters
  split <;>
  · simp only [List.map_append, List.mem_append, List.map_cons, List.map_nil, List.mem_singleton]
    tauto

/-! ## Votes for a transaction that is stored -/

/-- The payment id, the amount and the transaction are stored under a tx id. -/
structure TxStored (f : Store E) (txId paymentId : String) (txAmount : ℕ) : Prop where
  paymentId : f (ContextKey.paymentIdByTxid.of txId) = some (.str paymentId)
  amount : f (ContextKey.amountByTxId.of txId) = some (.uint64 txAmount)
  tx : ∃ tx, f (ContextKey.txByTxid.of txId) = some (.transaction tx)

/-- The votes `r` are stored under a tx id. -/
def HasVotes (f : Store E) (txId : String) (r : RtaAuthResult) : Prop :=
  f (ContextKey.authResultByTxid.of txId) = some (.authResult r) ∨
    f (ContextKey.authResultByTxid.of txId) = none ∧ r = .empty

/-- The call carries a valid vote for a transaction. -/
structure ValidVote (c : Call E) (txId : String) (resp : AuthorizeRtaTxResponse) : Prop where
  incoming : incomingVote c = some resp
  txId : resp.txId = txId
  verdict : resp.result = rtaAuthResultApproved ∨ resp.result = rtaAuthResultRejected
  valid : validateAuthResponse c.unspecified resp = true

/-- The stored votes are those that are read. -/
theorem HasVotes.votesOf_eq {f : Store E} {txId : String} {r : RtaAuthResult}
    (h : HasVotes f txId r) : votesOf f txId = r := by
  rcases h with h | ⟨h, rfl⟩ <;> simp [votesOf, h, Any.toAuthResult?]

section stored

variable {f : Store E} {txId paymentId : String} {txAmount : ℕ} {r : RtaAuthResult} {c : Call E}
  {resp : AuthorizeRtaTxResponse}

/-- A valid vote of a new voter is accepted. -/
theorem ValidVote.accepts (hc : ValidVote c txId resp) (hf : TxStored f txId paymentId txAmount)
    (hr : HasVotes f txId r) (hfresh : resp.signature.idKey ∉ r.voters)
    {s : Option (Supernode E.toCrypto)} (hs : f contextKeySupernode = some (.supernode s)) :
    Accepts f c resp s paymentId := by
  have htx := hc.txId
  subst htx
  refine
    { incoming := hc.incoming
      supernode := by simp [hs, Any.toSupernode?]
      verdict := hc.verdict
      known := ⟨_, hf.paymentId, rfl⟩
      valid := hc.valid
      stored := fun v hv => ?_
      fresh := hr.votesOf_eq ▸ hfresh }
  rcases hr with hr | ⟨hr, -⟩ <;> rw [hr] at hv <;> cases hv
  rfl

/-- The votes of any transaction leave the transaction and its amount. -/
theorem TxStored.setVotes (hf : TxStored f txId paymentId txAmount) (txId' : String)
    (r : RtaAuthResult) : TxStored (Handler.setVotes f txId' r) txId paymentId txAmount :=
  ⟨by simp [Handler.setVotes, hf.paymentId], by simp [Handler.setVotes, hf.amount],
    by simpa [Handler.setVotes] using hf.tx⟩

/-- Counting the votes of a stored transaction: it is rejected when a rejection is stored, and
else pushed when enough approvals are. -/
theorem TxStored.run_countVotes (hf : TxStored f txId paymentId txAmount)
    (htx : resp.txId = txId) {supernode : Option (Supernode E.toCrypto)} :
    (Handler.countVotes c supernode paymentId resp r).run handleLookup f
      = (if r.rejected ≠ [] then Handler.rejectPayment c supernode paymentId
          else if rtaVotesToApprove E.coin txAmount ≤ r.approved.length then
            Handler.pushTx c supernode paymentId resp r
          else Handler.reply .ok (c.output.load (.resultJsonRpc 0))
            (c.ctxLocal.set "payment_id" (.str paymentId))).run handleLookup f := by
  subst htx
  obtain ⟨tx, htx⟩ := hf.tx
  have hreject : rtaVotesToReject ≤ r.rejected.length ↔ r.rejected ≠ [] := by
    rw [rtaVotesToReject, Nat.one_le_iff_ne_zero, Ne, List.length_eq_zero_iff]
  rw [Handler.countVotes, run_hasKey, hf.amount, if_neg (by simp), run_get, hf.amount]
  simp only [Option.getD_some, Any.toUInt64?]
  rw [run_hasKey, htx, if_neg (by simp), if_congr hreject rfl rfl]

/-- The context in which the votes of a transaction are handled: it is stored, so are the votes
`r`, and the supernode is set up. -/
structure VotesReady (f : Store E) (txId paymentId : String) (txAmount : ℕ) (r : RtaAuthResult) :
    Prop where
  tx : TxStored f txId paymentId txAmount
  votes : HasVotes f txId r
  supernode : SupernodeSet f

/-- The votes may be replaced, and the next vote is counted as well. -/
theorem VotesReady.setVotes (h : VotesReady f txId paymentId txAmount r) (r' : RtaAuthResult) :
    VotesReady (Handler.setVotes f txId r') txId paymentId txAmount r' := by
  obtain ⟨s, hs⟩ := h.supernode
  refine ⟨h.tx.setVotes txId r', .inl (by simp [Handler.setVotes]), s, ?_⟩
  have hne : contextKeySupernode ≠ ContextKey.authResultByTxid.of txId :=
    (ContextKey.of_ne (by decide)).symm
  rw [Handler.setVotes, Function.update_of_ne hne, hs]

/-- A name without a colon, other than that of the supernode, matters to no vote. -/
theorem VotesReady.update (h : VotesReady f txId paymentId txAmount r) {name : String}
    (hcolon : ':' ∉ name.toList) (hname : name ≠ contextKeySupernode) (v : Option (Any E)) :
    VotesReady (Function.update f name v) txId paymentId txAmount r := by
  have hkey : ∀ k : ContextKey, Function.update f name v (k.of txId) = f (k.of txId) :=
    fun k => Function.update_of_ne (ContextKey.of_ne hcolon) _ _
  obtain ⟨s, hs⟩ := h.supernode
  refine ⟨⟨?_, ?_, ?_⟩, ?_, s, ?_⟩
  · rw [hkey, h.tx.paymentId]
  · rw [hkey, h.tx.amount]
  · rw [hkey]; exact h.tx.tx
  · rw [HasVotes, hkey]; exact h.votes
  · rw [Function.update_of_ne hname.symm, hs]

/-- Nor does the status of a payment. -/
theorem VotesReady.update_status (h : VotesReady f txId paymentId txAmount r) (payment : String)
    (v : Option (Any E)) :
    VotesReady (Function.update f (ContextKey.status.of payment) v) txId paymentId txAmount r := by
  obtain ⟨s, hs⟩ := h.supernode
  refine ⟨⟨?_, ?_, ?_⟩, ?_, s, ?_⟩
  · simp [h.tx.paymentId]
  · simp [h.tx.amount]
  · simpa using h.tx.tx
  · simpa [HasVotes] using h.votes
  · have hne : contextKeySupernode ≠ ContextKey.status.of payment :=
      (ContextKey.of_ne (by decide)).symm
    rw [Function.update_of_ne hne, hs]

/-- A failed payment leaves the votes, the transaction and its amount. -/
theorem VotesReady.failPayment (h : VotesReady f txId paymentId txAmount r) (payment : String) :
    VotesReady (Handler.failPayment f payment) txId paymentId txAmount r :=
  (h.update (by decide) (by decide) _).update_status payment _

/-- Counting the votes changes nothing of this. -/
theorem VotesReady.countVotes (h : VotesReady f txId paymentId txAmount r)
    {supernode : Option (Supernode E.toCrypto)} {payment : String} {r' : RtaAuthResult} :
    VotesReady ((Handler.countVotes c supernode payment resp r').run handleLookup f).2
      txId paymentId txAmount r := by
  rcases Handler.countVotes_store (f := f) with hstore | hstore <;> rw [hstore]
  · exact h
  · exact h.failPayment payment

/-- Enough approvals and no rejection. -/
def RtaAuthResult.Approves (r : RtaAuthResult) (coin txAmount : ℕ) : Prop :=
  r.rejected = [] ∧ rtaVotesToApprove coin txAmount ≤ r.approved.length

/-- **A valid vote of a new voter**: it is stored, and the votes decide what is done. -/
theorem VotesReady.run (h : VotesReady f txId paymentId txAmount r) (hc : ValidVote c txId resp)
    (hfresh : resp.signature.idKey ∉ r.voters) :
    let out := (Handler.handleRtaAuthResponseMulticast c).run handleLookup f
    VotesReady out.2 txId paymentId txAmount (r.push resp) ∧
      (Handler.Pushes txId out.1 ↔ (r.push resp).Approves E.coin txAmount) ∧
      (Handler.FailsPayment paymentId c out.1 out.2 ↔ (r.push resp).rejected ≠ []) := by
  obtain ⟨s, hs⟩ := h.supernode
  have hready := h.setVotes (r.push resp)
  have hrun := Handler.run_of_accepts (hc.accepts h.tx h.votes hfresh hs)
  rw [hc.txId, h.votes.votesOf_eq, hready.tx.run_countVotes hc.txId] at hrun
  dsimp only
  rw [hrun]
  split
  · -- the votes reject: the payment fails
    rename_i hreject
    rw [Handler.run_rejectPayment]
    refine ⟨hready.failPayment paymentId, ⟨?_, fun hr => absurd hr.1 hreject⟩, fun _ => hreject,
      fun _ => ⟨by simp [Handler.failPayment], _, s, rfl, rfl, rfl⟩⟩
    rintro ⟨out, hout, -, hpath, -⟩
    cases hout
    exact absurd hpath (by decide : "/json_rpc/rta" ≠ "/sendrawtransaction")
  · rename_i hreject
    rw [not_not] at hreject
    split
    · -- the votes approve: the transaction is pushed
      rename_i happrove
      obtain ⟨tx, htx⟩ := hready.tx.tx
      have hpush : ((Handler.pushTx c (some s) paymentId resp (r.push resp)).run handleLookup
          (Handler.setVotes f txId (r.push resp))).1 = .ok
            ⟨.forward, { c.output.load (.sendRawTx ⟨E.txToHex tx, false⟩) with
              path := "/sendrawtransaction" },
              ((c.ctxLocal.set "payment_id" (.str paymentId)).set contextTxId (.str txId)).set
                "handleRtaAuthResponseMulticast" (.authResponseState .transactionPushReply)⟩ := by
        rw [Handler.pushTx, run_get, hc.txId, htx]
        rfl
      rw [Handler.run_pushTx_store]
      refine ⟨hready, ⟨fun _ => ⟨hreject, happrove⟩, fun _ => ⟨_, hpush, rfl, rfl, ?_⟩⟩, ?_,
        fun h => absurd hreject h⟩
      · simp [Local.set, contextTxId]
      · rintro ⟨-, out, s', hout, -, houtput⟩
        rw [hpush] at hout
        cases hout
        exact absurd (congrArg Output.path houtput)
          (by decide : "/sendrawtransaction" ≠ "/json_rpc/rta")
    · -- neither: the reply is only an acknowledgement
      rename_i happrove
      refine ⟨hready, ⟨?_, fun hr => absurd hr.2 happrove⟩, ?_, fun h => absurd hreject h⟩
      · rintro ⟨out, hout, hstatus, -⟩
        cases hout
        cases hstatus
      · rintro ⟨-, out, s', hout, hstatus, -⟩
        cases hout
        cases hstatus

end stored

/-! ## A concrete instance

Keys and signatures are lists of hex digits, and a signature is valid when it repeats
the key.  The text of a vote is a letter for the verdict and the id of the voter. -/

/-- The value of a hex digit, in either letter case. -/
def hexDigit (c : Char) : Option ℕ :=
  if '0' ≤ c ∧ c ≤ '9' then some (c.toNat - '0'.toNat)
  else if 'a' ≤ c ∧ c ≤ 'f' then some (c.toNat - 'a'.toNat + 10)
  else if 'A' ≤ c ∧ c ≤ 'F' then some (c.toNat - 'A'.toNat + 10)
  else none

/-- `hex_to_pod` for a type of the given size. -/
def hexToPod (bytes : ℕ) (s : String) : Option (List ℕ) :=
  if s.toList.length = 2 * bytes then s.toList.mapM hexDigit else none

/-- `pod_to_hex` -/
def podToHex (digits : List ℕ) : String := String.ofList (digits.map Nat.digitChar)

def sampleTxId : String := "1111111111111111111111111111111111111111111111111111111111111111"

/-- Four ids of three keys: the first two are spellings of one key. -/
def lowerId : String := "abababababababababababababababababababababababababababababababab"

@[inherit_doc lowerId]
def upperId : String := "ABABABABABABABABABABABABABABABABABABABABABABABABABABABABABABABAB"

@[inherit_doc lowerId]
def otherId : String := "cdcdcdcdcdcdcdcdcdcdcdcdcdcdcdcdcdcdcdcdcdcdcdcdcdcdcdcdcdcdcdcd"

@[inherit_doc lowerId]
def thirdId : String := "efefefefefefefefefefefefefefefefefefefefefefefefefefefefefefefef"

def sampleVote (result : ℤ) (id : String) : AuthorizeRtaTxResponse :=
  ⟨sampleTxId, result, ⟨id, id ++ id, id ++ id⟩⟩

def sampleExternals : Externals where
  PublicKey := List ℕ
  SecretKey := List ℕ
  Signature := List ℕ
  Hash := List ℕ
  Nonce := Unit
  hexToPublicKey := hexToPod 32
  publicKeyToHex := podToHex
  hexToSignature := hexToPod 64
  signatureToHex := podToHex
  hexToHash := hexToPod 32
  hashToHex := podToHex
  cnFastHash msg := msg.toList.map Char.toNat
  generateSignature _ _ _ secretKey := secretKey ++ secretKey
  checkSignature _ key sign := sign == key ++ key
  Transaction := String
  noTransaction := ""
  parseTx txHex := some (txHex, txHex.toList.map Char.toNat)
  isRtaTx _ := true
  txToHex tx := tx
  coin := 10000000000
  getMulticastRequest s := some ⟨"multicast", "", [], "", s⟩
  getBroadcastRequest s := some ⟨"broadcast", "", "", s⟩
  getMulticastResponse _ := some ⟨0, 0⟩
  getBroadcastResponse _ := some ⟨0, 0⟩
  getSendRawTxResponse _ := some ⟨"OK", false⟩
  getSaleRequest s := some ⟨"", "", s, 1⟩
  getRejectRequest s := some s
  getAuthorizeRtaTxRequestB64 s := some ⟨s, "payment", 1⟩
  getAuthorizeRtaTxResponseB64 s :=
    match s.toList with
    | 'A' :: id => some (sampleVote rtaAuthResultApproved (String.ofList id))
    | 'R' :: id => some (sampleVote rtaAuthResultRejected (String.ofList id))
    | _ => none
  getSaleDataMulticastB64 s := some ⟨⟨"", 0, 1⟩, s, RTAStatus.waiting.toInt, ""⟩
  getUpdateSaleStatusBroadcastB64 s :=
    some ⟨s, RTAStatus.success.toInt, lowerId, lowerId ++ lowerId⟩
  loadAuthorizeRtaTxResponseB64 arg := arg.txId
  loadSaleDataMulticastB64 arg := arg.paymentId
  loadUpdateSaleStatusBroadcastB64 arg := arg.paymentId

def sampleSupernode : Supernode sampleExternals.toCrypto := ⟨[], some [], 0, true⟩

/-- The supernode is set up and a transaction of one coin is stored. -/
def sampleStore : Store sampleExternals :=
  Function.update (Function.update (Function.update (Function.update (fun _ => none)
    contextKeySupernode (some (.supernode (some sampleSupernode))))
    (ContextKey.paymentIdByTxid.of sampleTxId) (some (.str "payment")))
    (ContextKey.amountByTxId.of sampleTxId) (some (.uint64 10000000000)))
    (ContextKey.txByTxid.of sampleTxId) (some (.transaction "tx"))

/-- The table that shows `sampleStore`, with the `ttl` of its entries. -/
def sampleContext : GlobalContextMap (Any sampleExternals) :=
  ⟨0, fun key => (sampleStore key).map fun v => ⟨v, rtaTxTtl, some rtaTxTtl⟩⟩

def sampleCall (input : String) : Call sampleExternals :=
  ⟨input, ⟨.empty, ""⟩, fun _ => none, ⟨[], [], [], fun _ => ()⟩⟩

/-- The table of the sample shows its store. -/
theorem lookup_sampleContext : sampleContext.lookup = sampleStore := by
  funext key
  simp [GlobalContextMap.lookup, sampleContext, Option.map_map, Function.comp_def]

/-- The sample is ready for votes. -/
theorem sampleStore_ready :
    VotesReady sampleStore sampleTxId "payment" 10000000000 .empty := by
  have hname : ∀ k : ContextKey, contextKeySupernode ≠ k.of sampleTxId :=
    fun k => (ContextKey.of_ne (by decide)).symm
  refine ⟨⟨?_, ?_, "tx", ?_⟩, .inr ⟨?_, rfl⟩, sampleSupernode, ?_⟩
  · simp [sampleStore]
  · simp [sampleStore]
  · simp [sampleStore]
  · simp [sampleStore, (hname _).symm]
  · simp [sampleStore, hname]

/-- Twice the digits are twice the bytes. -/
theorem hexToPod_append {n : ℕ} {id : String} {key : List ℕ} (h : hexToPod n id = some key) :
    hexToPod (2 * n) (id ++ id) = some (key ++ key) := by
  unfold hexToPod at h ⊢
  split at h
  · rename_i hlen
    rw [if_pos (by simp [hlen]; omega), String.toList_append, List.mapM_append, h]
    rfl
  · cases h

/-- The signature of a sample vote is read as its key twice. -/
theorem sampleExternals_hexToSignature {id : String} {key : List ℕ}
    (h : hexToPod 32 id = some key) :
    sampleExternals.hexToSignature (id ++ id) = some (key ++ key) := hexToPod_append h

/-- The signature of a sample vote is valid. -/
theorem sampleExternals_checkSignature (hash key : List ℕ) :
    sampleExternals.checkSignature hash key (key ++ key) = true := beq_self_eq_true _

/-- The signatures that `sampleVote` carries are valid. -/
theorem sampleVote_valid {id : String} {key : List ℕ} (h : hexToPod 32 id = some key) (result : ℤ)
    (u : Unspecified sampleExternals.toCrypto) :
    validateAuthResponse u (sampleVote result id) = true := by
  have hsign := sampleExternals_hexToSignature h
  have hkey : sampleExternals.hexToPublicKey id = some key := h
  have htxId : sampleExternals.hexToHash sampleTxId = some (List.replicate 64 1) := by
    show hexToPod 32 sampleTxId = _
    decide +kernel
  have hgetD : (sampleExternals.hexToPublicKey id).getD u.idKey = key := by rw [hkey]; rfl
  rw [validateAuthResponse_iff, sampleVote, hgetD]
  exact ⟨⟨_, hsign, sampleExternals_checkSignature _ _⟩,
    ⟨_, _, htxId, hsign, sampleExternals_checkSignature _ _⟩⟩

/-- They are valid under no other key. -/
theorem eq_of_sampleVote_verifies {id : String} {key key' : List ℕ} {result : ℤ}
    (h : hexToPod 32 id = some key)
    (hv : VerifiesUnder sampleExternals (sampleVote result id) key') : key' = key := by
  obtain ⟨sign, hsign, hcheck⟩ := hv.result
  have hkey := sampleExternals_hexToSignature h
  have hsame : sign = key ++ key := Option.some.inj (hsign.symm.trans hkey)
  have htwice : key ++ key = key' ++ key' := hsame ▸ beq_iff_eq.mp hcheck
  have hlen := congrArg List.length htwice
  rw [List.length_append, List.length_append] at hlen
  exact ((List.append_inj htwice (by omega)).1).symm

/-- A sample vote is added with its signatures. -/
theorem push_sampleVote (r : RtaAuthResult) (id : String) :
    r.push (sampleVote rtaAuthResultApproved id)
      = ⟨r.approved ++ [⟨id, id ++ id, id ++ id⟩], r.rejected⟩ :=
  RtaAuthResult.push_of_approved rfl

/-- The letter of a sample call is its verdict. -/
theorem incomingVote_sampleCall (id : String) :
    incomingVote (sampleCall ("A" ++ id)) = some (sampleVote rtaAuthResultApproved id) ∧
      incomingVote (sampleCall ("R" ++ id)) = some (sampleVote rtaAuthResultRejected id) := by
  constructor <;>
    simp [incomingVote, sampleCall, sampleExternals, String.toList_append]

/-- A sample call with an `A` is a valid approval. -/
theorem sampleCall_approval {id : String} {key : List ℕ} (h : hexToPod 32 id = some key) :
    ValidVote (sampleCall ("A" ++ id)) sampleTxId (sampleVote rtaAuthResultApproved id) :=
  ⟨(incomingVote_sampleCall id).1, rfl, .inl rfl, sampleVote_valid h _ _⟩

/-- A sample call with an `R` is a valid rejection. -/
theorem sampleCall_rejection {id : String} {key : List ℕ} (h : hexToPod 32 id = some key) :
    ValidVote (sampleCall ("R" ++ id)) sampleTxId (sampleVote rtaAuthResultRejected id) :=
  ⟨(incomingVote_sampleCall id).2, rfl, .inr rfl, sampleVote_valid h _ _⟩

def lowerKey : List ℕ := (List.replicate 32 [10, 11]).flatten
def otherKey : List ℕ := (List.replicate 32 [12, 13]).flatten
def thirdKey : List ℕ := (List.replicate 32 [14, 15]).flatten

/-- The three keys are different. -/
theorem sampleKeys_nodup : [lowerKey, otherKey, thirdKey].Nodup := by decide

/-- The two spellings decode to one key, the other ids to two others. -/
theorem hexToPod_ids :
    hexToPod 32 lowerId = some lowerKey ∧ hexToPod 32 upperId = some lowerKey ∧
      hexToPod 32 otherId = some otherKey ∧ hexToPod 32 thirdId = some thirdKey := by
  decide +kernel

/-- The second key is not the first. -/
theorem otherKey_ne_lowerKey : otherKey ≠ lowerKey := by
  have h := sampleKeys_nodup
  simp only [List.nodup_cons, List.mem_cons] at h
  tauto

end Request
