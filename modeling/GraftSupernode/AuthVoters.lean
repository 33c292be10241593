/-
# Who votes

A vote that is stored carries signatures that verify under the key its `id_key` decodes to,
or under the uninitialised key when it decodes to none; a vote that does not verify so is
refused.  Nothing else is asked of a voter: the handler never looks at the list of supernodes,
so that the auth sample built for the payment plays no part (`voteCall_update_fsl`), and a key
outside it votes like any other (`voter_outside_sample`).
-/
import GraftSupernode.AuthQuorum

open AtomicProgram GlobalContext Runs

namespace Request

variable {E : Externals}

/-- **The list of supernodes plays no part** in what a call answers and stores. -/
theorem voteCall_update_fsl (c : Call E) (f : Store E) (v : Option (Any E)) :
    let g := Function.update f contextKeyFullSupernodeList v
    let p := Handler.handleRtaAuthResponseMulticast c
    (p.run handleLookup g).1 = (p.run handleLookup f).1 ∧
      ∀ txId, votesOf (p.run handleLookup g).2 txId = votesOf (p.run handleLookup f).2 txId := by
  have hevery := (Handler.every_handleRtaAuthResponseMulticast c).mono fun o h => h.ne_fsl
  obtain ⟨hreply, hstore⟩ := run_update_of_every hevery v f
  refine ⟨hreply, fun txId => ?_⟩
  have hne : ContextKey.authResultByTxid.of txId ≠ contextKeyFullSupernodeList :=
    ContextKey.of_ne (by decide)
  rw [hstore, votesOf, votesOf, Function.update_of_ne hne]

/-! ## Votes are signed -/

/-- A vote verifies in a call: under the key that its id decodes to, or, when it decodes to none,
under the key that the variable happens to hold. -/
def Signed (c : Call E) (resp : AuthorizeRtaTxResponse) : Prop :=
  VerifiesUnder E resp
    ((E.hexToPublicKey resp.signature.idKey).getD c.unspecified.idKey)

/-- A call of the run carries the vote, which verifies in it. -/
def Cast (es : List (VoteEvent E)) (txId : String) (result : ℤ) (sig : SupernodeSignature) :
    Prop :=
  ∃ c, .call c ∈ es ∧ incomingVote c = some ⟨txId, result, sig⟩ ∧ Signed c ⟨txId, result, sig⟩

/-- Every vote of `r` is one of `r₀` or is cast in the run. -/
structure AddsSigned (es : List (VoteEvent E)) (txId : String) (r₀ r : RtaAuthResult) : Prop where
  approved : ∀ sig ∈ r.approved, sig ∈ r₀.approved ∨ Cast es txId rtaAuthResultApproved sig
  rejected : ∀ sig ∈ r.rejected, sig ∈ r₀.rejected ∨ Cast es txId rtaAuthResultRejected sig

theorem AddsSigned.push {es : List (VoteEvent E)} {r₀ r : RtaAuthResult}
    {resp : AuthorizeRtaTxResponse} (h : AddsSigned es resp.txId r₀ r)
    (hverdict : resp.result = rtaAuthResultApproved ∨ resp.result = rtaAuthResultRejected)
    (hcast : Cast es resp.txId resp.result resp.signature) :
    AddsSigned es resp.txId r₀ (r.push resp) := by
  rcases hverdict with hresult | hresult
  · rw [RtaAuthResult.push_of_approved hresult]
    refine ⟨fun sig hsig => ?_, h.rejected⟩
    rcases List.mem_append.mp hsig with hsig | hsig
    · exact h.approved sig hsig
    · rw [List.mem_singleton] at hsig
      exact .inr (hsig ▸ hresult ▸ hcast)
  · rw [RtaAuthResult.push_of_rejected hresult]
    refine ⟨h.approved, fun sig hsig => ?_⟩
    rcases List.mem_append.mp hsig with hsig | hsig
    · exact h.rejected sig hsig
    · rw [List.mem_singleton] at hsig
      exact .inr (hsig ▸ hresult ▸ hcast)

/-- An accepted vote is signed. -/
theorem Accepts.signed {f : Store E} {c : Call E} {resp : AuthorizeRtaTxResponse}
    {supernode : Option (Supernode E.toCrypto)} {paymentId : String}
    (h : Accepts f c resp supernode paymentId) : Signed c resp :=
  validateAuthResponse_iff.mp h.valid

/-- The step lemma of `votes_are_signed`. -/
theorem addsSigned_step {es : List (VoteEvent E)} {txId : String} {r₀ : RtaAuthResult}
    (m : GlobalContextMap (Any E)) (e : VoteEvent E)
    (h : AddsSigned es txId r₀ (votesOf m.lookup txId)) (he : e ∈ es) :
    AddsSigned es txId r₀ (votesOf (voteStep m e).lookup txId) := by
  rcases votesOf_voteStep m e txId with
    hv | hv | ⟨c, resp, supernode, paymentId, rfl, hacc, rfl, hv⟩
  · rwa [hv]
  · rw [hv]
    exact ⟨fun sig hsig => absurd hsig List.not_mem_nil,
      fun sig hsig => absurd hsig List.not_mem_nil⟩
  · rw [hv]
    exact h.push hacc.verdict ⟨c, he, hacc.incoming, hacc.signed⟩

/-- A vote that does not verify is answered with an error and changes nothing. -/
theorem refused_of_not_signed {m : GlobalContextMap (Any E)} {c : Call E}
    {resp : AuthorizeRtaTxResponse} (hresp : incomingVote c = some resp)
    (hsigned : ¬ Signed c resp) :
    (voteCall m c).2.lookup = m.lookup ∧
      ∀ r, (voteCall m c).1 = .ok r → r.status = .error := by
  rw [(voteCall_lookup m c).1, (voteCall_lookup m c).2]
  refine Handler.refuses_of_not_accepts fun resp' supernode paymentId hacc => hsigned ?_
  have hsame : resp' = resp := Option.some.inj (hacc.incoming.symm.trans hresp)
  exact hsame ▸ hacc.signed

/-- **Who votes**: in every run each vote that is added is signed; in each of its states, a vote
that is not signed is answered with an error and changes nothing, and the list of supernodes
plays no part in what any call answers and stores. -/
theorem votes_are_signed (m : GlobalContextMap (Any E)) (txId : String) (es : List (VoteEvent E)) :
    let m' := exec voteStep m es
    AddsSigned es txId (votesOf m.lookup txId) (votesOf m'.lookup txId) ∧
      (∀ c resp, incomingVote c = some resp → ¬ Signed c resp →
        (voteCall m' c).2.lookup = m'.lookup ∧
          ∀ r, (voteCall m' c).1 = .ok r → r.status = .error) ∧
      ∀ c v,
        let p := Handler.handleRtaAuthResponseMulticast c
        let g := Function.update m'.lookup contextKeyFullSupernodeList v
        (p.run handleLookup g).1 = (voteCall m' c).1 ∧
          votesOf (p.run handleLookup g).2 txId = votesOf (voteCall m' c).2.lookup txId := by
  refine ⟨?_, fun c resp hresp hsigned => refused_of_not_signed hresp hsigned, fun c v => ?_⟩
  · refine exec_invariant (I := fun m' : GlobalContextMap (Any E) =>
      AddsSigned es txId (votesOf m.lookup txId) (votesOf m'.lookup txId))
      (P := fun _ e => e ∈ es) addsSigned_step ?_ (along_of_forall_mem (fun _ he => he) m)
    exact ⟨fun sig hsig => .inl hsig, fun sig hsig => .inl hsig⟩
  · rw [(voteCall_lookup _ c).1, (voteCall_lookup _ c).2]
    obtain ⟨hreply, hvotes⟩ := voteCall_update_fsl c (exec voteStep m es).lookup v
    exact ⟨hreply, hvotes txId⟩

/-! ## A voter outside the sample -/

/-- A list of supernodes whose auth samples are made of `otherId`. -/
def sampleSource : SampleSource := ⟨0, fun _ _ => some (List.replicate 8 otherId)⟩

/-- `sampleContext` with that list. -/
def sampleContextWithFsl : GlobalContextMap (Any sampleExternals) :=
  sampleContext.addOrUpdate contextKeyFullSupernodeList (.fsl (some sampleSource)) 0

/-- **A key outside the auth sample votes**: `lowerId` is in no sample, and its vote, which
verifies under the key of no sample member, is stored. -/
theorem voter_outside_sample :
    let m := (voteCall sampleContextWithFsl (sampleCall ("A" ++ lowerId))).2
    let sig : SupernodeSignature := ⟨lowerId, lowerId ++ lowerId, lowerId ++ lowerId⟩
    sampleContextWithFsl.lookup contextKeyFullSupernodeList = some (.fsl (some sampleSource)) ∧
      TxStored sampleContextWithFsl.lookup sampleTxId "payment" 10000000000 ∧
      votesOf sampleContextWithFsl.lookup sampleTxId = .empty ∧
      votesOf m.lookup sampleTxId = ⟨[sig], []⟩ ∧
      ∀ height sample, sampleSource.buildAuthSample height "payment" = some sample →
        ∀ id ∈ sample, ∀ key, sampleExternals.hexToPublicKey id = some key →
          ¬ VerifiesUnder sampleExternals ⟨sampleTxId, rtaAuthResultApproved, sig⟩ key := by
  have hlookup : sampleContextWithFsl.lookup
      = Function.update sampleStore contextKeyFullSupernodeList
        (some (.fsl (some sampleSource))) := by
    rw [sampleContextWithFsl, GlobalContextMap.lookup_addOrUpdate, lookup_sampleContext]
  have hready : VotesReady sampleContextWithFsl.lookup sampleTxId "payment" 10000000000 .empty :=
    hlookup ▸ sampleStore_ready.update (by decide) (by decide) _
  have hvote := hready.voteCall (sampleCall_approval hexToPod_ids.1)
    (by simp [RtaAuthResult.voters, RtaAuthResult.empty])
  refine ⟨by rw [hlookup, Function.update_self], hready.tx, hready.votes.votesOf_eq,
    hvote.1.votes.votesOf_eq, ?_⟩
  intro height sample hsample id hid key hkey hverifies
  cases hsample
  cases List.eq_of_mem_replicate hid
  have hother : key = otherKey := Option.some.inj (hkey.symm.trans hexToPod_ids.2.2.1)
  exact otherKey_ne_lowerKey
    (hother.symm.trans (eq_of_sampleVote_verifies hexToPod_ids.1 hverifies))

end Request
