/-
# A quorum of distinct keys

A sequence of calls of `handleRtaAuthResponseMulticast` on the global context, with
the clock and the cleanup of the table running in between.  A transaction is pushed
when enough approvals are stored for it, and approvals are told apart by the string
`id_key`, while each is checked under the key that this string decodes to.

* `VoteEvent`, `voteStep`: the calls, one after another;
* `OneSpelling`: the vote of a call names its key in hex, and in the spelling that is
  already stored for this key, if there is one;
* `pushes_of_oneSpelling`: along such a run a transaction is pushed only when approvals
  that verify under sufficiently many different keys are stored, and no rejection;
* `pushes_by_one_key`: without that, two spellings of one key push a transaction.
-/
import GraftSupernode.AuthVotes
import GraftSupernode.Runs
import Mathlib.Data.List.Forall2

open AtomicProgram GlobalContext Runs

namespace Request

variable {E : Externals}

/-! ## Runs -/

/-- What happens to the global context: a call, a tick of the clock, or a cleanup. -/
inductive VoteEvent (E : Externals)
  | call (c : Call E)
  | tick (seconds : ℕ)
  | cleanup (visited : String → Bool)

/-- A call, from its start to its end. -/
def voteCall (m : GlobalContextMap (Any E)) (c : Call E) :
    Except Fault (Reply E) × GlobalContextMap (Any E) :=
  (Handler.handleRtaAuthResponseMulticast c).run handle m

/-- One event. -/
def voteStep (m : GlobalContextMap (Any E)) : VoteEvent E → GlobalContextMap (Any E)
  | .call c => (voteCall m c).2
  | .tick seconds => m.tick seconds
  | .cleanup visited => m.cleanup visited

theorem exec_call (m : GlobalContextMap (Any E)) (c : Call E) :
    exec voteStep m [.call c] = (voteCall m c).2 := rfl

/-- A call on the table is a call on the plain map that it shows. -/
theorem voteCall_lookup (m : GlobalContextMap (Any E)) (c : Call E) :
    (voteCall m c).1 = ((Handler.handleRtaAuthResponseMulticast c).run handleLookup m.lookup).1 ∧
      (voteCall m c).2.lookup
        = ((Handler.handleRtaAuthResponseMulticast c).run handleLookup m.lookup).2 :=
  Prog.run_of_view (fun o m _ => lookup_handle o m) (Prog.every_true _) m

/-- `VotesReady.run` on the table. -/
theorem VotesReady.voteCall {m : GlobalContextMap (Any E)} {txId paymentId : String} {txAmount : ℕ}
    {r : RtaAuthResult} {c : Call E} {resp : AuthorizeRtaTxResponse}
    (h : VotesReady m.lookup txId paymentId txAmount r) (hc : ValidVote c txId resp)
    (hfresh : resp.signature.idKey ∉ r.voters) :
    VotesReady (voteCall m c).2.lookup txId paymentId txAmount (r.push resp) ∧
      (Handler.Pushes txId (Request.voteCall m c).1 ↔ (r.push resp).Approves E.coin txAmount) ∧
      (Handler.FailsPayment paymentId c (Request.voteCall m c).1 (Request.voteCall m c).2.lookup ↔
        (r.push resp).rejected ≠ []) := by
  rw [(voteCall_lookup m c).1, (voteCall_lookup m c).2]
  exact h.run hc hfresh

/-- A cleanup keeps the votes of a transaction or drops all of them. -/
theorem votesOf_cleanup (m : GlobalContextMap (Any E)) (visited : String → Bool) (txId : String) :
    votesOf (m.cleanup visited).lookup txId = votesOf m.lookup txId ∨
      votesOf (m.cleanup visited).lookup txId = .empty := by
  rcases m.lookup_cleanup visited (ContextKey.authResultByTxid.of txId) with h | ⟨h, -⟩
  · exact .inl (by rw [votesOf, votesOf, h])
  · exact .inr (by rw [votesOf, h]; rfl)

/-- **What happens to the votes** of a transaction: they stay, a cleanup drops all of them, or an
accepted vote is put behind them. -/
theorem votesOf_voteStep (m : GlobalContextMap (Any E)) (e : VoteEvent E) (txId : String) :
    votesOf (voteStep m e).lookup txId = votesOf m.lookup txId ∨
      votesOf (voteStep m e).lookup txId = .empty ∨
      ∃ c resp supernode paymentId, e = .call c ∧ Accepts m.lookup c resp supernode paymentId ∧
        resp.txId = txId ∧
        votesOf (voteStep m e).lookup txId = (votesOf m.lookup txId).push resp := by
  cases e with
  | tick seconds => exact .inl rfl
  | cleanup visited => exact (votesOf_cleanup m visited txId).imp_right .inl
  | call c =>
    rw [voteStep, (voteCall_lookup m c).2]
    by_cases hacc : ∃ resp supernode paymentId, Accepts m.lookup c resp supernode paymentId
    · obtain ⟨resp, supernode, paymentId, hacc⟩ := hacc
      rw [votesOf_run_of_accepts hacc]
      by_cases htx : txId = resp.txId
      · rw [if_pos htx]
        exact .inr (.inr ⟨c, resp, supernode, paymentId, rfl, hacc, htx.symm, rfl⟩)
      · rw [if_neg htx]
        exact .inl rfl
    · push Not at hacc
      rw [(Handler.refuses_of_not_accepts hacc).1]
      exact .inl rfl

/-! ## Approvals by distinct keys -/

/-- A stored approval decodes to a key and verifies under it. -/
def ApprovedUnder (E : Externals) (txId : String) (sig : SupernodeSignature) (key : E.PublicKey) :
    Prop :=
  E.hexToPublicKey sig.idKey = some key ∧ VerifiesUnder E ⟨txId, rtaAuthResultApproved, sig⟩ key

/-- The approvals verify under pairwise different keys. -/
def ApprovedByDistinctKeys (E : Externals) (txId : String) (approved : List SupernodeSignature) :
    Prop :=
  ∃ keys : List E.PublicKey, List.Forall₂ (ApprovedUnder E txId) approved keys ∧ keys.Nodup

/-- The approvals stored for a transaction are by distinct keys, they suffice for its amount, and
no rejection is stored. -/
structure Quorum (E : Externals) (f : Store E) (txId : String) : Prop where
  distinct : ApprovedByDistinctKeys E txId (votesOf f txId).approved
  enough : ∃ v txAmount, f (ContextKey.amountByTxId.of txId) = some v ∧
    v.toUInt64? = some txAmount ∧
      rtaVotesToApprove E.coin txAmount ≤ (votesOf f txId).approved.length
  noRejection : (votesOf f txId).rejected = []

theorem approvedByDistinctKeys_nil (E : Externals) (txId : String) :
    ApprovedByDistinctKeys E txId [] := ⟨[], .nil, .nil⟩

/-- Another approval by a new key. -/
theorem ApprovedByDistinctKeys.append {txId : String} {approved : List SupernodeSignature}
    {sig : SupernodeSignature} {key : E.PublicKey} (h : ApprovedByDistinctKeys E txId approved)
    (hsig : ApprovedUnder E txId sig key)
    (hnew : ∀ item ∈ approved, E.hexToPublicKey item.idKey ≠ some key) :
    ApprovedByDistinctKeys E txId (approved ++ [sig]) := by
  obtain ⟨keys, hkeys, hnodup⟩ := h
  have hkey : key ∉ keys := by
    intro hmem
    obtain ⟨i, hi, rfl⟩ := List.mem_iff_getElem.mp hmem
    have hlen := hkeys.length_eq
    have hitem := (List.forall₂_iff_get.mp hkeys).2 i (hlen ▸ hi) hi
    exact hnew _ (List.get_mem _ _) hitem.1
  refine ⟨keys ++ [key], List.rel_append hkeys (.cons hsig .nil), ?_⟩
  rw [List.nodup_append]
  refine ⟨hnodup, by simp, ?_⟩
  rintro a ha b hb rfl
  rw [List.mem_singleton] at hb
  exact hkey (hb ▸ ha)

/-! ## Votes that name a key in one spelling -/

/-- The call's valid approval of the transaction, if it is one, names a key, and no stored
approval names this key by another string. -/
def OneSpelling (txId : String) (m : GlobalContextMap (Any E)) : VoteEvent E → Prop
  | .call c => ∀ resp, incomingVote c = some resp → resp.txId = txId →
      resp.result = rtaAuthResultApproved → validateAuthResponse c.unspecified resp = true →
        ∃ key, E.hexToPublicKey resp.signature.idKey = some key ∧
          ∀ item ∈ (votesOf m.lookup txId).approved, E.hexToPublicKey item.idKey = some key →
            item.idKey = resp.signature.idKey
  | .tick _ | .cleanup _ => True

/-- **One vote**: an accepted vote in one spelling keeps the keys of the approvals distinct. -/
theorem approvedByDistinctKeys_push {m : GlobalContextMap (Any E)} {c : Call E}
    {resp : AuthorizeRtaTxResponse} {supernode : Option (Supernode E.toCrypto)} {paymentId : String}
    (h : ApprovedByDistinctKeys E resp.txId (votesOf m.lookup resp.txId).approved)
    (hc : OneSpelling resp.txId m (.call c))
    (hacc : Accepts m.lookup c resp supernode paymentId) :
    ApprovedByDistinctKeys E resp.txId ((votesOf m.lookup resp.txId).push resp).approved := by
  rcases hacc.verdict with hresult | hresult
  · obtain ⟨key, hkey, hspelling⟩ := hc resp hacc.incoming rfl hresult hacc.valid
    rw [RtaAuthResult.push_of_approved hresult]
    refine h.append ⟨hkey, ?_⟩ fun item hitem hitemKey => ?_
    · have hvalid := validateAuthResponse_iff.mp hacc.valid
      rw [hkey, Option.getD_some] at hvalid
      rwa [← hresult]
    · have hvoter : item.idKey ∈ (votesOf m.lookup resp.txId).voters :=
        List.mem_map_of_mem (List.mem_append_left _ hitem)
      rw [hspelling item hitem hitemKey] at hvoter
      exact hacc.fresh hvoter
  · rwa [RtaAuthResult.push_of_rejected hresult]

/-- The step lemma of `pushes_of_oneSpelling`. -/
theorem approvedByDistinctKeys_step {txId : String} (m : GlobalContextMap (Any E)) (e : VoteEvent E)
    (h : ApprovedByDistinctKeys E txId (votesOf m.lookup txId).approved)
    (he : OneSpelling txId m e) :
    ApprovedByDistinctKeys E txId (votesOf (voteStep m e).lookup txId).approved := by
  rcases votesOf_voteStep m e txId with
    hv | hv | ⟨c, resp, supernode, paymentId, rfl, hacc, rfl, hv⟩
  · rwa [hv]
  · rw [hv]
    exact approvedByDistinctKeys_nil E txId
  · rw [hv]
    exact approvedByDistinctKeys_push h he hacc

/-- A pushed transaction has a sufficient number of approvals, and no rejection. -/
theorem quorum_of_pushes {txId : String} {f : Store E} {c : Call E}
    (h : Handler.Pushes txId ((Handler.handleRtaAuthResponseMulticast c).run handleLookup f).1)
    (hdistinct : ApprovedByDistinctKeys E txId
      (votesOf ((Handler.handleRtaAuthResponseMulticast c).run handleLookup f).2 txId).approved) :
    Quorum E ((Handler.handleRtaAuthResponseMulticast c).run handleLookup f).2 txId := by
  by_cases hacc : ∃ resp supernode paymentId, Accepts f c resp supernode paymentId
  · obtain ⟨resp, supernode, paymentId, hacc⟩ := hacc
    have hcount := h
    rw [Handler.run_of_accepts hacc] at hcount
    obtain ⟨⟨rfl, -⟩, hrejected, v, txAmount, hv, hamount, happroved⟩ :=
      Handler.of_countVotes_pushes hcount
    have hvotes : votesOf _ resp.txId = _ := votesOf_run_of_accepts hacc
    rw [if_pos rfl] at hvotes
    refine ⟨hdistinct, ⟨v, txAmount, ?_, hamount, hvotes ▸ happroved⟩, hvotes ▸ hrejected⟩
    rw [Handler.run_of_accepts hacc, countVotes_of_key (by decide), hv]
  · push Not at hacc
    obtain ⟨r, hr, hforward, -⟩ := h
    have herror := (Handler.refuses_of_not_accepts hacc).2 r hr
    rw [herror] at hforward
    cases hforward

/-- **Quorum of distinct keys**: in a run in which every vote names its key in one spelling, a
transaction is pushed only with a quorum of approvals by distinct keys and no rejection. -/
theorem pushes_of_oneSpelling {m : GlobalContextMap (Any E)} {txId : String}
    {es : List (VoteEvent E)} {c : Call E} (hnone : votesOf m.lookup txId = .empty)
    (hrun : Along voteStep (OneSpelling txId) m (es ++ [.call c]))
    (hpush : Handler.Pushes txId (voteCall (exec voteStep m es) c).1) :
    Quorum E (exec voteStep m (es ++ [.call c])).lookup txId := by
  have hdistinct : ApprovedByDistinctKeys E txId
      (votesOf (exec voteStep m (es ++ [.call c])).lookup txId).approved := by
    refine exec_invariant (I := fun m => ApprovedByDistinctKeys E txId
      (votesOf m.lookup txId).approved)
      approvedByDistinctKeys_step ?_ hrun
    rw [hnone]
    exact approvedByDistinctKeys_nil E txId
  rw [exec_append, exec_call] at hdistinct ⊢
  rw [(voteCall_lookup _ c).1] at hpush
  rw [(voteCall_lookup _ c).2] at hdistinct ⊢
  exact quorum_of_pushes hpush hdistinct

/-! ## Two spellings

Two approvals push the transaction of `sampleContext`, whether they are by two keys or
by two spellings of one. -/

/-- `sampleContext` after the approval of `lowerId`. -/
def sampleApproved : GlobalContextMap (Any sampleExternals) :=
  exec voteStep sampleContext [.call (sampleCall ("A" ++ lowerId))]

/-- What a second approval does after the approval of `lowerId`. -/
theorem sample_second_approval {id : String} {key : List ℕ} (h : hexToPod 32 id = some key)
    (hne : id ≠ lowerId) :
    votesOf sampleApproved.lookup sampleTxId
        = ⟨[⟨lowerId, lowerId ++ lowerId, lowerId ++ lowerId⟩], []⟩ ∧
      Handler.Pushes sampleTxId (voteCall sampleApproved (sampleCall ("A" ++ id))).1 ∧
      (votesOf (voteCall sampleApproved (sampleCall ("A" ++ id))).2.lookup sampleTxId).approved
        = [⟨lowerId, lowerId ++ lowerId, lowerId ++ lowerId⟩, ⟨id, id ++ id, id ++ id⟩] := by
  have hready : VotesReady sampleContext.lookup sampleTxId "payment" 10000000000 .empty :=
    lookup_sampleContext ▸ sampleStore_ready
  have hfirst : VotesReady sampleApproved.lookup sampleTxId "payment" 10000000000
      (RtaAuthResult.empty.push (sampleVote rtaAuthResultApproved lowerId)) := by
    rw [sampleApproved, exec_call]
    exact (hready.voteCall (sampleCall_approval hexToPod_ids.1) List.not_mem_nil).1
  rw [push_sampleVote] at hfirst
  have hfresh :
      id ∉ RtaAuthResult.voters ⟨[⟨lowerId, lowerId ++ lowerId, lowerId ++ lowerId⟩], []⟩ :=
    fun hid => hne (List.mem_singleton.mp hid)
  have hsecond := hfirst.voteCall (sampleCall_approval h) hfresh
  rw [push_sampleVote] at hsecond
  have henough : rtaVotesToApprove sampleExternals.coin 10000000000 ≤ 2 := by decide
  exact ⟨hfirst.votes.votesOf_eq, hsecond.2.1.mpr ⟨rfl, henough⟩,
    congrArg RtaAuthResult.approved hsecond.1.votes.votesOf_eq⟩

/-- An approval by a new key is in one spelling. -/
theorem sample_oneSpelling {m : GlobalContextMap (Any sampleExternals)} {id : String}
    {key : List ℕ} (h : hexToPod 32 id = some key)
    (hnew : ∀ item ∈ (votesOf m.lookup sampleTxId).approved, hexToPod 32 item.idKey ≠ some key) :
    OneSpelling sampleTxId m (.call (sampleCall ("A" ++ id))) := by
  intro resp hresp _ _ _
  rw [(incomingVote_sampleCall id).1] at hresp
  cases hresp
  exact ⟨key, h, fun item hitem hkey => absurd hkey (hnew item hitem)⟩

/-- Two approvals by two keys are a run in one spelling. -/
theorem quorum_of_two_keys :
    Quorum sampleExternals
      (exec voteStep sampleContext
        ([.call (sampleCall ("A" ++ lowerId))] ++ [.call (sampleCall ("A" ++ otherId))])).lookup
      sampleTxId := by
  obtain ⟨hvotes, hpush, -⟩ := sample_second_approval hexToPod_ids.2.2.1 (by decide)
  have hnone : votesOf sampleContext.lookup sampleTxId = .empty := by
    rw [lookup_sampleContext]
    exact sampleStore_ready.votes.votesOf_eq
  have hfirst : OneSpelling sampleTxId sampleContext (.call (sampleCall ("A" ++ lowerId))) :=
    sample_oneSpelling hexToPod_ids.1 fun item hitem => by
      rw [hnone] at hitem
      exact absurd hitem List.not_mem_nil
  have hsecond : OneSpelling sampleTxId sampleApproved
      (.call (sampleCall ("A" ++ otherId))) :=
    sample_oneSpelling hexToPod_ids.2.2.1 fun item hitem hkey => by
      rw [hvotes, List.mem_singleton] at hitem
      rw [hitem, hexToPod_ids.1] at hkey
      exact otherKey_ne_lowerKey (Option.some.inj hkey).symm
  have hrun := (along_append voteStep (OneSpelling sampleTxId) sampleContext
    [.call (sampleCall ("A" ++ lowerId))] [.call (sampleCall ("A" ++ otherId))]).mpr
      ⟨⟨hfirst, trivial⟩, hsecond, trivial⟩
  exact pushes_of_oneSpelling hnone hrun hpush

/-- **Two spellings of one key push a transaction**: no other voter has approved it. -/
theorem pushes_by_one_key :
    TxStored sampleContext.lookup sampleTxId "payment" 10000000000 ∧
      votesOf sampleContext.lookup sampleTxId = .empty ∧
      Handler.Pushes sampleTxId
        (voteCall (exec voteStep sampleContext [.call (sampleCall ("A" ++ lowerId))])
          (sampleCall ("A" ++ upperId))).1 ∧
      ¬ Quorum sampleExternals
        (exec voteStep sampleContext
          ([.call (sampleCall ("A" ++ lowerId))] ++ [.call (sampleCall ("A" ++ upperId))])).lookup
        sampleTxId := by
  obtain ⟨-, hpush, hvotes⟩ := sample_second_approval hexToPod_ids.2.1 (by decide)
  have hready := lookup_sampleContext ▸ sampleStore_ready
  refine ⟨hready.tx, hready.votes.votesOf_eq, hpush, fun hquorum => ?_⟩
  obtain ⟨keys, hkeys, hnodup⟩ := hquorum.distinct
  rw [exec_append, exec_call, ← sampleApproved, hvotes] at hkeys
  obtain ⟨key, keys, hlower, hrest, rfl⟩ := List.forall₂_cons_left_iff.mp hkeys
  obtain ⟨key', keys, hupper, -, rfl⟩ := List.forall₂_cons_left_iff.mp hrest
  have hlowerKey : key = lowerKey := Option.some.inj (hlower.1.symm.trans hexToPod_ids.1)
  have hupperKey : key' = lowerKey := Option.some.inj (hupper.1.symm.trans hexToPod_ids.2.1)
  rw [hlowerKey, hupperKey] at hnodup
  exact (List.nodup_cons.mp hnodup).1 List.mem_cons_self

end Request
