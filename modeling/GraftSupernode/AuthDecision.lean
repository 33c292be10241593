/-
# The decision on a transaction

A supernode handles the valid votes of distinct voters for a stored transaction, one
after another.  What it does after a vote is a function of the votes so far (`tally`),
and no decision is remembered: a rejection that comes after the transaction has been
pushed still fails the payment.

* `sometime_iff_tally`: what happens in the run, read off the prefixes of the votes;
* `pushed_iff`, `rejected_iff`: pushed when the first votes up to the threshold approve,
  failed when some vote rejects;
* `consistent_iff`: never both exactly when no vote rejects, or one of the first votes
  up to the threshold does; and then the order of the votes does not matter.
-/
import GraftSupernode.AuthQuorum
import Mathlib.Data.List.Perm.Basic

open AtomicProgram GlobalContext Runs

namespace Request

variable {E : Externals}

/-! ## Runs of votes -/

/-- The context after a call. -/
def callStep (m : GlobalContextMap (Any E)) (c : Call E) : GlobalContextMap (Any E) :=
  (voteCall m c).2

/-- In the run some call pushes the transaction. -/
def Pushed (txId : String) : GlobalContextMap (Any E) → List (Call E) → Prop :=
  Sometime callStep fun m c => Handler.Pushes txId (voteCall m c).1

/-- In the run some call fails the payment. -/
def Rejected (paymentId : String) : GlobalContextMap (Any E) → List (Call E) → Prop :=
  Sometime callStep fun m c =>
    Handler.FailsPayment paymentId c (voteCall m c).1 (voteCall m c).2.lookup

/-- The calls carry valid votes of distinct voters for a transaction. -/
structure VoteSequence (txId : String) (cs : List (Call E)) (votes : List AuthorizeRtaTxResponse) :
    Prop where
  valid : List.Forall₂ (fun c v => ValidVote c txId v) cs votes
  distinct : (votes.map (·.signature.idKey)).Nodup

theorem VoteSequence.isVerdict {txId : String} {cs : List (Call E)}
    {votes : List AuthorizeRtaTxResponse} (h : VoteSequence txId cs votes) :
    ∀ v ∈ votes, IsVerdict v := by
  obtain ⟨hvalid, -⟩ := h
  induction hvalid with
  | nil => exact fun v hv => absurd hv List.not_mem_nil
  | cons hc _ ih => exact List.forall_mem_cons.mpr ⟨hc.verdict, ih⟩

section run

variable {m : GlobalContextMap (Any E)} {txId paymentId : String} {txAmount : ℕ}
  {cs : List (Call E)} {votes : List AuthorizeRtaTxResponse} {r : RtaAuthResult}

/-- **From the votes to the run**: an event that is decided by the votes stored after a call
happens in the run when some nonempty prefix of the votes decides for it. -/
theorem sometime_iff_tally {P : GlobalContextMap (Any E) → Call E → Prop} {Q : RtaAuthResult → Prop}
    (hPQ : ∀ m c r v, VotesReady m.lookup txId paymentId txAmount r → ValidVote c txId v →
      v.signature.idKey ∉ r.voters → (P m c ↔ Q (r.push v)))
    (hm : VotesReady m.lookup txId paymentId txAmount r) (hcs : VoteSequence txId cs votes)
    (hfresh : ∀ v ∈ votes, v.signature.idKey ∉ r.voters) :
    Sometime callStep P m cs ↔ ∃ k < votes.length, Q (tally r (votes.take (k + 1))) := by
  obtain ⟨hvalid, hdistinct⟩ := hcs
  induction hvalid generalizing m r with
  | nil => simp
  | @cons c v cs votes hc hvalid ih =>
    obtain ⟨hv, hfresh⟩ := List.forall_mem_cons.mp hfresh
    rw [List.map_cons, List.nodup_cons] at hdistinct
    have hready : VotesReady (callStep m c).lookup txId paymentId txAmount (r.push v) :=
      (hm.voteCall hc hv).1
    have hfresh' : ∀ w ∈ votes, w.signature.idKey ∉ (r.push v).voters := by
      intro w hw hmem
      rcases mem_voters_push.mp hmem with hold | hsame
      · exact hfresh w hw hold
      · exact hdistinct.1 (hsame ▸ List.mem_map_of_mem hw)
    rw [sometime_cons, hPQ m c r v hm hc hv, ih hready hfresh' hdistinct.2]
    constructor
    · rintro (hQ | ⟨k, hk, hQ⟩)
      · exact ⟨0, by simp, by simpa using hQ⟩
      · exact ⟨k + 1, by simpa using hk, by simpa using hQ⟩
    · rintro ⟨k, hk, hQ⟩
      cases k with
      | zero => exact .inl (by simpa using hQ)
      | succ k => exact .inr ⟨k, by simpa using hk, by simpa using hQ⟩

theorem rtaVotesToApprove_pos (coin amount : ℕ) : 0 < rtaVotesToApprove coin amount := by
  unfold rtaVotesToApprove
  split <;> omega

/-- The votes up to the threshold approve, and they are as many as the threshold. -/
def FirstVotesApprove (threshold : ℕ) (votes : List AuthorizeRtaTxResponse) : Prop :=
  threshold ≤ votes.length ∧ ∀ v ∈ votes.take threshold, v.result = rtaAuthResultApproved

/-- **Pushed** when the first votes approve. -/
theorem pushed_iff (hm : VotesReady m.lookup txId paymentId txAmount .empty)
    (hcs : VoteSequence txId cs votes) :
    Pushed txId m cs ↔ FirstVotesApprove (rtaVotesToApprove E.coin txAmount) votes := by
  have hverdict : ∀ k, ∀ v ∈ votes.take k, IsVerdict v :=
    fun k v hv => hcs.isVerdict v (List.mem_of_mem_take hv)
  have happroves : ∀ k ≤ votes.length, ((tally .empty (votes.take k)).Approves E.coin txAmount ↔
      (∀ v ∈ votes.take k, v.result = rtaAuthResultApproved) ∧
        rtaVotesToApprove E.coin txAmount ≤ k) := by
    intro k hk
    rw [RtaAuthResult.Approves, tally_rejected_eq_nil_iff (hverdict k)]
    constructor
    · rintro ⟨⟨-, hall⟩, henough⟩
      rw [length_tally_approved hall, List.length_take, min_eq_left hk] at henough
      exact ⟨hall, by simpa [RtaAuthResult.empty] using henough⟩
    · rintro ⟨hall, henough⟩
      rw [length_tally_approved hall, List.length_take, min_eq_left hk]
      exact ⟨⟨rfl, hall⟩, by omega⟩
  rw [Pushed, sometime_iff_tally (Q := fun r => r.Approves E.coin txAmount)
    (fun m c r v h hc hv => (h.voteCall hc hv).2.1) hm hcs (fun v _ => List.not_mem_nil)]
  constructor
  · rintro ⟨k, hk, hQ⟩
    obtain ⟨hall, henough⟩ := (happroves (k + 1) hk).mp hQ
    refine ⟨by omega, fun v hv => hall v ?_⟩
    exact (List.take_prefix_take_left henough).subset hv
  · rintro ⟨hlen, hall⟩
    have hpos := rtaVotesToApprove_pos E.coin txAmount
    refine ⟨rtaVotesToApprove E.coin txAmount - 1, by omega, ?_⟩
    rw [Nat.sub_add_cancel hpos]
    exact (happroves _ hlen).mpr ⟨hall, le_rfl⟩

/-- **Rejected** when some vote rejects. -/
theorem rejected_iff (hm : VotesReady m.lookup txId paymentId txAmount .empty)
    (hcs : VoteSequence txId cs votes) :
    Rejected paymentId m cs ↔ ∃ v ∈ votes, v.result ≠ rtaAuthResultApproved := by
  rw [Rejected, sometime_iff_tally (Q := fun r => r.rejected ≠ [])
    (fun m c r v h hc hv => (h.voteCall hc hv).2.2) hm hcs (fun v _ => List.not_mem_nil)]
  have hrejects : ∀ k, (tally .empty (votes.take k)).rejected ≠ [] ↔
      ∃ v ∈ votes.take k, v.result ≠ rtaAuthResultApproved := by
    intro k
    rw [Ne, tally_rejected_eq_nil_iff fun v hv => hcs.isVerdict v (List.mem_of_mem_take hv)]
    simp [RtaAuthResult.empty]
  constructor
  · rintro ⟨k, -, hk⟩
    obtain ⟨v, hv, hresult⟩ := (hrejects (k + 1)).mp hk
    exact ⟨v, List.mem_of_mem_take hv, hresult⟩
  · rintro ⟨v, hv, hresult⟩
    have hpos := List.length_pos_of_mem hv
    refine ⟨votes.length - 1, by omega, (hrejects _).mpr ⟨v, ?_, hresult⟩⟩
    rwa [Nat.sub_add_cancel hpos, List.take_length]

/-- Without a supernode that is set up nothing is pushed. -/
theorem not_pushed_of_not_supernodeSet (hm : ¬ SupernodeSet m.lookup) : ¬ Pushed txId m cs := by
  refine not_sometime (I := fun m => ¬ SupernodeSet m.lookup) (fun m c h => ?_)
    (fun m c h hpush => ?_)
    hm
  · rwa [SupernodeSet, callStep, (voteCall_lookup m c).2, run_supernode]
  · rw [(voteCall_lookup m c).1] at hpush
    exact h (.of_pushes hpush)

end run

/-! ## The decision -/

/-- No vote rejects, or one of the first votes up to the threshold does. -/
def RejectedEarlyOrNever (threshold : ℕ) (votes : List AuthorizeRtaTxResponse) : Prop :=
  (∀ v ∈ votes, v.result = rtaAuthResultApproved) ∨
    ∃ v ∈ votes.take threshold, v.result ≠ rtaAuthResultApproved

/-- The first votes approve and some vote rejects exactly when the first rejection is late. -/
theorem rejectedEarlyOrNever_iff {threshold : ℕ} {votes : List AuthorizeRtaTxResponse} :
    RejectedEarlyOrNever threshold votes ↔
      ¬ (FirstVotesApprove threshold votes ∧ ∃ v ∈ votes, v.result ≠ rtaAuthResultApproved) := by
  constructor
  · rintro (hall | ⟨v, hv, hresult⟩) ⟨⟨-, hfirst⟩, w, hw, hreject⟩
    · exact hreject (hall w hw)
    · exact hresult (hfirst v hv)
  · intro h
    by_contra hnot
    obtain ⟨hsome, hfirst⟩ := not_or.mp hnot
    push Not at hsome hfirst
    refine h ⟨⟨?_, hfirst⟩, hsome⟩
    by_contra hlen
    rw [List.take_of_length_le (by omega)] at hfirst
    obtain ⟨v, hv, hresult⟩ := hsome
    exact hresult (hfirst v hv)

/-- When an order of the votes that is rejected early or never pushes the transaction, every order
of them does. -/
theorem firstVotesApprove_perm {threshold : ℕ} {votes votes' : List AuthorizeRtaTxResponse}
    (hperm : votes'.Perm votes) (h : RejectedEarlyOrNever threshold votes)
    (hfirst : FirstVotesApprove threshold votes) :
    FirstVotesApprove threshold votes' := by
  have hall : ∀ v ∈ votes, v.result = rtaAuthResultApproved := by
    by_contra hreject
    push Not at hreject
    exact rejectedEarlyOrNever_iff.mp h ⟨hfirst, hreject⟩
  refine ⟨hperm.length_eq ▸ hfirst.1, fun v hv => ?_⟩
  exact hall v (hperm.subset (List.mem_of_mem_take hv))

/-- **Consistent decision**: a supernode never both pushes the transaction and fails its payment
exactly when no vote rejects or one of the first votes up to the threshold does; any two
supernodes whose orders of the same votes are of this kind decide alike. -/
theorem consistent_iff {m : GlobalContextMap (Any E)} {txId paymentId : String} {txAmount : ℕ}
    {cs : List (Call E)} {votes : List AuthorizeRtaTxResponse}
    (hm : TxStored m.lookup txId paymentId txAmount) (hnone : HasVotes m.lookup txId .empty)
    (hcs : VoteSequence txId cs votes) :
    let threshold := rtaVotesToApprove E.coin txAmount
    (¬ (Pushed txId m cs ∧ Rejected paymentId m cs) ↔
        ¬ SupernodeSet m.lookup ∨ RejectedEarlyOrNever threshold votes) ∧
      ∀ m' cs' votes', TxStored m'.lookup txId paymentId txAmount → HasVotes m'.lookup txId .empty →
        VoteSequence (E := E) txId cs' votes' → votes'.Perm votes →
        SupernodeSet m.lookup → SupernodeSet m'.lookup →
        RejectedEarlyOrNever threshold votes → RejectedEarlyOrNever threshold votes' →
          (Pushed txId m' cs' ↔ Pushed txId m cs) ∧
            (Rejected paymentId m' cs' ↔ Rejected paymentId m cs) := by
  intro threshold
  constructor
  · by_cases hset : SupernodeSet m.lookup
    · have hready : VotesReady m.lookup txId paymentId txAmount .empty := ⟨hm, hnone, hset⟩
      rw [pushed_iff hready hcs, rejected_iff hready hcs, ← rejectedEarlyOrNever_iff]
      exact (or_iff_right (not_not_intro hset)).symm
    · exact iff_of_true (fun h => not_pushed_of_not_supernodeSet hset h.1) (.inl hset)
  · intro m' cs' votes' hm' hnone' hcs' hperm hset hset' hearly hearly'
    have hready : VotesReady m.lookup txId paymentId txAmount .empty := ⟨hm, hnone, hset⟩
    have hready' : VotesReady m'.lookup txId paymentId txAmount .empty := ⟨hm', hnone', hset'⟩
    rw [pushed_iff hready hcs, pushed_iff hready' hcs', rejected_iff hready hcs,
      rejected_iff hready' hcs']
    refine ⟨⟨firstVotesApprove_perm hperm.symm hearly', firstVotesApprove_perm hperm hearly⟩, ?_⟩
    simp only [hperm.mem_iff]

/-! ## A late rejection -/

/-- Two approvals and a rejection, in this order. -/
def sampleLateCalls : List (Call sampleExternals) :=
  [sampleCall ("A" ++ lowerId), sampleCall ("A" ++ otherId), sampleCall ("R" ++ thirdId)]

@[inherit_doc sampleLateCalls]
def sampleLateVotes : List AuthorizeRtaTxResponse :=
  [sampleVote rtaAuthResultApproved lowerId, sampleVote rtaAuthResultApproved otherId,
    sampleVote rtaAuthResultRejected thirdId]

/-- The same votes with the rejection in front. -/
def sampleEarlyCalls : List (Call sampleExternals) :=
  [sampleCall ("R" ++ thirdId), sampleCall ("A" ++ lowerId), sampleCall ("A" ++ otherId)]

@[inherit_doc sampleEarlyCalls]
def sampleEarlyVotes : List AuthorizeRtaTxResponse :=
  [sampleVote rtaAuthResultRejected thirdId, sampleVote rtaAuthResultApproved lowerId,
    sampleVote rtaAuthResultApproved otherId]

theorem sampleLate_sequence : VoteSequence sampleTxId sampleLateCalls sampleLateVotes :=
  ⟨.cons (sampleCall_approval hexToPod_ids.1) (.cons (sampleCall_approval hexToPod_ids.2.2.1)
    (.cons (sampleCall_rejection hexToPod_ids.2.2.2) .nil)), by decide⟩

theorem sampleEarly_sequence : VoteSequence sampleTxId sampleEarlyCalls sampleEarlyVotes :=
  ⟨.cons (sampleCall_rejection hexToPod_ids.2.2.2) (.cons (sampleCall_approval hexToPod_ids.1)
    (.cons (sampleCall_approval hexToPod_ids.2.2.1) .nil)), by decide⟩

theorem sampleContext_ready :
    VotesReady sampleContext.lookup sampleTxId "payment" 10000000000 .empty :=
  lookup_sampleContext ▸ sampleStore_ready

/-- An early rejection: the transaction is not pushed as well. -/
theorem consistent_of_early_rejection :
    ¬ (Pushed sampleTxId sampleContext sampleEarlyCalls ∧
      Rejected "payment" sampleContext sampleEarlyCalls) :=
  (consistent_iff sampleContext_ready.tx sampleContext_ready.votes sampleEarly_sequence).1.mpr
    (.inr (.inr ⟨_, List.mem_cons_self, by decide⟩))

/-- **A late rejection**: the transaction is pushed after two approvals, and the rejection that
comes third fails its payment. -/
theorem pushed_and_rejected :
    TxStored sampleContext.lookup sampleTxId "payment" 10000000000 ∧
      HasVotes sampleContext.lookup sampleTxId .empty ∧
      VoteSequence sampleTxId sampleLateCalls sampleLateVotes ∧
      Pushed sampleTxId sampleContext sampleLateCalls ∧
      Rejected "payment" sampleContext sampleLateCalls := by
  refine ⟨sampleContext_ready.tx, sampleContext_ready.votes, sampleLate_sequence, ?_, ?_⟩
  · refine (pushed_iff sampleContext_ready sampleLate_sequence).mpr ⟨by decide, ?_⟩
    intro v hv
    have hthreshold : rtaVotesToApprove sampleExternals.coin 10000000000 = 2 := by decide
    rw [hthreshold] at hv
    rcases List.mem_cons.mp hv with rfl | hv
    · rfl
    · rw [List.mem_singleton.mp hv]
      rfl
  · refine (rejected_iff sampleContext_ready sampleLate_sequence).mpr
      ⟨sampleVote rtaAuthResultRejected thirdId, ?_, by decide⟩
    exact List.mem_cons_of_mem _ (List.mem_cons_of_mem _ List.mem_cons_self)

end Request
