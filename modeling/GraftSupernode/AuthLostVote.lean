/-
# Votes handled at the same time

Workers of the pool handle votes for one transaction at the same time, one operation on the
global context at a time.  Each reads the votes that are stored, adds its own vote to what
it has read, and writes the result back: the register of `LostUpdate`.

* `Stage`: how far a worker is; `Follows`: the pool follows the register;
* `Follows.turn`: what one turn of one worker does to the register;
* `no_vote_lost_iff`: every vote that passes the checks is stored at the end exactly when no
  worker's write of the votes falls between another one's read and write of them.
-/
import GraftSupernode.AuthDecision
import GraftSupernode.LostUpdate

open AtomicProgram GlobalContext Runs

namespace Request

variable {E : Externals} {ι : Type*} [DecidableEq ι]

/-! ## The pool -/

/-- The workers and the global context. -/
abbrev Pool (ι : Type*) (E : Externals) : Type _ :=
  Config ι (GlobalContextMap (Any E)) (StoreOp (Any E)) StoreOp.Reply (Except Fault (Reply E))

/-- Each worker has been given a call and has done nothing yet. -/
def pool (m : GlobalContextMap (Any E)) (calls : ι → Call E) : Pool ι E :=
  ⟨m, fun i => Handler.handleRtaAuthResponseMulticast (calls i)⟩

/-- A worker performs its next operation, or some seconds pass. -/
def poolStep : Pool ι E → Turn ι ℕ → Pool ι E :=
  Config.step handle fun seconds m => m.tick seconds

/-- How a turn accesses the votes of a transaction.  That there are none is a value that
has been read. -/
def access (txId : String) (c : Pool ι E) : Turn ι ℕ → Option (LostUpdate.Access ι)
  | .env _ => none
  | .thread i =>
    match c.thread i with
    | .ret _ => none
    | .call (.hasKey key) _ =>
      if key = ContextKey.authResultByTxid.of txId ∧ c.store.lookup key = none then some (.read i)
      else none
    | .call (.get key _) _ =>
      if key = ContextKey.authResultByTxid.of txId then some (.read i) else none
    | .call (.set key _ _) _ =>
      if key = ContextKey.authResultByTxid.of txId then some (.write i) else none
    | .call (.remove key) _ =>
      if key = ContextKey.authResultByTxid.of txId then some (.write i) else none

/-- The accesses to the votes of a transaction in a run of the pool. -/
def accesses (txId : String) : Pool ι E → List (Turn ι ℕ) → List (LostUpdate.Access ι) :=
  trace poolStep (access txId)

/-- The calls carry votes of different voters for a transaction. -/
structure VotesFor (txId : String) (calls : ι → Call E) (votes : ι → AuthorizeRtaTxResponse) :
    Prop where
  incoming : ∀ i, incomingVote (calls i) = some (votes i)
  txId : ∀ i, (votes i).txId = txId
  distinct : Function.Injective fun i => (votes i).signature.idKey

/-- In the run a worker gets to the check for duplicates, which comes after all other checks, and
passes it. -/
def PassesChecks (calls : ι → Call E) (votes : ι → AuthorizeRtaTxResponse) (c : Pool ι E)
    (ts : List (Turn ι ℕ)) (i : ι) : Prop :=
  ∃ pre post supernode paymentId r, ts = pre ++ post ∧
    (exec poolStep c pre).thread i
      = Handler.addVote (calls i) supernode paymentId (votes i) r ∧
    (votes i).signature.idKey ∉ r.voters

/-- A vote is stored among those of its verdict. -/
def RtaAuthResult.Has (r : RtaAuthResult) (v : AuthorizeRtaTxResponse) : Prop :=
  if v.result = rtaAuthResultApproved then v.signature ∈ r.approved else v.signature ∈ r.rejected

/-! ## Votes in a tally -/

theorem RtaAuthResult.has_push {r : RtaAuthResult} {v w : AuthorizeRtaTxResponse} :
    (r.push w).Has v ↔ r.Has v ∨ v.signature = w.signature ∧
      (v.result = rtaAuthResultApproved ↔ w.result = rtaAuthResultApproved) := by
  unfold RtaAuthResult.Has RtaAuthResult.push
  by_cases hv : v.result = rtaAuthResultApproved <;>
    by_cases hw : w.result = rtaAuthResultApproved <;> simp [hv, hw]

theorem RtaAuthResult.Has.mem_voters {r : RtaAuthResult} {v : AuthorizeRtaTxResponse}
    (h : r.Has v) : v.signature.idKey ∈ r.voters := by
  unfold RtaAuthResult.Has at h
  refine List.mem_map_of_mem (List.mem_append.mpr ?_)
  split at h
  · exact .inl h
  · exact .inr h

theorem tally_has_iff {r : RtaAuthResult} {vs : List AuthorizeRtaTxResponse}
    {v : AuthorizeRtaTxResponse} :
    (tally r vs).Has v ↔ r.Has v ∨ ∃ w ∈ vs, v.signature = w.signature ∧
      (v.result = rtaAuthResultApproved ↔ w.result = rtaAuthResultApproved) := by
  induction vs generalizing r with
  | nil => simp
  | cons w vs ih => rw [tally_cons, ih, RtaAuthResult.has_push, or_assoc, List.exists_mem_cons_iff]

theorem mem_voters_tally {r : RtaAuthResult} {vs : List AuthorizeRtaTxResponse} {id : String}
    (h : id ∈ r.voters) : id ∈ (tally r vs).voters := by
  induction vs generalizing r with
  | nil => exact h
  | cons v vs ih => exact ih (mem_voters_push.mpr (.inl h))

/-! ## How far a worker is -/

/-- What may be left of a call that has not read the votes yet. -/
inductive Reading (call : Call E) (vote : AuthorizeRtaTxResponse) : Handler E → Prop
  | returned (a : Except Fault (Reply E)) : Reading call vote (.ret a)
  | other {o : StoreOp (Any E)} {k : o.Reply → Handler E}
      (ho : o.key ≠ ContextKey.authResultByTxid.of vote.txId) (hk : ∀ r, Reading call vote (k r)) :
      Reading call vote (.call o k)
  | readVotes (supernode : Option (Supernode E.toCrypto)) (paymentId : String) :
      Reading call vote (Handler.readVotes call supernode paymentId vote)
  | getVotes (supernode : Option (Supernode E.toCrypto)) (paymentId : String) :
      Reading call vote (Handler.getVotes call supernode paymentId vote)

/-- A call starts by reading. -/
theorem reading_handleRtaAuthResponseMulticast {call : Call E} {vote : AuthorizeRtaTxResponse}
    (h : incomingVote call = some vote) :
    Reading call vote (Handler.handleRtaAuthResponseMulticast call) := by
  obtain ⟨req, hreq, hresp⟩ := Option.bind_eq_some_iff.mp h
  have hsupernode : contextKeySupernode ≠ ContextKey.authResultByTxid.of vote.txId :=
    (ContextKey.of_ne (by decide)).symm
  have hpaymentId : ContextKey.paymentIdByTxid.of vote.txId
      ≠ ContextKey.authResultByTxid.of vote.txId := by simp
  simp only [Handler.handleRtaAuthResponseMulticast, hreq, hresp]
  refine .other hsupernode fun v => ?_
  split
  · exact .returned _
  split
  · exact .returned _
  refine .other hpaymentId fun known => ?_
  split
  · exact .returned _
  refine .other hpaymentId fun v => ?_
  split
  · exact .returned _
  split
  · exact .readVotes _ _
  · exact .returned _

/-- How far a call is: it has not read the votes; it has read some and goes on with them; or it
has written them and leaves them alone. -/
def Stage (call : Call E) (vote : AuthorizeRtaTxResponse) (snapshot : Option RtaAuthResult)
    (done : Bool) (p : Handler E) : Prop :=
  match done, snapshot with
  | true, _ => p.Every fun o => o.key ≠ ContextKey.authResultByTxid.of vote.txId
  | false, none => Reading call vote p
  | false, some r => ∃ supernode paymentId, p = Handler.addVote call supernode paymentId vote r

/-! ## The pool follows the register -/

/-- The votes are those of the register, put behind the votes `r` that were there before, and
each worker is as far as the register says. -/
structure Follows (calls : ι → Call E) (votes : ι → AuthorizeRtaTxResponse) (txId : String)
    (r : RtaAuthResult) (c : Pool ι E) (s : LostUpdate.State ι) : Prop where
  stored : HasVotes c.store.lookup txId (tally r (s.value.map votes))
  stage : ∀ i, Stage (calls i) (votes i) ((s.snapshot i).map fun is => tally r (is.map votes))
    (s.done i) (c.thread i)

section follows

variable {calls : ι → Call E} {votes : ι → AuthorizeRtaTxResponse} {txId : String}
  {r : RtaAuthResult} {c : Pool ι E} {s s' : LostUpdate.State ι}

theorem HasVotes.congr {f g : Store E} (h : HasVotes f txId r)
    (hfg : g (ContextKey.authResultByTxid.of txId) = f (ContextKey.authResultByTxid.of txId)) :
    HasVotes g txId r := by
  rwa [HasVotes, hfg]

/-- The value that is read when the votes are read. -/
theorem HasVotes.getD {f : Store E} (h : HasVotes f txId r) :
    (f (ContextKey.authResultByTxid.of txId)).getD (.authResult .empty) = .authResult r := by
  rcases h with h | ⟨h, rfl⟩ <;> rw [h] <;> rfl

omit [DecidableEq ι] in
theorem follows_pool (h : VotesFor txId calls votes) {m : GlobalContextMap (Any E)}
    (hm : HasVotes m.lookup txId r) :
    Follows calls votes txId r (pool m calls) LostUpdate.init where
  stored := hm
  stage i := reading_handleRtaAuthResponseMulticast (h.incoming i)

/-- A turn of one worker concerns no other. -/
theorem Follows.update (h : Follows calls votes txId r c s) {i : ι}
    {m : GlobalContextMap (Any E)} {p : Handler E}
    (hstored : HasVotes m.lookup txId (tally r (s'.value.map votes)))
    (hother : ∀ j ≠ i, s'.snapshot j = s.snapshot j ∧ s'.done j = s.done j)
    (hstage : Stage (calls i) (votes i) ((s'.snapshot i).map fun is => tally r (is.map votes))
      (s'.done i) p) :
    Follows calls votes txId r ⟨m, Function.update c.thread i p⟩ s' where
  stored := hstored
  stage j := by
    by_cases hij : j = i
    · subst hij
      simpa using hstage
    · obtain ⟨hsnapshot, hdone⟩ := hother j hij
      simpa [Function.update_of_ne hij, hsnapshot, hdone] using h.stage j

/-- An operation on another key is no access, and keeps the votes. -/
theorem Follows.other (h : Follows calls votes txId r c s) {i : ι} {o : StoreOp (Any E)}
    {k : o.Reply → Handler E} (hi : c.thread i = .call o k)
    (ho : o.key ≠ ContextKey.authResultByTxid.of txId)
    (hstage : ∀ r', Stage (calls i) (votes i) ((s.snapshot i).map fun is => tally r (is.map votes))
      (s.done i) (k r')) :
    access txId c (.thread i) = none ∧ Follows calls votes txId r (poolStep c (.thread i)) s := by
  constructor
  · cases o <;> simp only [StoreOp.key] at ho <;> simp [access, hi, ho]
  · rw [poolStep, Config.step_thread_of_call hi]
    refine h.update (h.stored.congr ?_) (fun _ _ => ⟨rfl, rfl⟩) (hstage _)
    rw [(lookup_handle o c.store).2]
    exact handleLookup_of_key_ne ho _

/-- What a worker that has not read the votes does next. -/
theorem Follows.turn_reading (hfor : VotesFor txId calls votes) (h : Follows calls votes txId r c s)
    {i : ι} {p : Handler E} (hi : c.thread i = p) (hreading : Reading (calls i) (votes i) p)
    (hsnapshot : s.snapshot i = none) (hdone : s.done i = false) :
    (access txId c (.thread i) = none ∧
        Follows calls votes txId r (poolStep c (.thread i)) s) ∨
      access txId c (.thread i) = some (.read i) ∧
        Follows calls votes txId r (poolStep c (.thread i)) (LostUpdate.step s (.read i)) := by
  -- what a read answers is the value of the register, which the worker goes on with
  have hread : ∀ {o : StoreOp (Any E)} {k : o.Reply → Handler E}, c.thread i = .call o k →
      (handle o c.store).2.lookup = c.store.lookup →
      (∃ supernode paymentId, k (handle o c.store).1 = Handler.addVote (calls i) supernode paymentId
        (votes i) (tally r (s.value.map votes))) →
      Follows calls votes txId r (poolStep c (.thread i)) (LostUpdate.step s (.read i)) := by
    intro o k hcall hlookup hk
    rw [poolStep, Config.step_thread_of_call hcall]
    refine h.update (by rw [hlookup]; exact h.stored) (fun j hij => ?_) ?_
    · exact ⟨LostUpdate.step_read_snapshot hij, rfl⟩
    · simpa [LostUpdate.step, hdone, Stage] using hk
  cases hreading with
  | returned a =>
    refine .inl ⟨by simp [access, hi], ?_⟩
    rwa [poolStep, Config.step_thread_of_ret hi]
  | other ho hk =>
    rw [hfor.txId i] at ho
    refine .inl (h.other hi ho fun r' => ?_)
    simpa [hsnapshot, hdone, Stage] using hk r'
  | readVotes supernode paymentId =>
    have hkey : (handle (.hasKey (ContextKey.authResultByTxid.of (votes i).txId)) c.store).1
        = (c.store.lookup (ContextKey.authResultByTxid.of txId)).isSome := by
      rw [(lookup_handle _ _).1, hfor.txId i]
      rfl
    cases hnone : c.store.lookup (ContextKey.authResultByTxid.of txId) with
    | none =>
      have hempty : tally r (s.value.map votes) = .empty := by
        rcases h.stored with hsome | ⟨-, hempty⟩
        · rw [hnone] at hsome; cases hsome
        · exact hempty
      refine .inr ⟨by simp [access, hi, Handler.readVotes, hfor.txId i, hnone], hread hi ?_ ?_⟩
      · exact (lookup_handle _ _).2
      · refine ⟨supernode, paymentId, ?_⟩
        rw [hkey, hnone, hempty]
        rfl
    | some v =>
      refine .inl ⟨by simp [access, hi, Handler.readVotes, hfor.txId i, hnone], ?_⟩
      rw [poolStep, Config.step_thread_of_call hi]
      refine h.update (h.stored.congr ?_) (fun _ _ => ⟨rfl, rfl⟩) ?_
      · exact congrFun (lookup_handle _ _).2 _
      · rw [hkey, hnone, hsnapshot, hdone]
        exact .getVotes supernode paymentId
  | getVotes supernode paymentId =>
    refine .inr ⟨by simp [access, hi, Handler.getVotes, hfor.txId i], hread hi ?_ ?_⟩
    · exact (lookup_handle _ _).2
    · have hvalue : (handle (.get (ContextKey.authResultByTxid.of (votes i).txId)
          (.authResult .empty)) c.store).1 = .authResult (tally r (s.value.map votes)) := by
        rw [(lookup_handle _ _).1, hfor.txId i]
        exact h.stored.getD
      refine ⟨supernode, paymentId, ?_⟩
      rw [hvalue]
      rfl

/-- What a worker that has read the votes does next: the vote is a duplicate and the call has
returned, or the votes are written. -/
theorem Follows.turn_holding (hfor : VotesFor txId calls votes) (h : Follows calls votes txId r c s)
    {i : ι} {is : List ι} (hsnapshot : s.snapshot i = some is)
    {supernode : Option (Supernode E.toCrypto)} {paymentId : String}
    (hi : c.thread i = Handler.addVote (calls i) supernode paymentId (votes i)
      (tally r (is.map votes))) :
    (access txId c (.thread i) = none ∧
        Follows calls votes txId r (poolStep c (.thread i)) s) ∨
      access txId c (.thread i) = some (.write i) ∧
        (votes i).signature.idKey ∉ (tally r (is.map votes)).voters ∧
        Follows calls votes txId r (poolStep c (.thread i)) (LostUpdate.step s (.write i)) := by
  by_cases hmem : (votes i).signature.idKey ∈ (tally r (is.map votes)).voters
  · left
    have hdup := (Bool.not_eq_false _).mp
      (mt RtaAuthResult.already_eq_false_iff.mp (not_not.mpr hmem))
    rw [Handler.addVote, if_pos hdup] at hi
    refine ⟨by simp [access, hi, Handler.errorCustomError, Handler.reply], ?_⟩
    rwa [poolStep, Config.step_thread_of_ret hi]
  · right
    rw [Handler.addVote, RtaAuthResult.already_eq_false_iff.mpr hmem,
      if_neg Bool.false_ne_true] at hi
    refine ⟨by simp [access, hi, hfor.txId i], hmem, ?_⟩
    rw [poolStep, Config.step_thread_of_call hi]
    refine h.update (.inl ?_) (fun j hij => ⟨rfl, Function.update_of_ne hij _ _⟩) ?_
    · rw [(lookup_handle _ _).2, hfor.txId i]
      simp [LostUpdate.step, hsnapshot, handleLookup, tally]
    · simp only [LostUpdate.step, Function.update_self, Stage]
      exact Handler.every_countVotes.mono fun o ho => ho.ne_of _

/-- **One turn**: it is no access to the votes, or it is the access that is the worker's turn. -/
theorem Follows.turn (hfor : VotesFor txId calls votes) (h : Follows calls votes txId r c s)
    (t : Turn ι ℕ) :
    (access txId c t = none ∧ Follows calls votes txId r (poolStep c t) s) ∨
      ∃ a, access txId c t = some a ∧ LostUpdate.InTurn s a ∧
        (∀ i, a = .write i → (votes i).signature.idKey ∉ r.voters ∧
          ∃ supernode paymentId r',
            c.thread i = Handler.addVote (calls i) supernode paymentId (votes i) r' ∧
              (votes i).signature.idKey ∉ r'.voters) ∧
        Follows calls votes txId r (poolStep c t) (LostUpdate.step s a) := by
  cases t with
  | env seconds => exact .inl ⟨rfl, h.stored, h.stage⟩
  | thread i =>
    have hstage := h.stage i
    cases hdone : s.done i with
    | true =>
      -- the vote is written, and no access to the record is left
      rw [hdone] at hstage
      left
      cases hi : c.thread i with
      | ret a =>
        refine ⟨by simp [access, hi], ?_⟩
        rwa [poolStep, Config.step_thread_of_ret hi]
      | call o k =>
        rw [hi] at hstage
        refine h.other hi (hfor.txId i ▸ hstage.1) fun r' => ?_
        rw [hdone]
        exact hstage.2 r'
    | false =>
      rw [hdone] at hstage
      cases hsnapshot : s.snapshot i with
      | none =>
        rw [hsnapshot] at hstage
        rcases h.turn_reading hfor rfl hstage hsnapshot hdone with hrest | ⟨hread, hfollows⟩
        · exact .inl hrest
        · exact .inr ⟨_, hread, ⟨hsnapshot, hdone⟩, (fun j hj => by cases hj), hfollows⟩
      | some is =>
        rw [hsnapshot] at hstage
        obtain ⟨supernode, paymentId, hi⟩ := hstage
        rcases h.turn_holding hfor hsnapshot hi with hrest | ⟨hwrite, hmem, hfollows⟩
        · exact .inl hrest
        · refine .inr ⟨_, hwrite, ⟨by simp [hsnapshot], hdone⟩, fun j hj => ?_, hfollows⟩
          cases hj
          exact ⟨fun hold => hmem (mem_voters_tally hold), supernode, paymentId, _, hi, hmem⟩

/-- **The pool follows the register** in every run, and every access is the worker's turn. -/
theorem follows_exec (hfor : VotesFor txId calls votes) {m : GlobalContextMap (Any E)}
    (hm : HasVotes m.lookup txId r) (ts : List (Turn ι ℕ)) :
    Follows calls votes txId r (exec poolStep (pool m calls) ts)
        (exec LostUpdate.step LostUpdate.init (accesses txId (pool m calls) ts)) ∧
      Along LostUpdate.step (fun s a => LostUpdate.InTurn s a ∧
          ∀ i, a = .write i → (votes i).signature.idKey ∉ r.voters)
        LostUpdate.init (accesses txId (pool m calls) ts) := by
  refine simulation (R := Follows calls votes txId r) ?_ ?_ (follows_pool hfor hm) ts
  · intro c s t h hrest
    rcases h.turn hfor t with ⟨-, hfollows⟩ | ⟨a, ha, -⟩
    · exact hfollows
    · rw [hrest] at ha; cases ha
  · intro c s t a h ha
    rcases h.turn hfor t with ⟨hrest, -⟩ | ⟨a', ha', hturn, hwrite, hfollows⟩
    · rw [hrest] at ha; cases ha
    · rw [ha] at ha'
      cases ha'
      exact ⟨⟨hturn, fun i hi => (hwrite i hi).1⟩, hfollows⟩

/-! ## Votes that pass the checks -/

/-- A worker that passes the check for duplicates writes before it returns. -/
theorem PassesChecks.write_mem (hfor : VotesFor txId calls votes) {ts : List (Turn ι ℕ)}
    (hend : (exec poolStep c ts).Finished) {i : ι} (h : PassesChecks calls votes c ts i) :
    .write i ∈ accesses txId c ts := by
  obtain ⟨pre, post, supernode, paymentId, r', rfl, hi, hmem⟩ := h
  rw [Handler.addVote, RtaAuthResult.already_eq_false_iff.mpr hmem, if_neg Bool.false_ne_true] at hi
  rw [exec_append] at hend
  obtain ⟨pre', post', rfl, hi'⟩ := Config.exists_turn hi (hend i)
  refine mem_trace.mpr ⟨pre ++ pre', .thread i, post', by simp, ?_⟩
  rw [exec_append, access]
  have hcall : (exec poolStep (exec poolStep c pre) pre').thread i = _ := hi'
  simp [hcall, hfor.txId i]

/-- A worker that writes has passed the checks. -/
theorem passesChecks_of_write_mem (hfor : VotesFor txId calls votes) {m : GlobalContextMap (Any E)}
    (hm : HasVotes m.lookup txId r) {ts : List (Turn ι ℕ)} {i : ι}
    (h : .write i ∈ accesses txId (pool m calls) ts) :
    PassesChecks calls votes (pool m calls) ts i := by
  obtain ⟨pre, t, post, rfl, ht⟩ := mem_trace.mp h
  rcases (follows_exec hfor hm pre).1.turn hfor t with ⟨hrest, -⟩ | ⟨a, ha, -, hwrite, -⟩
  · rw [hrest] at ht; cases ht
  · rw [ht] at ha
    cases ha
    obtain ⟨-, supernode, paymentId, r', hi, hmem⟩ := hwrite i rfl
    exact ⟨pre, t :: post, supernode, paymentId, r', rfl, hi, hmem⟩

omit [DecidableEq ι] in
/-- A vote of a voter that is new in `r` is in the tally when it has been put there. -/
theorem has_tally_map_iff (hfor : VotesFor txId calls votes) {is : List ι} {i : ι}
    (hi : (votes i).signature.idKey ∉ r.voters) :
    (tally r (is.map votes)).Has (votes i) ↔ i ∈ is := by
  rw [tally_has_iff]
  constructor
  · rintro (hold | ⟨w, hw, hsignature, -⟩)
    · exact absurd hold.mem_voters hi
    · obtain ⟨j, hj, rfl⟩ := List.mem_map.mp hw
      exact hfor.distinct (congrArg SupernodeSignature.idKey hsignature) ▸ hj
  · exact fun h => .inr ⟨votes i, List.mem_map_of_mem h, rfl, Iff.rfl⟩

/-! ## A value that is no vote record -/

omit [DecidableEq ι] in
/-- A call that reads the votes is not about to write them. -/
theorem access_ne_write_of_reading (hfor : VotesFor txId calls votes)
    (h : ∀ i, Reading (calls i) (votes i) (c.thread i)) (t : Turn ι ℕ) (i : ι) :
    access txId c t ≠ some (.write i) := by
  cases t with
  | env seconds => simp [access]
  | thread j =>
    have hj := h j
    generalize hp : c.thread j = p at hj
    cases hj with
    | returned a => simp [access, hp]
    | @other o k ho hk =>
      rw [hfor.txId j] at ho
      cases o <;> simp only [StoreOp.key] at ho <;> simp [access, hp, ho]
    | readVotes supernode paymentId => simp [access, hp, Handler.readVotes]
    | getVotes supernode paymentId => simp [access, hp, Handler.getVotes]

/-- When what is stored is no vote record, every call ends before it writes. -/
theorem reading_exec (hfor : VotesFor txId calls votes) {m : GlobalContextMap (Any E)} {v : Any E}
    (hm : m.lookup (ContextKey.authResultByTxid.of txId) = some v) (hv : v.toAuthResult? = none)
    (ts : List (Turn ι ℕ)) (i : ι) :
    Reading (calls i) (votes i) ((exec poolStep (pool m calls) ts).thread i) := by
  refine (exec_of_step
    (I := fun c : Pool ι E => c.store.lookup (ContextKey.authResultByTxid.of txId) = some v ∧
      ∀ i, Reading (calls i) (votes i) (c.thread i)) ?_
    ⟨hm, fun i => reading_handleRtaAuthResponseMulticast (hfor.incoming i)⟩ ts).2 i
  rintro c t ⟨hstored, hreading⟩
  -- a turn changes one thread
  have hnext : ∀ {j : ι} {m' : GlobalContextMap (Any E)} {p : Handler E},
      m'.lookup (ContextKey.authResultByTxid.of txId) = some v →
      Reading (calls j) (votes j) p →
      m'.lookup (ContextKey.authResultByTxid.of txId) = some v ∧
        ∀ i, Reading (calls i) (votes i) (Function.update c.thread j p i) := by
    intro j m' p hm' hp
    refine ⟨hm', fun i => ?_⟩
    by_cases hij : i = j
    · subst hij; simpa using hp
    · simpa [Function.update_of_ne hij] using hreading i
  cases t with
  | env seconds => exact ⟨hstored, hreading⟩
  | thread j =>
    have hj := hreading j
    generalize hp : c.thread j = p at hj
    cases hj with
    | returned a =>
      rw [poolStep, Config.step_thread_of_ret hp]
      exact ⟨hstored, hreading⟩
    | other ho hk =>
      rw [poolStep, Config.step_thread_of_call hp]
      refine hnext ?_ (hk _)
      rw [(lookup_handle _ _).2, handleLookup_of_key_ne (hfor.txId j ▸ ho), hstored]
    | readVotes supernode paymentId =>
      rw [poolStep, Config.step_thread_of_call hp]
      refine hnext (by rw [(lookup_handle _ _).2]; exact hstored) ?_
      have hkey : (handle (.hasKey (ContextKey.authResultByTxid.of (votes j).txId)) c.store).1
          = true := by
        rw [(lookup_handle _ _).1, hfor.txId j, handleLookup, hstored]
        rfl
      rw [hkey]
      exact .getVotes supernode paymentId
    | getVotes supernode paymentId =>
      -- what is read is no vote record, and the call ends with an exception
      rw [poolStep, Config.step_thread_of_call hp]
      refine hnext (by rw [(lookup_handle _ _).2]; exact hstored) ?_
      have hvalue : (handle (.get (ContextKey.authResultByTxid.of (votes j).txId)
          (.authResult .empty)) c.store).1 = v := by
        rw [(lookup_handle _ _).1, hfor.txId j, handleLookup, hstored]
        rfl
      rw [hvalue, hv]
      exact .returned _

end follows

/-! ## No lost vote -/

/-- **No lost vote**: when all calls have returned, every vote that passed the checks is stored
exactly when no call writes the votes between another call's read and write of them. -/
theorem no_vote_lost_iff {m : GlobalContextMap (Any E)} {txId : String} {calls : ι → Call E}
    {votes : ι → AuthorizeRtaTxResponse} (hfor : VotesFor txId calls votes)
    {ts : List (Turn ι ℕ)} (hend : (exec poolStep (pool m calls) ts).Finished) :
    (∀ i, PassesChecks calls votes (pool m calls) ts i →
        (votesOf (exec poolStep (pool m calls) ts).store.lookup txId).Has (votes i)) ↔
      ¬ LostUpdate.Overlap (accesses txId (pool m calls) ts) := by
  by_cases hm : ∃ r, HasVotes m.lookup txId r
  · obtain ⟨r, hm⟩ := hm
    obtain ⟨hfollows, hturn⟩ := follows_exec hfor hm ts
    rw [← LostUpdate.all_contribute_iff (hturn.mono fun _ _ h => h.1), hfollows.stored.votesOf_eq]
    refine forall_congr' fun i => ?_
    have hnew : .write i ∈ accesses txId (pool m calls) ts →
        (votes i).signature.idKey ∉ r.voters := by
      intro hwrite
      obtain ⟨s, hs⟩ := hturn.of_mem hwrite
      exact hs.2 i rfl
    constructor
    · intro hhas hwrite
      refine (has_tally_map_iff hfor (hnew hwrite)).mp (hhas ?_)
      exact passesChecks_of_write_mem hfor hm hwrite
    · intro hmem hpasses
      have hwrite := hpasses.write_mem hfor hend
      exact (has_tally_map_iff hfor (hnew hwrite)).mpr (hmem hwrite)
  · -- nothing is ever written
    obtain ⟨v, hv, hnone⟩ : ∃ v, m.lookup (ContextKey.authResultByTxid.of txId) = some v ∧
        v.toAuthResult? = none := by
      cases hv : m.lookup (ContextKey.authResultByTxid.of txId) with
      | none => exact absurd ⟨_, .inr ⟨hv, rfl⟩⟩ hm
      | some v =>
        refine ⟨v, rfl, Option.eq_none_iff_forall_ne_some.mpr fun r hr => hm ⟨r, .inl ?_⟩⟩
        cases v <;> cases hr
        exact hv
    have hnowrite : ∀ i, .write i ∉ accesses txId (pool m calls) ts := by
      intro i hwrite
      obtain ⟨pre, t, post, -, ht⟩ := mem_trace.mp hwrite
      exact access_ne_write_of_reading hfor (reading_exec hfor hv hnone pre) t i ht
    refine iff_of_true (fun i hpasses => ?_) (fun ⟨i, j, _, hsub⟩ => ?_)
    · exact absurd (hpasses.write_mem hfor hend) (hnowrite i)
    · exact hnowrite i (hsub.subset (by simp))

/-! ## Two calls -/

section turns

variable {c : Pool ι E} {i : ι} {call : Call E} {vote : AuthorizeRtaTxResponse}
    {txId paymentId : String}
  {txAmount : ℕ} {r : RtaAuthResult} {supernode : Option (Supernode E.toCrypto)}

/-- Turns of one worker up to the check for duplicates, which the vote passes. -/
theorem exists_exec_addVote (hi : c.thread i = Handler.handleRtaAuthResponseMulticast call)
    (hready : VotesReady c.store.lookup txId paymentId txAmount r)
    (hvote : ValidVote call txId vote)
    (hfresh : vote.signature.idKey ∉ r.voters) :
    ∃ ts c' supernode, exec poolStep c ts = c' ∧
      c'.thread i = Handler.addVote call supernode paymentId vote r ∧
      (∀ j ≠ i, c'.thread j = c.thread j) ∧
      VotesReady c'.store.lookup txId paymentId txAmount r := by
  obtain ⟨s, hs⟩ := hready.supernode
  have hreach := Handler.reaches_addVote (hvote.accepts hready.tx hready.votes hfresh hs)
  rw [hvote.txId, hready.votes.votesOf_eq, ← hi] at hreach
  obtain ⟨m, hm, hlookup⟩ := hreach.of_view lookup_handle rfl
  obtain ⟨n, hn⟩ := Config.exists_exec_of_reaches (fun seconds m => m.tick seconds) hm
  exact ⟨_, _, some s, hn, Function.update_self _ _ _, fun j hj => Function.update_of_ne hj _ _,
    hlookup ▸ hready⟩

/-- Turns of one worker from there to its end. -/
theorem exists_exec_return {r₀ : RtaAuthResult}
    (hi : c.thread i = Handler.addVote call supernode paymentId vote r)
    (hready : VotesReady c.store.lookup txId paymentId txAmount r₀) (htx : vote.txId = txId)
    (hfresh : vote.signature.idKey ∉ r.voters) :
    ∃ ts c', exec poolStep c ts = c' ∧ (c'.thread i).Done ∧ (∀ j ≠ i, c'.thread j = c.thread j) ∧
      VotesReady c'.store.lookup txId paymentId txAmount (r.push vote) := by
  obtain ⟨n, hn⟩ := Config.exists_exec_of_reaches (fun seconds m => m.tick seconds)
    (Prog.reaches_run handle (c.thread i) c.store)
  refine ⟨_, _, hn, ?_, fun j hj => Function.update_of_ne hj _ _, ?_⟩
  · simp
  · rw [hi, (Prog.run_of_view (fun o m _ => lookup_handle o m) (Prog.every_true _) _).2,
      Handler.addVote_of_fresh hfresh, htx]
    exact (hready.setVotes _).countVotes

end turns

/-- Two approvals by different keys. -/
def samplePoolCalls : Bool → Call sampleExternals
  | false => sampleCall ("A" ++ lowerId)
  | true => sampleCall ("A" ++ otherId)

@[inherit_doc samplePoolCalls]
def samplePoolVotes : Bool → AuthorizeRtaTxResponse
  | false => sampleVote rtaAuthResultApproved lowerId
  | true => sampleVote rtaAuthResultApproved otherId

theorem samplePool_valid (b : Bool) :
    ValidVote (samplePoolCalls b) sampleTxId (samplePoolVotes b) := by
  cases b with
  | false => exact sampleCall_approval hexToPod_ids.1
  | true => exact sampleCall_approval hexToPod_ids.2.2.1

theorem samplePool_votesFor : VotesFor sampleTxId samplePoolCalls samplePoolVotes where
  incoming b := (samplePool_valid b).incoming
  txId b := (samplePool_valid b).txId
  distinct b b' h := by
    cases b <;> cases b' <;> first | rfl | exact absurd h (by decide)

theorem samplePool_fresh : (samplePoolVotes true).signature.idKey
    ∉ (RtaAuthResult.push .empty (samplePoolVotes false)).voters := by
  decide

/-- The two calls one after the other: their accesses do not overlap. -/
theorem no_vote_lost_one_by_one :
    ∃ ts, (exec poolStep (pool sampleContext samplePoolCalls) ts).Finished ∧
      ¬ LostUpdate.Overlap (accesses sampleTxId (pool sampleContext samplePoolCalls) ts) := by
  obtain ⟨ts₁, c₁, s₁, h₁, hfirst₁, hother₁, hready₁⟩ := exists_exec_addVote
    (c := pool sampleContext samplePoolCalls) (i := false) rfl sampleContext_ready
    (samplePool_valid false) List.not_mem_nil
  obtain ⟨ts₂, c₂, h₂, hfirst₂, hother₂, hready₂⟩ :=
    exists_exec_return hfirst₁ hready₁ rfl List.not_mem_nil
  have hsecond₂ := (hother₂ true (by decide)).trans (hother₁ true (by decide))
  obtain ⟨ts₃, c₃, s₃, h₃, hsecond₃, hother₃, hready₃⟩ := exists_exec_addVote hsecond₂ hready₂
    (samplePool_valid true) samplePool_fresh
  obtain ⟨ts₄, c₄, h₄, hsecond₄, hother₄, hready₄⟩ :=
    exists_exec_return hsecond₃ hready₃ rfl samplePool_fresh
  have hexec : exec poolStep (pool sampleContext samplePoolCalls) (ts₁ ++ (ts₂ ++ (ts₃ ++ ts₄)))
      = c₄ := by
    rw [exec_append, exec_append, exec_append, h₁, h₂, h₃, h₄]
  have hfinished : c₄.Finished := by
    refine Bool.forall_bool.mpr ⟨?_, hsecond₄⟩
    rwa [hother₄ false (by decide), hother₃ false (by decide)]
  refine ⟨ts₁ ++ (ts₂ ++ (ts₃ ++ ts₄)), hexec ▸ hfinished, ?_⟩
  refine (no_vote_lost_iff samplePool_votesFor (hexec ▸ hfinished)).mp fun b _ => ?_
  rw [hexec, hready₄.votes.votesOf_eq]
  cases b <;> simp [RtaAuthResult.has_push, samplePoolVotes, sampleVote]

/-- **A lost vote**: both calls read the votes before either of them writes, and the vote of the
call that writes first is not stored at the end. -/
theorem vote_lost :
    TxStored sampleContext.lookup sampleTxId "payment" 10000000000 ∧
      VotesFor sampleTxId samplePoolCalls samplePoolVotes ∧
      ∃ ts, (exec poolStep (pool sampleContext samplePoolCalls) ts).Finished ∧
        PassesChecks samplePoolCalls samplePoolVotes (pool sampleContext samplePoolCalls) ts true ∧
        ¬ (votesOf (exec poolStep (pool sampleContext samplePoolCalls) ts).store.lookup
          sampleTxId).Has (samplePoolVotes true) := by
  obtain ⟨ts₁, c₁, s₁, h₁, hfirst₁, hother₁, hready₁⟩ := exists_exec_addVote
    (c := pool sampleContext samplePoolCalls) (i := false) rfl sampleContext_ready
    (samplePool_valid false) List.not_mem_nil
  obtain ⟨ts₂, c₂, s₂, h₂, hsecond₂, hother₂, hready₂⟩ := exists_exec_addVote
    (hother₁ true (by decide)) hready₁ (samplePool_valid true) List.not_mem_nil
  obtain ⟨ts₃, c₃, h₃, hsecond₃, hother₃, hready₃⟩ :=
    exists_exec_return hsecond₂ hready₂ rfl List.not_mem_nil
  have hfirst₃ := (hother₃ false (by decide)).trans ((hother₂ false (by decide)).trans hfirst₁)
  obtain ⟨ts₄, c₄, h₄, hfirst₄, hother₄, hready₄⟩ :=
    exists_exec_return hfirst₃ hready₃ rfl List.not_mem_nil
  have hexec : exec poolStep (pool sampleContext samplePoolCalls) (ts₁ ++ (ts₂ ++ (ts₃ ++ ts₄)))
      = c₄ := by
    rw [exec_append, exec_append, exec_append, h₁, h₂, h₃, h₄]
  refine ⟨sampleContext_ready.tx, samplePool_votesFor, ts₁ ++ (ts₂ ++ (ts₃ ++ ts₄)), ?_, ?_, ?_⟩
  · rw [hexec]
    refine Bool.forall_bool.mpr ⟨hfirst₄, ?_⟩
    rwa [hother₄ true (by decide)]
  · refine ⟨ts₁ ++ ts₂, ts₃ ++ ts₄, s₂, "payment", .empty, by simp, ?_, List.not_mem_nil⟩
    rw [exec_append, h₁, h₂]
    exact hsecond₂
  · rw [hexec, hready₄.votes.votesOf_eq, RtaAuthResult.has_push]
    rintro (hold | ⟨hsignature, -⟩)
    · exact List.not_mem_nil hold.mem_voters
    · have hsame := samplePool_votesFor.distinct (congrArg SupernodeSignature.idKey hsignature)
      exact absurd hsame (by decide)

end Request
