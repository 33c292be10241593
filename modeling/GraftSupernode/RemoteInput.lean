/-
# Malformed input

`rejectSaleHandler` and `rejectPayHandler` read their body with the overload of `get` that throws,
and the two callback handlers read the `id` of their path with a generator that throws; none of
the four catches.

* `Malformed`: a body or a path id that cannot be read;
* `AnswersInput`: in every run the call returns a status, and an error when its input is malformed;
* `answers_input_iff`: a call of the four does so if and only if its input is not malformed.

A status stored in the global context is an integer in every run (`StatusesAreInts`), so that
reading it does not throw.
-/
import GraftSupernode.RequestPool

open AtomicProgram GlobalContext Runs

namespace Request

variable {D : DetailsExternals} {ι : Type*} [DecidableEq ι]

/-! ## Input -/

/-- The path id of a callback is no uuid. -/
def MalformedId (c : DetailsCall D) : Prop := ∃ id, c.vars = some id ∧ D.stringToUuid id = none

namespace RequestCall

/-- The input of the call is a body that cannot be read, or a path id that is no uuid. -/
def Malformed : RequestCall D → Prop
  | payment (.status (.rejectSale c)) => D.getRejectRequest c.input = none
  | payment (.status (.rejectPay c)) => D.getRejectRequest c.input = none
  | saleDetailsCallback c => MalformedId c
  | genericCallback c => MalformedId c
  | _ => False

/-- A call of `rejectSaleHandler`, `rejectPayHandler`, `saleDetailsCallbackHandler` or the generic
callback handler. -/
inductive TakesRemoteInput : RequestCall D → Prop
  | rejectSale (c : Call D.toExternals) : TakesRemoteInput (payment (.status (.rejectSale c)))
  | rejectPay (c : Call D.toExternals) : TakesRemoteInput (payment (.status (.rejectPay c)))
  | saleDetailsCallback (c : DetailsCall D) : TakesRemoteInput (saleDetailsCallback c)
  | genericCallback (c : DetailsCall D) : TakesRemoteInput (genericCallback c)

end RequestCall

/-- The call of a worker returns a status in every run, and no exception: an error when its input
is malformed. -/
structure AnswersInput (m : GlobalContextMap (Any D.toExternals)) (calls : ι → RequestCall D)
    (i : ι) : Prop where
  returns : ∀ ts, ∃ n, ((exec requestStep (requestPool m calls)
    (ts ++ List.replicate n (.thread i))).thread i).Done
  answered : ∀ ts a, (exec requestStep (requestPool m calls) ts).thread i = .ret a →
    ∃ r, a = .ok r ∧ ((calls i).Malformed → r.1.status = .error)

/-! ## Statuses are integers -/

/-- The statuses that are stored are integers. -/
def StatusesAreInts (m : GlobalContextMap (Any D.toExternals)) : Prop :=
  ∀ id v, m.lookup (ContextKey.status.of id) = some v → v.type = .int

/-- The reply when a status is read is an integer. -/
def StatusReply : (o : StoreOp (Any D.toExternals)) → o.Reply → Prop
  | .get key d, v => ∀ id, key = ContextKey.status.of id → d.type = .int → v.type = .int
  | _, _ => True

variable {m : GlobalContextMap (Any D.toExternals)}

theorem StatusesAreInts.reply (h : StatusesAreInts m) (o : StoreOp (Any D.toExternals)) :
    StatusReply o (handle o m).1 := by
  cases o with
  | hasKey key => trivial
  | set key v ttl => trivial
  | remove key => trivial
  | get key d =>
    rintro id rfl hd
    show ((m.lookup _).getD d).type = .int
    cases hv : m.lookup (ContextKey.status.of id) with
    | none => exact hd
    | some v => exact h id v hv

/-- A value under the key of a status is an integer. -/
def StatusInt (key : String) (v : Any D.toExternals) : Prop :=
  ∀ id, key = ContextKey.status.of id → v.type = .int

theorem statusesAreInts_iff : StatusesAreInts m ↔ Stored StatusInt m := by
  constructor
  · rintro h key v hv id rfl
    exact h id v hv
  · intro h id v hv
    exact h _ v hv id rfl

/-- What holds in every run: each worker issues operations of the handlers, and the statuses are
integers. -/
abbrev StatusRun (c : RequestPool ι D) : Prop :=
  StoredRun (DetailsOp (fun _ => True) fun _ => True) StatusInt c

omit [DecidableEq ι] in
theorem statusRun_requestPool (hm : StatusesAreInts m) (calls : ι → RequestCall D) :
    StatusRun (requestPool m calls) :=
  ⟨fun i => (calls i).detailsOp.mono fun _ ho => ho.mono (fun _ _ => trivial) fun _ _ => trivial,
    statusesAreInts_iff.mp hm⟩

theorem StatusRun.step {c : RequestPool ι D} (h : StatusRun c) (t : Turn ι Maintenance) :
    StatusRun (requestStep c t) := by
  refine StoredRun.step h ?_ t
  rintro key v ttl ho id rfl
  exact ho.statusOp rfl

/-! ## What the four handlers return -/

/-- The result is a reply. -/
def IsReply (a : Returned D) : Prop := ∃ r, a = .ok r

/-- A rejection whose body can be read returns a status. -/
theorem post_rejectHandler (status : RTAStatus) {c : Call D.toExternals} {paymentId : String}
    (hreq : D.getRejectRequest c.input = some paymentId) :
    (Handler.noNextTask (Handler.rejectHandler status c)).Post StatusReply IsReply := by
  rw [Handler.rejectHandler, hreq]
  intro v hv
  obtain ⟨current, rfl⟩ := Any.type_eq_int.mp (hv paymentId rfl rfl)
  show (Prog.map _ (if paymentId = "" ∨ current = 0 then _ else _)).Post StatusReply IsReply
  split
  · exact ⟨_, rfl⟩
  · exact fun _ _ => ⟨_, rfl⟩

/-- **Input that is not malformed**: the four handlers return a status. -/
theorem post_of_not_malformed {call : RequestCall D} (hcall : call.TakesRemoteInput)
    (h : ¬ call.Malformed) : call.handler.Post StatusReply IsReply := by
  cases hcall with
  | rejectSale c =>
    obtain ⟨paymentId, hreq⟩ := Option.ne_none_iff_exists'.mp h
    exact post_rejectHandler .rejectedByPOS hreq
  | rejectPay c =>
    obtain ⟨paymentId, hreq⟩ := Option.ne_none_iff_exists'.mp h
    exact post_rejectHandler .rejectedByWallet hreq
  | saleDetailsCallback c =>
    show (Handler.saleDetailsCallbackHandler c).Post StatusReply IsReply
    rw [Handler.saleDetailsCallbackHandler]
    split
    · exact ⟨_, rfl⟩
    rename_i id hid
    split
    · rename_i hnone
      exact absurd ⟨id, hid, hnone⟩ h
    · exact fun _ _ => ⟨_, rfl⟩
  | genericCallback c =>
    show (Handler.genericCallback c).Post StatusReply IsReply
    rw [Handler.genericCallback]
    split
    · exact ⟨_, rfl⟩
    rename_i id hid
    split
    · rename_i hnone
      exact absurd ⟨id, hid, hnone⟩ h
    · exact ⟨_, rfl⟩

/-- **Malformed input**: the four handlers throw, before they touch the global context. -/
theorem handler_of_malformed {call : RequestCall D} (hcall : call.TakesRemoteInput)
    (h : call.Malformed) : ∃ f, call.handler = .ret (.error f) := by
  cases hcall with
  | rejectSale c =>
    refine ⟨.jsonParseError, ?_⟩
    show Handler.noNextTask (Handler.rejectHandler _ c) = _
    rw [Handler.rejectHandler, show D.getRejectRequest c.input = none from h]
    rfl
  | rejectPay c =>
    refine ⟨.jsonParseError, ?_⟩
    show Handler.noNextTask (Handler.rejectHandler _ c) = _
    rw [Handler.rejectHandler, show D.getRejectRequest c.input = none from h]
    rfl
  | saleDetailsCallback c =>
    obtain ⟨id, hid, hnone⟩ := h
    refine ⟨.invalidUuid, ?_⟩
    show Handler.saleDetailsCallbackHandler c = _
    simp only [Handler.saleDetailsCallbackHandler, hid, hnone]
  | genericCallback c =>
    obtain ⟨id, hid, hnone⟩ := h
    refine ⟨.invalidUuid, ?_⟩
    show Handler.genericCallback c = _
    simp only [Handler.genericCallback, hid, hnone]

/-- The results of a call, in every run. -/
theorem isReply_of_post (hm : StatusesAreInts m) {calls : ι → RequestCall D} {i : ι}
    (hpost : (calls i).handler.Post StatusReply IsReply) (ts : List (Turn ι Maintenance))
    {a : Returned D} (ha : (exec requestStep (requestPool m calls) ts).thread i = .ret a) :
    IsReply a := by
  have hstart : StatusRun (requestPool m calls) := statusRun_requestPool hm calls
  refine StoredRun.result hstart ?_ (fun o m hm => (statusesAreInts_iff.mpr hm).reply o) hpost ts ha
  rintro key v ttl ho id rfl
  exact ho.statusOp rfl

/-- Turns of its own bring every call to its end. -/
theorem returns_of_turns (c : RequestPool ι D) (i : ι) :
    ∃ n, ((exec requestStep c (List.replicate n (.thread i))).thread i).Done := by
  obtain ⟨n, hn⟩ := Config.exists_exec_of_reaches (fun (e : Maintenance) m => e.apply m)
    (Prog.reaches_run handle (c.thread i) c.store)
  replace hn : exec requestStep c _ = _ := hn
  exact ⟨n, by rw [hn]; simp⟩

/-- A call that returns a status in every run has input that is not malformed. -/
theorem AnswersInput.not_malformed {calls : ι → RequestCall D} {i : ι}
    (h : AnswersInput m calls i) (hi : (calls i).TakesRemoteInput) : ¬ (calls i).Malformed := by
  intro hmalformed
  obtain ⟨f, hf⟩ := handler_of_malformed hi hmalformed
  obtain ⟨r, hr, -⟩ := h.answered [] _ hf
  cases hr

/-- **No exception escapes**: a call of the four handlers returns a status in every run, and an
error when its input is malformed, if and only if its input is not malformed. -/
theorem answers_input_iff (hm : StatusesAreInts m) (calls : ι → RequestCall D) {i : ι}
    (hi : (calls i).TakesRemoteInput) : AnswersInput m calls i ↔ ¬ (calls i).Malformed := by
  constructor
  · intro h
    exact h.not_malformed hi
  · intro h
    refine ⟨fun ts => ?_, fun ts a ha => ?_⟩
    · obtain ⟨n, hn⟩ := returns_of_turns (exec requestStep (requestPool m calls) ts) i
      exact ⟨n, by rwa [exec_append]⟩
    · obtain ⟨r, hr⟩ := isReply_of_post hm (post_of_not_malformed hi h) ts ha
      exact ⟨r, hr, fun hmalformed => absurd hmalformed h⟩

theorem statusesAreInts_sampleDetailsContext : StatusesAreInts sampleDetailsContext := by
  intro id v hv
  have hname : ContextKey.status.of id ≠ contextKeySupernode := ContextKey.of_ne (by decide)
  simp [GlobalContextMap.lookup, sampleDetailsContext, hname] at hv

/-- A rejection of a payment that nobody knows. -/
theorem answers_input_of_rejection :
    let calls : Unit → RequestCall sampleDetails := fun _ =>
      .payment (.status (.rejectSale (sampleDetailsCall "payment" none).toCall))
    AnswersInput sampleDetailsContext calls () := by
  intro calls
  refine (answers_input_iff statusesAreInts_sampleDetailsContext calls (i := ())
    (.rejectSale _)).mpr fun h => ?_
  have hnone : sampleDetails.getRejectRequest "payment" = none := h
  exact absurd hnone (by decide)

/-- **Two requests that throw**: a rejection without a body, and a callback whose path id has only
hex digits but is no uuid. -/
theorem malformed_input_throws :
    let calls : Fin 2 → RequestCall sampleDetails := fun
      | 0 => .payment (.status (.rejectSale (sampleDetailsCall "" none).toCall))
      | 1 => .saleDetailsCallback (sampleDetailsCall "body" (some "abc"))
    RouteId "abc" ∧ StatusesAreInts sampleDetailsContext ∧
      ∀ i, (calls i).TakesRemoteInput ∧
        (∃ f, (requestPool sampleDetailsContext calls).thread i = .ret (.error f)) ∧
        ¬ AnswersInput sampleDetailsContext calls i := by
  intro calls
  have htakes : ∀ i, (calls i).TakesRemoteInput := by
    intro i
    match i with
    | 0 => exact .rejectSale _
    | 1 => exact .saleDetailsCallback _
  have hmalformed : ∀ i, (calls i).Malformed := by
    intro i
    match i with
    | 0 => exact (rfl : sampleDetails.getRejectRequest "" = none)
    | 1 => exact ⟨"abc", rfl, (by decide : uuidOfText "abc" = none)⟩
  refine ⟨by decide, statusesAreInts_sampleDetailsContext, fun i => ⟨htakes i, ?_, fun h => ?_⟩⟩
  · exact handler_of_malformed (htakes i) (hmalformed i)
  · exact h.not_malformed (htakes i) (hmalformed i)

end Request
