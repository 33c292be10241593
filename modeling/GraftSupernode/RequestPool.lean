/-
# All request handlers

The registered request handlers, as a pool of calls whose operations on the global context
interleave in any way, together with the clock and the cleanup of the table.

* `DetailsOp`: an operation of any of them;
* `RequestCall`: a call of a handler; `requestStep`: a turn;
* `RequestCall.detailsOp`: the operations of a call;
* `StoredRun.step`: what is stored satisfies what the operations write.

The handlers that deal neither with payments nor with their details (announcements, stakes,
lists, information, forwarding) only read what the server stored when it started: `ServerRead`.
-/
import GraftSupernode.PaymentTtl
import GraftSupernode.SaleDetails

open AtomicProgram GlobalContext Runs

namespace Request

variable {D : DetailsExternals}

/-! ## Operations -/

/-- What the server stored when it started is read. -/
def ServerRead {E : Externals} (o : StoreOp (Any E)) : Prop :=
  ∃ (k : ServerKey) (d : Any E), (d.type = k.type ∨ d = .empty) ∧ o = .get k.name d

/-- An operation of a handler.  Under `saleDetailsResult` there are the details that are cached for
a payment, whose id satisfies `P`, and the bodies of callbacks, under ids that satisfy `B`. -/
inductive DetailsOp {E : Externals} (P B : String → Prop) : StoreOp (Any E) → Prop
  | issued {o : StoreOp (Any E)} (h : Issued o) : DetailsOp P B o
  | findDetails (id : String) : DetailsOp P B (.hasKey (ContextKey.saleDetailsResult.of id))
  | readCached {id : String} (h : P id) :
      DetailsOp P B (.get (ContextKey.saleDetailsResult.of id) (.saleDetailsResponse ⟨[], ""⟩))
  | cache {id : String} (h : P id) (r : SaleDetailsResponse) :
      DetailsOp P B
        (.set (ContextKey.saleDetailsResult.of id) (.saleDetailsResponse r) rtaTxTtl)
  | readBody {id : String} (h : B id) :
      DetailsOp P B (.get (ContextKey.saleDetailsResult.of id) (.str ""))
  | storeBody {id : String} (h : B id) (body : String) :
      DetailsOp P B (.set (ContextKey.saleDetailsResult.of id) (.str body) rtaTxTtl)
  | removeBody {id : String} (h : B id) :
      DetailsOp P B (.remove (ContextKey.saleDetailsResult.of id))

/-- An operation for some payments and tasks is one for more of them. -/
theorem DetailsOp.mono {E : Externals} {P B P' B' : String → Prop} (hP : ∀ id, P id → P' id)
    (hB : ∀ id, B id → B' id) {o : StoreOp (Any E)} (h : DetailsOp P B o) : DetailsOp P' B' o := by
  cases h with
  | issued h => exact .issued h
  | findDetails id => exact .findDetails id
  | readCached h => exact .readCached (hP _ h)
  | cache h r => exact .cache (hP _ h) r
  | readBody h => exact .readBody (hB _ h)
  | storeBody h body => exact .storeBody (hB _ h) body
  | removeBody h => exact .removeBody (hB _ h)

/-- Whoever writes a status writes an integer. -/
theorem DetailsOp.statusOp {E : Externals} {P B : String → Prop} {o : StoreOp (Any E)}
    (h : DetailsOp P B o) {id : String} {v : Any E} {ttl : ℕ}
    (ho : o = .set (ContextKey.status.of id) v ttl) : v.type = .int := by
  have hne : ∀ id', ContextKey.saleDetailsResult.of id' ≠ ContextKey.status.of id := by
    intro id' heq
    cases (ContextKey.of_eq_of.mp heq).1
  subst ho
  generalize hset : StoreOp.set (ContextKey.status.of id) v ttl = o at h
  cases h with
  | issued h =>
    obtain ⟨s, ttl', heq⟩ := h.statusOp id (by rw [← hset]; rfl)
    rw [← hset] at heq
    rw [(StoreOp.set.inj heq).2.1]
    rfl
  | findDetails id' => cases hset
  | readCached h => cases hset
  | cache h r => exact absurd (StoreOp.set.inj hset).1.symm (hne _)
  | readBody h => cases hset
  | storeBody h body => exact absurd (StoreOp.set.inj hset).1.symm (hne _)
  | removeBody h => cases hset

/-! ## Calls -/

/-- A call of a registered handler. -/
inductive RequestCall (D : DetailsExternals)
  | payment (call : PaymentCall D.toExternals)
  | saleStatus (c : DetailsCall D)
  | payStatus (c : DetailsCall D)
  | payClient (c : DetailsCall D)
  | saleDetailsClient (c : DetailsCall D)
  | saleDetailsUnicast (c : DetailsCall D)
  | saleDetailsCallback (c : DetailsCall D)
  | genericCallback (c : DetailsCall D)
  | server (p : Handler D.toExternals) (h : p.Every ServerRead)

namespace RequestCall

/-- What a call runs. -/
def handler : RequestCall D → CallbackHandler D
  | payment call => Handler.noNextTask call.handler
  | saleStatus c => Handler.noNextTask (Handler.saleStatusHandler c)
  | payStatus c => Handler.noNextTask (Handler.payStatusHandler c)
  | payClient c => Handler.noNextTask (Handler.payClientHandler c)
  | saleDetailsClient c => Handler.noNextTask (Handler.saleDetailsClientHandler c)
  | saleDetailsUnicast c => Handler.noNextTask (Handler.saleDetailsUnicastHandler c)
  | saleDetailsCallback c => Handler.saleDetailsCallbackHandler c
  | genericCallback c => Handler.genericCallback c
  | server p _ => Handler.noNextTask p

/-- The call asks for the details of a payment, or caches them. -/
def PaymentId : RequestCall D → String → Prop
  | saleDetailsClient c, id =>
    (∃ req, D.getSaleDetailsRequest c.input = some req ∧ req.paymentId = id) ∨
      (c.ctxLocal.get "payment_id").toStr? = some id
  | _, _ => False

/-- The call stores the body of a callback under the id, or is a task with this id, which looks
for one. -/
def CallbackId : RequestCall D → String → Prop
  | saleDetailsCallback c, id => c.vars = some id ∧ (D.stringToUuid id).isSome
  | saleDetailsClient c, id => id = D.uuidToString c.id
  | _, _ => False

end RequestCall

/-! ## The operations of the calls -/

namespace Handler

variable {P B : String → Prop}

/-- Without a next task, a handler issues what it does. -/
theorem every_noNextTask {Q : StoreOp (Any D.toExternals) → Prop} {p : Handler D.toExternals}
    (h : p.Every Q) : (noNextTask p).Every Q :=
  Prog.every_map h

/-- What the handlers of sales issue, those of details may issue too. -/
theorem detailsOp_of_issued {p : Handler D.toExternals} (h : p.Every Issued) :
    p.Every (DetailsOp P B) :=
  h.mono fun _ ho => .issued ho

/-- `statusHandler` reads the status of a payment. -/
theorem issued_statusHandler (c : DetailsCall D) : (statusHandler c).Every Issued := by
  rw [statusHandler]
  split
  · trivial
  refine every_get (.get .status _ rfl nofun) fun v => ?_
  split
  · trivial
  split <;> trivial

/-- The details are prepared from what is stored for the payment, whatever is done with them. -/
theorem issued_prepareSaleDetailsResponse {paymentId : String} {authSample : List String}
    {failed : ℤ → String → Handler D.toExternals}
    {prepared : SaleDetailsResponse → Handler D.toExternals}
    (hfailed : ∀ code message, (failed code message).Every Issued)
    (hprepared : ∀ sdr, (prepared sdr).Every Issued) :
    (prepareSaleDetailsResponse D paymentId authSample failed prepared).Every Issued := by
  refine every_hasKey (.hasKey .sale _ nofun) fun known => ?_
  split
  · exact hfailed _ _
  refine every_get (.get .saleDetails _ rfl nofun) fun v => ?_
  split
  · trivial
  refine every_get (.get .sale _ rfl nofun) fun v => ?_
  split
  · trivial
  · exact hprepared _

/-- A request for details from another supernode reads the details of the sale. -/
theorem issued_handleSaleDetailsUnicastRequest (c : DetailsCall D) :
    (handleSaleDetailsUnicastRequest c).Every Issued := by
  rw [handleSaleDetailsUnicastRequest]
  split
  · trivial
  refine every_get .getSupernode fun v => ?_
  split
  · trivial
  · trivial
  split
  · trivial
  split
  · trivial
  refine every_get .getFsl fun v => ?_
  split
  · trivial
  · trivial
  split
  · trivial
  refine every_hasKey (.hasKey .saleDetails _ nofun) fun found => ?_
  split
  · exact issued_prepareSaleDetailsResponse (fun _ _ => trivial) (fun _ => trivial)
  · trivial

/-- `saleDetailsUnicastHandler` issues what the handler of its phase does. -/
theorem issued_saleDetailsUnicastHandler (c : DetailsCall D) :
    (saleDetailsUnicastHandler c).Every Issued := by
  rw [saleDetailsUnicastHandler]
  dsimp only
  split
  · exact issued_handleSaleDetailsUnicastRequest _
  split
  · trivial
  · exact issued_handleSaleDetailsUnicastRequest _
  · trivial
  · trivial

/-- Details that are not cached are asked for. -/
theorem issued_requestDetails (c : DetailsCall D) (req : SaleDetailsRequest) :
    (handleClientRequest.requestDetails c req).Every Issued := by
  refine every_get .getFsl fun v => ?_
  split
  · trivial
  refine every_get .getSupernode fun v => ?_
  split
  · trivial
  split
  · trivial
  split
  · trivial
  refine every_hasKey (.hasKey .saleDetails _ nofun) fun haveLocally => ?_
  split
  · exact issued_prepareSaleDetailsResponse (fun _ _ => trivial) (fun _ => trivial)
  split
  · trivial
  rw [handleClientRequest.requestRemote]
  split
  · trivial
  dsimp only
  split <;> trivial

/-- A request of a client looks in the cache for the payment that it names. -/
theorem detailsOp_handleClientRequest {c : DetailsCall D}
    (hP : ∀ req, D.getSaleDetailsRequest c.input = some req → P req.paymentId) :
    (handleClientRequest c).Every (DetailsOp P B) := by
  rw [handleClientRequest]
  split
  · trivial
  rename_i req hreq
  split
  · trivial
  refine every_get (.issued (.get .status _ rfl nofun)) fun v => ?_
  split
  · trivial
  split
  · trivial
  refine every_hasKey (.findDetails _) fun cached => ?_
  split
  · refine every_get (.readCached (hP req hreq)) fun v => ?_
    split <;> trivial
  · exact detailsOp_of_issued (issued_requestDetails c req)

/-- The acknowledgement of a unicast reads and stores nothing. -/
theorem issued_handleUnicastAcknowledge (c : DetailsCall D) :
    (handleUnicastAcknowledge c).Every Issued := by
  rw [handleUnicastAcknowledge]
  split
  · trivial
  split <;> trivial

/-- The details that come are stored for the payment of the task, and the task is resumed by its own
id. -/
theorem detailsOp_handleSaleDetailsResponse {c : DetailsCall D}
    (hP : ∀ id, (c.ctxLocal.get "payment_id").toStr? = some id → P id)
    (hB : B (D.uuidToString c.id)) : (handleSaleDetailsResponse c).Every (DetailsOp P B) := by
  have hcheck : ∀ body, (checkResponse c body).Every (DetailsOp P B) := by
    intro body
    rw [checkResponse]
    split
    · trivial
    refine every_get (.issued .getSupernode) fun v => ?_
    split
    · trivial
    split
    · trivial
    rename_i id hid
    split
    · trivial
    split
    · trivial
    split
    · trivial
    · exact every_set (.cache (hP id hid) _) ⟨.removeBody hB, fun _ => trivial⟩
  rw [handleSaleDetailsResponse]
  split
  · trivial
  refine every_hasKey (.findDetails _) fun found => ?_
  split
  · trivial
  refine every_get (.readBody hB) fun v => ?_
  split
  · trivial
  · exact hcheck _

end Handler

/-- **The operations of a call.** -/
theorem RequestCall.detailsOp (call : RequestCall D) :
    call.handler.Every (DetailsOp call.PaymentId call.CallbackId) := by
  cases call with
  | payment call =>
    exact Handler.every_noNextTask (Handler.detailsOp_of_issued call.issued)
  | saleStatus c =>
    exact Handler.every_noNextTask (Handler.detailsOp_of_issued (Handler.issued_statusHandler c))
  | payStatus c =>
    exact Handler.every_noNextTask (Handler.detailsOp_of_issued (Handler.issued_statusHandler c))
  | payClient c => trivial
  | saleDetailsUnicast c =>
    exact Handler.every_noNextTask
      (Handler.detailsOp_of_issued (Handler.issued_saleDetailsUnicastHandler c))
  | server p h =>
    refine Handler.every_noNextTask (Handler.detailsOp_of_issued (h.mono ?_))
    rintro _ ⟨k, d, hd, rfl⟩
    exact .getServer k hd
  | saleDetailsCallback c =>
    show (Handler.saleDetailsCallbackHandler c).Every _
    rw [Handler.saleDetailsCallbackHandler]
    split
    · trivial
    rename_i id hid
    split
    · trivial
    rename_i uuid huuid
    exact every_set (.storeBody ⟨hid, by rw [huuid]; rfl⟩ _) trivial
  | genericCallback c =>
    show (Handler.genericCallback c).Every _
    rw [Handler.genericCallback]
    split
    · trivial
    split <;> trivial
  | saleDetailsClient c =>
    refine Handler.every_noNextTask ?_
    -- the state of the call does not matter where the request is read
    have hreq : ∀ (c' : DetailsCall D), c'.input = c.input →
        (Handler.handleClientRequest c').Every
          (DetailsOp (RequestCall.saleDetailsClient c).PaymentId
            (RequestCall.saleDetailsClient c).CallbackId) := by
      intro c' hinput
      refine Handler.detailsOp_handleClientRequest fun req h => .inl ⟨req, ?_, rfl⟩
      rwa [← hinput]
    rw [Handler.saleDetailsClientHandler]
    dsimp only
    split
    · exact hreq _ rfl
    split
    · trivial
    · exact hreq _ rfl
    · exact Handler.detailsOp_of_issued (Handler.issued_handleUnicastAcknowledge _)
    · exact Handler.detailsOp_handleSaleDetailsResponse (fun id hid => .inr hid) rfl

/-! ## Runs -/

/-- The calls, each with a worker of its own, and the global context. -/
abbrev RequestPool (ι : Type*) (D : DetailsExternals) : Type _ :=
  Config ι (GlobalContextMap (Any D.toExternals)) (StoreOp (Any D.toExternals)) StoreOp.Reply
    (Returned D)

variable {ι : Type*} [DecidableEq ι]

/-- No call has done anything yet. -/
def requestPool (m : GlobalContextMap (Any D.toExternals)) (calls : ι → RequestCall D) :
    RequestPool ι D :=
  ⟨m, fun i => (calls i).handler⟩

/-- A worker performs its next operation, or the clock or the cleanup runs. -/
def requestStep : RequestPool ι D → Turn ι Maintenance → RequestPool ι D :=
  Config.step handle fun e m => e.apply m

/-- **The invariant of a run**: each worker issues operations that satisfy `O`, and what is stored
satisfies `G`. -/
structure StoredRun (O : StoreOp (Any D.toExternals) → Prop)
    (G : String → Any D.toExternals → Prop) (c : RequestPool ι D) : Prop where
  ops : ∀ i, (c.thread i).Every O
  stored : Stored G c.store

/-- The step lemma of `StoredRun`. -/
theorem StoredRun.step {O : StoreOp (Any D.toExternals) → Prop}
    {G : String → Any D.toExternals → Prop} {c : RequestPool ι D} (h : StoredRun O G c)
    (hO : ∀ key v ttl, O (.set key v ttl) → G key v) (t : Turn ι Maintenance) :
    StoredRun O G (requestStep c t) := by
  refine ⟨Config.every_step h.ops t, ?_⟩
  cases t with
  | env e =>
    cases e with
    | tick seconds => exact h.stored
    | cleanup visited => exact h.stored.cleanup visited
  | thread i =>
    cases hi : c.thread i with
    | ret a =>
      rw [requestStep, Config.step_thread_of_ret hi]
      exact h.stored
    | call o k =>
      have ho := h.ops i
      rw [hi] at ho
      rw [requestStep, Config.step_thread_of_call hi]
      exact h.stored.handle fun key v ttl hset => hO key v ttl (hset ▸ ho.1)

/-- **The result of a call**, when a store that satisfies `G` replies by `T`. -/
theorem StoredRun.result {O : StoreOp (Any D.toExternals) → Prop}
    {G : String → Any D.toExternals → Prop} {T : (o : StoreOp (Any D.toExternals)) → o.Reply → Prop}
    {Q : Returned D → Prop} {c : RequestPool ι D} (h : StoredRun O G c)
    (hO : ∀ key v ttl, O (.set key v ttl) → G key v)
    (hT : ∀ o m, Stored G m → T o (handle o m).1) {i : ι} (hpost : (c.thread i).Post T Q)
    (ts : List (Turn ι Maintenance)) {a : Returned D}
    (ha : (exec requestStep c ts).thread i = .ret a) : Q a := by
  have hinv : StoredRun O G (exec requestStep c ts) ∧
      ((exec requestStep c ts).thread i).Post T Q := by
    refine exec_of_step (I := fun c => StoredRun O G c ∧ (c.thread i).Post T Q) ?_ ⟨h, hpost⟩ ts
    intro c t hc
    exact ⟨hc.1.step hO t, Config.post_step hc.2 t fun o _ _ => hT o _ hc.1.stored⟩
  have hreply := hinv.2
  rwa [ha] at hreply

/-! ## A concrete instance -/

/-- A path id that the callback routes accept: `[0-9a-fA-F-]+`. -/
def RouteId (id : String) : Prop :=
  id ≠ "" ∧ ∀ c ∈ id.toList, c = '-' ∨ (hexDigit c).isSome

instance (id : String) : Decidable (RouteId id) :=
  @instDecidableAnd _ _ inferInstance (List.decidableBAll _ id.toList)

/-- `boost::uuids::string_generator`, for texts with dashes in the usual places or without any. -/
def uuidOfText (s : String) : Option (List ℕ) :=
  hexToPod 16 (String.ofList (s.toList.filter (· ≠ '-')))

/-- `boost::uuids::to_string` -/
def textOfUuid (digits : List ℕ) : String :=
  let group (i n : ℕ) : List Char := ((digits.drop i).take n).map Nat.digitChar
  String.ofList (['-'].intercalate [group 0 8, group 8 4, group 12 4, group 16 4, group 20 12])

/-- In these messages the body is the payment id, or the data of the message; an empty body cannot
be read. -/
def sampleDetails : DetailsExternals :=
  { sampleExternals with
    getRejectRequest := fun s => if s = "" then none else some s
    Uuid := List ℕ
    stringToUuid := uuidOfText
    uuidToString := textOfUuid
    getSaleDetailsRequest := fun s => some ⟨s, 1, ""⟩
    getStatusRequest := some
    getUnicastRequest := fun s => if s = "" then none else some ⟨"unicast", "", "", "", s, true⟩
    getUnicastResponse := fun _ => some ⟨0, 0⟩
    getSaleDetailsRequestB64 := fun s => some ⟨s, 1, ""⟩
    getSaleDetailsResponseB64 := fun s => some ⟨[], s⟩
    loadSaleDetailsRequestB64 := fun req => req.paymentId
    loadSaleDetailsResponseB64 := fun r => r.details
    walletAddress := fun idKey => idKey }

/-- Only the supernode is stored. -/
def sampleDetailsContext : GlobalContextMap (Any sampleDetails.toExternals) :=
  ⟨0, Function.update (fun _ => none) contextKeySupernode
    (some ⟨.supernode (some ⟨[], some [], 0, true⟩), 0, none⟩)⟩

/-- A call with a body, and with the `id` of a path when there is one. -/
def sampleDetailsCall (input : String) (vars : Option String) : DetailsCall sampleDetails :=
  { input := input
    output := ⟨.empty, ""⟩
    ctxLocal := fun _ => none
    unspecified := ⟨[], [], [], fun _ => ()⟩
    id := []
    lastStatus := .none
    vars := vars
    randomNumber := fun _ _ => 0 }

end Request
