/-
# The delivery of callbacks

A task that waits for the details of a sale is named by the path id of its callback.  There are
three notions of this id: the callback handler stores the body under the raw text of the path,
the task manager finds the task by the uuid that the text stands for, and the task looks for the
body under the text that its own uuid is written as.

* `deliveryStep`: turns of the task and of callbacks, with a record of the callbacks so far;
* `Delivered`: a turn of the task finds the body, reads the latest one for its uuid, and does
  not end before it has removed it;
* `Spelled`: the latest callback for the uuid has the text of the uuid for its path id (or one
  with the same body has), and the task accepts the body;
* `callback_delivered`: a run of spelled turns delivers; `Waiting.of_postpone`: where the task
  comes from.
-/
import GraftSupernode.RequestPool

open AtomicProgram GlobalContext Runs

namespace Request

variable {D : DetailsExternals}

/-! ## Callbacks -/

/-- The body of the latest callback whose path id satisfies `p`; the callbacks are listed in the
order in which they came. -/
def lastBody (p : String → Bool) (heard : List (String × String)) : Option String :=
  (heard.filter fun x => p x.1).getLast?.map Prod.snd

@[simp] theorem lastBody_nil (p : String → Bool) : lastBody p [] = none := rfl

theorem lastBody_append_singleton (p : String → Bool) (heard : List (String × String))
    (id body : String) :
    lastBody p (heard ++ [(id, body)]) = if p id then some body else lastBody p heard := by
  rw [lastBody, List.filter_append]
  by_cases h : p id = true
  · simp [h]
  · simp [h, lastBody]

theorem lastBody_singleton {p : String → Bool} {id : String} (h : p id = true) (body : String) :
    lastBody p [(id, body)] = some body := by
  rw [← List.nil_append [(id, body)], lastBody_append_singleton, if_pos h]

section bodies

variable [DecidableEq D.Uuid] (u : D.Uuid)

/-- The body of the latest callback for a uuid. -/
def latestBody (heard : List (String × String)) : Option String :=
  lastBody (fun id => D.stringToUuid id = some u) heard

/-- The body of the latest callback whose path id is the text of a uuid. -/
def spelledBody (heard : List (String × String)) : Option String :=
  lastBody (fun id => id = D.uuidToString u) heard

end bodies

/-- The task accepts a body: it is a request to this supernode, with details that can be read. -/
def AcceptsBody (D : DetailsExternals) (idKey body : String) : Prop :=
  ∃ req sdr, D.getUnicastRequest body = some req ∧ req.receiverAddress = idKey ∧
    D.getSaleDetailsResponseB64 req.data = some sdr

/-- The task has been postponed, and its next call handles the response for a payment. -/
structure Waiting (c : DetailsCall D) (paymentId : String) : Prop where
  state : c.ctxLocal "saleDetailsClientHandler"
    = some (.saleDetailsClientState .callbackFromAuthSample)
  lastStatus : c.lastStatus = .postpone
  paymentId : (c.ctxLocal.get "payment_id").toStr? = some paymentId

theorem Waiting.handler {c : DetailsCall D} {paymentId : String} (h : Waiting c paymentId) :
    Handler.saleDetailsClientHandler c = Handler.findResponse c := by
  have hkey : c.ctxLocal.hasKey "saleDetailsClientHandler" ≠ false := by
    simp [Local.hasKey, h.state]
  have hget : c.ctxLocal.get "saleDetailsClientHandler"
      = .saleDetailsClientState .callbackFromAuthSample := by
    rw [Local.get, h.state]
    rfl
  rw [Handler.saleDetailsClientHandler]
  dsimp only
  rw [if_neg hkey, hget]
  show Handler.handleSaleDetailsResponse c = _
  rw [Handler.handleSaleDetailsResponse, if_neg (not_not.mpr h.lastStatus)]

/-! ## Runs -/

variable {ι : Type*} [DecidableEq ι]

/-- The callback that a turn delivers: its path id and its body. -/
def callbackAt (calls : ι → RequestCall D) (c : RequestPool ι D) :
    Turn ι Maintenance → Option (String × String)
  | .env _ => none
  | .thread j =>
    match calls j, c.thread j with
    | .saleDetailsCallback c', .call _ _ => c'.vars.map fun id => (id, c'.input)
    | _, _ => none

/-- The calls and the global context, and the callbacks so far. -/
structure DeliveryState (ι : Type*) (D : DetailsExternals) where
  pool : RequestPool ι D
  heard : List (String × String)

/-- A turn, which is recorded when it delivers a callback. -/
def deliveryStep (calls : ι → RequestCall D) (s : DeliveryState ι D) (t : Turn ι Maintenance) :
    DeliveryState ι D :=
  ⟨requestStep s.pool t, s.heard ++ (callbackAt calls s.pool t).toList⟩

/-- No call has done anything yet. -/
def deliveryStart (m : GlobalContextMap (Any D.toExternals)) (calls : ι → RequestCall D) :
    DeliveryState ι D :=
  ⟨requestPool m calls, []⟩

omit [DecidableEq ι] in
theorem thread_deliveryStart (m : GlobalContextMap (Any D.toExternals)) (calls : ι → RequestCall D)
    (i : ι) : (deliveryStart m calls).pool.thread i = (calls i).handler := rfl

section delivery

variable [DecidableEq D.Uuid] (calls : ι → RequestCall D) (i : ι) (u : D.Uuid)

/-- The key of the body, as the task looks for it. -/
def bodyKey (u : D.Uuid) : String := ContextKey.saleDetailsResult.of (D.uuidToString u)

/-- A turn of the task `i`: it finds a body, what it reads is the body of the latest callback, and
what it does last is to remove it. -/
structure DeliveredTurn (s : DeliveryState ι D) (o : StoreOp (Any D.toExternals)) : Prop where
  finds : o = .hasKey (bodyKey u) → (s.pool.store.lookup (bodyKey u)).isSome
  reads : ∀ d, o = .get (bodyKey u) d → ∃ body, latestBody u s.heard = some body ∧
    s.pool.store.lookup (bodyKey u) = some (.str body)
  removes : ((deliveryStep calls s (.thread i)).pool.thread i).Done → o = .remove (bodyKey u)

/-- The task gets the body of its callback: every turn of the task is a `DeliveredTurn`. -/
def Delivered (s : DeliveryState ι D) (t : Turn ι Maintenance) : Prop :=
  t = .thread i → ∀ o k, s.pool.thread i = .call o k → DeliveredTurn calls i u s o

/-- The turn of the task comes after a callback for its uuid, which has resumed it, and no cleanup
comes in between. -/
structure Resumed (s : DeliveryState ι D) (t : Turn ι Maintenance) : Prop where
  noCleanup : ∀ visited, t ≠ .env (.cleanup visited)
  resumed : t = .thread i → (latestBody u s.heard).isSome

/-- When the task looks for a body, there has been a callback whose path id is the text of its
uuid; when it reads one, the latest such callback has the body of the latest callback for the
uuid, and the task accepts it.  No cleanup comes after the body has expired. -/
structure Spelled (idKey : String) (s : DeliveryState ι D) (t : Turn ι Maintenance) : Prop where
  found : t = .thread i → ∀ k, s.pool.thread i = .call (.hasKey (bodyKey u)) k →
    (spelledBody u s.heard).isSome
  same : t = .thread i → ∀ d k, s.pool.thread i = .call (.get (bodyKey u) d) k →
    ∃ body, latestBody u s.heard = some body ∧ spelledBody u s.heard = some body ∧
      AcceptsBody D idKey body
  fresh : ∀ visited, t = .env (.cleanup visited) → ∀ n, s.pool.store.node (bodyKey u) = some n →
    n.expired s.pool.store.now = false

end delivery

/-! ## The task -/

section task

variable {c : DetailsCall D} {paymentId idKey : String}

/-- The task has not yet read a body. -/
inductive Asking (c : DetailsCall D) : Handler D.toExternals → Prop
  | find : Asking c (Handler.findResponse c)
  | read : Asking c (Handler.readResponse c)

/-- The task has read a body that it accepts. -/
inductive Answering (c : DetailsCall D) (paymentId idKey : String) : Handler D.toExternals → Prop
  | check {body : String} (h : AcceptsBody D idKey body) :
      Answering c paymentId idKey (Handler.checkResponse c body)
  | cache (sdr : SaleDetailsResponse) :
      Answering c paymentId idKey (Handler.cacheResponse c paymentId sdr)
  | remove {k : Unit → Handler D.toExternals} (hk : ∃ r, k () = .ret r) :
      Answering c paymentId idKey (.call (.remove (bodyKey c.id)) k)
  | returned (r : Except Fault (Reply D.toExternals)) : Answering c paymentId idKey (.ret r)

theorem AcceptsBody.not_done {body : String} (h : AcceptsBody D idKey body) :
    ¬ (Handler.checkResponse c body).Done := by
  obtain ⟨req, sdr, hreq, -, -⟩ := h
  rw [Handler.checkResponse, hreq]
  exact id

variable {o : StoreOp (Any D.toExternals)} {k : o.Reply → Handler D.toExternals}

/-- The next operation of a task that has not yet read a body: it goes on when it finds one, and
then with the body that it reads. -/
theorem Asking.next (h : Asking c (.call o k)) (f : Store D.toExternals) :
    o = .hasKey (bodyKey c.id) ∧
        ((f (bodyKey c.id)).isSome → k (handleLookup o f).1 = Handler.readResponse c) ∨
      (∃ d, o = .get (bodyKey c.id) d) ∧
        ∀ body, f (bodyKey c.id) = some (.str body) →
          k (handleLookup o f).1 = Handler.checkResponse c body := by
  generalize hp : Prog.call o k = p at h
  cases h with
  | find =>
    cases hp
    refine .inl ⟨rfl, fun hsome => ?_⟩
    show (if (f (bodyKey c.id)).isSome = false then _ else Handler.readResponse c) = _
    rw [hsome, if_neg (by decide)]
  | read =>
    cases hp
    refine .inr ⟨⟨_, rfl⟩, fun body hbody => ?_⟩
    have hreply : (handleLookup (.get (bodyKey c.id) (.str "")) f).1
        = (.str body : Any D.toExternals) := by
      show (f _).getD _ = _
      rw [hbody, Option.getD_some]
    rw [bodyKey] at hreply
    simp only [hreply]
    rfl

/-- The next operation of a task that has read a body: the last one is the removal. -/
theorem Answering.next (h : Answering c paymentId idKey (.call o k)) (hwait : Waiting c paymentId)
    {f : Store D.toExternals} {supernode : Supernode D.toCrypto}
    (hsupernode : f contextKeySupernode = some (.supernode (some supernode)))
    (hid : supernode.idKeyAsString = idKey) :
    Answering c paymentId idKey (k (handleLookup o f).1) ∧
      ((k (handleLookup o f).1).Done → o = .remove (bodyKey c.id)) ∧
      (o ≠ .hasKey (bodyKey c.id) ∧ ∀ d, o ≠ .get (bodyKey c.id) d) ∧
      (handleLookup o f).2 contextKeySupernode = f contextKeySupernode := by
  have hname : contextKeySupernode ≠ bodyKey c.id := (ContextKey.of_ne (by decide)).symm
  generalize hp : Prog.call o k = p at h
  cases h with
  | @check body h =>
    obtain ⟨req, sdr, hreq, hreceiver, hsdr⟩ := h
    rw [Handler.checkResponse, hreq] at hp
    dsimp only at hp
    cases hp
    have hreply : (handleLookup (.get contextKeySupernode (.supernode none)) f).1
        = (.supernode (some supernode) : Any D.toExternals) := by
      show (f _).getD _ = _
      rw [hsupernode, Option.getD_some]
    have hreceiver' : ¬ req.receiverAddress ≠ supernode.idKeyAsString := by
      rw [hid]
      exact not_not.mpr hreceiver
    rw [hreply]
    simp only [Any.toSupernode?, hwait.paymentId, hreceiver', hsdr, if_false]
    exact ⟨.cache sdr, fun hdone => hdone.elim,
      ⟨(fun h => by cases h), fun d h => hname (StoreOp.get.inj h).1⟩, rfl⟩
  | cache sdr =>
    cases hp
    refine ⟨.remove ⟨_, rfl⟩, fun hdone => hdone.elim,
      ⟨(fun h => by cases h), fun d h => by cases h⟩, ?_⟩
    exact Function.update_of_ne (ContextKey.of_ne (by decide)).symm _ _
  | @remove k' hk =>
    cases hp
    obtain ⟨r, hr⟩ := hk
    refine ⟨?_, fun _ => rfl, ⟨(fun h => by cases h), fun d h => by cases h⟩,
      Function.update_of_ne hname _ _⟩
    show Answering c paymentId idKey (k' ())
    rw [hr]
    exact .returned r
  | returned r => cases hp

end task

/-! ## The callbacks -/

/-- **A callback** stores its body under the text of its path, and names the task by the uuid that
the text stands for. -/
theorem callback_of_uuid {c : DetailsCall D} {id : String} {uuid : D.Uuid} (hid : c.vars = some id)
    (huuid : D.stringToUuid id = some uuid) :
    Handler.saleDetailsCallbackHandler c
      = .call (.set (ContextKey.saleDetailsResult.of id) (.str c.input) rtaTxTtl)
          fun _ => .ret (.ok (⟨.ok, c.output, c.ctxLocal⟩, some uuid)) := by
  simp only [Handler.saleDetailsCallbackHandler, hid, huuid]

/-- Without a path id that stands for a uuid a callback does nothing. -/
theorem callback_cases (c : DetailsCall D) :
    (∃ a, Handler.saleDetailsCallbackHandler c = .ret a) ∨
      ∃ id uuid, c.vars = some id ∧ D.stringToUuid id = some uuid := by
  rw [Handler.saleDetailsCallbackHandler]
  split
  · exact .inl ⟨_, rfl⟩
  rename_i id hid
  split
  · exact .inl ⟨_, rfl⟩
  rename_i uuid huuid
  exact .inr ⟨id, uuid, hid, huuid⟩

section run

variable {calls : ι → RequestCall D} {i : ι} {c : DetailsCall D} {paymentId : String}
  {supernode : Supernode D.toCrypto} {s : DeliveryState ι D}

/-- The turn of a worker that has returned changes nothing. -/
theorem deliveryStep_of_ret {j : ι} {a : Returned D} (hj : s.pool.thread j = .ret a) :
    deliveryStep calls s (.thread j) = s := by
  have hnone : callbackAt calls s.pool (.thread j) = none := by
    rw [callbackAt, hj]
    split
    · rename_i heq
      cases heq
    · rfl
  rw [deliveryStep, hnone, requestStep, Config.step_thread_of_ret hj, Option.toList_none,
    List.append_nil]

/-- The turn of a callback. -/
theorem deliveryStep_of_callback {j : ι} {c' : DetailsCall D} {id : String} {uuid : D.Uuid}
    (hc' : calls j = .saleDetailsCallback c') (hj : s.pool.thread j = (calls j).handler)
    (hid : c'.vars = some id) (huuid : D.stringToUuid id = some uuid) :
    (deliveryStep calls s (.thread j)).heard = s.heard ++ [(id, c'.input)] ∧
      (deliveryStep calls s (.thread j)).pool.store.lookup
        = Function.update s.pool.store.lookup (ContextKey.saleDetailsResult.of id)
            (some (.str c'.input)) ∧
      ((deliveryStep calls s (.thread j)).pool.thread j).Done := by
  have hcall : s.pool.thread j
      = .call (.set (ContextKey.saleDetailsResult.of id) (.str c'.input) rtaTxTtl)
          fun _ => .ret (.ok (⟨.ok, c'.output, c'.ctxLocal⟩, some uuid)) := by
    rw [hj, hc', RequestCall.handler, callback_of_uuid hid huuid]
  refine ⟨?_, ?_, ?_⟩
  · simp only [deliveryStep, callbackAt, hc', hcall, hid, Option.map_some, Option.toList_some]
  · rw [deliveryStep, requestStep, Config.step_thread_of_call hcall]
    exact (lookup_handle _ _).2
  · rw [deliveryStep, requestStep, Config.step_thread_of_call hcall]
    simp

/-- The task answers with an error when it does not find a body. -/
theorem answer_of_absent (hi : s.pool.thread i = Handler.noNextTask (Handler.findResponse c))
    (hnone : s.pool.store.lookup (bodyKey c.id) = none) :
    ∃ r, (deliveryStep calls s (.thread i)).pool.thread i = .ret (.ok r) ∧ r.1.status = .error := by
  have hcall : s.pool.thread i = .call (.hasKey (bodyKey c.id)) _ := hi
  have hreply : (handle (.hasKey (bodyKey c.id)) s.pool.store).1 = false := by
    rw [(lookup_handle _ _).1]
    show (s.pool.store.lookup (bodyKey c.id)).isSome = false
    rw [hnone]
    rfl
  rw [deliveryStep, requestStep, Config.step_thread_of_call hcall, hreply]
  exact ⟨_, Function.update_self _ _ _, rfl⟩

/-- **The invariant of a run**: until the task has read a body, what is stored under its text is
the body of the latest callback with this text for its path id; and the task accepts the body that
it has read. -/
structure DeliveryRun (calls : ι → RequestCall D) (i : ι) (c : DetailsCall D) (paymentId : String)
    (supernode : Supernode D.toCrypto) (s : DeliveryState ι D) : Prop where
  task : ∃ p, s.pool.thread i = Handler.noNextTask p ∧
    (Asking c p ∧
        s.pool.store.lookup (bodyKey c.id) = (spelledBody c.id s.heard).map Any.str ∨
      Answering c paymentId supernode.idKeyAsString p)
  others : ∀ j, j ≠ i → (s.pool.thread j).Done ∨ s.pool.thread j = (calls j).handler
  supernode : s.pool.store.lookup contextKeySupernode = some (.supernode (some supernode))
  forGood : NeverExpires s.pool.store contextKeySupernode

/-- No turn of a worker puts a `ttl` on the supernode. -/
theorem DeliveryRun.forGood_step (h : DeliveryRun calls i c paymentId supernode s) (j : ι) :
    NeverExpires (deliveryStep calls s (.thread j)).pool.store contextKeySupernode := by
  cases hj : s.pool.thread j with
  | ret a =>
    rw [deliveryStep_of_ret hj]
    exact h.forGood
  | call o k =>
    rw [deliveryStep, requestStep, Config.step_thread_of_call hj]
    exact h.forGood.handle h.supernode o

/-- The turn of a callback. -/
theorem DeliveryRun.callback_step (h : DeliveryRun calls i c paymentId supernode s) {j : ι}
    (hij : j ≠ i) (hcall : ∃ c', calls j = .saleDetailsCallback c') :
    DeliveryRun calls i c paymentId supernode (deliveryStep calls s (.thread j)) := by
  obtain ⟨c', hc'⟩ := hcall
  have hret : ∀ a, s.pool.thread j = .ret a →
      DeliveryRun calls i c paymentId supernode (deliveryStep calls s (.thread j)) := by
    intro a ha
    rwa [deliveryStep_of_ret ha]
  rcases h.others j hij with hdone | hj
  · cases hj : s.pool.thread j with
    | ret a => exact hret a hj
    | call o k =>
      rw [hj] at hdone
      exact hdone.elim
  rcases callback_cases c' with ⟨a, ha⟩ | ⟨id, uuid, hid, huuid⟩
  · refine hret a ?_
    rw [hj, hc', RequestCall.handler, ha]
  obtain ⟨hheard, hlookup, hdone⟩ := deliveryStep_of_callback hc' hj hid huuid
  refine ⟨?_, fun j' hj' => ?_, ?_, h.forGood_step j⟩
  · obtain ⟨p, hp, hstage⟩ := h.task
    refine ⟨p, ?_, ?_⟩
    · rw [deliveryStep, requestStep, Config.step_thread_ne (Ne.symm hij), hp]
    · rcases hstage with ⟨hasking, hstored⟩ | hanswering
      · refine .inl ⟨hasking, ?_⟩
        rw [hlookup, hheard, spelledBody, lastBody_append_singleton]
        by_cases htext : id = D.uuidToString c.id
        · rw [htext, bodyKey, Function.update_self, if_pos (decide_eq_true rfl), Option.map_some]
        · have hkey : bodyKey c.id ≠ ContextKey.saleDetailsResult.of id :=
            fun heq => htext (ContextKey.of_eq_of.mp heq).2.symm
          rw [Function.update_of_ne hkey, hstored, if_neg (by simpa using htext), spelledBody]
      · exact .inr hanswering
  · by_cases hjj : j' = j
    · subst hjj
      exact .inl hdone
    · rw [deliveryStep, requestStep, Config.step_thread_ne hjj]
      exact h.others j' hj'
  · have hname : contextKeySupernode ≠ ContextKey.saleDetailsResult.of id :=
      (ContextKey.of_ne (by decide)).symm
    rw [hlookup, Function.update_of_ne hname, h.supernode]

variable [DecidableEq D.Uuid]

/-- The turn of the task. -/
theorem DeliveryRun.task_step (h : DeliveryRun calls i c paymentId supernode s)
    (hcall : calls i = .saleDetailsClient c) (hwait : Waiting c paymentId)
    (hspelled : Spelled i c.id supernode.idKeyAsString s (.thread i)) :
    Delivered calls i c.id s (.thread i) ∧
      DeliveryRun calls i c paymentId supernode (deliveryStep calls s (.thread i)) := by
  obtain ⟨p, hp, hstage⟩ := h.task
  cases p with
  | ret a =>
    rw [deliveryStep_of_ret hp]
    refine ⟨fun _ o k hi => ?_, h⟩
    cases hp.symm.trans hi
  | call o k =>
    have hi : s.pool.thread i = .call o fun r => Handler.noNextTask (k r) := hp
    have hheard : callbackAt calls s.pool (.thread i) = none := by
      simp only [callbackAt, hcall]
    have hnext : (requestStep s.pool (.thread i)).thread i
        = Handler.noNextTask (k (handleLookup o s.pool.store.lookup).1) := by
      rw [requestStep, Config.step_thread_of_call hi, (lookup_handle _ _).1]
      exact Function.update_self _ _ _
    have hlookup : (requestStep s.pool (.thread i)).store.lookup
        = (handleLookup o s.pool.store.lookup).2 := by
      rw [requestStep, Config.step_thread_of_call hi]
      exact (lookup_handle _ _).2
    have hstep : deliveryStep calls s (.thread i) = ⟨requestStep s.pool (.thread i), s.heard⟩ := by
      rw [deliveryStep, hheard, Option.toList_none, List.append_nil]
    -- the callbacks are as far as they were
    have hothers : ∀ j, j ≠ i → ((requestStep s.pool (.thread i)).thread j).Done ∨
        (requestStep s.pool (.thread i)).thread j = (calls j).handler := by
      intro j hj
      rw [requestStep, Config.step_thread_ne hj]
      exact h.others j hj
    have hforGood := h.forGood_step i
    rw [hstep] at hforGood ⊢
    rcases hstage with ⟨hasking, hstored⟩ | hanswering
    · -- the task asks whether there is a body, reads it, or answers for it already
      rcases hasking.next s.pool.store.lookup with ⟨rfl, hk⟩ | ⟨⟨d, rfl⟩, hk⟩
      · have hfound : (s.pool.store.lookup (bodyKey c.id)).isSome := by
          rw [hstored, Option.isSome_map]
          exact hspelled.found rfl _ hi
        rw [hk hfound] at hnext
        refine ⟨fun _ o k hi' => ?_, ⟨_, hnext, .inl ⟨.read, ?_⟩⟩, hothers, ?_, hforGood⟩
        · obtain ⟨rfl, -⟩ := Prog.call.inj (hi.symm.trans hi')
          refine ⟨fun _ => hfound, (fun d h => by cases h), fun hdone => ?_⟩
          rw [hstep, hnext] at hdone
          exact hdone.elim
        · rw [hlookup]
          exact hstored
        · rw [hlookup]
          exact h.supernode
      · obtain ⟨body, hlatest, hspelling, haccepts⟩ := hspelled.same rfl d _ hi
        have hbody : s.pool.store.lookup (bodyKey c.id) = some (.str body) := by
          rw [hstored, hspelling, Option.map_some]
        rw [hk body hbody] at hnext
        refine ⟨fun _ o k hi' => ?_, ⟨_, hnext, .inr (.check haccepts)⟩, hothers, ?_, hforGood⟩
        · obtain ⟨rfl, -⟩ := Prog.call.inj (hi.symm.trans hi')
          refine ⟨(fun h => by cases h), fun _ _ => ⟨body, hlatest, hbody⟩, fun hdone => ?_⟩
          rw [hstep, hnext] at hdone
          exact absurd ((Prog.done_map _ _).mp hdone) haccepts.not_done
        · rw [hlookup]
          exact h.supernode
    · obtain ⟨hstage, hlast, ⟨hhasKey, hget⟩, hsame⟩ := hanswering.next hwait h.supernode rfl
      refine ⟨fun _ o' k' hi' => ?_, ⟨_, hnext, .inr hstage⟩, hothers, ?_, hforGood⟩
      · obtain ⟨rfl, -⟩ := Prog.call.inj (hi.symm.trans hi')
        refine ⟨fun ho => absurd ho hhasKey, fun d ho => absurd ho (hget d), fun hdone => ?_⟩
        rw [hstep, hnext] at hdone
        exact hlast ((Prog.done_map _ _).mp hdone)
      · rw [hlookup, hsame, h.supernode]

/-- The step lemma of `callback_delivered`. -/
theorem DeliveryRun.step (h : DeliveryRun calls i c paymentId supernode s)
    (hcall : calls i = .saleDetailsClient c) (hwait : Waiting c paymentId)
    (hothers : ∀ j, j ≠ i → ∃ c', calls j = .saleDetailsCallback c') {t : Turn ι Maintenance}
    (hspelled : Spelled i c.id supernode.idKeyAsString s t) :
    Delivered calls i c.id s t ∧
      DeliveryRun calls i c paymentId supernode (deliveryStep calls s t) := by
  cases t with
  | env e =>
    refine ⟨(fun h => by cases h), ?_⟩
    rw [deliveryStep]
    show DeliveryRun calls i c paymentId supernode ⟨_, s.heard ++ []⟩
    rw [List.append_nil]
    cases e with
    | tick seconds => exact ⟨h.task, h.others, h.supernode, h.forGood⟩
    | cleanup visited =>
      have hbody := lookup_cleanup_of_not_expired (hspelled.fresh visited rfl) visited
      have hsame := lookup_cleanup_of_not_expired
        (fun n hn => (h.forGood n hn).not_expired s.pool.store.now) visited
      obtain ⟨p, hp, hstage⟩ := h.task
      refine ⟨⟨p, hp, hstage.imp_left fun hasking => ⟨hasking.1, hbody.trans hasking.2⟩⟩,
        h.others, hsame.trans h.supernode, h.forGood.cleanup visited⟩
  | thread j =>
    by_cases hij : j = i
    · subst hij
      exact h.task_step hcall hwait hspelled
    · refine ⟨fun heq => absurd (Turn.thread.inj heq) hij, ?_⟩
      exact h.callback_step hij (hothers j hij)

/-- **Callbacks are delivered**: a task that waits, with callbacks for any tasks in any order.  When
its turns are spelled, it finds the body of the latest callback for its uuid, reads it, and removes
it before it ends. -/
theorem callback_delivered {m : GlobalContextMap (Any D.toExternals)}
    (hcall : calls i = .saleDetailsClient c) (hwait : Waiting c paymentId)
    (hothers : ∀ j, j ≠ i → ∃ c', calls j = .saleDetailsCallback c')
    (hnew : m.lookup (bodyKey c.id) = none)
    (hsupernode : m.lookup contextKeySupernode = some (.supernode (some supernode)))
    (hforGood : NeverExpires m contextKeySupernode) {ts : List (Turn ι Maintenance)}
    (h : Along (deliveryStep calls) (Spelled i c.id supernode.idKeyAsString)
      (deliveryStart m calls) ts) :
    Along (deliveryStep calls) (Delivered calls i c.id) (deliveryStart m calls) ts := by
  refine h.of_invariant (I := DeliveryRun calls i c paymentId supernode)
    (fun s t hs ht => (hs.step hcall hwait hothers ht).2)
    (fun s t hs ht => (hs.step hcall hwait hothers ht).1) ?_
  refine ⟨⟨Handler.findResponse c, ?_, .inl ⟨.find, hnew⟩⟩,
    fun j _ => .inr (thread_deliveryStart m calls j), hsupernode, hforGood⟩
  rw [thread_deliveryStart, hcall, RequestCall.handler, hwait.handler]

end run

/-! ## Where the task comes from -/

/-- What a client is answered at once is an error. -/
theorem status_of_handleClientRequest {c : DetailsCall D} {r : Reply D.toExternals}
    (hr : Handler.handleClientRequest c = .ret (.ok r)) : r.status = .error := by
  rw [Handler.handleClientRequest] at hr
  split at hr
  · cases hr
    rfl
  split at hr
  · cases hr
    rfl
  · cases hr

/-- **A task that is postponed** waits for its callback when it is called again. -/
theorem Waiting.of_postpone {c c' : DetailsCall D} {r : Reply D.toExternals} {paymentId : String}
    (hr : Handler.saleDetailsClientHandler c = .ret (.ok r)) (hpostpone : r.status = .postpone)
    (hpaymentId : (c.ctxLocal.get "payment_id").toStr? = some paymentId)
    (hlocal : c'.ctxLocal = r.ctxLocal) (hlast : c'.lastStatus = r.status) :
    Waiting c' paymentId := by
  have herror : r.status ≠ .error := by
    rw [hpostpone]
    decide
  rw [Handler.saleDetailsClientHandler] at hr
  dsimp only at hr
  split at hr
  · exact absurd (status_of_handleClientRequest hr) herror
  split at hr
  · cases hr
  · exact absurd (status_of_handleClientRequest hr) herror
  · rw [Handler.handleUnicastAcknowledge] at hr
    split at hr
    · cases hr
      exact absurd rfl herror
    split at hr
    · cases hr
      exact absurd rfl herror
    · cases hr
      have hset : c'.ctxLocal = c.ctxLocal.set "saleDetailsClientHandler"
          (.saleDetailsClientState .callbackFromAuthSample) := hlocal
      refine ⟨?_, hlast, ?_⟩
      · rw [hset, Local.set_self]
      · rwa [hset, Local.get_set_of_ne (by decide)]
  · rw [Handler.handleSaleDetailsResponse] at hr
    split at hr
    · cases hr
      exact absurd rfl herror
    · cases hr

/-! ## Two spellings -/

/-- A uuid, its text, and another text that stands for it. -/
def sampleUuid : sampleDetails.Uuid := (List.replicate 16 [10, 11]).flatten
@[inherit_doc sampleUuid]
def sampleText : String := "abababab-abab-abab-abab-abababababab"
@[inherit_doc sampleUuid]
def sampleUpperText : String := "ABABABAB-ABAB-ABAB-ABAB-ABABABABABAB"

theorem sampleTexts_stand_for_sampleUuid :
    sampleDetails.stringToUuid sampleText = some sampleUuid ∧
      sampleDetails.stringToUuid sampleUpperText = some sampleUuid ∧
      sampleDetails.uuidToString sampleUuid = sampleText := by
  have h : ∀ digits : List ℕ, digits = (List.replicate 16 [10, 11]).flatten →
      uuidOfText sampleText = some digits ∧ uuidOfText sampleUpperText = some digits ∧
        textOfUuid digits = sampleText := by
    rintro digits rfl
    decide +kernel
  exact h sampleUuid rfl

/-- What a task that waits for the details of a payment has in its local context. -/
def sampleWaitingLocal : Local sampleDetails.toExternals :=
  ((sampleDetailsCall "" none).ctxLocal.set "payment_id" (.str "payment")).set
    "saleDetailsClientHandler" (.saleDetailsClientState .callbackFromAuthSample)

@[inherit_doc sampleWaitingLocal]
def sampleWaitingCall : DetailsCall sampleDetails :=
  { sampleDetailsCall "" none with
    id := sampleUuid
    lastStatus := .postpone
    ctxLocal := sampleWaitingLocal }

theorem waiting_sampleWaitingCall : Waiting sampleWaitingCall "payment" := by
  have hstate : sampleWaitingLocal "saleDetailsClientHandler"
      = some (.saleDetailsClientState .callbackFromAuthSample) := Local.set_self _ _ _
  have hpaymentId : sampleWaitingLocal.get "payment_id" = .str "payment" := by
    rw [sampleWaitingLocal, Local.get_set_of_ne (by decide), Local.get, Local.set_self]
    rfl
  exact ⟨hstate, rfl, congrArg Any.toStr? hpaymentId⟩

/-- The task, and a callback with a path id. -/
def sampleDelivery (id : String) : Fin 2 → RequestCall sampleDetails
  | 0 => .saleDetailsClient sampleWaitingCall
  | 1 => .saleDetailsCallback (sampleDetailsCall "details" (some id))

instance : DecidableEq sampleDetails.Uuid := inferInstanceAs (DecidableEq (List ℕ))

/-- What has been heard and stored after the callback. -/
theorem deliveryStep_sampleDelivery {id : String}
    (hid : sampleDetails.stringToUuid id = some sampleUuid) :
    let s := deliveryStep (sampleDelivery id)
      (deliveryStart sampleDetailsContext (sampleDelivery id)) (.thread 1)
    s.heard = [(id, "details")] ∧ s.pool.store.lookup
      = Function.update sampleDetailsContext.lookup (ContextKey.saleDetailsResult.of id)
          (some (.str "details")) := by
  have hcall : sampleDelivery id 1 = .saleDetailsCallback (sampleDetailsCall "details" (some id)) :=
    rfl
  have hvars : (sampleDetailsCall "details" (some id)).vars = some id := rfl
  have hthread := thread_deliveryStart sampleDetailsContext (sampleDelivery id) 1
  obtain ⟨hheard, hlookup, -⟩ := deliveryStep_of_callback hcall hthread hvars hid
  exact ⟨hheard, hlookup⟩

/-- The task has not taken a turn yet. -/
theorem task_of_sampleDelivery (id : String) :
    (deliveryStep (sampleDelivery id)
      (deliveryStart sampleDetailsContext (sampleDelivery id)) (.thread 1)).pool.thread 0
      = Handler.noNextTask (Handler.findResponse sampleWaitingCall) := by
  have hcall : sampleDelivery id 0 = .saleDetailsClient sampleWaitingCall := rfl
  rw [deliveryStep, requestStep, Config.step_thread_ne (by decide), thread_deliveryStart, hcall,
    RequestCall.handler, waiting_sampleWaitingCall.handler]

theorem lookup_bodyKey_sampleDetailsContext (u : sampleDetails.Uuid) :
    sampleDetailsContext.lookup (bodyKey u) = none := by
  have hname : bodyKey u ≠ contextKeySupernode := ContextKey.of_ne (by decide)
  simp [GlobalContextMap.lookup, sampleDetailsContext, hname]

/-- When the callback that has been heard has the text of the uuid for its path id, the turns of
the task are spelled. -/
theorem spelled_of_heard {s : DeliveryState (Fin 2) sampleDetails}
    (h : s.heard = [(sampleText, "details")]) :
    Spelled 0 sampleUuid (podToHex []) s (.thread 0) := by
  obtain ⟨htext, -, htextOf⟩ := sampleTexts_stand_for_sampleUuid
  have hlatest : latestBody (D := sampleDetails) sampleUuid s.heard = some "details" := by
    rw [h]
    exact lastBody_singleton (by simp [htext]) _
  have hspelled : spelledBody (D := sampleDetails) sampleUuid s.heard = some "details" := by
    rw [h]
    exact lastBody_singleton (decide_eq_true htextOf.symm) _
  refine ⟨fun _ k _ => ?_, fun _ d k _ => ⟨"details", hlatest, hspelled, ?_⟩,
    fun visited h => by cases h⟩
  · rw [hspelled]
    rfl
  · exact ⟨⟨"unicast", "", "", "", "details", true⟩, ⟨[], "details"⟩, by decide, rfl, rfl⟩

/-- A callback whose path id is the text of the uuid, and the whole of the task. -/
theorem callback_delivered_of_text :
    let calls := sampleDelivery sampleText
    Along (deliveryStep calls) (Delivered calls 0 sampleUuid)
      (deliveryStart sampleDetailsContext calls) (.thread 1 :: List.replicate 5 (.thread 0)) := by
  intro calls
  have hothers : ∀ j, j ≠ 0 → ∃ c', calls j = .saleDetailsCallback c' := by
    intro j hj
    match j with
    | 0 => exact absurd rfl hj
    | 1 => exact ⟨_, rfl⟩
  have hforGood : NeverExpires sampleDetailsContext contextKeySupernode := by
    intro n hn
    simp only [sampleDetailsContext, Function.update_self, Option.some.injEq] at hn
    rw [← hn]
    exact ⟨rfl, rfl⟩
  have hsupernode : sampleDetailsContext.lookup contextKeySupernode
      = some (.supernode (some ⟨[], some [], 0, true⟩)) := by
    simp [GlobalContextMap.lookup, sampleDetailsContext]
  have hcall : calls 0 = .saleDetailsClient sampleWaitingCall := rfl
  have hturn : (.thread 1 : Turn (Fin 2) Maintenance) ≠ .thread 0 :=
    fun h => absurd (Turn.thread.inj h) (by decide)
  have hfirst : Spelled 0 sampleUuid (podToHex []) (deliveryStart sampleDetailsContext calls)
      (.thread 1) :=
    ⟨fun h => absurd h hturn, fun h => absurd h hturn, fun visited h => by cases h⟩
  refine callback_delivered hcall waiting_sampleWaitingCall hothers
    (lookup_bodyKey_sampleDetailsContext _) hsupernode hforGood ⟨hfirst, ?_⟩
  have hheard := (deliveryStep_sampleDelivery sampleTexts_stand_for_sampleUuid.1).1
  refine Along.of_invariant (P := fun _ t => t = .thread 0)
    (I := fun s : DeliveryState (Fin 2) sampleDetails => s.heard = [(sampleText, "details")])
    ?_ (fun s t hs ht => ht ▸ spelled_of_heard hs) hheard
    (along_of_forall_mem (fun t ht => List.eq_of_mem_replicate ht) _)
  rintro s t hs rfl
  show s.heard ++ [] = _
  rw [List.append_nil, hs]

/-- **A callback that is lost**: its path id is another spelling of the uuid.  The callback resumes
the task, which does not find the body and answers its client with an error. -/
theorem callback_lost :
    let calls := sampleDelivery sampleUpperText
    let start := deliveryStart sampleDetailsContext calls
    RouteId sampleUpperText ∧ sampleDetails.stringToUuid sampleUpperText = some sampleUuid ∧
      Along (deliveryStep calls) (Resumed 0 sampleUuid) start [.thread 1, .thread 0] ∧
      ¬ Along (deliveryStep calls) (Delivered calls 0 sampleUuid) start [.thread 1, .thread 0] ∧
      ∃ r, (exec (deliveryStep calls) start [.thread 1, .thread 0]).pool.thread 0 = .ret (.ok r) ∧
        r.1.status = .error := by
  intro calls start
  obtain ⟨-, hupper, htextOf⟩ := sampleTexts_stand_for_sampleUuid
  obtain ⟨hheard, hlookup⟩ := deliveryStep_sampleDelivery hupper
  have htask := task_of_sampleDelivery sampleUpperText
  have hnone : (deliveryStep calls start (.thread 1)).pool.store.lookup
      (bodyKey (D := sampleDetails) sampleUuid) = none := by
    have hkey : bodyKey (D := sampleDetails) sampleUuid
        ≠ ContextKey.saleDetailsResult.of sampleUpperText := by
      intro heq
      have htext : sampleDetails.uuidToString sampleUuid = sampleUpperText :=
        (ContextKey.of_eq_of.mp heq).2
      rw [htextOf] at htext
      exact absurd htext (by decide)
    rw [hlookup, Function.update_of_ne hkey]
    exact lookup_bodyKey_sampleDetailsContext _
  have hlatest : (latestBody (D := sampleDetails) sampleUuid
      (deliveryStep calls start (.thread 1)).heard).isSome := by
    have hbody : latestBody (D := sampleDetails) sampleUuid [(sampleUpperText, "details")]
        = some "details" := lastBody_singleton (by simp [hupper]) _
    rw [hheard, hbody]
    rfl
  have hfirst : Resumed 0 sampleUuid start (.thread 1) :=
    ⟨(fun visited h => by cases h), fun h => absurd (Turn.thread.inj h) (by decide)⟩
  refine ⟨by decide, hupper, ⟨hfirst, ⟨(fun visited h => by cases h), fun _ => hlatest⟩,
    trivial⟩, ?_, ?_⟩
  · rintro ⟨-, hdelivered, -⟩
    have hfinds := (hdelivered rfl _ _ htask).finds rfl
    rw [hnone] at hfinds
    cases hfinds
  · exact answer_of_absent htask hnone

end Request
