/-
# What a blocking upstream request carries

`TaskManager::sendUpstreamBlocking` gives an output to the loop and waits for the reply
(`BlockingRequests.lean`).  The loop makes an `UpstreamTask` of it, and the upstream manager sends
what `bt->getOutput()` asks for.  But the output that was given stays in `m_pi`, and the one that
`getOutput` returns is empty.

* `Followed`: the promises and the outputs on their way, in any run;
* `FlowsThrough`: each call has the request sent that its output asks for, and gets its reply;
* `blocking_flow`: this holds of the calls whose output asks for what an empty one does (`Plain`).
-/
import GraftSupernode.BlockingRequests
import GraftSupernode.UpstreamRequest

namespace TaskManager

/-- How an upstream request fails, with the text that `UpstreamSender::ev_handler` sets. -/
inductive UpstreamFailure
  | connect (strerror : String)
  | close
  | timer

/-- `UpstreamSender::getError` -/
def UpstreamFailure.error : UpstreamFailure → String
  | .connect strerror => "cryptonode connect failed: " ++ strerror
  | .close => "cryptonode connection unexpectedly closed"
  | .timer => "cryptonode request timout"

/-- The end of `sendUpstreamBlocking`: the input and the error of the caller, when the promise is
fulfilled. -/
def endUpstreamBlocking (input : Input) : Except UpstreamFailure Input → Input × String
  | .ok reply => (reply, "")
  | .error failure => (input, cStr failure.error)

theorem cStr_append {s t : String} (h : ∀ c ∈ s.toList, c.toNat ≠ 0) :
    cStr (s ++ t) = s ++ cStr t := by
  unfold cStr
  rw [String.toList_append, List.takeWhile_append_of_pos (by simpa using h), String.ofList_append,
    String.ofList_toList]

/-- A failed request leaves an error. -/
theorem UpstreamFailure.error_ne (failure : UpstreamFailure) : cStr failure.error ≠ "" := by
  cases failure with
  | connect strerror =>
    show cStr ("cryptonode connect failed: " ++ strerror) ≠ ""
    rw [cStr_append (by simp)]
    intro h
    have hlength := congrArg String.length h
    rw [String.length_append] at hlength
    simp at hlength
  | close => decide
  | timer => decide

variable {υ κ : Type*} [LinearOrder υ] {P : Params υ κ}

/-- `bt->getOutput()`: an `UpstreamTask` is made with an empty one. -/
def State.output (m : State υ κ) : SentTask → Output
  | .base t => (m.task t).output
  | .upstream _ _ => {}

/-! ## The requests of the promises -/

/-- The requests for promises are those that an output with no uri asks for. -/
abbrev PromisesAddressed [DecidableEq κ] (cfg : UpstreamConfig κ) :
    UpstreamManager SentTask κ → Prop :=
  Addressed cfg (fun _ => ({} : Output).uri) fun bt => bt.items ≠ []

/-- A task of its own takes no part. -/
theorem PromisesAddressed.quiet [DecidableEq κ] {cfg : UpstreamConfig κ} {sent : List PromiseItem}
    {fulfilled : List (ℕ × Option Input)} {um um' : UpstreamManager SentTask κ}
    (h : PromisesAddressed cfg um) (hkept : PromisesKept cfg sent fulfilled um)
    (hquiet : Quiet cfg um um') : PromisesAddressed cfg um' := by
  -- along the steps, the queues hold no promise
  suffices hboth : PromisesAddressed cfg um' ∧ PromisesKept cfg sent fulfilled um' from hboth.1
  induction hquiet with
  | refl => exact ⟨h, hkept⟩
  | tail _ hstep ih =>
    refine ⟨?_, ih.2.quietStep hstep⟩
    cases hstep with
    | send hsend => exact ih.1.send (fun hitems => absurd rfl hitems) hsend
    | next uri k connectionId client =>
      refine ih.1.next connectionId client fun bt hbt => ?_
      rw [not_not]
      exact ih.2.queued k bt hbt
    | closeIdle k client => exact ih.1.closeIdle k client

namespace BlockingLoop

variable [DecidableEq κ] {st : BlockingLoop υ κ} {e : BlockingEvent υ κ}

/-- The requests in flight. -/
def senders (st : BlockingLoop υ κ) : List (UpstreamSender SentTask κ) :=
  st.looper.manager.upstreamManager.senders

/-- The calls are numbered in their order; what was sent and what waits in the queue are outputs of
calls; and the promises are kept. -/
structure Followed (P : Params υ κ) (st : BlockingLoop υ κ) : Prop where
  promises : st.calls.map (fun c => c.2.promise) = List.range st.calls.length
  passed : ∀ item ∈ st.sent ++ st.promiseQueue.items, item ∈ st.calls.map Prod.snd
  upstream : PromisesKept P.upstream st.sent st.fulfilled st.looper.manager.upstreamManager
  addressed : PromisesAddressed P.upstream st.looper.manager.upstreamManager

namespace Followed

omit [DecidableEq κ] in
theorem promises_push {calls : List (ℕ × PromiseItem)}
    (h : calls.map (fun c => c.2.promise) = List.range calls.length) (t : ℕ) (output : Output) :
    (calls ++ [(t, (⟨calls.length, output⟩ : PromiseItem))]).map (fun c => c.2.promise)
      = List.range (calls ++ [(t, (⟨calls.length, output⟩ : PromiseItem))]).length := by
  rw [List.map_append, h, List.length_append, List.length_singleton, List.range_succ]
  rfl

/-- **One event**. -/
theorem step (h : st.Followed P) (e : BlockingEvent υ κ) : (st.step P e).Followed P := by
  have hupstream := promisesKept_step (e := e) h.upstream
  have hmove := move_step (P := P) st e
  generalize st.step P e = st' at hmove hupstream
  cases hmove with
  | rest => exact h
  | call t output _ _ =>
    refine ⟨promises_push h.promises t output, fun item hmem => ?_, hupstream, h.addressed⟩
    show item ∈ (st.calls ++ [_]).map Prod.snd
    rw [List.map_append]
    -- the queue has the new item only if there was a cell for it
    cases hpush : st.promiseQueue.push ⟨st.calls.length, output⟩ with
    | none =>
      rw [hpush, Option.getD_none] at hmem
      exact List.mem_append_left _ (h.passed item hmem)
    | some promiseQueue =>
      rw [hpush, Option.getD_some, (BoundedQueue.push_eq_some hpush).1, ← List.append_assoc] at hmem
      rcases List.mem_append.mp hmem with hold | hnew
      · exact List.mem_append_left _ (h.passed item hold)
      · exact List.mem_append_right _ hnew
  | drain item promiseQueue _ hfree hpop =>
    obtain ⟨-, -, hmanager⟩ := step_checkUpstreamBlocking hfree item h.upstream.unlimited
    refine ⟨h.promises, fun item' hmem => h.passed item' ?_, hupstream, ?_⟩
    · rw [(BoundedQueue.pop_eq_some hpop).1]
      rwa [List.append_assoc] at hmem
    · show PromisesAddressed P.upstream (Looper.manager _).upstreamManager
      rw [hmanager]
      exact h.addressed.createUpstreamSender fun _ => ⟨P.upstream.connItem_empty, rfl⟩
  | loop e' _ he' =>
    refine ⟨h.promises, h.passed, hupstream, ?_⟩
    show PromisesAddressed P.upstream (st.looper.step P e').manager.upstreamManager
    cases Looper.change_step (l := st.looper) (P := P) he' with
    | quiet hquiet _ => exact h.addressed.quiet h.upstream hquiet
    | reply i reply s _ hs hquiet _ =>
      exact PromisesAddressed.quiet (h.addressed.finish i) (h.upstream.finish hs reply) hquiet

/-- **Whole runs**. -/
theorem exec (hmax : P.upstream.maxConnections P.upstream.default = 0)
    (es : List (BlockingEvent υ κ)) :
    (Runs.exec (BlockingLoop.step P) (BlockingLoop.init P) es).Followed P := by
  induction es using List.reverseRecOn with
  | nil =>
    exact ⟨rfl, fun _ hmem => absurd hmem List.not_mem_nil, (Kept.init hmax).upstream, .init⟩
  | append_singleton es e ih =>
    rw [Runs.exec_append]
    exact ih.step e

/-- A promise belongs to one call. -/
theorem eq_of_promise (h : st.Followed P) {item item' : PromiseItem}
    (hmem : item ∈ st.calls.map Prod.snd) (hmem' : item' ∈ st.calls.map Prod.snd)
    (heq : item.promise = item'.promise) : item = item' := by
  have hnodup : ((st.calls.map Prod.snd).map PromiseItem.promise).Nodup := by
    rw [List.map_map]
    show (st.calls.map fun c => c.2.promise).Nodup
    rw [h.promises]
    exact List.nodup_range
  exact List.inj_on_of_nodup_map hnodup hmem hmem' heq

/-- What is in flight was given by a call. -/
theorem mem_calls (h : st.Followed P) {s : UpstreamSender SentTask κ} (hs : s ∈ st.senders)
    {item : PromiseItem} (hitem : item ∈ s.bt.items) : item ∈ st.calls.map Prod.snd := by
  have hflight : item ∈ inFlight st.looper.manager.upstreamManager :=
    List.mem_flatMap.mpr ⟨s, hs, hitem⟩
  exact h.passed item (List.mem_append_left _ (h.upstream.flight item hflight))

end Followed

/-! ## The flow of a run -/

section

variable (parseUri : String → Option MgUri)

/-- The HTTP request that was made for `s`. -/
def request (st : BlockingLoop υ κ) (s : UpstreamSender SentTask κ) : HttpRequest :=
  (st.looper.manager.output s.bt).request parseUri s.uri

/-- The request in flight for a call is the one that its output asks for, at the node that it asks
for. -/
def SendsAsked (P : Params υ κ) (st : BlockingLoop υ κ) : Prop :=
  ∀ c ∈ st.calls, ∀ s ∈ st.senders, c.2 ∈ s.bt.items →
    P.upstream.requestFor parseUri c.2.output = some (s.conn, st.request parseUri s)

/-- A call ends with the reply to its own request: on success its input is the reply and its error
is empty, on failure there is an error. -/
def EndsWithReply (P : Params υ κ) (es : List (BlockingEvent υ κ)) : Prop :=
  let st := Runs.exec (BlockingLoop.step P) (BlockingLoop.init P) es
  ∀ c ∈ st.calls, ∀ outcome : Except UpstreamFailure Input, ∀ input : Input,
    (c.2.promise, outcome.toOption) ∈ st.fulfilled →
      (∃ pre i post s, es = pre ++ .loop (.upstreamReply i outcome.toOption) :: post ∧
        (Runs.exec (BlockingLoop.step P) (BlockingLoop.init P) pre).senders[i]? = some s ∧
        c.2 ∈ s.bt.items) ∧
      match outcome with
      | .ok reply => endUpstreamBlocking input outcome = (reply, "")
      | .error _ => (endUpstreamBlocking input outcome).2 ≠ ""

/-- Whenever in the run, the requests are those that the calls ask for, and the calls end with
their replies. -/
def FlowsThrough (P : Params υ κ) (es : List (BlockingEvent υ κ)) : Prop :=
  ∀ pre, pre <+: es →
    SendsAsked parseUri P (Runs.exec (BlockingLoop.step P) (BlockingLoop.init P) pre) ∧
      EndsWithReply P pre

end

variable {parseUri : String → Option MgUri}

/-- **The request for a call** is the one of an empty output, whatever its own output is. -/
theorem Followed.request_eq (h : st.Followed P) (parseUri : String → Option MgUri)
    {s : UpstreamSender SentTask κ} (hs : s ∈ st.senders) {item : PromiseItem}
    (hitem : item ∈ s.bt.items) :
    s.conn = P.upstream.default ∧
      st.request parseUri s =
        ({} : Output).request parseUri (P.upstream.uri P.upstream.default) := by
  have hitems : s.bt.items ≠ [] := List.ne_nil_of_mem hitem
  have hempty : st.looper.manager.output s.bt = {} := by
    cases hbt : s.bt with
    | base t =>
      rw [hbt] at hitems
      exact absurd rfl hitems
    | upstream n output => rfl
  have haddressed : Addressed P.upstream (fun bt => ((fun _ => {}) bt : Output).uri) _ _ :=
    h.addressed
  have hasked := haddressed.requestFor parseUri hs hitems
  rw [P.upstream.requestFor_empty] at hasked
  obtain ⟨hconn, hrequest⟩ := Prod.ext_iff.mp (Option.some.inj hasked)
  refine ⟨hconn.symm, ?_⟩
  unfold request
  rw [hempty]
  exact hrequest.symm

/-- **One state**: a request is what its call asks for exactly if the output is plain. -/
theorem Followed.sendsAsked_iff (h : st.Followed P) :
    SendsAsked parseUri P st ↔
      ∀ s ∈ st.senders, ∀ item ∈ s.bt.items, P.upstream.Plain parseUri item.output := by
  constructor
  · intro hasked s hs item hitem
    obtain ⟨c, hc, rfl⟩ := List.mem_map.mp (h.mem_calls hs hitem)
    obtain ⟨hconn, hrequest⟩ := h.request_eq parseUri hs hitem
    have heq := hasked c hc s hs hitem
    rw [hconn, hrequest] at heq
    exact P.upstream.requestFor_eq_iff parseUri |>.mp heq
  · intro hplain c _ s hs hitem
    obtain ⟨hconn, hrequest⟩ := h.request_eq parseUri hs hitem
    rw [hconn, hrequest]
    exact P.upstream.requestFor_eq_iff parseUri |>.mpr (hplain s hs c.2 hitem)

/-- **A call ends with the reply to its request**, in any run. -/
theorem endsWithReply (hmax : P.upstream.maxConnections P.upstream.default = 0)
    (es : List (BlockingEvent υ κ)) : EndsWithReply P es := by
  intro c hc outcome input hfulfilled
  constructor
  · obtain ⟨pre, i, post, s, hes, hs, item, hitem, hpromise⟩ := (replied hmax es).2 _ hfulfilled
    refine ⟨pre, i, post, s, hes, hs, ?_⟩
    -- the request was made for a call that was there before, and it is this call
    have hpre := (Followed.exec hmax pre).mem_calls (List.mem_of_getElem? hs) hitem
    have hcalls : (Runs.exec (BlockingLoop.step P) (BlockingLoop.init P) pre).calls <+:
        (Runs.exec (BlockingLoop.step P) (BlockingLoop.init P) es).calls := by
      rw [hes, Runs.exec_append]
      exact prefix_exec _ _
    have hmem := (hcalls.map Prod.snd).subset hpre
    have hsame := (Followed.exec hmax es).eq_of_promise hmem (List.mem_map_of_mem hc) hpromise
    exact hsame ▸ hitem
  · cases outcome with
    | ok reply => rfl
    | error failure => exact failure.error_ne

/-- What was sent stays so. -/
theorem prefix_sent (st : BlockingLoop υ κ) (es : List (BlockingEvent υ κ)) :
    st.sent <+: (Runs.exec (BlockingLoop.step P) st es).sent := by
  induction es generalizing st with
  | nil => exact List.prefix_refl _
  | cons e es ih => exact (prefix_step st e).2.trans (ih _)

/-- **What was sent was in flight** at some time. -/
theorem sender_of_sent (hmax : P.upstream.maxConnections P.upstream.default = 0)
    {es : List (BlockingEvent υ κ)} {item : PromiseItem}
    (hitem : item ∈ (Runs.exec (BlockingLoop.step P) (BlockingLoop.init P) es).sent) :
    ∃ pre, pre <+: es ∧
      ∃ s ∈ (Runs.exec (BlockingLoop.step P) (BlockingLoop.init P) pre).senders,
        item ∈ s.bt.items := by
  induction es using List.reverseRecOn with
  | nil => exact absurd hitem List.not_mem_nil
  | append_singleton es e ih =>
    by_cases hold : item ∈ (Runs.exec (BlockingLoop.step P) (BlockingLoop.init P) es).sent
    · obtain ⟨pre, hpre, hs⟩ := ih hold
      exact ⟨pre, hpre.trans (List.prefix_append _ _), hs⟩
    · refine ⟨es ++ [e], List.prefix_refl _, ?_⟩
      have hfollowed : (Runs.exec (BlockingLoop.step P) (BlockingLoop.init P) es).Followed P :=
        .exec hmax es
      rw [Runs.exec_append, Runs.exec_cons, Runs.exec_nil] at hitem ⊢
      generalize Runs.exec (BlockingLoop.step P) (BlockingLoop.init P) es = st at *
      -- only the drain sends, and it sends what it has popped
      have hmove := move_step (P := P) st e
      generalize st.step P e = st' at hmove hitem
      cases hmove with
      | rest | call | loop => exact absurd hitem hold
      | drain item' promiseQueue _ hfree _ =>
        obtain ⟨-, -, hmanager⟩ :=
          step_checkUpstreamBlocking hfree item' hfollowed.upstream.unlimited
        have hnew : item = item' :=
          List.mem_singleton.mp ((List.mem_append.mp hitem).resolve_left hold)
        obtain ⟨s, hsenders, -, hbt, -⟩ :=
          st.looper.manager.upstreamManager.createUpstreamSender_spec P.upstream P.upstream.default (.upstream item'.promise item'.output) ""
        refine ⟨s, ?_, ?_⟩
        · show s ∈ (Looper.manager _).upstreamManager.senders
          rw [hmanager, hsenders]
          exact List.mem_cons_self
        · rw [hbt, hnew]
          exact List.mem_singleton.mpr rfl

/-- A call in the state is one of the run's events. -/
theorem event_of_call {es : List (BlockingEvent υ κ)} {c : ℕ × PromiseItem}
    (hc : c ∈ (Runs.exec (BlockingLoop.step P) (BlockingLoop.init P) es).calls) :
    .sendUpstreamBlocking c.1 c.2.output ∈ es := by
  induction es using List.reverseRecOn with
  | nil => exact absurd hc List.not_mem_nil
  | append_singleton es e ih =>
    rw [Runs.exec_append, Runs.exec_cons, Runs.exec_nil] at hc
    generalize Runs.exec (BlockingLoop.step P) (BlockingLoop.init P) es = st at *
    have hmove := move_step (P := P) st e
    generalize st.step P e = st' at hmove hc
    cases hmove with
    | rest | drain | loop => exact List.mem_append_left _ (ih hc)
    | call t output he _ =>
      rcases List.mem_append.mp hc with hold | hnew
      · exact List.mem_append_left _ (ih hold)
      · rw [List.mem_singleton.mp hnew, he]
        exact List.mem_append_right _ (List.mem_singleton.mpr rfl)

/-- **A blocking request carries nothing of its output**: a run sends what its calls ask for
exactly if the outputs that were sent are plain, as they are when all calls are made with plain
ones. -/
theorem blocking_flow (hmax : P.upstream.maxConnections P.upstream.default = 0)
    (parseUri : String → Option MgUri) (es : List (BlockingEvent υ κ)) :
    (FlowsThrough parseUri P es ↔
      ∀ item ∈ (Runs.exec (BlockingLoop.step P) (BlockingLoop.init P) es).sent,
        P.upstream.Plain parseUri item.output) ∧
    ((∀ t output, .sendUpstreamBlocking t output ∈ es → P.upstream.Plain parseUri output) →
      FlowsThrough parseUri P es) := by
  have hiff : FlowsThrough parseUri P es ↔
      ∀ item ∈ (Runs.exec (BlockingLoop.step P) (BlockingLoop.init P) es).sent,
        P.upstream.Plain parseUri item.output := by
    constructor
    · intro hflows item hitem
      obtain ⟨pre, hpre, s, hs, hmem⟩ := sender_of_sent hmax hitem
      exact (Followed.exec hmax pre).sendsAsked_iff.mp (hflows pre hpre).1 s hs item hmem
    · intro hplain pre hpre
      refine ⟨(Followed.exec hmax pre).sendsAsked_iff.mpr fun s hs item hitem => hplain item ?_,
        endsWithReply hmax pre⟩
      -- what is in flight was sent, and what was sent stays
      have hsent := (Followed.exec hmax pre).upstream.flight item
        (List.mem_flatMap.mpr ⟨s, hs, hitem⟩)
      obtain ⟨post, rfl⟩ := hpre
      rw [Runs.exec_append]
      exact (prefix_sent _ _).subset hsent
  refine ⟨hiff, fun hcalls => hiff.mpr fun item hitem => ?_⟩
  have hcall := (Followed.exec hmax es).passed item (List.mem_append_left _ hitem)
  obtain ⟨c, hc, rfl⟩ := List.mem_map.mp hcall
  exact hcalls c.1 c.2.output (event_of_call hc)

/-- One node, with an address. -/
def rpcParams : Params ℕ Unit :=
  { smallParams with
    upstream := { smallParams.upstream with uri := fun _ => "127.0.0.1:28681" } }

/-- How this address is parsed. -/
def rpcUri (uri : String) : Option MgUri :=
  if uri = "127.0.0.1:28681" then some { host := "127.0.0.1", port := 28681 } else none

/-- A job calls with an output that spells the address of the node. -/
def plainCall : List (BlockingEvent ℕ Unit) :=
  (jobRun ++ [Event.workerStart 0]).map .loop ++
    [.sendUpstreamBlocking 0 { host := "127.0.0.1" }, BlockingEvent.checkUpstreamBlockingIO]

/-- The call with a plain output has its request sent. -/
theorem blocking_flow_plainCall :
    (Runs.exec (BlockingLoop.step rpcParams) (BlockingLoop.init rpcParams) plainCall).sent.length
        = 1 ∧
      FlowsThrough rpcUri rpcParams plainCall := by
  refine ⟨rfl, (blocking_flow (P := rpcParams) rfl rpcUri plainCall).1.mpr fun item hitem => ?_⟩
  have hitem : item = ⟨0, { host := "127.0.0.1" }⟩ := List.mem_singleton.mp hitem
  rw [hitem]
  exact ⟨rfl, by decide, by decide, rfl⟩

/-- **A body that is not sent**: a job calls with the body "ping", and a request without a body
is in flight for it. -/
theorem blocking_flow_loses_body : ¬ FlowsThrough rpcUri rpcParams oneCall := by
  intro hflows
  obtain ⟨s, hsenders, hitem⟩ : ∃ s,
      (Runs.exec (BlockingLoop.step rpcParams) (BlockingLoop.init rpcParams) oneCall).senders
        = [s] ∧ s.bt = .upstream 0 { body := "ping" } := ⟨_, rfl, rfl⟩
  have hcall : (0, ⟨0, { body := "ping" }⟩) ∈
      (Runs.exec (BlockingLoop.step rpcParams) (BlockingLoop.init rpcParams) oneCall).calls :=
    List.mem_singleton.mpr rfl
  have hasked := (hflows oneCall (List.prefix_refl _)).1 _ hcall s
    (by rw [hsenders]; exact List.mem_singleton.mpr rfl)
    (by rw [hitem]; exact List.mem_singleton.mpr rfl)
  -- what is asked for has the body, and what was sent has none
  obtain ⟨_, _, heq⟩ := Option.map_eq_some_iff.mp hasked
  have hbody : "ping" = (State.output _ s.bt).body :=
    congrArg HttpRequest.postData (Prod.ext_iff.mp heq).2
  rw [hitem] at hbody
  exact absurd hbody (by decide)

end BlockingLoop

end TaskManager
