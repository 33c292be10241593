/-
# The connections to upstream nodes

`UpstreamSender` and `UpstreamStub` (`connection.cpp`): what they do with the connections of
mongoose that they are given, next to the upstream manager, whose pools hold these connections when
they are idle.

A connection calls its handler: that of the request that uses it, or that of the stub of the node
whose pool holds it.  `fault` says that a request was sent over a connection that is gone, that a
handler was called for a request that is done, or that an assertion failed: one of `ConnItem`, or
one of `UpstreamStub`, which expects nothing of an idle connection but polls and its end.

* `Event`: a task is sent, mongoose reports something, or the callback of a request returns;
* `step`: what the handlers do; what becomes of the manager is a step of `UpstreamRun`.

A connection that a handler has closed is there until mongoose frees it: the last event `close`.
-/
import GraftSupernode.PoolAssertions

deriving instance DecidableEq for UpstreamSender

namespace UpstreamConnection

variable {τ κ : Type*}

/-- The handler of a connection, with its `user_data`. -/
inductive Handler (τ κ : Type*)
  | sender (s : UpstreamSender τ κ)
  | stub (k : κ)
  | staticEmpty

/-- `mg_connection`: the handler, whether a timer is set, and `MG_F_CLOSE_IMMEDIATELY`. -/
structure Conn (τ κ : Type*) where
  handler : Handler τ κ
  timer : Bool
  closeImmediately : Bool

/-- The manager, and the connections by their pointers. -/
structure State (τ κ : Type*) where
  run : UpstreamRun τ κ
  conns : ℕ → Option (Conn τ κ)
  fault : Bool

/-- What mongoose reports of a connection: `MG_EV_CONNECT` with an error, `MG_EV_HTTP_REPLY`,
`MG_EV_CLOSE`, `MG_EV_TIMER`, `MG_EV_POLL`, or something else, such as data that comes. -/
inductive MgEvent
  | connectError
  | httpReply
  | close
  | timer
  | poll
  | other

/-- What happens. -/
inductive Event (τ : Type*)
  | send (bt : τ)
  | mg (p : ℕ) (ev : MgEvent)
  | callbackDone

/-- A connection that its request has let go of. -/
def Conn.letGo (c : Conn τ κ) (closeImmediately : Bool) : Conn τ κ :=
  { c with
    handler := .staticEmpty
    timer := false
    closeImmediately := c.closeImmediately || closeImmediately }

namespace State

variable (st : State τ κ)

/-- A connection is changed, or freed. -/
def setConn (p : ℕ) (c : Option (Conn τ κ)) : State τ κ :=
  { st with conns := Function.update st.conns p c }

/-- Something is wrong. -/
def fail : State τ κ := { st with fault := true }

/-- An assertion. -/
def check (b : Bool) : State τ κ := if b then st else st.fail

/-- `UpstreamSender::send`, over an idle connection or a new one. -/
def send (reused : Bool) (s : UpstreamSender τ κ) : State τ κ :=
  if reused then
    match st.conns s.upstream with
    | none => st.fail
    | some c => st.setConn s.upstream (some { c with handler := .sender s, timer := true })
  else st.setConn s.upstream (some ⟨.sender s, true, false⟩)

/-- The manager has gone on; the request that it has created, if any, is sent. -/
def goOn (run : UpstreamRun τ κ) : State τ κ :=
  (UpstreamRun.newSenders st.run.manager run.manager).foldl
    (fun st' s => st'.send (run.manager.cntConnections = st.run.manager.cntConnections) s)
    { st with run := run }

variable [DecidableEq τ] [DecidableEq κ] (cfg : UpstreamConfig κ) (uri : τ → String)

/-- `UpstreamStub::setConnection`, for a connection that goes back to the pool of `k`.  The stub of
the default node has no `m_onCloseCallback`. -/
def setConnection (p : ℕ) (k : κ) : State τ κ :=
  match st.conns p with
  | none => st.fail
  | some c => (st.check (k ≠ cfg.default)).setConn p (some { c with handler := .stub k })

/-- `m_onDone`, up to the callback: the request is done, and has kept its connection or not. -/
def done (s : UpstreamSender τ κ) (kept : Bool) : State τ κ :=
  { st with run := st.run.step cfg uri (.answer (st.run.manager.senders.idxOf s) kept) }

/-- `UpstreamSender::ev_handler` -/
def evSender (p : ℕ) (c : Conn τ κ) (s : UpstreamSender τ κ) : MgEvent → State τ κ
  | .connectError => (st.setConn p (some { c with handler := .staticEmpty })).done cfg uri s false
  | .httpReply =>
    if s.keepAlive then (st.setConn p (some { c with timer := false })).done cfg uri s true
    else (st.setConn p (some (c.letGo true))).done cfg uri s true
  | .close => (st.setConn p (some (c.letGo false))).done cfg uri s false
  | .timer => (st.setConn p (some (c.letGo true))).done cfg uri s false
  | .poll | .other => st

/-- `UpstreamStub::ev_handler` -/
def evStub (p : ℕ) (c : Conn τ κ) (k : κ) : MgEvent → State τ κ
  | .close =>
    { (st.check ((st.run.manager.item k).onCloseIdleAsserts p)).setConn p (some (c.letGo false)) with
      run := st.run.step cfg uri (.closeIdle k p) }
  | .poll => st
  | _ => st.fail

/-- A connection calls its handler; what mongoose closes and has no handler is freed. -/
def call (p : ℕ) (c : Conn τ κ) (ev : MgEvent) : State τ κ :=
  match c.handler with
  | .sender s =>
    if s ∈ st.run.manager.senders ∧ s.upstream = p then st.evSender cfg uri p c s ev else st.fail
  | .stub k => st.evStub cfg uri p c k ev
  | .staticEmpty =>
    match ev with
    | .close => st.setConn p none
    | _ => st

/-- The callback of a request returns: its connection goes back to the pool if it was kept, and the
first task that waits is sent. -/
def callbackDone : State τ κ :=
  match st.run.releasing with
  | none => st
  | some (s, kept) =>
    let client := if s.keepAlive && kept then some s.upstream else none
    let st' := st.check (st.run.manager.nextAsserts s.conn s.connectionId client)
    let st' := if s.keepAlive && kept then st'.setConnection cfg s.upstream s.conn else st'
    st'.goOn (st.run.step cfg uri .callbackDone)

end State

variable [DecidableEq τ] [DecidableEq κ] (cfg : UpstreamConfig κ) (uri : τ → String)

/-- One event.  Mongoose reports nothing while a callback runs, and nothing of what is freed; it
has a timer fire only if one is set. -/
def step (st : State τ κ) : Event τ → State τ κ
  | .send bt =>
    (st.check (st.run.manager.sendAsserts cfg (uri bt))).goOn (st.run.step cfg uri (.send bt))
  | .callbackDone => st.callbackDone cfg uri
  | .mg p ev =>
    match st.run.releasing, st.conns p with
    | none, some c =>
      match ev with
      | .timer => if c.timer then st.call cfg uri p c .timer else st
      | ev => st.call cfg uri p c ev
    | _, _ => st

def init : State τ κ := ⟨.init cfg, fun _ => none, false⟩

/-- The memory for the next new connection is not in use. -/
def Fresh (st : State τ κ) : Prop := st.conns (cfg.address st.run.manager.cntConnections) = none

instance (st : State τ κ) : Decidable (Fresh cfg st) := inferInstanceAs (Decidable (_ = none))

end UpstreamConnection
