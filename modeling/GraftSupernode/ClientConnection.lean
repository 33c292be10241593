/-
# The connections of clients

What the handlers of `connection.cpp` do with the connections that mongoose accepts, over HTTP and
over CoAP, and with the pointers between a connection and the `ClientTask` that serves it.

A connection calls its `handler` with the `user_data` that it was given; a task writes to its
`m_client`.  Connections and tasks have numbers, which are not used again, so a pointer to one that
is gone is found out: `fault` says that a handler or `respond` used such a pointer, or that an
assertion on one failed.

* `Event`: what mongoose reports, in any order, and the answers of the task manager;
* `step`: what the handlers do; a connection that is closed is gone.

Whether the router has a route is part of the event.
-/
import GraftSupernode.CoapRequest
import GraftSupernode.StateMachine
import GraftSupernode.TaskManager
import GraftSupernode.Runs

namespace HttpConnectionManager

/-- The character that ends a string of C. -/
def null : Char := Char.ofNat 0

/-- `strncmp(a, b, n) == 0`, for a string `a` that ends with a null and the `n` characters `b`. -/
def strncmp : List Char → List Char → Bool
  | _, [] => true
  | [], y :: _ => y = null
  | x :: a, y :: b => x = y && strncmp a b

/-- `HttpConnectionManager::translateMethod`; `none` is -1. -/
def translateMethod (method : List Char) : Option ℤ :=
  (CoapConnectionManager.m_methods.find? fun m => strncmp m.1.toList method).map Prod.snd

end HttpConnectionManager

namespace ClientConnection

open StateMachine

/-- The handlers that a connection can have: `ev_handler_http`, `ev_handler_coap`,
`static_ev_handler<ClientTask>`, `ev_handler_empty` and `static_empty_ev_handler`. -/
inductive EvHandler
  | http
  | coap
  | clientTask
  | handlerEmpty
  | staticEmpty
  deriving DecidableEq

/-- What `user_data` points to: the `HttpConnectionManager`, the `CoapConnectionManager`, or a
task. -/
inductive UserData
  | http
  | coap
  | task (t : ℕ)
  deriving DecidableEq

/-- `mg_connection`; a `timer` that is not set is 0, and the flags are `MG_F_CLOSE_IMMEDIATELY` and
`MG_F_SEND_AND_CLOSE`. -/
structure Conn where
  handler : EvHandler
  userData : UserData
  timer : Option ℕ
  closeImmediately : Bool
  sendAndClose : Bool
  deriving DecidableEq

/-- The connection is about to be closed. -/
def Conn.closing (k : Conn) : Bool := k.closeImmediately || k.sendAndClose

/-- What is sent to a client. -/
inductive Sent
  | error (c : ℕ) (code : ℕ) (reason : String)
  | reply (c : ℕ) (t : ℕ) (code : ℕ) (body : String)
  deriving DecidableEq

/-- The connections that are open, and the tasks: `m_client` of each, or `none` when it is null. -/
structure State where
  conns : ℕ → Option Conn
  accepted : ℕ
  tasks : ℕ → Option (Option ℕ)
  created : ℕ
  sent : List Sent
  fault : Bool

def init : State := ⟨fun _ => none, 0, fun _ => none, 0, [], false⟩

/-- An event of a connection.  The timer of a connection can only fire when it is set. -/
inductive MgEvent
  | httpRequest (method : List Char) (routed : Bool)
  | coapMessage (ev : CoapConnectionManager.CoapEvent) (codeClass : ℕ) (routed : Bool)
  | timer
  | close
  | other

/-- What happens: a connection is accepted, one of them has an event, or the task manager answers a
client. -/
inductive Event
  | acceptHttp (stopped allowed : Bool) (deadline : ℕ)
  | acceptCoap (stopped : Bool)
  | mg (c : ℕ) (ev : MgEvent)
  | respond (t : ℕ) (status : Status) (body : String) (die : Bool)

namespace State

variable (s : State)

/-- A connection is changed. -/
def setConn (c : ℕ) (k : Option Conn) : State := { s with conns := Function.update s.conns c k }

/-- A task is changed. -/
def setTask (t : ℕ) (client : Option (Option ℕ)) : State :=
  { s with tasks := Function.update s.tasks t client }

/-- Something is wrong with a pointer. -/
def fail : State := { s with fault := true }

/-- A task is created for a connection, which is handed over to it. -/
def serve (c : ℕ) (k : Conn) : State :=
  { (s.setConn c (some { k with userData := .task s.created, handler := .clientTask })).setTask
      s.created (some (some c)) with
    created := s.created + 1 }

/-- A new connection. -/
def accept (k : Conn) : State :=
  { s.setConn s.accepted (some k) with accepted := s.accepted + 1 }

/-- `HttpConnectionManager::ev_handler_http` -/
def evHandlerHttp (c : ℕ) (k : Conn) : MgEvent → State
  | .httpRequest method routed =>
    let k := { k with timer := none }
    match HttpConnectionManager.translateMethod method with
    | none => s.setConn c (some k)
    | some _ =>
      match k.userData with
      | .coap | .task _ => s.fail
      | .http =>
        if routed then s.serve c k
        else { s.setConn c (some { k with sendAndClose := true }) with
          sent := s.sent ++ [.error c 500 "invalid parameter"] }
  | .timer =>
    s.setConn c (some { k with timer := none, handler := .handlerEmpty, closeImmediately := true })
  | _ => s

/-- `CoapConnectionManager::ev_handler_coap` -/
def evHandlerCoap (c : ℕ) (k : Conn) : MgEvent → State
  | .coapMessage ev codeClass routed =>
    if codeClass ≠ CoapConnectionManager.codeclassRequest then s
    else
      match ev with
      | .con | .noc =>
        match k.userData with
        | .http | .task _ => s.fail
        | .coap => if routed then s.serve c k else s
      | .ack | .rst => s
  | _ => s

/-- `static_ev_handler<ClientTask>` and `ConnectionManager::ev_handler` -/
def evHandlerClient (c : ℕ) (k : Conn) (ev : MgEvent) : State :=
  match k.userData with
  | .http | .coap => s.fail
  | .task t =>
    if s.tasks t = some (some c) then
      match ev with
      | .close => (s.setConn c (some { k with handler := .staticEmpty })).setTask t (some none)
      | _ => s
    else s.fail

/-- A connection calls its handler. -/
def call (c : ℕ) (k : Conn) (ev : MgEvent) : State :=
  match k.handler with
  | .http => s.evHandlerHttp c k ev
  | .coap => s.evHandlerCoap c k ev
  | .clientTask => s.evHandlerClient c k ev
  | .handlerEmpty | .staticEmpty => s

/-- `ConnectionManager::respond`, and the end of the task. -/
def respond (t : ℕ) (status : Status) (body : String) (die : Bool) : State :=
  match s.tasks t with
  | none => s
  | some none => if die then s.setTask t none else s
  | some (some c) =>
    match s.conns c with
    | none => s.fail
    | some k =>
      { (s.setConn c (some { k with sendAndClose := true, handler := .staticEmpty })).setTask t
          (if die then none else some none) with
        sent := s.sent ++ [.reply c t (TaskManager.httpCode status) body] }

end State

/-- One event; mongoose reports nothing of a connection that is gone. -/
def step (s : State) : Event → State
  | .acceptHttp stopped allowed deadline =>
    let k : Conn := ⟨.http, .http, none, false, false⟩
    if stopped then s.accept { k with closeImmediately := true }
    else if !allowed then s.accept { k with closeImmediately := true }
    else s.accept { k with timer := some deadline }
  | .acceptCoap stopped => s.accept ⟨.coap, .coap, none, stopped, false⟩
  | .mg c ev =>
    match s.conns c with
    | none => s
    | some k =>
      match ev with
      | .timer => if k.timer = none then s else s.call c k .timer
      | .close => (s.call c k .close).setConn c none
      | ev => s.call c k ev
  | .respond t status body die => s.respond t status body die

end ClientConnection
