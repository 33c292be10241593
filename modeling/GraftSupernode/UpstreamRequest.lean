/-
# The request that an output asks for

`UpstreamSender::send` (`connection.cpp`) makes an HTTP request of the output of its task:
`OutHttp::makeUri` (`inout.cpp`) forms the address, with the parts that the output leaves empty
taken from a default uri, and `combine_headers` the headers.

* `Output.makeUri`, `Output.combineHeaders`, `Output.request`: these functions;
* `UpstreamConfig.requestFor`: the node and the request for a task with a given output, as
  `UpstreamManager::send` chooses them;
* `Addressed`: where the requests in flight are sent to.

The parser of uris is that of mongoose, which is not part of the repository; it is a parameter.
-/
import GraftSupernode.InOut
import GraftSupernode.UpstreamManager

/-- What `mg_parse_uri` finds in a uri:
`[scheme://[user_info@]]host[:port][/path][?query][#fragment]`. -/
structure MgUri where
  scheme : String := ""
  userInfo : String := ""
  host : String := ""
  port : ℕ := 0
  path : String := ""
  query : String := ""
  fragment : String := ""

/-- What a function that takes `s.c_str()` reads. -/
def cStr (s : String) : String := String.ofList (s.toList.takeWhile fun c => c.toNat ≠ 0)

/-- The arguments of `mg_connect_http_x`; without data it is a GET request. -/
structure HttpRequest where
  url : String
  extraHeaders : String
  postData : String
  deriving DecidableEq

/-- `InOutHttpBase::combine_headers` -/
def Output.combineHeaders (out : Output) : String :=
  out.headers.foldl (fun s pair => s ++ pair.1 ++ ": " ++ pair.2 ++ "\r\n") out.extraHeaders

/-- The first string, or the second one if the first is empty. -/
def orElseEmpty (s t : String) : String := if s ≠ "" then s else t

/-- The string with something before it, unless it is empty. -/
def withMark (mark s : String) : String := if s ≠ "" then mark ++ s else ""

section

variable (parseUri : String → Option MgUri)

/-- `OutHttp::makeUri`.  The port of the default uri counts if it is not 0. -/
def Output.makeUri (out : Output) (defaultUri : String) : String :=
  let uri : MgUri := if defaultUri = "" then {} else (parseUri defaultUri).getD {}
  let scheme := orElseEmpty out.proto uri.scheme
  let host := orElseEmpty out.host uri.host
  let port := orElseEmpty out.port (if uri.port ≠ 0 then toString uri.port else "")
  let path := orElseEmpty out.path uri.path
  let user := if uri.userInfo ≠ "" then uri.userInfo ++ "@" else ""
  (if scheme ≠ "" then scheme ++ "://" ++ user else "") ++ host ++ withMark ":" port ++
    (if path.toList.head? = some '/' then path else withMark "/" path) ++
    withMark "?" uri.query ++ withMark "#" uri.fragment

/-- `UpstreamSender::send`, for a task that waits for no callback: what it passes to
`mg_connect_http_x`. -/
def Output.request (out : Output) (defUri : String) : HttpRequest where
  url := cStr (out.makeUri parseUri defUri)
  extraHeaders := cStr (orElseEmpty out.combineHeaders "Content-Type: application/json\r\n")
  postData := out.body

end

namespace UpstreamConfig

variable {κ : Type*} [DecidableEq κ] (cfg : UpstreamConfig κ) (parseUri : String → Option MgUri)

/-- The default uri for the output of a task that is sent to the node `k`,
`UpstreamManager::createUpstreamSender`. -/
def defUri (k : κ) (uri : String) : String :=
  if k ≠ cfg.default || uri = "" then cfg.uri k else uri

/-- The node and the request for a task with this output; `none` is the exception
"cannot find uri substitution". -/
def requestFor (out : Output) : Option (κ × HttpRequest) :=
  (cfg.connItem out.uri).map fun k => (k, out.request parseUri (cfg.defUri k out.uri))

omit [DecidableEq κ] in
@[simp] theorem connItem_empty : cfg.connItem "" = some cfg.default := by
  simp [connItem]

/-- An empty output asks for the default node at its own address. -/
theorem requestFor_empty :
    cfg.requestFor parseUri {} =
      some (cfg.default, ({} : Output).request parseUri (cfg.uri cfg.default)) := by
  show (cfg.connItem "").map _ = _
  rw [connItem_empty, Option.map_some]
  simp [defUri]

/-- The output asks for what an empty one does: its uri does not name another node, what it gives
of an address spells the one of the default node, it has no body, and no headers but those of a
request without headers. -/
structure Plain (out : Output) : Prop where
  node : cfg.connItem out.uri = some cfg.default
  url : cStr (out.makeUri parseUri (cfg.defUri cfg.default out.uri))
    = cStr (({} : Output).makeUri parseUri (cfg.uri cfg.default))
  headers : cStr (orElseEmpty out.combineHeaders "Content-Type: application/json\r\n")
    = "Content-Type: application/json\r\n"
  body : out.body = ""

/-- The headers of an empty output. -/
theorem request_empty (uri : String) :
    ({} : Output).request parseUri uri =
      ⟨cStr (({} : Output).makeUri parseUri uri), "Content-Type: application/json\r\n", ""⟩ := by
  have hheaders : cStr (orElseEmpty ({} : Output).combineHeaders
      "Content-Type: application/json\r\n") = "Content-Type: application/json\r\n" := by decide
  show HttpRequest.mk _ _ _ = _
  rw [hheaders]

/-- **An output asks for what an empty one does** exactly if it is plain. -/
theorem requestFor_eq_iff {out : Output} :
    cfg.requestFor parseUri out =
        some (cfg.default, ({} : Output).request parseUri (cfg.uri cfg.default)) ↔
      cfg.Plain parseUri out := by
  rw [request_empty]
  constructor
  · intro h
    obtain ⟨k, hk, heq⟩ := Option.map_eq_some_iff.mp h
    obtain ⟨rfl, hrequest⟩ := Prod.ext_iff.mp heq
    obtain ⟨hurl, hheaders, hbody⟩ := HttpRequest.mk.injEq .. ▸ hrequest
    exact ⟨hk, hurl, hheaders, hbody⟩
  · rintro ⟨hnode, hurl, hheaders, hbody⟩
    unfold requestFor
    rw [hnode, Option.map_some]
    unfold Output.request
    rw [hurl, hheaders, hbody]

end UpstreamConfig

/-! ## Where the requests go -/

namespace ConnItem

variable {τ : Type*}

@[simp] theorem getConnection_uri (c : ConnItem τ) : c.getConnection.2.uri = c.uri := by
  unfold getConnection
  split
  · split <;> rfl
  · rfl

@[simp] theorem releaseActive_uri (c : ConnItem τ) (connectionId : ℕ) (client : Option ℕ) :
    (c.releaseActive connectionId client).uri = c.uri := by
  unfold releaseActive
  split
  · cases client <;> rfl
  · rfl

end ConnItem

/-- Each node keeps the address that it was configured with, and each request in flight for a task
with the output `output bt` is the one that this output asks for, for the tasks in question. -/
structure Addressed {τ κ : Type*} [DecidableEq κ] (cfg : UpstreamConfig κ) (uri : τ → String)
    (p : τ → Prop) (um : UpstreamManager τ κ) : Prop where
  item : ∀ k, (um.item k).uri = cfg.uri k
  sender : ∀ s ∈ um.senders, p s.bt →
    cfg.connItem (uri s.bt) = some s.conn ∧ s.uri = cfg.defUri s.conn (uri s.bt)

namespace Addressed

variable {τ κ : Type*} [DecidableEq κ] {cfg : UpstreamConfig κ} {uri : τ → String} {p : τ → Prop}
  {um : UpstreamManager τ κ}

theorem init : Addressed cfg uri p (.init cfg) :=
  ⟨fun _ => rfl, fun _ hs => absurd hs List.not_mem_nil⟩

/-- A node changes, but its address stays. -/
theorem setItem (h : Addressed cfg uri p um) {k : κ} {c : ConnItem τ}
    (hc : c.uri = (um.item k).uri) : Addressed cfg uri p (um.setItem k c) := by
  refine ⟨fun k' => ?_, h.sender⟩
  show (Function.update um.item k c k').uri = cfg.uri k'
  rw [Function.update_apply]
  split
  · rename_i hk
    rw [hc, hk]
    exact h.item k
  · exact h.item k'

/-- **A request is created** for the node that the output of its task names. -/
theorem createUpstreamSender (h : Addressed cfg uri p um) {k : κ} {bt : τ} {uri' : String}
    (hbt : p bt → cfg.connItem (uri bt) = some k ∧ uri' = uri bt) :
    Addressed cfg uri p (um.createUpstreamSender cfg k bt uri') := by
  have hnew (s : UpstreamSender τ κ) (hs : s.bt = bt ∧ s.conn = k ∧ s.uri = cfg.defUri k uri')
      (hp : p s.bt) :
      cfg.connItem (uri s.bt) = some s.conn ∧ s.uri = cfg.defUri s.conn (uri s.bt) := by
    obtain ⟨hsbt, hconn, huri⟩ := hs
    rw [hsbt] at hp ⊢
    rw [hconn, huri, (hbt hp).2]
    exact ⟨(hbt hp).1, rfl⟩
  have hurl : (if k ≠ cfg.default || uri' = "" then (um.item k).uri else uri')
      = cfg.defUri k uri' := by
    rw [h.item]
    rfl
  unfold UpstreamManager.createUpstreamSender
  dsimp only
  split
  · -- a node that keeps connections alive also counts them
    have hset := h.setItem (k := k) (c := (um.item k).getConnection.2) (by simp)
    refine ⟨hset.item, fun s hs => ?_⟩
    rcases List.mem_cons.mp hs with rfl | hold
    · exact hnew _ ⟨rfl, rfl, hurl⟩
    · exact h.sender s hold
  · refine ⟨h.item, fun s hs => ?_⟩
    rcases List.mem_cons.mp hs with rfl | hold
    · exact hnew _ ⟨rfl, rfl, hurl⟩
    · exact h.sender s hold

/-- **A task is sent** to the node that its output names, at once or when its turn comes. -/
theorem send (h : Addressed cfg uri p um) {um' : UpstreamManager τ κ} {bt : τ} {uri' : String}
    (hbt : p bt → uri' = uri bt) (hsend : um.send cfg bt uri' = some um') :
    Addressed cfg uri p um' := by
  obtain ⟨k, hk, rfl⟩ := Option.map_eq_some_iff.mp hsend
  dsimp only
  split
  · exact h.setItem rfl
  · refine h.createUpstreamSender fun hp => ?_
    rw [← hbt hp]
    exact ⟨hk, rfl⟩

theorem finish (h : Addressed cfg uri p um) (i : ℕ) : Addressed cfg uri p (um.finish i) :=
  ⟨h.item, fun s hs => h.sender s (List.mem_of_mem_eraseIdx hs)⟩

theorem closeIdle (h : Addressed cfg uri p um) (k : κ) (client : ℕ) :
    Addressed cfg uri p (um.closeIdle k client) := h.setItem rfl

/-- The connection is released, and the first task of the queue is sent, if it is not one of those
in question. -/
theorem next (h : Addressed cfg uri p um) {uri' : τ → String} {k : κ} (connectionId : ℕ)
    (client : Option ℕ) (hqueue : ∀ bt ∈ (um.item k).taskQueue, ¬ p bt) :
    Addressed cfg uri p (um.next cfg uri' k connectionId client) := by
  have hsame := (um.item k).releaseActive_taskQueue connectionId client
  unfold UpstreamManager.next
  dsimp only
  split
  · exact h.setItem (by simp)
  · rename_i bt taskQueue hcons
    rw [hsame] at hcons
    have hbt : ¬ p bt := hqueue bt (hcons ▸ List.mem_cons_self)
    exact createUpstreamSender (h.setItem (by simp)) fun hp => absurd hp hbt

/-- **A request in flight is the one that the output of its task asks for**, at the node that it
asks for. -/
theorem requestFor {output : τ → Output} (h : Addressed cfg (fun bt => (output bt).uri) p um)
    (parseUri : String → Option MgUri) {s : UpstreamSender τ κ} (hs : s ∈ um.senders)
    (hp : p s.bt) :
    cfg.requestFor parseUri (output s.bt) =
      some (s.conn, (output s.bt).request parseUri s.uri) := by
  obtain ⟨hconn, huri⟩ := h.sender s hs hp
  unfold UpstreamConfig.requestFor
  rw [hconn, Option.map_some, huri]

end Addressed
