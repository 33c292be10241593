/-
# Requests over CoAP

`CoapConnectionManager::ev_handler_coap` (`connection.cpp`) forms a uri of the options of a message,
takes the method from a table at the code detail minus one, and asks the routers for a route.

The loop over the options is to take those with the number of Uri-Path; it assigns this number to
each option instead of comparing it.  The index into the table is checked against its end only, by
an assertion.

* `uriLoop_eq`: every option becomes a part of the uri, and has the number of Uri-Path afterwards;
* `decodes_iff`: a message is decoded as it should be exactly when all its options are Uri-Path and
  its code detail names a method.
-/
import Mathlib.Data.List.Basic
import Mathlib.Data.String.Basic

namespace CoapConnectionManager

/-- `mg_coap_option` -/
structure CoapOption where
  number : ℕ
  value : String
  deriving DecidableEq

/-- `mg_coap_message`, without the fields that the handler does not read. -/
structure CoapMessage where
  codeClass : ℕ
  codeDetail : ℕ
  msgId : ℕ
  options : List CoapOption
  payload : String

/-- The events of a message: `MG_EV_COAP_CON`, `MG_EV_COAP_NOC`, `MG_EV_COAP_ACK` and
`MG_EV_COAP_RST`. -/
inductive CoapEvent
  | con
  | noc
  | ack
  | rst
  deriving DecidableEq

/-- `MG_COAP_CODECLASS_REQUEST` -/
def codeclassRequest : ℕ := 0

/-- `COAP_OPT_URI` -/
def coapOptUri : ℕ := 11

/-- `ConnectionManager::m_methods`; the bits are the ones that `methodsToString` has names for. -/
def m_methods : List (String × ℤ) :=
  [("GET", 2), ("POST", 4), ("PUT", 8), ("DELETE", 16), ("HEAD", 64)]

/-- `CoapConnectionManager::translateMethod`; `none` when it reads outside of the table, or its
assertion fails. -/
def translateMethod (i : ℤ) : Option ℤ :=
  if 0 ≤ i then m_methods[i.toNat]?.map Prod.snd else none

/-- What the handler does with a message. -/
structure Handled (π : Type*) where
  /-- The message that is acknowledged. -/
  ack : Option ℕ := none
  /-- The uri and the method that `matchRoute` is asked for. -/
  routed : Option (String × ℤ) := none
  /-- The parameters and the input of the task that is created. -/
  client : Option (π × String) := none
  /-- The table of methods is read outside of its bounds. -/
  outside : Bool := false
  /-- The options of the message afterwards. -/
  options : List CoapOption

/-- The loop over the options: the uri, and what becomes of the options. -/
def uriLoop (uri : String) : List CoapOption → String × List CoapOption
  | [] => (uri, [])
  | opt :: options =>
    -- `if (opt->number = COAP_OPT_URI)`: the number that is assigned is not 0
    let opt := { opt with number := coapOptUri }
    let r := uriLoop (uri ++ "/" ++ opt.value) options
    (r.1, opt :: r.2)

variable {π : Type*} (matchRoute : String → ℤ → Option π)

/-- The handler from `MG_EV_COAP_NOC` on. -/
def handleRequest (cm : CoapMessage) : Handled π :=
  let r := uriLoop "" cm.options
  match translateMethod (cm.codeDetail - 1) with
  | none => { outside := true, options := r.2 }
  | some method =>
    { routed := some (r.1, method)
      client := (matchRoute r.1 method).map fun prms => (prms, cm.payload)
      options := r.2 }

/-- `CoapConnectionManager::ev_handler_coap`, for the events of a message. -/
def evHandlerCoap (ev : CoapEvent) (cm : CoapMessage) : Handled π :=
  if cm.codeClass ≠ codeclassRequest then { options := cm.options }
  else
    match ev with
    | .con => { handleRequest matchRoute cm with ack := some cm.msgId }
    | .noc => handleRequest matchRoute cm
    | .ack | .rst => { options := cm.options }

/-! ## What a message asks for -/

/-- The parts of the uri that are in the options: a slash and the value of each Uri-Path. -/
def uriPath (options : List CoapOption) : String :=
  String.join ((options.filter fun opt => opt.number = coapOptUri).map fun opt => "/" ++ opt.value)

/-- The code details that are known, with their methods: the table has each of them at its place. -/
structure MethodNames where
  method : ℕ → Option ℤ
  inTable : ∀ codeDetail m, method codeDetail = some m → translateMethod (codeDetail - 1) = some m

/-- All that the table has. -/
def MethodNames.all : MethodNames where
  method codeDetail := translateMethod (codeDetail - 1)
  inTable _ _ h := h

/-- **A request is decoded as it should be**: what is routed is its path with the method of its code
detail, and nothing if this is not known; a task is created for the route that is found; the table
is not read outside, and the options stay. -/
structure Decodes (names : MethodNames) (ev : CoapEvent) (cm : CoapMessage) : Prop where
  routed : (evHandlerCoap matchRoute ev cm).routed =
    (names.method cm.codeDetail).map fun m => (uriPath cm.options, m)
  client : (evHandlerCoap matchRoute ev cm).client =
    ((names.method cm.codeDetail).bind fun m => matchRoute (uriPath cm.options) m).map
      fun prms => (prms, cm.payload)
  inside : (evHandlerCoap matchRoute ev cm).outside = false
  options : (evHandlerCoap matchRoute ev cm).options = cm.options

/-! ## The loop over the options -/

/-- What the loop makes of an option. -/
def asUriPath (opt : CoapOption) : CoapOption := { opt with number := coapOptUri }

/-- **The loop over the options** takes every one of them. -/
theorem uriLoop_eq (uri : String) (options : List CoapOption) :
    uriLoop uri options =
      (uri ++ String.join (options.map fun opt => "/" ++ opt.value), options.map asUriPath) := by
  induction options generalizing uri with
  | nil => simp [uriLoop]
  | cons opt options ih =>
    rw [uriLoop]
    dsimp only
    rw [ih, List.map_cons, List.map_cons, String.join_cons, String.append_assoc,
      String.append_assoc, String.append_assoc]
    rfl

/-- No option is changed if all of them are Uri-Path. -/
theorem map_asUriPath_eq_iff {options : List CoapOption} :
    options.map asUriPath = options ↔ ∀ opt ∈ options, opt.number = coapOptUri := by
  have hmap := List.map_eq_map_iff (f := asUriPath) (g := id) (l := options)
  rw [List.map_id] at hmap
  rw [hmap]
  refine forall₂_congr fun opt _ => ?_
  constructor
  · intro h
    exact (congrArg CoapOption.number h).symm
  · intro h
    rw [asUriPath, ← h]
    rfl

/-- If all options are Uri-Path, all of them are parts of the uri. -/
theorem uriPath_of_forall {options : List CoapOption}
    (h : ∀ opt ∈ options, opt.number = coapOptUri) :
    uriPath options = String.join (options.map fun opt => "/" ++ opt.value) := by
  rw [uriPath, List.filter_eq_self.mpr fun opt hopt => decide_eq_true (h opt hopt)]

/-! ## The handler -/

variable {matchRoute} {ev : CoapEvent} {cm : CoapMessage}

/-- **A request is handled** in the same way whether it is acknowledged or not. -/
theorem evHandlerCoap_of_request (matchRoute : String → ℤ → Option π)
    (hclass : cm.codeClass = codeclassRequest) (hev : ev = .con ∨ ev = .noc) :
    (evHandlerCoap matchRoute ev cm).routed = (handleRequest matchRoute cm).routed ∧
      (evHandlerCoap matchRoute ev cm).client = (handleRequest matchRoute cm).client ∧
      (evHandlerCoap matchRoute ev cm).outside = (handleRequest matchRoute cm).outside ∧
      (evHandlerCoap matchRoute ev cm).options = (handleRequest matchRoute cm).options := by
  unfold evHandlerCoap
  rw [if_neg (not_not.mpr hclass)]
  rcases hev with rfl | rfl
  · exact ⟨rfl, rfl, rfl, rfl⟩
  · exact ⟨rfl, rfl, rfl, rfl⟩

/-- Every option has the number of Uri-Path afterwards. -/
theorem handleRequest_options (matchRoute : String → ℤ → Option π) (cm : CoapMessage) :
    (handleRequest matchRoute cm).options = cm.options.map asUriPath := by
  have hloop : (uriLoop "" cm.options).2 = cm.options.map asUriPath := by rw [uriLoop_eq]
  rw [handleRequest]
  split
  · exact hloop
  · exact hloop

/-- **A code detail that is in the table** has its method there. -/
theorem handleRequest_of_some (matchRoute : String → ℤ → Option π) {m : ℤ}
    (h : translateMethod (cm.codeDetail - 1) = some m) :
    (handleRequest matchRoute cm).outside = false ∧
      (handleRequest matchRoute cm).routed =
        some (String.join (cm.options.map fun opt => "/" ++ opt.value), m) ∧
      (handleRequest matchRoute cm).client =
        (matchRoute (String.join (cm.options.map fun opt => "/" ++ opt.value)) m).map
          fun prms => (prms, cm.payload) := by
  have hloop : (uriLoop "" cm.options).1 =
      String.join (cm.options.map fun opt => "/" ++ opt.value) := by
    rw [uriLoop_eq, String.empty_append]
  rw [handleRequest]
  rw [h, hloop]
  exact ⟨rfl, rfl, rfl⟩

/-- **A code detail that is not in the table** is looked up outside of it. -/
theorem handleRequest_of_none (h : translateMethod (cm.codeDetail - 1) = none) :
    (handleRequest matchRoute cm).outside = true := by
  rw [handleRequest]
  rw [h]

/-- **A request is decoded as it should be** exactly when all its options are Uri-Path and its code
detail is known. -/
theorem decodes_iff (names : MethodNames) (hclass : cm.codeClass = codeclassRequest)
    (hev : ev = .con ∨ ev = .noc) :
    Decodes matchRoute names ev cm ↔
      (∀ opt ∈ cm.options, opt.number = coapOptUri) ∧ (names.method cm.codeDetail).isSome := by
  obtain ⟨hrouted, hclient, houtside, hoptions⟩ :=
    evHandlerCoap_of_request matchRoute hclass hev
  constructor
  · intro h
    refine ⟨?_, ?_⟩
    · rw [← map_asUriPath_eq_iff, ← handleRequest_options matchRoute, ← hoptions]
      exact h.options
    · -- what is not known is routed, or looked up outside of the table
      by_contra hnone
      rw [Bool.not_eq_true, Option.isSome_eq_false_iff, Option.isNone_iff_eq_none] at hnone
      have hno : (handleRequest matchRoute cm).routed = none := by
        rw [← hrouted, h.routed, hnone, Option.map_none]
      have hinside : (handleRequest matchRoute cm).outside = false := by
        rw [← houtside]
        exact h.inside
      cases htable : translateMethod (cm.codeDetail - 1) with
      | none =>
        rw [handleRequest_of_none htable] at hinside
        cases hinside
      | some m =>
        rw [(handleRequest_of_some matchRoute htable).2.1] at hno
        cases hno
  · rintro ⟨hall, hknown⟩
    obtain ⟨m, hm⟩ := Option.isSome_iff_exists.mp hknown
    obtain ⟨hinside, hroute, htask⟩ :=
      handleRequest_of_some matchRoute (names.inTable _ _ hm)
    refine ⟨?_, ?_, ?_, ?_⟩
    · rw [hrouted, hroute, hm, Option.map_some, uriPath_of_forall hall]
    · rw [hclient, htask, hm, Option.bind_some, uriPath_of_forall hall]
    · rw [houtside, hinside]
    · rw [hoptions, handleRequest_options, map_asUriPath_eq_iff.mpr hall]

theorem decodes_get_path :
    Decodes (fun _ _ => some ()) .all .con ⟨codeclassRequest, 1, 7, [⟨11, "a"⟩, ⟨11, "b"⟩], "x"⟩ :=
  (decodes_iff .all rfl (Or.inl rfl)).mpr ⟨by decide, by decide⟩

/-- A query becomes a part of the path. -/
theorem not_decodes_query :
    ¬ Decodes (fun _ _ => some ()) .all .con
      ⟨codeclassRequest, 1, 7, [⟨11, "a"⟩, ⟨15, "x=1"⟩], ""⟩ := by
  intro h
  exact absurd h.options (by decide)

end CoapConnectionManager
