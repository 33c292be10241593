/-
# Conflicts of routes

`RouterT::Root::dbgCheckConflictRoutes` (`router.cpp`) goes through the routes of all the routers
and keeps the methods of each endpoint in a map; `ConnectionBase::checkRoutes` (`connection.cpp`)
throws when it has found an endpoint.

A second route of an endpoint is compared with the first one.  Its methods are then and-ed to those
in the map, so that no methods are left for a third route to be compared with.

* `checkLoop_spec`: what the loop returns, by the first two routes of each endpoint;
* `checks_iff`: the check is right exactly when there is no conflict, or one of the first two routes
  of an endpoint that has a name is there before one of the empty endpoint.
-/
import Mathlib.Data.List.Infix
import Mathlib.Logic.Function.Basic
import Mathlib.Order.Basic

namespace RouterT

/-- `Route`, without the handlers; the methods are bits of an `int`. -/
structure Route where
  endpoint : String
  methods : BitVec 32
  deriving DecidableEq

/-- `m_routers`: the routes of each router. -/
abbrev Routers := List (List Route)

/-- The loop of `dbgCheckConflictRoutes`; `map` has the methods of the endpoints so far. -/
def checkLoop (map : String → Option (BitVec 32)) : List Route → String
  | [] => ""
  | rr :: routes =>
    match map rr.endpoint with
    | none => checkLoop (Function.update map rr.endpoint (some rr.methods)) routes
    | some methods =>
      if methods &&& rr.methods ≠ 0 then rr.endpoint
      else checkLoop (Function.update map rr.endpoint (some (methods &&& rr.methods))) routes

/-- `Root::dbgCheckConflictRoutes` -/
def dbgCheckConflictRoutes (m_routers : Routers) : String :=
  checkLoop (fun _ => none) m_routers.flatten

/-- `ConnectionBase::checkRoutes` -/
def checkRoutes (m_routers : Routers) : Except String Unit :=
  if dbgCheckConflictRoutes m_routers ≠ "" then
    throw ("Routes conflict found:" ++ dbgCheckConflictRoutes m_routers)
  else pure ()

/-- `ConnectionBase::bindConnectionManagers`: the server starts when nothing is thrown. -/
def bindConnectionManagers (conManagers : List Routers) : Except String Unit :=
  forM conManagers checkRoutes

/-! ## Conflicts -/

variable {routes : List Route} {ep : String}

/-- Two of the routes have this endpoint, and share a method. -/
def Conflict (routes : List Route) (ep : String) : Prop :=
  ∃ a b, [a, b].Sublist routes ∧ a.endpoint = ep ∧ b.endpoint = ep ∧ a.methods &&& b.methods ≠ 0

/-- No two routes with the same endpoint share a method. -/
def Unambiguous (routes : List Route) : Prop := ∀ ep, ¬ Conflict routes ep

/-- **The check is right.** -/
structure Checks (m_routers : Routers) : Prop where
  empty_iff : dbgCheckConflictRoutes m_routers = "" ↔ Unambiguous m_routers.flatten
  conflict : dbgCheckConflictRoutes m_routers ≠ "" →
    Conflict m_routers.flatten (dbgCheckConflictRoutes m_routers)
  starts : checkRoutes m_routers = .ok () → Unambiguous m_routers.flatten

/-- The routes of an endpoint. -/
def routesOf (routes : List Route) (ep : String) : List Route :=
  routes.filter fun rr => rr.endpoint = ep

/-- The first two routes of an endpoint share a method. -/
def Clash (routes : List Route) (ep : String) : Prop :=
  ∃ a b, [a, b] <+: routesOf routes ep ∧ a.methods &&& b.methods ≠ 0

/-- The first two routes of an endpoint with a name share a method, and are there before there are
two such routes of the empty endpoint. -/
def Seen (routes : List Route) : Prop :=
  ∃ before, before <+: routes ∧ ¬ Clash before "" ∧ ∃ ep, ep ≠ "" ∧ Clash before ep

theorem Clash.conflict (h : Clash routes ep) : Conflict routes ep := by
  obtain ⟨a, b, hfirst, hshare⟩ := h
  have hendpoint (rr : Route) (hrr : rr ∈ [a, b]) : rr.endpoint = ep := by
    have hmem := hfirst.subset hrr
    rw [routesOf, List.mem_filter] at hmem
    exact of_decide_eq_true hmem.2
  exact ⟨a, b, hfirst.sublist.trans List.filter_sublist, hendpoint a (by simp),
    hendpoint b (by simp), hshare⟩

/-- More routes come behind. -/
theorem Clash.mono {before : List Route} (h : Clash before ep) (hbefore : before <+: routes) :
    Clash routes ep := by
  obtain ⟨a, b, hfirst, hshare⟩ := h
  exact ⟨a, b, hfirst.trans (hbefore.filter _), hshare⟩

theorem routesOf_append_self (routes : List Route) (rr : Route) :
    routesOf (routes ++ [rr]) rr.endpoint = routesOf routes rr.endpoint ++ [rr] := by
  simp [routesOf]

/-- A route of another endpoint. -/
theorem routesOf_append_of_ne {rr : Route} (h : rr.endpoint ≠ ep) :
    routesOf (routes ++ [rr]) ep = routesOf routes ep := by
  simp [routesOf, h]

theorem clash_append_of_ne {rr : Route} (h : rr.endpoint ≠ ep) :
    Clash (routes ++ [rr]) ep ↔ Clash routes ep := by
  rw [Clash, Clash, routesOf_append_of_ne h]

theorem not_clash_nil (ep : String) : ¬ Clash [] ep := by
  rintro ⟨a, b, hfirst, -⟩
  exact absurd hfirst.length_le (by simp [routesOf])

/-! ## The loop -/

/-- The methods in the map for the routes of an endpoint, of which the first two share none. -/
def maskOf : List Route → Option (BitVec 32)
  | [] => none
  | [rr] => some rr.methods
  | _ => some 0

/-- **The invariant of the loop**: for the routes so far the map has what `maskOf` says, and no
first two of them share a method. -/
structure LoopInv (done : List Route) (map : String → Option (BitVec 32)) : Prop where
  map_eq : ∀ ep, map ep = maskOf (routesOf done ep)
  noClash : ∀ ep, ¬ Clash done ep

theorem LoopInv.start : LoopInv [] fun _ => none := ⟨fun _ => rfl, not_clash_nil⟩

/-- **A route that the loop lets pass**: the map changes at its endpoint. -/
theorem LoopInv.pass {done : List Route} {map : String → Option (BitVec 32)} (h : LoopInv done map)
    {rr : Route} {methods : BitVec 32}
    (hmask : maskOf (routesOf done rr.endpoint ++ [rr]) = some methods)
    (hclash : ¬ Clash (done ++ [rr]) rr.endpoint) :
    LoopInv (done ++ [rr]) (Function.update map rr.endpoint (some methods)) := by
  constructor
  · intro ep
    by_cases hep : ep = rr.endpoint
    · rw [hep, Function.update_self, routesOf_append_self, hmask]
    · rw [Function.update_of_ne hep, routesOf_append_of_ne (Ne.symm hep), h.map_eq]
  · intro ep
    by_cases hep : rr.endpoint = ep
    · exact hep ▸ hclash
    · rw [clash_append_of_ne hep]
      exact h.noClash ep

/-- What `checkLoop` returns for the routes: nothing if no first two routes of an endpoint share a
method, and else the endpoint of the first ones. -/
inductive Returned (routes : List Route) : String → Prop
  | nothing (h : ∀ ep, ¬ Clash routes ep) : Returned routes ""
  | endpoint (done : List Route) (rr : Route) (hdone : done ++ [rr] <+: routes)
      (hno : ∀ ep, ¬ Clash done ep) (hclash : Clash (done ++ [rr]) rr.endpoint) :
      Returned routes rr.endpoint

theorem checkLoop_spec {done rest : List Route} {map : String → Option (BitVec 32)}
    (h : LoopInv done map) : Returned (done ++ rest) (checkLoop map rest) := by
  induction rest generalizing done map with
  | nil =>
    rw [List.append_nil, checkLoop]
    exact .nothing h.noClash
  | cons rr rest ih =>
    have hnext : done ++ rr :: rest = (done ++ [rr]) ++ rest := by simp
    rw [checkLoop, h.map_eq]
    rcases hroutes : routesOf done rr.endpoint with _ | ⟨a, _ | ⟨b, l⟩⟩
    · -- the first route of its endpoint
      rw [hnext]
      refine ih (h.pass (by rw [hroutes]; rfl) ?_)
      rintro ⟨a, b, hfirst, -⟩
      rw [routesOf_append_self, hroutes] at hfirst
      exact absurd hfirst.length_le (by simp)
    · -- the second one is compared with the first
      have hself : routesOf (done ++ [rr]) rr.endpoint = [a, rr] := by
        rw [routesOf_append_self, hroutes]
        rfl
      simp only [maskOf]
      split
      · rename_i hshare
        refine .endpoint done rr ⟨rest, hnext.symm⟩ h.noClash ⟨a, rr, ?_, hshare⟩
        rw [hself]
      · rename_i hshare
        rw [hnext, not_not.mp hshare]
        refine ih (h.pass (by rw [hroutes]; rfl) ?_)
        rintro ⟨a', b', hfirst, hshare'⟩
        rw [hself] at hfirst
        obtain ⟨rfl, rfl⟩ : a' = a ∧ b' = rr := by simpa using hfirst.eq_of_length rfl
        exact hshare hshare'
    · -- for a third one no methods are left in the map
      have hzero : (0 : BitVec 32) &&& rr.methods = 0 := BitVec.zero_and
      simp only [maskOf]
      rw [hzero, if_neg (not_not.mpr rfl), hnext]
      refine ih (h.pass (by rw [hroutes]; rfl) ?_)
      rintro ⟨a', b', hfirst, hshare⟩
      rw [routesOf_append_self, hroutes] at hfirst
      obtain ⟨rfl, rfl⟩ : a' = a ∧ b' = b := by simpa using hfirst
      refine h.noClash rr.endpoint ⟨a', b', ?_, hshare⟩
      rw [hroutes]
      exact ⟨l, rfl⟩

theorem dbgCheckConflictRoutes_spec (m_routers : Routers) :
    Returned m_routers.flatten (dbgCheckConflictRoutes m_routers) :=
  checkLoop_spec LoopInv.start

/-! ## What the check finds -/

/-- What is returned is the endpoint of a conflict. -/
theorem Returned.conflict {s : String} (h : Returned routes s) (hs : s ≠ "") :
    Conflict routes s := by
  cases h with
  | nothing => exact absurd rfl hs
  | endpoint done rr hdone hno hclash => exact (hclash.mono hdone).conflict

/-- **An endpoint is returned** exactly when it can be seen. -/
theorem Returned.ne_empty_iff {s : String} (h : Returned routes s) : s ≠ "" ↔ Seen routes := by
  cases h with
  | nothing hno =>
    refine iff_of_false (not_not.mpr rfl) ?_
    rintro ⟨before, hbefore, -, ep, -, hclash⟩
    exact hno ep (hclash.mono hbefore)
  | endpoint done rr hdone hno hclash =>
    constructor
    · intro hep
      refine ⟨done ++ [rr], hdone, ?_, rr.endpoint, hep, hclash⟩
      rw [clash_append_of_ne hep]
      exact hno ""
    · rintro ⟨before, hbefore, hempty, ep, -, hseen⟩ hep
      rcases List.prefix_or_prefix_of_prefix hdone hbefore with hle | hle
      · -- the empty endpoint is there before
        rw [hep] at hclash
        exact hempty (hclash.mono hle)
      · rcases List.prefix_concat_iff.mp hle with rfl | hle
        · rw [hep] at hclash
          exact hempty hclash
        · exact hno ep (hseen.mono hle)

theorem checkRoutes_eq_ok {m_routers : Routers} :
    checkRoutes m_routers = .ok () ↔ dbgCheckConflictRoutes m_routers = "" := by
  rw [checkRoutes]
  split
  · rename_i hne
    exact iff_of_false (fun h => by cases h) hne
  · rename_i heq
    exact iff_of_true rfl (not_not.mp heq)

/-- **The check is right** exactly when there is no conflict, or one that it can see. -/
theorem checks_iff (m_routers : Routers) :
    Checks m_routers ↔ Unambiguous m_routers.flatten ∨ Seen m_routers.flatten := by
  have hreturned := dbgCheckConflictRoutes_spec m_routers
  rw [← hreturned.ne_empty_iff]
  constructor
  · intro h
    by_cases hempty : dbgCheckConflictRoutes m_routers = ""
    · exact Or.inl (h.empty_iff.mp hempty)
    · exact Or.inr hempty
  · intro h
    -- without a conflict nothing is returned
    have hempty : dbgCheckConflictRoutes m_routers = "" ↔ Unambiguous m_routers.flatten := by
      constructor
      · intro hempty
        exact h.resolve_right (not_not.mpr hempty)
      · intro hno
        by_contra hne
        exact hno _ (hreturned.conflict hne)
    exact ⟨hempty, hreturned.conflict, fun hok => hempty.mp (checkRoutes_eq_ok.mp hok)⟩

/-- The third route of an endpoint shares a method with the first one. -/
theorem not_checks_third_route :
    ¬ Checks [[⟨"/a", 2⟩, ⟨"/a", 4⟩, ⟨"/a", 2⟩]] := by
  intro h
  refine h.empty_iff.mp (by decide) "/a" ⟨⟨"/a", 2⟩, ⟨"/a", 2⟩, ?_, rfl, rfl, by decide⟩
  decide

/-- **A server starts** with routes that are unambiguous, if the check is right for each of its
managers. -/
theorem unambiguous_of_bind {conManagers : List Routers}
    (hchecks : ∀ cm ∈ conManagers, Checks cm) (h : bindConnectionManagers conManagers = .ok ()) :
    ∀ cm ∈ conManagers, Unambiguous cm.flatten := by
  induction conManagers with
  | nil =>
    intro cm hcm
    cases hcm
  | cons cm conManagers ih =>
    obtain ⟨hcm, hrest⟩ := List.forall_mem_cons.mp hchecks
    rw [bindConnectionManagers, List.forM_cons] at h
    cases hcheck : checkRoutes cm with
    | error e =>
      rw [hcheck] at h
      cases h
    | ok u =>
      rw [hcheck] at h
      exact List.forall_mem_cons.mpr ⟨hcm.starts hcheck, ih hrest h⟩

end RouterT
