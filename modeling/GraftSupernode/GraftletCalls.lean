/-
# Calls into graftlets

A graftlet registers functions by their names and the types of their signatures, some of them as
endpoints (`IGraftlet.h`).  `buildAndResolveGraftletT` makes the object of a graftlet when it is
first asked for and keeps it (`GraftletLoader.h`); `getEndpoints` does so for all of them.

* `IGraftlet`, `registerHandler`, `init`: an object and what its `initOnce` registers;
* `Loader.call`: a list of the endpoints or a call of a function, with the objects kept from before;
* `answers_of_run`: in every run of calls each answer is the one of a loader that keeps nothing,
  and no graftlet is set up twice.

A signature is a `std::type_index`, a type `T` with an order; what `initOnce` does besides
registering is left out.
-/
import GraftSupernode.GraftletStartup
import GraftSupernode.Runs

namespace GraftletLoader

abbrev ClsName := String

abbrev FuncName := String

/-! ## Graftlets -/

/-- The names of the types, `std::type_index::name`; the types of `Router::Handler` and of
`IGraftlet`. -/
structure TypeNames (T : Type) where
  name : T → String
  handler : T
  igraftlet : T

/-- An entry of `TypeIndex2any`. -/
structure Callable (A : Type) where
  any : A
  endpoint : String
  methods : ℤ

/-- A call of `register_handler`. -/
structure Registration (T A : Type) where
  name : FuncName
  typeIndex : T
  callable : Callable A

variable {T A : Type} [LinearOrder T]

/-- `IGraftlet`: `m_inited`, `m_clsName` and `m_map`. -/
structure IGraftlet (T A : Type) [LinearOrder T] where
  inited : Bool := false
  clsName : ClsName
  map : StdMap FuncName (StdMap T (Callable A)) := .empty

/-- A concrete graftlet: its class name and what its `initOnce` registers. -/
structure ConcreteGraftlet (T A : Type) where
  clsName : ClsName
  initOnce : List (Registration T A)

variable (types : TypeNames T)

/-- `register_handler` -/
def registerHandler (gl : IGraftlet T A) (r : Registration T A) : Call (IGraftlet T A) :=
  let ti2any := (gl.map.find r.name).getD .empty
  if (ti2any.find r.typeIndex).isSome then
    .error ("function " ++ r.name ++ " with typeid " ++ types.name r.typeIndex
      ++ " already registered")
  else
    .ok { gl with map :=
      (gl.map.erase r.name).emplace r.name (ti2any.emplace r.typeIndex r.callable) }

/-- The calls of `initOnce`. -/
def runInitOnce (gl : IGraftlet T A) : List (Registration T A) → Call (IGraftlet T A)
  | [] => .ok gl
  | r :: rs => do runInitOnce (← registerHandler types gl r) rs

/-- `IGraftlet::init` -/
def IGraftlet.init (gl : IGraftlet T A) (initOnce : List (Registration T A)) :
    Call (IGraftlet T A) :=
  if gl.inited then .ok gl else runInitOnce types { gl with inited := true } initOnce

/-- `IGraftlet::getEndpoints`: of each function the one with the type of a handler. -/
def IGraftlet.getEndpoints (gl : IGraftlet T A) : List (String × ℤ × A) :=
  gl.map.entries.filterMap fun row =>
    (row.2.find types.handler).map fun f => (f.endpoint, f.methods, f.any)

/-- `IGraftlet::invoke`: the function that is called. -/
def IGraftlet.invoke (gl : IGraftlet T A) (name : FuncName) (ti : T) : Call A :=
  match gl.map.find name with
  | none => .error ("cannot find function " ++ name)
  | some ti2any =>
    match ti2any.find ti with
    | none => .error ("cannot find function " ++ name ++ " with typeid " ++ types.name ti)
    | some f => .ok f.any

/-! ## The loader -/

/-- The rows of `m_name2gls` for one graftlet. -/
abbrev Classes (T A : Type) [LinearOrder T] := StdMap ClsName (IGraftlet T A)

/-- A `GraftletLoader` after the start; a registry makes an object, or none of the type.  The names
of the graftlets that have been set up are listed for the statements. -/
structure Loader (T A : Type) [LinearOrder T] where
  loaded : Loaded (Option (ConcreteGraftlet T A))
  name2gls : StdMap DllName (Classes T A) := .empty
  setUp : List DllName := []

/-- What `buildAndResolveGraftletT` makes of a graftlet that is not in `m_name2gls`. -/
def resolve (loaded : Loaded (Option (ConcreteGraftlet T A))) (dllName : DllName) :
    Call (Classes T A) :=
  match loaded.name2registries.find dllName with
  | none => .error ("Cannot find dll name:" ++ dllName)
  | some none =>
    .error ("Cannot resolve dll name:" ++ dllName ++ " type:" ++ types.name types.igraftlet)
  | some (some concrete) => do
    let gl ← IGraftlet.init types { clsName := concrete.clsName } concrete.initOnce
    return StdMap.empty.emplace gl.clsName gl

namespace Loader

/-- `buildAndResolveGraftletT` -/
def buildAndResolveGraftlet (l : Loader T A) (dllName : DllName) :
    Loader T A × Call (Classes T A) :=
  match l.name2gls.find dllName with
  | some map => (l, .ok map)
  | none =>
    match resolve types l.loaded dllName with
    | .error what => (l, .error what)
    | .ok map =>
      ({ l with name2gls := l.name2gls.emplace dllName map, setUp := l.setUp ++ [dllName] },
        .ok map)

/-- `prepareAllEndpoints`, the loop over `m_name2lib`. -/
def prepareAllEndpoints (l : Loader T A) : List DllName → Loader T A × Call Unit
  | [] => (l, .ok ())
  | dllName :: names =>
    match l.buildAndResolveGraftlet types dllName with
    | (l, .error what) => (l, .error what)
    | (l, .ok _) => prepareAllEndpoints l names

/-- `getEndpointsT` -/
def getEndpoints (l : Loader T A) : Loader T A × Call (List (String × ℤ × A)) :=
  match l.prepareAllEndpoints types l.loaded.name2lib.keys with
  | (l, .error what) => (l, .error what)
  | (l, .ok ()) =>
    (l, .ok (l.name2gls.entries.flatMap fun row =>
      row.2.entries.flatMap fun it => it.2.getEndpoints types))

end Loader

/-- What is before the first dot is the class, and what is behind it the function; without a dot
there is a class only. -/
def splitClsMethod (clsMethod : String) : ClsName × FuncName :=
  (String.ofList (clsMethod.toList.takeWhile fun c => c ≠ '.'),
    String.ofList (clsMethod.toList.dropWhile fun c => c ≠ '.').tail)

/-- `GraftletHandlerT::invokeRA` -/
def invokeRA (map : Classes T A) (clsMethod : String) (ti : T) : Call A :=
  match map.find (splitClsMethod clsMethod).1 with
  | none => .error ("Cannot find graftlet class name:" ++ (splitClsMethod clsMethod).1)
  | some gl => gl.invoke types (splitClsMethod clsMethod).2 ti

/-- What the server asks of the loader: the endpoints, or a function of a graftlet. -/
inductive Ask (T : Type)
  | getEndpoints
  | invoke (dllName : DllName) (clsMethod : String) (ti : T)

/-- What it gets. -/
inductive Answer (A : Type)
  | endpoints (vec : List (String × ℤ × A))
  | callable (any : A)

/-- One call. -/
def Loader.call (l : Loader T A) : Ask T → Loader T A × Call (Answer A)
  | .getEndpoints =>
    match l.getEndpoints types with
    | (l, vec) => (l, vec.map .endpoints)
  | .invoke dllName clsMethod ti =>
    match l.buildAndResolveGraftlet types dllName with
    | (l, map) => (l, map >>= fun map => (invokeRA types map clsMethod ti).map .callable)

/-! ## What is registered -/

/-- The function of a name and a signature. -/
def IGraftlet.find (gl : IGraftlet T A) (name : FuncName) (ti : T) : Option (Callable A) :=
  (gl.map.find name).bind fun ti2any => ti2any.find ti

/-- What a registration is kept under. -/
def Registration.key (r : Registration T A) : FuncName × T := (r.name, r.typeIndex)

/-- A registration under a key that is not there, and only that, adds its function. -/
theorem registerHandler_cases (types : TypeNames T) (gl : IGraftlet T A) (r : Registration T A) :
    ((gl.find r.name r.typeIndex).isSome ∧ ∃ what, registerHandler types gl r = .error what)
      ∨ gl.find r.name r.typeIndex = none ∧ ∃ gl', registerHandler types gl r = .ok gl'
        ∧ gl'.clsName = gl.clsName ∧ ∀ name ti, gl'.find name ti
          = if (name, ti) = r.key then some r.callable else gl.find name ti := by
  have hfind : gl.find r.name r.typeIndex
      = ((gl.map.find r.name).getD .empty).find r.typeIndex := by
    rw [IGraftlet.find]
    cases gl.map.find r.name <;> rfl
  rw [hfind, registerHandler]
  cases hold : ((gl.map.find r.name).getD .empty).find r.typeIndex with
  | some f => exact .inl ⟨rfl, _, if_pos rfl⟩
  | none =>
    refine .inr ⟨rfl, _, if_neg (by simp), rfl, fun name ti => ?_⟩
    unfold IGraftlet.find Registration.key
    dsimp only
    rw [StdMap.find_emplace, StdMap.find_erase, if_pos rfl]
    by_cases hname : name = r.name
    · rw [if_pos hname, Option.getD_none, Option.bind_some, StdMap.find_emplace, hold, hname]
      by_cases hti : ti = r.typeIndex
      · simp [hti]
      · rw [if_neg hti, if_neg (by simp [hti])]
        cases gl.map.find r.name <;> rfl
    · rw [if_neg hname, StdMap.find_erase, if_neg hname, if_neg (by simp [hname])]

/-- **All calls of `initOnce`** succeed just if they have different keys that are new, and then each
key has its function. -/
theorem runInitOnce_cases (types : TypeNames T) (gl : IGraftlet T A)
    (rs : List (Registration T A)) :
    (∃ what, runInitOnce types gl rs = .error what)
        ∧ ¬ ((rs.map Registration.key).Nodup ∧ ∀ r ∈ rs, gl.find r.name r.typeIndex = none)
      ∨ ((rs.map Registration.key).Nodup ∧ ∀ r ∈ rs, gl.find r.name r.typeIndex = none)
        ∧ ∃ gl', runInitOnce types gl rs = .ok gl' ∧ gl'.clsName = gl.clsName
          ∧ ∀ name ti f, gl'.find name ti = some f ↔
            gl.find name ti = some f ∨ ∃ r ∈ rs, r.key = (name, ti) ∧ r.callable = f := by
  induction rs generalizing gl with
  | nil => exact .inr ⟨by simp, gl, rfl, rfl, by simp⟩
  | cons r rs ih =>
    rw [runInitOnce, List.map_cons, List.nodup_cons, List.forall_mem_cons]
    rcases registerHandler_cases types gl r with
      ⟨hold, what, hrun⟩ | ⟨hnew, gl₁, hrun, hcls, hfind⟩
    · refine .inl ⟨⟨what, by rw [hrun]; rfl⟩, fun h => ?_⟩
      rw [h.2.1] at hold
      cases hold
    · -- the keys behind this one are new just if they are new for the object after it
      have hkeys : (∀ a ∈ rs, gl₁.find a.name a.typeIndex = none) ↔
          r.key ∉ rs.map Registration.key ∧ ∀ a ∈ rs, gl.find a.name a.typeIndex = none := by
        rw [List.mem_map, not_exists, ← forall_and]
        refine forall_congr' fun a => ?_
        rw [not_and, ← imp_and, hfind]
        refine imp_congr_right fun _ => ?_
        by_cases hkey : (a.name, a.typeIndex) = r.key
        · rw [if_pos hkey]
          exact iff_of_false (fun h => by cases h) fun h => h.1 hkey
        · rw [if_neg hkey]
          exact ⟨fun h => ⟨hkey, h⟩, fun h => h.2⟩
      rw [hrun]
      rcases ih gl₁ with ⟨⟨what, hrest⟩, hno⟩ | ⟨⟨hnodup, hnone⟩, gl', hrest, hcls', hfind'⟩
      · refine .inl ⟨⟨what, hrest⟩, fun h => hno ⟨h.1.2, hkeys.mpr ⟨h.1.1, h.2.2⟩⟩⟩
      · obtain ⟨hkey, hnone'⟩ := hkeys.mp hnone
        refine .inr ⟨⟨⟨hkey, hnodup⟩, hnew, hnone'⟩, gl', hrest, hcls'.trans hcls, ?_⟩
        intro name ti f
        rw [hfind', hfind, List.exists_mem_cons_iff]
        by_cases hname : (name, ti) = r.key
        · have hold : gl.find name ti = none := by
            rw [show name = r.name from congrArg Prod.fst hname,
              show ti = r.typeIndex from congrArg Prod.snd hname]
            exact hnew
          rw [if_pos hname, Option.some.injEq, hold, hname]
          simp
        · rw [if_neg hname]
          simp [Ne.symm hname]

variable {types} {loaded : Loaded (Option (ConcreteGraftlet T A))} {dllName : DllName}

/-- The graftlet of a library can be set up: its registry makes an object, and what this registers
has different keys. -/
def SetsUp (loaded : Loaded (Option (ConcreteGraftlet T A))) (dllName : DllName)
    (concrete : ConcreteGraftlet T A) : Prop :=
  loaded.name2registries.find dllName = some (some concrete)
    ∧ (concrete.initOnce.map Registration.key).Nodup

/-- **An object is made** just if the graftlet can be set up, and then it has what was
registered. -/
theorem resolve_cases (types : TypeNames T) (loaded : Loaded (Option (ConcreteGraftlet T A)))
    (dllName : DllName) :
    ((∃ what, resolve types loaded dllName = .error what)
        ∧ ¬ ∃ concrete, SetsUp loaded dllName concrete)
      ∨ ∃ concrete gl, SetsUp loaded dllName concrete
        ∧ resolve types loaded dllName = .ok (StdMap.empty.emplace concrete.clsName gl)
        ∧ ∀ name ti f, gl.find name ti = some f ↔
          ∃ r ∈ concrete.initOnce, r.key = (name, ti) ∧ r.callable = f := by
  unfold resolve SetsUp
  cases hfind : loaded.name2registries.find dllName with
  | none => exact .inl ⟨⟨_, rfl⟩, fun ⟨concrete, h, _⟩ => by cases h⟩
  | some registry =>
    cases registry with
    | none => exact .inl ⟨⟨_, rfl⟩, fun ⟨concrete, h, _⟩ => by cases h⟩
    | some concrete =>
      have hold : ∀ r ∈ concrete.initOnce,
          IGraftlet.find (A := A) ⟨true, concrete.clsName, .empty⟩ r.name r.typeIndex = none :=
        fun _ _ => rfl
      rcases runInitOnce_cases types ⟨true, concrete.clsName, .empty⟩ concrete.initOnce with
        ⟨⟨what, hrun⟩, hno⟩ | ⟨⟨hnodup, -⟩, gl, hrun, hcls, hgl⟩
      · refine .inl ⟨⟨what, ?_⟩, ?_⟩
        · show (runInitOnce types _ concrete.initOnce >>= fun gl => _) = _
          rw [hrun]
          rfl
        · rintro ⟨concrete', heq, hnodup⟩
          cases heq
          exact hno ⟨hnodup, hold⟩
      · refine .inr ⟨concrete, gl, ⟨rfl, hnodup⟩, ?_, fun name ti f => ?_⟩
        · show (runInitOnce types _ concrete.initOnce >>= fun gl => _) = _
          rw [hrun]
          show Except.ok (StdMap.empty.emplace gl.clsName gl) = _
          rw [show gl.clsName = concrete.clsName from hcls]
        · rw [hgl]
          simp [IGraftlet.find]

variable (types) in
theorem resolve_isOk_iff :
    (∃ map, resolve types loaded dllName = .ok map) ↔
      ∃ concrete, SetsUp loaded dllName concrete := by
  rcases resolve_cases types loaded dllName with ⟨⟨what, hwhat⟩, hno⟩ | ⟨concrete, gl, h, hgl, -⟩
  · rw [hwhat]
    exact iff_of_false (fun ⟨_, h⟩ => by cases h) hno
  · exact iff_of_true ⟨_, hgl⟩ ⟨concrete, h⟩

/-! ## What is kept -/

theorem mem_keys_of_resolve {map : Classes T A} (h : resolve types loaded dllName = .ok map) :
    dllName ∈ loaded.name2lib.keys := by
  obtain ⟨concrete, hfind, -⟩ := (resolve_isOk_iff types).mp ⟨map, h⟩
  exact (loaded.sameNames dllName).mpr (StdMap.mem_keys_of_find hfind)

namespace Loader

variable {l : Loader T A}

/-- **What is kept** of a graftlet is what would be made of it, and each one that is kept has been
set up once. -/
structure Keeps (types : TypeNames T) (loaded : Loaded (Option (ConcreteGraftlet T A)))
    (l : Loader T A) : Prop where
  same : l.loaded = loaded
  resolved : ∀ dllName map, l.name2gls.find dllName = some map →
    resolve types loaded dllName = .ok map
  nodup : l.setUp.Nodup
  mem_setUp : ∀ dllName, dllName ∈ l.setUp ↔ dllName ∈ l.name2gls.keys

theorem keeps_start (types : TypeNames T) (loaded : Loaded (Option (ConcreteGraftlet T A))) :
    Keeps types loaded { loaded := loaded } where
  same := rfl
  resolved dllName map h := by cases h
  nodup := List.nodup_nil
  mem_setUp _ := Iff.rfl

/-- **One graftlet**: the answer is what would be made of it, and it is kept if it could be made. -/
theorem Keeps.build (h : l.Keeps types loaded) (dllName : DllName) :
    (l.buildAndResolveGraftlet types dllName).1.Keeps types loaded
      ∧ (l.buildAndResolveGraftlet types dllName).2 = resolve types loaded dllName
      ∧ ∀ a, a ∈ (l.buildAndResolveGraftlet types dllName).1.name2gls.keys ↔
        a ∈ l.name2gls.keys ∨ a = dllName ∧ (resolve types loaded dllName).isOk := by
  unfold buildAndResolveGraftlet
  rw [h.same]
  cases hfind : l.name2gls.find dllName with
  | some map =>
    have hmake := h.resolved dllName map hfind
    refine ⟨h, hmake.symm, fun a => ?_⟩
    have hmem := StdMap.mem_keys_of_find hfind
    constructor
    · exact .inl
    · rintro (ha | ⟨rfl, -⟩)
      · exact ha
      · exact hmem
  | none =>
    have hnew := StdMap.find_eq_none_iff.mp hfind
    cases hmake : resolve types loaded dllName with
    | error what =>
      refine ⟨h, rfl, fun a => ?_⟩
      simp [Except.isOk, Except.toBool]
    | ok map =>
      refine ⟨⟨rfl, fun a map' ha => ?_, ?_, fun a => ?_⟩, rfl, fun a => ?_⟩
      · dsimp only at ha
        rw [StdMap.find_emplace] at ha
        split at ha
        · rename_i haname
          rw [hfind, Option.getD_none] at ha
          rw [haname, hmake, Option.some.inj ha]
        · exact h.resolved a map' ha
      · refine List.nodup_append.mpr ⟨h.nodup, List.nodup_singleton _, fun a ha b hb => ?_⟩
        rw [List.mem_singleton.mp hb]
        rintro rfl
        exact hnew ((h.mem_setUp a).mp ha)
      · rw [List.mem_append, List.mem_singleton, StdMap.mem_keys_emplace, h.mem_setUp, or_comm]
      · rw [StdMap.mem_keys_emplace, or_comm]
        simp [Except.isOk, Except.toBool]

/-- **The loop over the graftlets**: all are made up to the first that cannot be made. -/
theorem Keeps.prepare (h : l.Keeps types loaded) (names : List DllName) :
    (l.prepareAllEndpoints types names).1.Keeps types loaded
      ∧ (l.prepareAllEndpoints types names).2
        = (names.mapM (resolve types loaded)).map (fun _ => ())
      ∧ ((l.prepareAllEndpoints types names).2 = .ok () →
        ∀ a, a ∈ (l.prepareAllEndpoints types names).1.name2gls.keys ↔
          a ∈ l.name2gls.keys ∨ a ∈ names) := by
  induction names generalizing l with
  | nil => exact ⟨h, rfl, fun _ a => by simp [prepareAllEndpoints]⟩
  | cons dllName names ih =>
    obtain ⟨hkeeps, hanswer, hkeys⟩ := h.build dllName
    rw [prepareAllEndpoints, List.mapM_cons]
    revert hkeeps hanswer hkeys
    cases l.buildAndResolveGraftlet types dllName with
    | mk l₁ answer =>
      dsimp only
      rintro hkeeps rfl hkeys
      cases hmake : resolve types loaded dllName with
      | error what => exact ⟨hkeeps, rfl, fun hok => by cases hok⟩
      | ok map =>
        obtain ⟨hkeeps', hanswer', hkeys'⟩ := ih hkeeps
        refine ⟨hkeeps', ?_, fun hok a => ?_⟩
        · dsimp only
          rw [hanswer']
          cases names.mapM (resolve types loaded) <;> rfl
        · rw [hkeys' hok, hkeys, hmake, List.mem_cons, or_assoc]
          simp [Except.isOk, Except.toBool]

/-- The endpoints of the graftlets that are made. -/
def endpointsOf (types : TypeNames T) (maps : List (Classes T A)) : List (String × ℤ × A) :=
  maps.flatMap fun map => map.entries.flatMap fun it => it.2.getEndpoints types

/-- When all graftlets are kept, they are the rows of `m_name2gls`, in the order of their names. -/
theorem Keeps.mapM_keys (h : l.Keeps types loaded)
    (hkeys : ∀ a, a ∈ l.name2gls.keys ↔ a ∈ loaded.name2lib.keys) :
    loaded.name2lib.keys.mapM (resolve types loaded)
      = .ok (l.name2gls.entries.map Prod.snd) := by
  rw [← StdMap.keys_eq_of_mem_iff hkeys, StdMap.keys]
  have hrows : ∀ row ∈ l.name2gls.entries, resolve types loaded row.1 = .ok row.2 :=
    fun row hrow => h.resolved row.1 row.2 (StdMap.find_eq_some_iff.mpr hrow)
  revert hrows
  induction l.name2gls.entries with
  | nil => exact fun _ => rfl
  | cons row rows ih =>
    intro hrows
    obtain ⟨hrow, hrest⟩ := List.forall_mem_cons.mp hrows
    rw [List.map_cons, List.mapM_cons, hrow, ih hrest]
    rfl

/-- **The endpoints** are those of all graftlets, in the order of their names, whatever is kept. -/
theorem Keeps.endpoints (h : l.Keeps types loaded) :
    (l.getEndpoints types).1.Keeps types loaded
      ∧ (l.getEndpoints types).2
        = (loaded.name2lib.keys.mapM (resolve types loaded)).map (endpointsOf types) := by
  obtain ⟨hkeeps, hanswer, hkeys⟩ := h.prepare loaded.name2lib.keys
  unfold getEndpoints
  rw [h.same]
  revert hkeeps hanswer hkeys
  cases l.prepareAllEndpoints types loaded.name2lib.keys with
  | mk l₁ answer =>
    dsimp only
    intro hkeeps hanswer hkeys
    cases answer with
    | error what =>
      refine ⟨hkeeps, ?_⟩
      revert hanswer
      cases loaded.name2lib.keys.mapM (resolve types loaded) with
      | error what' =>
        intro h
        cases h
        rfl
      | ok maps => exact fun h => by cases h
    | ok _ =>
      refine ⟨hkeeps, ?_⟩
      have hmem : ∀ a, a ∈ l₁.name2gls.keys ↔ a ∈ loaded.name2lib.keys := by
        intro a
        constructor
        · intro ha
          obtain ⟨map, hmap⟩ := Option.isSome_iff_exists.mp (StdMap.isSome_find_iff.mpr ha)
          exact mem_keys_of_resolve (hkeeps.resolved a map hmap)
        · exact fun ha => (hkeys rfl a).mpr (.inr ha)
      rw [hkeeps.mapM_keys hmem]
      show Except.ok _ = Except.ok _
      rw [endpointsOf, List.flatMap_map]

end Loader

/-! ## Runs of calls -/

/-- What a loader that keeps nothing answers. -/
def answerOf (types : TypeNames T) (loaded : Loaded (Option (ConcreteGraftlet T A))) :
    Ask T → Call (Answer A)
  | .getEndpoints =>
    ((loaded.name2lib.keys.mapM (resolve types loaded)).map (Loader.endpointsOf types)).map
      .endpoints
  | .invoke dllName clsMethod ti => do
    (invokeRA types (← resolve types loaded dllName) clsMethod ti).map .callable

theorem mapM_eq_ok_iff {α β : Type} {f : α → Call β} {l : List α} {bs : List β} :
    l.mapM f = .ok bs ↔ List.Forall₂ (fun a b => f a = .ok b) l bs := by
  induction l generalizing bs with
  | nil =>
    rw [List.mapM_nil, List.forall₂_nil_left_iff]
    constructor
    · intro h
      cases h
      rfl
    · rintro rfl
      rfl
  | cons a l ih =>
    rw [List.mapM_cons, List.forall₂_cons_left_iff]
    cases hfirst : f a with
    | error what => exact iff_of_false (fun h => by cases h) fun ⟨b, _, h, _⟩ => by cases h
    | ok b =>
      cases hrest : l.mapM f with
      | error what =>
        refine iff_of_false (fun h => by cases h) ?_
        rintro ⟨b', bs', -, hbs, -⟩
        rw [ih.mpr hbs] at hrest
        cases hrest
      | ok bs' =>
        show Except.ok (b :: bs') = Except.ok bs ↔ _
        constructor
        · intro h
          cases h
          exact ⟨b, bs', rfl, ih.mp hrest, rfl⟩
        · rintro ⟨b₁, bs₁, hb, hbs, rfl⟩
          cases hb
          rw [ih.mpr hbs] at hrest
          cases hrest
          rfl

theorem mem_of_mapM_eq_ok {α β : Type} {f : α → Call β} {l : List α} {bs : List β}
    (h : l.mapM f = .ok bs) (b : β) : b ∈ bs ↔ ∃ a ∈ l, f a = .ok b := by
  have hrel := mapM_eq_ok_iff.mp h
  clear h
  induction hrel with
  | nil => simp
  | cons hfirst _ ih => simp [ih, hfirst, eq_comm]

theorem exists_mapM_eq_ok_iff {α β : Type} {f : α → Call β} {l : List α} :
    (∃ bs, l.mapM f = .ok bs) ↔ ∀ a ∈ l, ∃ b, f a = .ok b := by
  simp only [mapM_eq_ok_iff]
  induction l with
  | nil => simp
  | cons a l ih =>
    rw [List.forall_mem_cons, ← ih]
    constructor
    · rintro ⟨_, h⟩
      obtain ⟨b, bs, hfirst, hrest, -⟩ := List.forall₂_cons_left_iff.mp h
      exact ⟨⟨b, hfirst⟩, bs, hrest⟩
    · rintro ⟨⟨b, hfirst⟩, bs, hrest⟩
      exact ⟨b :: bs, .cons hfirst hrest⟩

theorem mem_getEndpoints {gl : IGraftlet T A} {endpoint : String} {methods : ℤ} {any : A} :
    (endpoint, methods, any) ∈ gl.getEndpoints types ↔
      ∃ name, gl.find name types.handler = some ⟨any, endpoint, methods⟩ := by
  rw [IGraftlet.getEndpoints, List.mem_filterMap]
  constructor
  · rintro ⟨⟨name, ti2any⟩, hrow, hf⟩
    obtain ⟨⟨any', endpoint', methods'⟩, hfind, heq⟩ := Option.map_eq_some_iff.mp hf
    cases heq
    refine ⟨name, ?_⟩
    rw [IGraftlet.find, StdMap.find_eq_some_iff.mpr hrow]
    exact hfind
  · rintro ⟨name, hfind⟩
    obtain ⟨ti2any, hrow, hf⟩ := Option.bind_eq_some_iff.mp hfind
    exact ⟨(name, ti2any), StdMap.find_eq_some_iff.mp hrow, by rw [hf]; rfl⟩

/-- **The endpoints** can be listed just if all graftlets can be set up, and are then what these
have registered with the type of a handler. -/
theorem answerOf_getEndpoints (types : TypeNames T)
    (loaded : Loaded (Option (ConcreteGraftlet T A))) :
    ((∃ vec, answerOf types loaded .getEndpoints = .ok (.endpoints vec)) ↔
        ∀ dllName ∈ loaded.name2lib.keys, ∃ concrete, SetsUp loaded dllName concrete)
      ∧ ∀ vec, answerOf types loaded .getEndpoints = .ok (.endpoints vec) →
        ∀ endpoint methods any, (endpoint, methods, any) ∈ vec ↔
          ∃ dllName ∈ loaded.name2lib.keys, ∃ concrete, SetsUp loaded dllName concrete
            ∧ ∃ r ∈ concrete.initOnce, r.typeIndex = types.handler
              ∧ r.callable = ⟨any, endpoint, methods⟩ := by
  have hanswer : ∀ vec, answerOf types loaded .getEndpoints = .ok (.endpoints vec) ↔
      ∃ maps, loaded.name2lib.keys.mapM (resolve types loaded) = .ok maps
        ∧ Loader.endpointsOf types maps = vec := by
    intro vec
    unfold answerOf
    dsimp only
    cases loaded.name2lib.keys.mapM (resolve types loaded) <;> simp [Except.map]
  refine ⟨?_, fun vec hvec endpoint methods any => ?_⟩
  · simp only [← resolve_isOk_iff types, ← exists_mapM_eq_ok_iff, hanswer]
    exact ⟨fun ⟨_, maps, hmaps, _⟩ => ⟨maps, hmaps⟩, fun ⟨maps, hmaps⟩ => ⟨_, maps, hmaps, rfl⟩⟩
  · obtain ⟨maps, hmaps, rfl⟩ := (hanswer vec).mp hvec
    rw [Loader.endpointsOf, List.mem_flatMap]
    simp only [mem_of_mapM_eq_ok hmaps]
    constructor
    · rintro ⟨map, ⟨dllName, hdll, hmap⟩, hmem⟩
      rcases resolve_cases types loaded dllName with
        ⟨⟨what, hwhat⟩, -⟩ | ⟨concrete, gl, h, hgl, hfind⟩
      · rw [hwhat] at hmap
        cases hmap
      · rw [hgl] at hmap
        cases hmap
        obtain ⟨it, hit, hmem⟩ := List.mem_flatMap.mp hmem
        obtain rfl := List.mem_singleton.mp hit
        obtain ⟨name, hname⟩ := mem_getEndpoints.mp hmem
        obtain ⟨r, hr, hkey, hcallable⟩ := (hfind _ _ _).mp hname
        exact ⟨dllName, hdll, concrete, h, r, hr, congrArg Prod.snd hkey, hcallable⟩
    · rintro ⟨dllName, hdll, concrete, h, r, hr, hti, hcallable⟩
      rcases resolve_cases types loaded dllName with ⟨-, hno⟩ | ⟨concrete', gl, h', hgl, hfind⟩
      · exact absurd ⟨concrete, h⟩ hno
      · obtain rfl : concrete = concrete' := by
          have heq := h.1.symm.trans h'.1
          simpa using heq
        refine ⟨_, ⟨dllName, hdll, hgl⟩, List.mem_flatMap.mpr ⟨(concrete.clsName, gl), ?_, ?_⟩⟩
        · exact List.mem_singleton_self _
        · refine mem_getEndpoints.mpr ⟨r.name, (hfind _ _ _).mpr ⟨r, hr, ?_, hcallable⟩⟩
          rw [← hti]
          rfl

/-- **One call** answers as if nothing was kept. -/
theorem Loader.Keeps.call {l : Loader T A} (h : l.Keeps types loaded) (ask : Ask T) :
    (l.call types ask).1.Keeps types loaded
      ∧ (l.call types ask).2 = answerOf types loaded ask := by
  cases ask with
  | getEndpoints =>
    obtain ⟨hkeeps, hanswer⟩ := h.endpoints
    exact ⟨hkeeps, congrArg (Except.map Answer.endpoints) hanswer⟩
  | invoke dllName clsMethod ti =>
    obtain ⟨hkeeps, hanswer, -⟩ := h.build dllName
    refine ⟨hkeeps, ?_⟩
    unfold Loader.call answerOf
    dsimp only
    rw [hanswer]

/-- The loader after some calls. -/
def Loader.after (types : TypeNames T) (loaded : Loaded (Option (ConcreteGraftlet T A)))
    (asks : List (Ask T)) : Loader T A :=
  Runs.exec (fun l ask => (l.call types ask).1) { loaded := loaded } asks

theorem invoke_eq_ok_iff {gl : IGraftlet T A} {name : FuncName} {ti : T} {any : A} :
    gl.invoke types name ti = .ok any ↔ ∃ f, gl.find name ti = some f ∧ f.any = any := by
  unfold IGraftlet.invoke IGraftlet.find
  cases gl.map.find name with
  | none => simp
  | some ti2any =>
    cases hfind : ti2any.find ti <;> simp [hfind]

/-- The function that is called is one that was registered. -/
theorem answerOf_invoke_iff {clsMethod : String} {ti : T} {any : A} :
    answerOf types loaded (.invoke dllName clsMethod ti) = .ok (.callable any) ↔
      ∃ concrete, SetsUp loaded dllName concrete
        ∧ concrete.clsName = (splitClsMethod clsMethod).1
        ∧ ∃ r ∈ concrete.initOnce, r.key = ((splitClsMethod clsMethod).2, ti)
          ∧ r.callable.any = any := by
  unfold answerOf
  dsimp only
  rcases resolve_cases types loaded dllName with
    ⟨⟨what, hwhat⟩, hno⟩ | ⟨concrete, gl, h, hgl, hfind⟩
  · rw [hwhat]
    exact iff_of_false (fun h => by cases h) fun ⟨concrete, h, _⟩ => hno ⟨concrete, h⟩
  · rw [hgl]
    show (invokeRA types (StdMap.empty.emplace concrete.clsName gl) clsMethod ti).map _ = _ ↔ _
    have hother : ∀ concrete', SetsUp loaded dllName concrete' → concrete' = concrete := by
      intro concrete' h'
      have heq := h'.1.symm.trans h.1
      simpa using heq
    rw [invokeRA, StdMap.find_emplace]
    by_cases hcls : (splitClsMethod clsMethod).1 = concrete.clsName
    · rw [if_pos hcls]
      show (gl.invoke types (splitClsMethod clsMethod).2 ti).map Answer.callable = _ ↔ _
      have hinvoke : (gl.invoke types (splitClsMethod clsMethod).2 ti).map Answer.callable
          = .ok (.callable any) ↔ gl.invoke types (splitClsMethod clsMethod).2 ti = .ok any := by
        cases gl.invoke types (splitClsMethod clsMethod).2 ti <;> simp [Except.map]
      rw [hinvoke, invoke_eq_ok_iff]
      constructor
      · rintro ⟨f, hf, rfl⟩
        obtain ⟨r, hr, hkey, rfl⟩ := (hfind _ _ _).mp hf
        exact ⟨concrete, h, hcls.symm, r, hr, hkey, rfl⟩
      · rintro ⟨concrete', h', -, r, hr, hkey, hany⟩
        rw [hother concrete' h'] at hr
        exact ⟨r.callable, (hfind _ _ _).mpr ⟨r, hr, hkey, rfl⟩, hany⟩
    · rw [if_neg hcls]
      refine iff_of_false (fun h => by cases h) ?_
      rintro ⟨concrete', h', hcls', -⟩
      rw [hother concrete' h'] at hcls'
      exact hcls hcls'.symm

theorem Loader.keeps_after (types : TypeNames T)
    (loaded : Loaded (Option (ConcreteGraftlet T A))) (asks : List (Ask T)) :
    (Loader.after types loaded asks).Keeps types loaded :=
  Runs.exec_of_step (I := Loader.Keeps types loaded) (fun _ ask h => (h.call ask).1)
    (Loader.keeps_start types loaded) asks

/-- **What is kept does not show.**  After any calls, whatever they answered, every call answers as
the first one would, and no graftlet is set up twice.  A function is called just if it was
registered under the class, the name and the signature, by a graftlet that can be set up; the
endpoints can be listed just if all graftlets can be set up, and are what these have registered as
handlers. -/
theorem answers_of_run (types : TypeNames T) (loaded : Loaded (Option (ConcreteGraftlet T A)))
    (asks : List (Ask T)) :
    let l := Loader.after types loaded asks
    l.setUp.Nodup
      ∧ (∀ ask, (l.call types ask).2 = (Loader.call types { loaded := loaded } ask).2)
      ∧ (∀ dllName clsMethod ti any,
        (l.call types (.invoke dllName clsMethod ti)).2 = .ok (.callable any) ↔
          ∃ concrete, SetsUp loaded dllName concrete
            ∧ concrete.clsName = (splitClsMethod clsMethod).1
            ∧ ∃ r ∈ concrete.initOnce, r.key = ((splitClsMethod clsMethod).2, ti)
              ∧ r.callable.any = any)
      ∧ ((∃ vec, (l.call types .getEndpoints).2 = .ok (.endpoints vec)) ↔
        ∀ dllName ∈ loaded.name2lib.keys, ∃ concrete, SetsUp loaded dllName concrete)
      ∧ ∀ vec, (l.call types .getEndpoints).2 = .ok (.endpoints vec) →
        ∀ endpoint methods any, (endpoint, methods, any) ∈ vec ↔
          ∃ dllName ∈ loaded.name2lib.keys, ∃ concrete, SetsUp loaded dllName concrete
            ∧ ∃ r ∈ concrete.initOnce, r.typeIndex = types.handler
              ∧ r.callable = ⟨any, endpoint, methods⟩ := by
  intro l
  have hkeeps : l.Keeps types loaded := Loader.keeps_after types loaded asks
  have hstart := Loader.keeps_start types loaded
  simp only [(hkeeps.call _).2, (hstart.call _).2]
  exact ⟨hkeeps.nodup, fun _ => trivial, fun _ _ _ _ => answerOf_invoke_iff,
    answerOf_getEndpoints types loaded⟩

end GraftletLoader
