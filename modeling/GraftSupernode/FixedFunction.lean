/-
# Functors in a fixed storage

`FixedFunction` (`fixed_function.hpp`) keeps a functor in a storage of its own, or a pointer to a
function; the two share a union, and which of them it is, and of which type, is known by the
pointers `m_method_ptr` and `m_alloc_ptr` alone.

* `FixedFunction`, `Op`, `step`: the objects, what can be done with them, and what an operation
  does; the step is stuck where the code would destroy an object that is not there, build one over
  another, or read what the storage does not hold;
* `Holder`: what the objects are for, a functor, a pointer or nothing;
* `objects_refine_holder`: whatever is done within the lifetimes of the objects, no step is stuck
  and each call runs what its object is to hold.

A functor is a value that knows its type; a call can change it.
-/
import Mathlib.Data.Option.Basic
import Mathlib.Logic.Function.Basic
import Mathlib.Data.Nat.Notation

namespace FixedFunction

/-- What functors and functions do: the type of a functor, its `operator()`, which is one of the
same functor, and the function behind a pointer. -/
structure Functors (T V P A R : Type) where
  typeOf : V → T
  invoke : V → A → V × R
  typeOf_invoke : ∀ v a, typeOf (invoke v a).1 = typeOf v
  function : P → A → R

variable {T V P A R : Type} [DecidableEq T]

/-! ## The storage -/

/-- What is in the union: `m_function_ptr`, a functor, or one that has been moved from; after the
destructor of a functor it is nothing. -/
inductive Storage (T V P : Type)
  | function (p : Option P)
  | functor (v : V)
  | movedFrom (t : T)
  | nothing

/-- `m_method_ptr`: the lambda for the functors of a type, or for a function. -/
inductive Method (T : Type)
  | functor (t : T)
  | function

end FixedFunction

/-- `FixedFunction`; `m_alloc_ptr` is the lambda for the functors of a type. -/
structure FixedFunction (T V P : Type) where
  storage : FixedFunction.Storage T V P
  method : Option (FixedFunction.Method T)
  alloc : Option T

namespace FixedFunction

variable {T V P A R : Type} [DecidableEq T]

/-- `m_function_ptr = p`, where there is no functor. -/
def setFunction (p : Option P) : Storage T V P → Option (Storage T V P)
  | .function _ => some (.function p)
  | .nothing => some (.function p)
  | _ => none

/-- `m_function_ptr` is read. -/
def getFunction : Storage T V P → Option (Option P)
  | .function p => some p
  | _ => none

section

variable (K : Functors T V P A R)

/-- `m_alloc_ptr(storage_ptr, object_ptr)` for the type `t`: the functor is moved into a storage
without one.  The result is the two storages. -/
def moveObject (t : T) (storage object : Storage T V P) :
    Option (Storage T V P × Storage T V P) :=
  match storage with
  | .functor _ => none
  | .movedFrom _ => none
  | _ =>
    match object with
    | .functor v => if K.typeOf v = t then some (.functor v, .movedFrom t) else none
    | .movedFrom t' => if t' = t then some (.movedFrom t, .movedFrom t) else none
    | _ => none

/-- `m_alloc_ptr(storage_ptr, nullptr)` for the type `t`: the destructor. -/
def destroyObject (t : T) : Storage T V P → Option (Storage T V P)
  | .functor v => if K.typeOf v = t then some .nothing else none
  | .movedFrom t' => if t' = t then some .nothing else none
  | _ => none

/-! ## The operations -/

/-- `FixedFunction()` -/
def empty : FixedFunction T V P := ⟨.function none, none, none⟩

/-- `FixedFunction(FUNC&&)` -/
def ofFunctor (v : V) : Option (FixedFunction T V P) := do
  let t := K.typeOf v
  let this : FixedFunction T V P := { empty with method := some (.functor t), alloc := some t }
  let (storage, _) ← moveObject K t this.storage (.functor v)
  return { this with storage := storage }

/-- `FixedFunction(RET (*)(PARAMS...))` -/
def ofFunction (p : P) : Option (FixedFunction T V P) := do
  let storage ← setFunction (some p) (empty : FixedFunction T V P).storage
  return { (empty : FixedFunction T V P) with storage := storage, method := some .function }

/-- `moveFromOther` up to `m_method_ptr`: what the object holds is destroyed. -/
def release (this : FixedFunction T V P) : Option (FixedFunction T V P) :=
  match this.alloc with
  | some t => do
    let storage ← destroyObject K t this.storage
    return { this with storage := storage, alloc := none }
  | none => do
    let storage ← setFunction none this.storage
    return { this with storage := storage }

/-- `moveFromOther` from `m_method_ptr` on: the other object is taken over. -/
def takeOver (this o : FixedFunction T V P) :
    Option (FixedFunction T V P × FixedFunction T V P) :=
  let this := { this with method := o.method }
  let o := { o with method := none }
  match o.alloc with
  | some t => do
    let (storage, object) ← moveObject K t this.storage o.storage
    return ({ this with alloc := some t, storage := storage }, { o with storage := object })
  | none => do
    let p ← getFunction o.storage
    let storage ← setFunction p this.storage
    return ({ this with storage := storage }, o)

/-- `moveFromOther`, from another object. -/
def moveFromOther (this o : FixedFunction T V P) :
    Option (FixedFunction T V P × FixedFunction T V P) := do
  takeOver K (← release K this) o

/-- `~FixedFunction`; a functor must not be left in the storage. -/
def destroy (this : FixedFunction T V P) : Option Unit := do
  let storage ← match this.alloc with
    | some t => destroyObject K t this.storage
    | none => pure this.storage
  match storage with
  | .functor _ => none
  | .movedFrom _ => none
  | _ => return ()

/-- `operator()`: what the object is afterwards, and the result or the exception. -/
def call (this : FixedFunction T V P) (args : A) :
    Option (FixedFunction T V P × Except String R) :=
  match this.method with
  | none => some (this, .error "call of empty functor")
  | some (.functor t) =>
    match this.storage with
    | .functor v =>
      if K.typeOf v = t then
        some ({ this with storage := .functor (K.invoke v args).1 }, .ok (K.invoke v args).2)
      else none
    | _ => none
  | some .function => do
    let p ← (← getFunction this.storage)
    return (this, .ok (K.function p args))

/-! ## Objects and their lifetimes -/

variable {ι : Type} [DecidableEq ι]

/-- What can be done with objects, which are where `ι` says. -/
inductive Op (ι V P A : Type)
  | empty (i : ι)
  | ofFunctor (i : ι) (v : V)
  | ofFunction (i : ι) (p : P)
  | moveConstruct (i o : ι)
  | moveAssign (i o : ι)
  | call (i : ι) (args : A)
  | destroy (i : ι)

/-- An object is built where there is none. -/
def build (s : ι → Option (FixedFunction T V P)) (i : ι) (f : FixedFunction T V P) :
    Option (ι → Option (FixedFunction T V P)) :=
  if (s i).isSome then none else some (Function.update s i (some f))

/-- One operation; what a call returns. -/
def step (s : ι → Option (FixedFunction T V P)) :
    Op ι V P A → Option ((ι → Option (FixedFunction T V P)) × Option (Except String R))
  | .empty i => do return (← build s i empty, none)
  | .ofFunctor i v => do return (← build s i (← ofFunctor K v), none)
  | .ofFunction i p => do return (← build s i (← ofFunction p), none)
  | .moveConstruct i o => do
    let other ← s o
    let (this, other) ← moveFromOther K empty other
    let s ← build s i this
    return (Function.update s o (some other), none)
  | .moveAssign i o => do
    let this ← s i
    let other ← s o
    if i = o then return (s, none)
    else
      let (this, other) ← moveFromOther K this other
      return (Function.update (Function.update s i (some this)) o (some other), none)
  | .call i args => do
    let this ← s i
    let (this, r) ← call K this args
    return (Function.update s i (some this), some r)
  | .destroy i => do
    let this ← s i
    destroy K this
    return (Function.update s i none, none)

/-! ## What the objects are for -/

/-- What an object holds. -/
inductive Held (V P : Type)
  | functor (v : V)
  | function (p : P)

/-- What a call does with what is held. -/
def Held.call (args : A) : Held V P → Held V P × R
  | .functor v => (.functor (K.invoke v args).1, (K.invoke v args).2)
  | .function p => (.function p, K.function p args)

/-- The objects that there are, with what they hold. -/
abbrev Holder (ι V P : Type) := ι → Option (Option (Held V P))

/-- One operation: what is moved is no longer where it was. -/
def holderStep (h : Holder ι V P) : Op ι V P A → Holder ι V P × Option (Except String R)
  | .empty i => (Function.update h i (some none), none)
  | .ofFunctor i v => (Function.update h i (some (some (.functor v))), none)
  | .ofFunction i p => (Function.update h i (some (some (.function p))), none)
  | .moveConstruct i o => (Function.update (Function.update h i (h o)) o (some none), none)
  | .moveAssign i o =>
    if i = o then (h, none)
    else (Function.update (Function.update h i (h o)) o (some none), none)
  | .call i args =>
    match h i with
    | some (some held) =>
      (Function.update h i (some (some (held.call K args).1)), some (.ok (held.call K args).2))
    | _ => (h, some (.error "call of empty functor"))
  | .destroy i => (Function.update h i none, none)

/-- The operation is within the lifetimes of its objects. -/
def Within (h : Holder ι V P) : Op ι V P A → Prop
  | .empty i => h i = none
  | .ofFunctor i _ => h i = none
  | .ofFunction i _ => h i = none
  | .moveConstruct i o => h i = none ∧ h o ≠ none
  | .moveAssign i o => h i ≠ none ∧ h o ≠ none
  | .call i _ => h i ≠ none
  | .destroy i => h i ≠ none

/-! ## What an object holds -/

/-- What an object holds, by its storage and its pointers. -/
inductive Holds : FixedFunction T V P → Option (Held V P) → Prop
  | empty (p : Option P) : Holds ⟨.function p, none, none⟩ none
  | function (p : P) : Holds ⟨.function (some p), some .function, none⟩ (some (.function p))
  | functor (v : V) :
    Holds ⟨.functor v, some (.functor (K.typeOf v)), some (K.typeOf v)⟩ (some (.functor v))
  | movedFrom (t : T) : Holds ⟨.movedFrom t, none, some t⟩ none

variable {K}

/-- What is held is destroyed, and the storage is free. -/
theorem Holds.release {this : FixedFunction T V P} {held : Option (Held V P)}
    (h : Holds K this held) :
    ∃ storage, release K this = some ⟨storage, this.method, none⟩
      ∧ (storage = .function none ∨ storage = .nothing) := by
  cases h with
  | empty p => exact ⟨_, rfl, .inl rfl⟩
  | function p => exact ⟨_, rfl, .inl rfl⟩
  | functor v =>
    refine ⟨.nothing, ?_, .inr rfl⟩
    simp [FixedFunction.release, destroyObject]
  | movedFrom t =>
    refine ⟨.nothing, ?_, .inr rfl⟩
    simp [FixedFunction.release, destroyObject]

/-- What the other object holds is taken over by one whose storage is free. -/
theorem Holds.takeOver {o : FixedFunction T V P} {held : Option (Held V P)} (h : Holds K o held)
    {storage : Storage T V P} (hfree : storage = .function none ∨ storage = .nothing)
    (method : Option (Method T)) :
    ∃ this' o', takeOver K ⟨storage, method, none⟩ o = some (this', o')
      ∧ Holds K this' held ∧ Holds K o' none := by
  have hset : ∀ p, setFunction p storage = some (.function p) := by
    rcases hfree with rfl | rfl <;> exact fun _ => rfl
  cases h with
  | empty p =>
    refine ⟨_, _, ?_, .empty p, .empty p⟩
    simp [FixedFunction.takeOver, getFunction, hset]
  | function p =>
    refine ⟨_, _, ?_, .function p, .empty (some p)⟩
    simp [FixedFunction.takeOver, getFunction, hset]
  | functor v =>
    refine ⟨_, _, ?_, .functor v, .movedFrom (K.typeOf v)⟩
    rcases hfree with rfl | rfl <;> simp [FixedFunction.takeOver, moveObject]
  | movedFrom t =>
    refine ⟨_, _, ?_, .movedFrom t, .movedFrom t⟩
    rcases hfree with rfl | rfl <;> simp [FixedFunction.takeOver, moveObject]

/-- **What is held goes to the other object**, and what that held before is destroyed. -/
theorem Holds.moveFromOther {this o : FixedFunction T V P} {held held' : Option (Held V P)}
    (h : Holds K this held) (h' : Holds K o held') :
    ∃ this' o', moveFromOther K this o = some (this', o')
      ∧ Holds K this' held' ∧ Holds K o' none := by
  obtain ⟨storage, hrelease, hfree⟩ := h.release
  obtain ⟨this', o', htake, hheld⟩ := h'.takeOver hfree this.method
  refine ⟨this', o', ?_, hheld⟩
  rw [FixedFunction.moveFromOther, hrelease]
  exact htake

/-- A functor that fits is held. -/
theorem exists_ofFunctor (v : V) :
    ∃ f, ofFunctor K v = some f ∧ Holds (P := P) K f (some (.functor v)) := by
  refine ⟨_, ?_, .functor v⟩
  simp [ofFunctor, moveObject, empty]

/-- What is held is destroyed with the object. -/
theorem Holds.destroy {this : FixedFunction T V P} {held : Option (Held V P)}
    (h : Holds K this held) : destroy K this = some () := by
  cases h <;> simp [FixedFunction.destroy, destroyObject]

/-- A call runs what is held. -/
theorem Holds.call {this : FixedFunction T V P} {held : Held V P} (h : Holds K this (some held))
    (args : A) :
    ∃ this', call K this args = some (this', .ok (held.call K args).2)
      ∧ Holds K this' (some (held.call K args).1) := by
  cases h with
  | function p => exact ⟨_, rfl, .function p⟩
  | functor v =>
    refine ⟨_, by rw [FixedFunction.call]; exact if_pos rfl, ?_⟩
    have hnew := Holds.functor (P := P) (K := K) (K.invoke v args).1
    rwa [K.typeOf_invoke] at hnew

/-- A call of an empty object throws. -/
theorem Holds.call_none {this : FixedFunction T V P} (h : Holds K this none) (args : A) :
    FixedFunction.call K this args = some (this, .error "call of empty functor") := by
  cases h <;> rfl

/-! ## The refinement -/

variable {s : ι → Option (FixedFunction T V P)} {h : Holder ι V P}

/-- Every object holds what it is to hold. -/
def Related (K : Functors T V P A R) (s : ι → Option (FixedFunction T V P)) (h : Holder ι V P) :
    Prop :=
  ∀ i, Option.Rel (Holds K) (s i) (h i)

omit [DecidableEq T] in
/-- Both sides may be changed at the same place. -/
theorem Related.update (hrel : Related K s h) {f : FixedFunction T V P}
    {held : Option (Held V P)} (hheld : Holds K f held) (i : ι) :
    Related K (Function.update s i (some f)) (Function.update h i (some held)) := by
  intro a
  by_cases ha : a = i
  · rw [ha, Function.update_self, Function.update_self]
    exact .some hheld
  · rw [Function.update_of_ne ha, Function.update_of_ne ha]
    exact hrel a

omit [DecidableEq T] [DecidableEq ι] in
/-- Where something is held, there is an object that holds it. -/
theorem Related.exists_of_ne_none (hrel : Related K s h) {i : ι} (hi : h i ≠ none) :
    ∃ f held, s i = some f ∧ h i = some held ∧ Holds K f held := by
  obtain ⟨held, hheld⟩ := Option.ne_none_iff_exists'.mp hi
  have hat := hrel i
  rw [hheld] at hat
  cases hf : s i with
  | none =>
    rw [hf] at hat
    cases hat
  | some f =>
    rw [hf] at hat
    cases hat with
    | some hholds => exact ⟨f, held, rfl, hheld, hholds⟩

omit [DecidableEq T] [DecidableEq ι] in
/-- Where there is no object, none is built. -/
theorem Related.eq_none (hrel : Related K s h) {i : ι} (hi : h i = none) : s i = none := by
  have hat := hrel i
  rw [hi] at hat
  cases hs : s i with
  | none => rfl
  | some f =>
    rw [hs] at hat
    cases hat

omit [DecidableEq T] in
/-- A new object is built where there is none. -/
theorem Related.build (hrel : Related K s h) {i : ι} (hi : h i = none) (f : FixedFunction T V P) :
    build s i f = some (Function.update s i (some f)) := by
  rw [FixedFunction.build, hrel.eq_none hi]
  rfl

/-- **One operation** within the lifetimes is not stuck, and does what it is for. -/
theorem related_step (hrel : Related K s h) {op : Op ι V P A} (hop : Within h op) :
    ∃ s', step K s op = some (s', (holderStep K h op).2)
      ∧ Related K s' (holderStep K h op).1 := by
  cases op with
  | empty i =>
    refine ⟨_, ?_, hrel.update (.empty none) i⟩
    rw [step, hrel.build hop]
    rfl
  | ofFunctor i v =>
    obtain ⟨f, hf, hheld⟩ := exists_ofFunctor (K := K) (P := P) v
    refine ⟨_, ?_, hrel.update hheld i⟩
    rw [step, hf, Option.bind_eq_bind, Option.bind_some, hrel.build hop]
    rfl
  | ofFunction i p =>
    refine ⟨_, ?_, hrel.update (.function p) i⟩
    show (build s i _ >>= _) = _
    rw [hrel.build hop]
    rfl
  | moveConstruct i o =>
    obtain ⟨other, held, hother, hheld, hholds⟩ := hrel.exists_of_ne_none hop.2
    obtain ⟨this', o', hmove, hthis, ho⟩ := (Holds.empty (K := K) none).moveFromOther hholds
    refine ⟨Function.update (Function.update s i (some this')) o (some o'), ?_, ?_⟩
    · rw [step, hother]
      show (moveFromOther K ⟨.function none, none, none⟩ other >>= _) = _
      rw [hmove]
      show (build s i this' >>= _) = _
      rw [hrel.build hop.1]
      rfl
    · show Related K _ (Function.update (Function.update h i (h o)) o (some none))
      rw [hheld]
      exact (hrel.update hthis i).update ho o
  | moveAssign i o =>
    obtain ⟨this, held, hthis, hheld, hholds⟩ := hrel.exists_of_ne_none hop.1
    obtain ⟨other, held', hother, hheld', hholds'⟩ := hrel.exists_of_ne_none hop.2
    rw [step, holderStep, hthis, hother]
    by_cases heq : i = o
    · rw [if_pos heq]
      exact ⟨s, if_pos heq, hrel⟩
    · rw [if_neg heq]
      obtain ⟨this', o', hmove, hnew, ho⟩ := hholds.moveFromOther hholds'
      refine ⟨Function.update (Function.update s i (some this')) o (some o'), ?_, ?_⟩
      · show (if i = o then _ else moveFromOther K this other >>= _) = _
        rw [if_neg heq, hmove]
        rfl
      · show Related K _ (Function.update (Function.update h i (h o)) o (some none))
        rw [hheld']
        exact (hrel.update hnew i).update ho o
  | call i args =>
    obtain ⟨this, held, hthis, hheld, hholds⟩ := hrel.exists_of_ne_none hop
    rw [step, holderStep, hthis, hheld]
    cases held with
    | none =>
      refine ⟨Function.update s i (some this), ?_, ?_⟩
      · show (call K this args >>= _) = _
        rw [hholds.call_none]
        rfl
      · have hsame : Function.update h i (some none) = h := by
          rw [← hheld, Function.update_eq_self]
        have hnew := hrel.update hholds i
        rwa [hsame] at hnew
    | some held =>
      obtain ⟨this', hcall, hnew⟩ := hholds.call args
      refine ⟨Function.update s i (some this'), ?_, hrel.update hnew i⟩
      show (call K this args >>= _) = _
      rw [hcall]
      rfl
  | destroy i =>
    obtain ⟨this, held, hthis, hheld, hholds⟩ := hrel.exists_of_ne_none hop
    refine ⟨Function.update s i none, ?_, fun a => ?_⟩
    · rw [step, hthis]
      show (destroy K this >>= _) = _
      rw [hholds.destroy]
      rfl
    · show Option.Rel (Holds K) _ (Function.update h i none a)
      by_cases ha : a = i
      · rw [ha, Function.update_self, Function.update_self]
        exact .none
      · rw [Function.update_of_ne ha, Function.update_of_ne ha]
        exact hrel a

/-- Operations one after the other, with what the calls return; `none` when one is stuck. -/
def run (K : Functors T V P A R) (s : ι → Option (FixedFunction T V P)) :
    List (Op ι V P A) →
      Option ((ι → Option (FixedFunction T V P)) × List (Option (Except String R)))
  | [] => some (s, [])
  | op :: ops => do
    let (s, r) ← step K s op
    let (s, rs) ← run K s ops
    return (s, r :: rs)

/-- The same for what the objects are to hold. -/
def holderRun (K : Functors T V P A R) (h : Holder ι V P) :
    List (Op ι V P A) → Holder ι V P × List (Option (Except String R))
  | [] => (h, [])
  | op :: ops =>
    ((holderRun K (holderStep K h op).1 ops).1,
      (holderStep K h op).2 :: (holderRun K (holderStep K h op).1 ops).2)

/-- Every operation is within the lifetimes. -/
def AllWithin (K : Functors T V P A R) : Holder ι V P → List (Op ι V P A) → Prop
  | _, [] => True
  | h, op :: ops => Within h op ∧ AllWithin K (holderStep K h op).1 ops

/-- A run of the objects follows the run of the holders. -/
theorem related_run (hrel : Related K s h) {ops : List (Op ι V P A)} (hops : AllWithin K h ops) :
    ∃ s', run K s ops = some (s', (holderRun K h ops).2) ∧ Related K s' (holderRun K h ops).1 := by
  induction ops generalizing s h with
  | nil => exact ⟨s, rfl, hrel⟩
  | cons op ops ih =>
    obtain ⟨s₁, hstep, hrel₁⟩ := related_step hrel hops.1
    obtain ⟨s', hrun, hrel'⟩ := ih hrel₁ hops.2
    refine ⟨s', ?_, hrel'⟩
    rw [run, hstep]
    show (run K s₁ ops >>= _) = _
    rw [hrun]
    rfl

/-- **The objects are what they are for.**  Whatever is done with them within their lifetimes, no
functor is built over another, called or destroyed where it is not, or left behind by its object;
each object holds what was last put or moved there, and each call runs that, or throws if there is
nothing. -/
theorem objects_refine_holder (K : Functors T V P A R) (ops : List (Op ι V P A))
    (hops : AllWithin K (fun _ => none) ops) :
    ∃ s', run K (fun _ => none) ops = some (s', (holderRun K (fun _ => none) ops).2)
      ∧ Related K s' (holderRun K (fun _ => none) ops).1 :=
  related_run (fun _ => .none) hops

end

/-- Counters, which return their value and add the argument, and functions that add a number. -/
def counters : Functors Unit ℕ ℕ ℕ ℕ where
  typeOf _ := ()
  invoke v a := (v + a, v)
  typeOf_invoke _ _ := rfl
  function p a := p + a

/-- A counter is moved twice and called on the way, also where it no longer is. -/
def counterOps : List (Op Bool ℕ ℕ ℕ) :=
  [.ofFunctor false 5, .moveConstruct true false, .call true 2, .call false 2,
    .moveAssign false true, .destroy true, .call false 1, .destroy false]

theorem objects_refine_holder_counterOps :
    ∃ s', run counters (fun _ => none) counterOps
        = some (s', (holderRun counters (fun _ => none) counterOps).2)
      ∧ Related counters s' (holderRun counters (fun _ => none) counterOps).1 := by
  refine objects_refine_holder counters counterOps ?_
  simp [counterOps, AllWithin, Within, holderStep]

end FixedFunction
