/-
# Maps of values that carry their type

A map like `std::map<K, std::any>`: a value is stored with its type, and is read at the type that
the reader names.  The read fails at any other type, however close the two types are.

`El t` are the values of the type `t`.
-/
import Mathlib.Logic.Function.Basic

/-- The entries: an entry can be empty, and holds a value of some type otherwise. -/
def AnyMap (K : Type*) {T : Type*} (El : T → Type*) := K → Option (Option (Σ t, El t))

namespace AnyMap

variable {K T : Type*} {El : T → Type*} {m : AnyMap K El} {key key' : K} {t t' : T}

def empty : AnyMap K El := fun _ => none

def hasKey (m : AnyMap K El) (key : K) : Bool := (m key).isSome

@[simp] theorem hasKey_empty (key : K) : (empty : AnyMap K El).hasKey key = false := rfl

/-- The entry holds this value of the type `t`. -/
def Holds (m : AnyMap K El) (key : K) (t : T) (v : El t) : Prop := m key = some (some ⟨t, v⟩)

section

variable [DecidableEq K]

/-- The value is stored, in place of any other. -/
def set (m : AnyMap K El) (key : K) (t : T) (v : El t) : AnyMap K El :=
  Function.update m key (some (some ⟨t, v⟩))

theorem holds_set (m : AnyMap K El) (key : K) (v : El t) : (m.set key t v).Holds key t v :=
  Function.update_self _ _ _

/-- A value under another key stays. -/
theorem Holds.set {v : El t} (h : m.Holds key t v) (hne : key ≠ key') (v' : El t') :
    (m.set key' t' v').Holds key t v := (Function.update_of_ne hne _ _).trans h

end

theorem Holds.hasKey {v : El t} (h : m.Holds key t v) : m.hasKey key = true := by
  unfold AnyMap.hasKey
  rw [h]
  rfl

variable [DecidableEq T]

/-- The value under the key, read at the type `t`; `none` is `std::bad_any_cast`. -/
def read (m : AnyMap K El) (key : K) (t : T) : Option (El t) :=
  match m key with
  | some (some ⟨t', v⟩) => if h : t' = t then some (h ▸ v) else none
  | _ => none

/-- **A value is read at the type that it was stored with**. -/
theorem Holds.read {v : El t} (h : m.Holds key t v) : m.read key t = some v := by
  unfold AnyMap.read
  rw [h]
  exact dif_pos rfl

/-- **At another type the read fails**. -/
theorem Holds.read_of_ne {v : El t} (h : m.Holds key t v) (hne : t ≠ t') :
    m.read key t' = none := by
  unfold AnyMap.read
  rw [h]
  exact dif_neg hne

end AnyMap
