/-
# The JSON reflector

`JsonReflector::push` makes a JSON value of a C++ value and `JsonReflector::pull` reads it back;
both are templates that go by the type.  `Ty` is a type that they take, `Ty.Val` its values.  The
errors of a `pull` are collected in `JsonDeserializationErrors` when the caller passes one; it can
say which of them are thrown.

What rapidjson does with floating-point numbers, the value that a new element has and the order of
the elements of a set are parameters (`Platform`).

A `std::set` that an element is read into twice uses the errors without asking whether there are
any, so a `pull` without errors dereferences a null pointer then.
-/
import GraftSupernode.StdMap
import GraftSupernode.UpstreamRequest
import Mathlib.Algebra.Group.Int.Defs
import Mathlib.Data.List.Sort
import Mathlib.Data.String.Basic

namespace Reflector

/-! ## JSON values -/

/-- The types `double` and `float`, and the conversion to the wider one. -/
structure Floats where
  double : Type
  float : Type
  widen : float → double

/-- A number of rapidjson: an integer of 64 bits or a double. -/
inductive Num (F : Floats)
  | int (z : ℤ)
  | real (d : F.double)

/-- `rapidjson::Value` -/
inductive Json (F : Floats)
  | null
  | bool (b : Bool)
  | num (n : Num F)
  | str (s : String)
  | arr (items : List (Json F))
  | obj (members : List (String × Json F))

/-- `JsonType` -/
inductive JsonType
  | null
  | number
  | bool
  | string
  | array
  | object
  deriving DecidableEq

/-- `FindMember`: the first member of the name. -/
def findMember {F : Floats} (name : String) (members : List (String × Json F)) : Option (Json F) :=
  (members.find? fun m => m.1 = name).map Prod.snd

/-- `jsonType(value.GetType())` -/
def Json.jsonType {F : Floats} : Json F → JsonType
  | .null => .null
  | .bool _ => .bool
  | .num _ => .number
  | .str _ => .string
  | .arr _ => .array
  | .obj _ => .object

/-! ## Types and values -/

/-- The integral types that a JSON value can be set to. -/
inductive IntKind
  | int32
  | uint32
  | int64
  | uint64
  deriving DecidableEq

/-- The integer is one of the type. -/
def IntKind.Fits : IntKind → ℤ → Prop
  | .int32, z => -2 ^ 31 ≤ z ∧ z < 2 ^ 31
  | .uint32, z => 0 ≤ z ∧ z < 2 ^ 32
  | .int64, z => -2 ^ 63 ≤ z ∧ z < 2 ^ 63
  | .uint64, z => 0 ≤ z ∧ z < 2 ^ 64

instance (k : IntKind) (z : ℤ) : Decidable (k.Fits z) := by
  cases k <;> exact inferInstanceAs (Decidable (_ ∧ _))

/-- How many bits an integral type has. -/
inductive Width
  | bits8
  | bits16
  | bits32
  | bits64
  deriving DecidableEq

/-- The number of bits. -/
def Width.bits : Width → ℕ
  | .bits8 => 8
  | .bits16 => 16
  | .bits32 => 32
  | .bits64 => 64

/-- `std::underlying_type` of an enumeration. -/
structure Underlying where
  signed : Bool
  width : Width
  deriving DecidableEq

/-- The integer is one of the type. -/
def Underlying.Fits (u : Underlying) (z : ℤ) : Prop :=
  if u.signed then -2 ^ (u.width.bits - 1) ≤ z ∧ z < 2 ^ (u.width.bits - 1)
  else 0 ≤ z ∧ z < 2 ^ u.width.bits

instance (u : Underlying) (z : ℤ) : Decidable (u.Fits z) :=
  inferInstanceAs (Decidable (if u.signed then _ ∧ _ else _ ∧ _))

/-- `ExpectedType`: what the JSON value of an enumeration must be. -/
def Underlying.expectedType (u : Underlying) : IntKind := if u.signed then .int64 else .uint64

/-- `static_cast` of an integer: its last bits. -/
def Underlying.castInt (u : Underlying) (z : ℤ) : ℤ :=
  if u.signed then (z + 2 ^ (u.width.bits - 1)) % 2 ^ u.width.bits - 2 ^ (u.width.bits - 1)
  else z % 2 ^ u.width.bits

/-- A cast gives an integer of the type. -/
theorem Underlying.fits_castInt (u : Underlying) (z : ℤ) : u.Fits (u.castInt z) := by
  obtain ⟨signed, width⟩ := u
  unfold Fits castInt
  cases signed <;> cases width <;> simp [Width.bits] <;> omega

/-- An integer of the type is not changed by a cast. -/
theorem Underlying.castInt_of_fits {u : Underlying} {z : ℤ} (h : u.Fits z) : u.castInt z = z := by
  obtain ⟨signed, width⟩ := u
  unfold Fits at h
  unfold castInt
  cases signed <;> cases width <;> simp [Width.bits] at h ⊢ <;> omega

/-- An integer of the type is one of 64 bits. -/
theorem Underlying.expectedType_fits {u : Underlying} {z : ℤ} (h : u.Fits z) :
    u.expectedType.Fits z := by
  obtain ⟨signed, width⟩ := u
  unfold Fits at h
  cases signed <;> cases width <;> simp [Width.bits] at h <;>
    simp [expectedType, IntKind.Fits] <;> omega

mutual
/-- A C++ type: a fundamental one, an enumeration, a string, a sequence, a `std::set` or
`std::multiset`, a `std::map` with strings as keys, a tuple, a smart pointer or a structure with its
name and its members.  The unordered containers are left out: what is read back has another
order. -/
inductive Ty
  | bool
  | integer (k : IntKind)
  | double
  | float
  | enum (u : Underlying)
  | string
  | charPtr
  | vector (t : Ty)
  | set (t : Ty)
  | multiset (t : Ty)
  | map (t : Ty)
  | tuple (ts : Tys)
  | ptr (t : Ty)
  | struct (name : String) (ms : Members)
/-- The types of the elements of a tuple. -/
inductive Tys
  | nil
  | cons (t : Ty) (ts : Tys)
/-- The members of a structure. -/
inductive Members
  | nil
  | cons (name : String) (t : Ty) (ms : Members)
end

mutual
/-- The values of a type.  A `const char *` is the text that it points to, or null; a set is the
list of its elements in their order. -/
def Ty.Val (F : Floats) : Ty → Type
  | .bool => Bool
  | .integer k => { z : ℤ // k.Fits z }
  | .double => F.double
  | .float => F.float
  | .enum u => { z : ℤ // u.Fits z }
  | .string => String
  | .charPtr => Option String
  | .vector t => List (t.Val F)
  | .set t => List (t.Val F)
  | .multiset t => List (t.Val F)
  | .map t => StdMap String (t.Val F)
  | .tuple ts => ts.Val F
  | .ptr t => Option (t.Val F)
  | .struct _ ms => ms.Val F
def Tys.Val (F : Floats) : Tys → Type
  | .nil => Unit
  | .cons t ts => t.Val F × ts.Val F
def Members.Val (F : Floats) : Members → Type
  | .nil => Unit
  | .cons _ t ms => t.Val F × ms.Val F
end

/-- `std::tuple_size` -/
def Tys.size : Tys → ℕ
  | .nil => 0
  | .cons _ ts => ts.size + 1

/-- `jsonType<Type>()`, for an enumeration that of its `ExpectedType`; a tuple is no sequence
there. -/
def Ty.jsonType : Ty → JsonType
  | .bool => .bool
  | .integer _ => .number
  | .double => .number
  | .float => .number
  | .enum _ => .number
  | .string => .string
  | .charPtr => .string
  | .vector _ => .array
  | .set _ => .array
  | .multiset _ => .array
  | .map _ => .object
  | .tuple _ => .object
  | .ptr _ => .object
  | .struct .. => .object

/-! ## Pushing -/

variable {F : Floats}

mutual
/-- `JsonReflector::push` -/
def Ty.push : (t : Ty) → t.Val F → Json F
  | .bool, b => .bool b
  | .integer _, z => .num (.int z.1)
  | .double, d => .num (.real d)
  | .float, f => .num (.real (F.widen f))
  | .enum _, z => .num (.int z.1)
  | .string, s => .str s
  -- a null pointer must not be pushed
  | .charPtr, s => .str (cStr (s.getD ""))
  | .vector t, l => .arr (l.map t.push)
  | .set t, l => .arr (l.map t.push)
  | .multiset t, l => .arr (l.map t.push)
  | .map t, m => .obj (m.entries.map fun e => (cStr e.1, t.push e.2))
  | .tuple ts, v => .arr (ts.push v)
  | .ptr _, none => .null
  | .ptr t, some v => t.push v
  | .struct _ ms, v => .obj (ms.push v)
/-- `TuplePushHelper::push` -/
def Tys.push : (ts : Tys) → ts.Val F → List (Json F)
  | .nil, _ => []
  | .cons t ts, v => t.push v.1 :: ts.push v.2
/-- `push` of a structure: its members in their order. -/
def Members.push : (ms : Members) → ms.Val F → List (String × Json F)
  | .nil, _ => []
  | .cons name t ms, v => (name, t.push v.1) :: ms.push v.2
end

/-! ## Errors -/

/-- `JsonDeserializationErrorKind`; nothing makes a `ConversionError`. -/
inductive ErrorKind
  | typeMismatch
  | arraySizeMismatch
  | unexpectedDuplicate
  deriving DecidableEq

/-- `JsonDeserializationError`; no `index` is `noIndex`. -/
structure JsonDeserializationError where
  kind : ErrorKind
  expectedType : JsonType
  actualType : JsonType
  record : String
  member : Option String
  index : Option ℕ
  deriving DecidableEq

/-- What is being read: `currentRecord`, `currentMember` and `currentIndex`. -/
structure Place where
  record : String
  member : Option String
  index : Option ℕ

/-- `JsonDeserializationErrors`: the errors so far, where the reader is, and the kinds that are
thrown. -/
structure Errors where
  list : List JsonDeserializationError
  place : Place
  throwOn : ErrorKind → Bool

/-- `JsonDeserializationErrors::JsonDeserializationErrors` -/
def Errors.init : Errors := ⟨[], ⟨"[document]", none, none⟩, fun _ => false⟩

/-- What ends a `pull` early: an error that is thrown, or the use of errors that are not there. -/
inductive Stop
  | thrown (err : JsonDeserializationError)
  | nullDereference

/-- A computation that reports to the errors, if there are some, and may end early. -/
abbrev Reader := StateT (Option Errors) (Except Stop)

/-- `emplace_back` and `throwMaybe` -/
def report (kind : ErrorKind) (expected actual : JsonType) : Reader Unit := do
  match ← get with
  | none => pure ()
  | some e =>
    let err := ⟨kind, expected, actual, e.place.record, e.place.member, e.place.index⟩
    set (some { e with list := e.list ++ [err] })
    if e.throwOn kind then throw (.thrown err)

/-- `reportTypeMismatch` -/
def reportTypeMismatch (t : Ty) (value : Json F) : Reader Unit :=
  report .typeMismatch t.jsonType value.jsonType

/-- `reportArraySizeMismatch` -/
def reportArraySizeMismatch : Reader Unit := report .arraySizeMismatch .array .array

/-- `errors->reportUnexpectedDuplicate(JsonType::Array)`, with `errors` null or not. -/
def reportUnexpectedDuplicate : Reader Unit := do
  match ← get with
  | none => throw .nullDereference
  | some _ => report .unexpectedDuplicate .array .array

/-- The reader is at another place. -/
def setPlace (f : Place → Place) : Reader Unit :=
  modify fun errors => errors.map fun e => { e with place := f e.place }

/-- The member that is being read. -/
def currentMember : Reader (Option String) := return (← get).bind fun e => e.place.member

/-! ## Pulling -/

/-- What rapidjson and the compiler do: `GetDouble`, the casts of what it returns to an integral
type and to `float`, the values that a new element and a local variable of a type have, and
`std::less`. -/
structure Platform (F : Floats) where
  getDouble : Num F → F.double
  getDouble_real : ∀ d, getDouble (.real d) = d
  castInt : (k : IntKind) → F.double → { z : ℤ // k.Fits z }
  castFloat : F.double → F.float
  castFloat_widen : ∀ f, castFloat (F.widen f) = f
  fresh : (t : Ty) → t.Val F
  localVar : (t : Ty) → t.Val F
  less : (t : Ty) → t.Val F → t.Val F → Bool

mutual
/-- The value of a type without initial values of its own; `double` and `float` are the
floating-point numbers. -/
def Ty.zero (double : F.double) (float : F.float) : (t : Ty) → t.Val F
  | .bool => false
  | .integer k => ⟨0, by cases k <;> decide⟩
  | .double => double
  | .float => float
  | .enum u => ⟨u.castInt 0, u.fits_castInt 0⟩
  | .string => ""
  | .charPtr => none
  | .vector _ => []
  | .set _ => []
  | .multiset _ => []
  | .map _ => StdMap.empty
  | .tuple ts => ts.zero double float
  | .ptr _ => none
  | .struct _ ms => ms.zero double float
def Tys.zero (double : F.double) (float : F.float) : (ts : Tys) → ts.Val F
  | .nil => ()
  | .cons t ts => (t.zero double float, ts.zero double float)
def Members.zero (double : F.double) (float : F.float) : (ms : Members) → ms.Val F
  | .nil => ()
  | .cons _ t ms => (t.zero double float, ms.zero double float)
end

variable (P : Platform F)

/-- `value.Is<Type>() ? value.Get<Type>() : static_cast<Type>(value.GetDouble())` -/
def pullInteger (k : IntKind) (n : Num F) : { z : ℤ // k.Fits z } :=
  match n with
  | .int z => if h : k.Fits z then ⟨z, h⟩ else P.castInt k (P.getDouble n)
  | .real _ => P.castInt k (P.getDouble n)

/-- The elements of an array, from the index `i` on: each is read into a new element. -/
def pullItems {α : Type} (pullItem : Json F → Reader α) (i : ℕ) : List (Json F) → Reader (List α)
  | [] => pure []
  | v :: l => do
    setPlace fun p => { p with index := some i }
    let a ← pullItem v
    let as ← pullItems pullItem (i + 1) l
    return a :: as

/-- Neither of two elements is less than the other. -/
def equivalent {α : Type} (less : α → α → Bool) (a b : α) : Bool := !less a b && !less b a

/-- `emplace` of a `std::set`: nothing when an equivalent element is there. -/
def emplaceSet {α : Type} (less : α → α → Bool) (a : α) (s : List α) : Option (List α) :=
  if s.any (equivalent less a) then none else some (s.orderedInsert (fun a b => less a b) a)

/-- `emplace` of a `std::multiset`: the element is put behind those that are equivalent. -/
def emplaceMultiset {α : Type} (less : α → α → Bool) (a : α) (s : List α) : Option (List α) :=
  some (s.orderedInsert (fun a b => less a b) a)

/-- An element is put into a set; one that is there already is reported. -/
def insertElement {α : Type} (emplace : α → List α → Option (List α)) (a : α) (s : List α) :
    Reader (List α) :=
  match emplace a s with
  | some s' => pure s'
  | none => do
    reportUnexpectedDuplicate
    return s

/-- The elements of an array, from the index `i` on: each is read into a local variable and then
put into the set. -/
def pullElements {α : Type} (emplace : α → List α → Option (List α)) (pullItem : Json F → Reader α)
    (i : ℕ) : List (Json F) → List α → Reader (List α)
  | [], s => pure s
  | v :: l, s => do
    setPlace fun p => { p with index := some i }
    let a ← pullItem v
    let s' ← insertElement emplace a s
    pullElements emplace pullItem (i + 1) l s'

/-- `reflectable[name] = value` -/
def assign {β : Type} (m : StdMap String β) (name : String) (value : β) : StdMap String β :=
  (m.erase name).emplace name value

/-- The members of an object, each into the entry of its name; a map keeps its other entries. -/
def pullEntries {β : Type} (fresh : β) (pullValue : β → Json F → Reader β) :
    List (String × Json F) → StdMap String β → Reader (StdMap String β)
  | [], m => pure m
  | e :: l, m => do
    let b ← pullValue ((m.find (cStr e.1)).getD fresh) e.2
    pullEntries fresh pullValue l (assign m (cStr e.1) b)

/-- `pull` of a member, if the object has it; the place is put back. -/
def pullMember {β : Type} (name : String) (pullValue : Json F → Reader β) (old : β)
    (members : List (String × Json F)) : Reader β := do
  match findMember name members with
  | none => return old
  | some v =>
    let previousMember ← currentMember
    setPlace fun p => { p with member := some name }
    let b ← pullValue v
    setPlace fun p => { p with member := previousMember }
    return b

mutual
/-- `JsonReflector::pull`, with the value before. -/
def Ty.pull : (t : Ty) → t.Val F → Json F → Reader (t.Val F)
  | .bool, old, v =>
    match v with
    | .bool b => pure b
    | _ => do
      reportTypeMismatch .bool v
      return old
  | .integer k, old, v =>
    match v with
    | .num n => pure (pullInteger P k n)
    | _ => do
      reportTypeMismatch (.integer k) v
      return old
  | .double, old, v =>
    match v with
    | .num n => pure (P.getDouble n)
    | _ => do
      reportTypeMismatch .double v
      return old
  | .float, old, v =>
    match v with
    | .num n => pure (P.castFloat (P.getDouble n))
    | _ => do
      reportTypeMismatch .float v
      return old
  | .enum u, old, v =>
    match v with
    | .num (.int z) =>
      if u.expectedType.Fits z then pure ⟨u.castInt z, u.fits_castInt z⟩
      else do
        reportTypeMismatch (.enum u) v
        return old
    | _ => do
      reportTypeMismatch (.enum u) v
      return old
  | .string, old, v =>
    match v with
    | .str s => pure (cStr s)
    | _ => do
      reportTypeMismatch .string v
      return old
  | .charPtr, old, v =>
    match v with
    -- the text is not stored
    | .str _ => pure old
    | _ => do
      reportTypeMismatch .charPtr v
      return old
  | .vector t, old, v =>
    match v with
    | .arr l => do
      let as ← pullItems (t.pull (P.fresh t)) 0 l
      setPlace fun p => { p with index := none }
      return as
    | _ => do
      reportTypeMismatch (.vector t) v
      return old
  | .set t, old, v =>
    match v with
    | .arr l => do
      let s ← pullElements (emplaceSet (P.less t)) (t.pull (P.localVar t)) 0 l []
      setPlace fun p => { p with index := none }
      return s
    | _ => do
      reportTypeMismatch (.set t) v
      return old
  | .multiset t, old, v =>
    match v with
    | .arr l => do
      let s ← pullElements (emplaceMultiset (P.less t)) (t.pull (P.localVar t)) 0 l []
      setPlace fun p => { p with index := none }
      return s
    | _ => do
      reportTypeMismatch (.multiset t) v
      return old
  | .map t, old, v =>
    match v with
    | .obj members => pullEntries (P.fresh t) t.pull members old
    | _ => do
      reportTypeMismatch (.map t) v
      return old
  | .tuple ts, old, v =>
    match v with
    | .arr l =>
      if l.length = ts.size then ts.pull old l
      else do
        reportArraySizeMismatch
        return old
    | _ => do
      reportTypeMismatch (.tuple ts) v
      return old
  | .ptr t, _, v =>
    match v with
    | .null => pure none
    | _ => do return some (← t.pull (P.fresh t) v)
  | .struct name ms, old, v =>
    match v with
    | .obj members => ms.pull old members
    | _ => do
      reportTypeMismatch (.struct name ms) v
      return old
/-- `TuplePullHelper::pull` -/
def Tys.pull : (ts : Tys) → ts.Val F → List (Json F) → Reader (ts.Val F)
  | .nil, old, _ => pure old
  | .cons _ _, old, [] => pure old
  | .cons t ts, old, v :: l => do
    let a ← t.pull old.1 v
    let as ← ts.pull old.2 l
    return (a, as)
/-- `pull` of a structure: each member that the object has. -/
def Members.pull : (ms : Members) → ms.Val F → List (String × Json F) → Reader (ms.Val F)
  | .nil, old, _ => pure old
  | .cons name t ms, old, members => do
    let a ← pullMember name (t.pull old.1) old.1 members
    let as ← ms.pull old.2 members
    return (a, as)
end

end Reflector
