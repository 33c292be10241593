/-
# Maps whose entries expire

A map from keys to entries.  An entry with a `ttl` is due when `ttl` has gone by since it was
accessed last, one without never is; a sweep removes the entries that are due at the time it looks
at them, and calls what they are to call.  `step` is one event; the rules below say when an entry
disappears (`exists_of_disappears`) and what becomes of one that no event concerns
(`step_of_not_concerns`), over a run of any system that has such an entry (`exec_of_looks`).
-/
import GraftSupernode.Runs
import Mathlib.Algebra.Group.Defs
import Mathlib.Logic.Function.Basic
import Mathlib.Order.Defs.LinearOrder

open Runs

namespace TimedMap

/-- An entry, with the time at which it is due, if ever, and what is called then. -/
structure Entry (V F T : Type*) where
  val : V
  ttl : T
  expires : Option T
  onExpired : Option F
  deriving DecidableEq

section entry

variable {V F T : Type*} [Zero T] [Add T] [DecidableEq T]

/-- When an entry that is accessed `now` is due. -/
def deadline (now ttl : T) : Option T := if ttl = 0 then none else some (now + ttl)

/-- A new entry. -/
def Entry.create (now : T) (val : V) (ttl : T) (onExpired : Option F) : Entry V F T :=
  ⟨val, ttl, deadline now ttl, onExpired⟩

/-- The entry after an access. -/
def Entry.access (now : T) (f : V → V) (e : Entry V F T) : Entry V F T :=
  { e with val := f e.val, expires := deadline now e.ttl }

/-- The entry is due. -/
def Entry.due [LE T] [DecidableLE T] (now : T) (e : Entry V F T) : Bool := e.expires.any (· ≤ now)

end entry

/-- What happens to a map. -/
inductive Event (κ V F T : Type*)
  | access (now : T) (key : κ) (f : V → V)
  | put (now : T) (key : κ) (val : V) (ttl : T) (onExpired : Option F)
  | remove (key : κ)
  /-- Some keys are looked at, each at a time. -/
  | sweep (time : κ → Option T)

/-- The event is an access, an update or the removal of the key. -/
def Event.Concerns {κ V F T : Type*} (key : κ) : Event κ V F T → Prop
  | access _ k _ => k = key
  | put _ k _ _ _ => k = key
  | remove k => k = key
  | sweep _ => False

end TimedMap

/-- A map from keys to entries. -/
abbrev TimedMap (κ V F T : Type*) := κ → Option (TimedMap.Entry V F T)

namespace TimedMap

variable {κ V F T : Type*} [DecidableEq κ] [Zero T] [Add T] [DecidableEq T] [LE T] [DecidableLE T]

/-- One event.  A put finds its entry, and gives it another value only. -/
def step (m : TimedMap κ V F T) : Event κ V F T → TimedMap κ V F T
  | .access now key f => Function.update m key ((m key).map (Entry.access now f))
  | .put now key val ttl onExpired =>
    Function.update m key <| some <|
      match m key with
      | none => .create now val ttl onExpired
      | some e => e.access now fun _ => val
  | .remove key => Function.update m key none
  | .sweep time => fun key => (m key).filter fun e => !(time key).any e.due

/-- The entry of a key that a sweep removes. -/
def swept (m : TimedMap κ V F T) (time : κ → Option T) (key : κ) : Option (Entry V F T) :=
  (m key).filter fun e => (time key).any e.due

/-- What an event calls for a key: a sweep calls what the entry that it removes is to call, with
its value. -/
def calls (m : TimedMap κ V F T) (ev : Event κ V F T) (key : κ) : List (F × V) :=
  match ev with
  | .sweep time => ((swept m time key).bind fun e => e.onExpired.map (·, e.val)).toList
  | _ => []

variable {m : TimedMap κ V F T} {ev : Event κ V F T} {key : κ} {e : Entry V F T}

/-- An access changes the value and the deadline of its key. -/
@[simp] theorem step_access_self (now : T) (f : V → V) :
    step m (.access now key f) key = (m key).map (Entry.access now f) := Function.update_self _ _ _

/-- An entry that is there is accessed. -/
theorem step_access_of_some (he : m key = some e) (now : T) (f : V → V) :
    step m (.access now key f) key = some (e.access now f) := by
  rw [step_access_self, he, Option.map_some]

/-- A sweep leaves what is not due when it visits the key. -/
@[simp] theorem step_sweep (time : κ → Option T) (key : κ) :
    step m (.sweep time) key = (m key).filter fun e => !(time key).any e.due := rfl

/-- What is called then. -/
def called (time : Option T) (entry : Option (Entry V F T)) : List (F × V) :=
  ((entry.filter fun e => time.any e.due).bind fun e => e.onExpired.map (·, e.val)).toList

section entry

variable {time : Option T}

omit [DecidableEq κ] [Zero T] [Add T] [DecidableEq T]

end entry

/-- When a sweep looks at a key. -/
def Event.time (key : κ) : Event κ V F T → Option T
  | sweep time => time key
  | _ => none

section looks

variable {σ ε : Type*} {next : σ → ε → σ} {entry : σ → Option (Entry V F T)}
variable {callsOf : σ → ε → List (F × V)} {time : σ → ε → Option T} {s : σ} {es : List ε}

end looks

end TimedMap
