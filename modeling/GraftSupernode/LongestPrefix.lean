/-
# The longest prefix decides

The calls of `addEntry` and `removeEntry` make a table of prefixes; `find` says of an address what
the longest stored prefix of it says, and the default where there is none.

This is so as long as each prefix that is added fits.  A prefix that ends where the radix tree has
no node, while the padded address goes on to a longer one, is lost: `insert` cuts a part of
negative length out of it.
-/
import GraftSupernode.BlackList
import GraftSupernode.RadixErase
import GraftSupernode.RadixInsert
import GraftSupernode.Runs

namespace BlackList

variable {bl : BlackList} {table : PrefixTable Bool Bool}

/-- What a table and a default say of an address. -/
def decision (table : PrefixTable Bool Bool) (default : Bool) (addr : BitVec 32) : Bool × Bool :=
  match table.longest (word addr) with
  | some allow => (true, allow)
  | none => (false, default)

theorem decision_fst (table : PrefixTable Bool Bool) (default : Bool) (addr : BitVec 32) :
    (decision table default addr).1 = (table.longest (word addr)).isSome := by
  rw [decision]
  cases table.longest (word addr) <;> rfl

/-- **`find`** looks the address up in the table. -/
theorem find_eq_decision (h : RadixTree.Represents bl.table table) (addr : BitVec 32)
    (networkOrder : Bool) :
    bl.find addr networkOrder = decision table bl.defaultAllow (hostOrder addr networkOrder) := by
  have hlongest := h.longestMatch (hostOrder addr networkOrder)
  rw [find, decision, ← hlongest]
  cases bl.table.longestMatch ⟨hostOrder addr networkOrder, 32⟩ <;> rfl

theorem represents_create (requestsPerSec windowSizeSec banIpSec : ℤ) :
    RadixTree.Represents (create requestsPerSec windowSizeSec banIpSec).table fun _ => none := by
  refine ⟨trivial, fun q v => ?_⟩
  simp only [reduceCtorEq, false_iff]
  rintro ⟨e, he, -⟩
  exact he

/-- The prefix can be added to the table. -/
def FitsIn (table : PrefixTable Bool Bool) (addr : BitVec 32) (len : ℕ) : Prop :=
  PrefixTable.Fits (fun q => (table q).isSome) (word addr) len

/-- A whole address always fits. -/
theorem fitsIn_address (table : PrefixTable Bool Bool) (addr : BitVec 32) :
    FitsIn table addr 32 := by
  refine .inr fun m hlt hle => ?_
  rw [length_word] at hle
  omega

theorem stored_iff (h : RadixTree.Represents bl.table table) :
    RadixTree.Stored bl.table = fun q => ((table q).isSome : Prop) := by
  funext q
  apply propext
  constructor
  · rintro ⟨⟨e, v⟩, hx, hbits⟩
    rw [(h.iff q v).mpr ⟨e, hx, hbits⟩]
    rfl
  · intro hq
    obtain ⟨v, hv⟩ := Option.isSome_iff_exists.mp hq
    obtain ⟨e, he, hbits⟩ := (h.iff q v).mp hv
    exact ⟨(e, v), he, hbits⟩

/-- **`addEntry`** puts a prefix that fits into the table, and is undefined for another. -/
theorem addEntry_spec (h : RadixTree.Represents bl.table table) {addr : BitVec 32}
    {networkOrder : Bool} (allow : Bool) {len : ℕ}
    (hmasked : RtEntry.Masked ⟨hostOrder addr networkOrder, len⟩) (hpos : 1 ≤ len) :
    (FitsIn table (hostOrder addr networkOrder) len ∧
      ∃ t, bl.addEntry addr networkOrder allow len = some { bl with table := t } ∧
        RadixTree.Represents t
          (table.insertNew (RtEntry.bits ⟨hostOrder addr networkOrder, len⟩) allow)) ∨
    (¬ FitsIn table (hostOrder addr networkOrder) len ∧
      bl.addEntry addr networkOrder allow len = none) := by
  have hinsert := h.insert hmasked hpos allow
  rw [stored_iff h] at hinsert
  rw [addEntry]
  rcases hinsert with ⟨hfits, t, ht, hrep⟩ | ⟨hfits, ht⟩
  · exact .inl ⟨hfits, t, by rw [ht, Option.map_some], hrep⟩
  · exact .inr ⟨hfits, by rw [ht, Option.map_none]⟩

/-- **`removeEntry`** takes the entry of an address out of the table. -/
theorem removeEntry_spec (h : RadixTree.Represents bl.table table) (addr : BitVec 32)
    (networkOrder : Bool) :
    RadixTree.Represents (bl.removeEntry addr networkOrder).table
      (table.erase (word (hostOrder addr networkOrder))) := by
  have herase := h.erase (RtEntry.masked_address (hostOrder addr networkOrder)) (Nat.succ_pos 31)
  rw [RtEntry.bits_address] at herase
  exact herase

/-! ## Calls one after the other -/

/-- A call that changes the table. -/
inductive TableCall
  | addEntry (addr : BitVec 32) (networkOrder allow : Bool) (len : ℕ)
  | removeEntry (addr : BitVec 32) (networkOrder : Bool)
  deriving DecidableEq

namespace TableCall

def run (bl : BlackList) : TableCall → Option BlackList
  | addEntry addr networkOrder allow len => bl.addEntry addr networkOrder allow len
  | removeEntry addr networkOrder => some (bl.removeEntry addr networkOrder)

/-- What a call does to the table of the prefixes. -/
def store (table : PrefixTable Bool Bool) : TableCall → PrefixTable Bool Bool
  | addEntry addr networkOrder allow len =>
    table.insertNew (RtEntry.bits ⟨hostOrder addr networkOrder, len⟩) allow
  | removeEntry addr networkOrder => table.erase (word (hostOrder addr networkOrder))

/-- The address that is added is zero beyond the prefix, and the length is one of a prefix. -/
def Masked : TableCall → Prop
  | addEntry addr networkOrder _ len =>
    1 ≤ len ∧ RtEntry.Masked ⟨hostOrder addr networkOrder, len⟩
  | removeEntry _ _ => True

/-- The prefix that is added fits. -/
def Fits (table : PrefixTable Bool Bool) : TableCall → Prop
  | addEntry addr networkOrder _ len => FitsIn table (hostOrder addr networkOrder) len
  | removeEntry _ _ => True

end TableCall

/-- The calls on a blacklist, or that one of them is undefined. -/
def runCalls (bl : BlackList) (calls : List TableCall) : Option BlackList :=
  calls.foldlM TableCall.run bl

/-- The prefixes that are stored after the calls. -/
def stored (calls : List TableCall) : PrefixTable Bool Bool :=
  Runs.exec TableCall.store (fun _ => none) calls

/-- **One call**: the table follows the prefixes. -/
theorem run_call (h : RadixTree.Represents bl.table table) {call : TableCall}
    (hcall : call.Masked) :
    (call.Fits table ∧ ∃ t, call.run bl = some { bl with table := t } ∧
      RadixTree.Represents t (call.store table)) ∨
    (¬ call.Fits table ∧ call.run bl = none) := by
  cases call with
  | addEntry addr networkOrder allow len =>
    obtain ⟨hpos, hmasked⟩ := hcall
    exact addEntry_spec h allow hmasked hpos
  | removeEntry addr networkOrder =>
    exact .inl ⟨trivial, _, rfl, removeEntry_spec h addr networkOrder⟩

/-- **The calls of a run**: they are defined as long as each prefix fits. -/
theorem run_calls (h : RadixTree.Represents bl.table table) {calls : List TableCall}
    (hcalls : ∀ call ∈ calls, call.Masked) :
    (Runs.Along TableCall.store TableCall.Fits table calls ∧
      ∃ t, runCalls bl calls = some { bl with table := t } ∧
        RadixTree.Represents t (Runs.exec TableCall.store table calls)) ∨
    (¬ Runs.Along TableCall.store TableCall.Fits table calls ∧ runCalls bl calls = none) := by
  induction calls generalizing bl table with
  | nil => exact .inl ⟨trivial, bl.table, rfl, h⟩
  | cons call calls ih =>
    have hrun : runCalls bl (call :: calls) = (call.run bl).bind (runCalls · calls) :=
      List.foldlM_cons
    rw [hrun, Runs.along_cons, Runs.exec_cons]
    rcases run_call h (hcalls call List.mem_cons_self) with ⟨hfits, t, ht, hrep⟩ | ⟨hfits, ht⟩
    · rw [ht, Option.bind_some]
      have hnext := @ih { bl with table := t } _ hrep
        fun call' hmem => hcalls call' (List.mem_cons_of_mem _ hmem)
      rcases hnext with ⟨halong, t', ht', hrep'⟩ | ⟨halong, ht'⟩
      · exact .inl ⟨⟨hfits, halong⟩, t', ht', hrep'⟩
      · exact .inr ⟨fun hall => halong hall.2, ht'⟩
    · rw [ht, Option.bind_none]
      exact .inr ⟨fun hall => hfits hall.1, rfl⟩

/-- After the calls, `find` says of every address what the longest stored prefix of it says. -/
def FindsLongest (bl : BlackList) (calls : List TableCall) : Prop :=
  ∃ bl', runCalls bl calls = some bl' ∧ ∀ addr networkOrder,
    bl'.find addr networkOrder =
      decision (stored calls) bl.defaultAllow (hostOrder addr networkOrder)

/-- **The longest prefix decides** exactly when each prefix fits as it is added. -/
theorem findsLongest_iff (requestsPerSec windowSizeSec banIpSec : ℤ) (calls : List TableCall)
    (hcalls : ∀ call ∈ calls, call.Masked) :
    FindsLongest (create requestsPerSec windowSizeSec banIpSec) calls ↔
      Runs.Along TableCall.store TableCall.Fits (fun _ => none) calls := by
  have hrep := represents_create requestsPerSec windowSizeSec banIpSec
  rcases run_calls hrep hcalls with ⟨halong, t, ht, hrep'⟩ | ⟨halong, hnone⟩
  · refine iff_of_true ?_ halong
    exact ⟨_, ht, fun addr networkOrder => find_eq_decision hrep' addr networkOrder⟩
  · refine iff_of_false ?_ halong
    rintro ⟨bl', hsome, -⟩
    rw [hnone] at hsome
    cases hsome

/-- A narrow prefix after the broad one that it lies in. -/
def narrowAfterBroad : List TableCall :=
  [.addEntry 0x0a000000#32 false true 8, .addEntry 0x0a010000#32 false false 16]

theorem masked_narrowAfterBroad : ∀ call ∈ narrowAfterBroad, call.Masked := by
  intro call hcall
  rw [narrowAfterBroad, List.mem_cons, List.mem_singleton] at hcall
  rcases hcall with rfl | rfl
  · exact ⟨by decide, RtEntry.masked_of_forall_lt (by decide) (by decide)⟩
  · exact ⟨by decide, RtEntry.masked_of_forall_lt (by decide) (by decide)⟩

theorem findsLongest_narrowAfterBroad : FindsLongest (create 100 5 120) narrowAfterBroad := by
  refine (findsLongest_iff 100 5 120 narrowAfterBroad masked_narrowAfterBroad).mpr
    ⟨PrefixTable.fits_of_length_le fun s hs => ?_, PrefixTable.fits_of_length_le fun s hs => ?_,
      trivial⟩
  · cases hs
  · -- only the broad prefix is stored
    have hs : (Function.update (fun _ => none) _ _ s).isSome := hs
    rw [Function.update_apply] at hs
    split at hs
    · rename_i heq
      rw [heq, RtEntry.length_bits (by decide)]
      decide
    · cases hs

/-- A broad prefix after a narrow one. -/
def broadAfterNarrow : List TableCall :=
  [.addEntry 0x0a000000#32 false true 16, .addEntry 0x0a000000#32 false false 8]

theorem runCalls_broadAfterNarrow : runCalls (create 100 5 120) broadAfterNarrow = none := rfl

/-- The calls are those of the contract, no entry is added twice, and the broad prefix is lost. -/
theorem not_findsLongest_broadAfterNarrow :
    (∀ call ∈ broadAfterNarrow, call.Masked) ∧ broadAfterNarrow.Nodup ∧
      ¬ FindsLongest (create 100 5 120) broadAfterNarrow := by
  refine ⟨fun call hcall => ?_, by decide, ?_⟩
  · rw [broadAfterNarrow, List.mem_cons, List.mem_singleton] at hcall
    rcases hcall with rfl | rfl
    · exact ⟨by decide, RtEntry.masked_of_forall_lt (by decide) (by decide)⟩
    · exact ⟨by decide, RtEntry.masked_of_forall_lt (by decide) (by decide)⟩
  · rintro ⟨bl', hsome, -⟩
    rw [runCalls_broadAfterNarrow] at hsome
    cases hsome

end BlackList
