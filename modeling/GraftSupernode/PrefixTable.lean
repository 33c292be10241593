/-
# Tables of prefixes

A table gives values to some strings.  `longest` looks a word up: it is the value of the longest
prefix of the word that has one.  `IsNode` are the strings at which a compressed tree for the table
has a node: those with a value, and those after which strings with a value go on differently.

`Fits` compares a prefix of a word with the longer ones: it is a node itself, or no longer prefix
of the word is one.
-/
import Mathlib.Data.List.Infix
import Mathlib.Data.List.Range
import Mathlib.Logic.Function.Basic

namespace List

variable {α : Type*} {p q r w : List α} {a b : α}

theorem prefix_snoc_of_prefix (h : q <+: w) (hlt : q.length < w.length) :
    q ++ [w[q.length]] <+: w := by
  obtain ⟨r, rfl⟩ := h
  cases r with
  | nil => simp at hlt
  | cons a r => simp

/-- A longer prefix goes on with the same letter. -/
theorem snoc_prefix_of_length_lt (h : q ++ [a] <+: w) (hr : r <+: w) (hlt : q.length < r.length) :
    q ++ [a] <+: r := by
  refine prefix_of_prefix_length_le h hr ?_
  rw [length_append, length_singleton]
  exact hlt

theorem eq_of_snoc_prefix (ha : q ++ [a] <+: w) (hb : q ++ [b] <+: w) : a = b := by
  have heq := (prefix_of_prefix_length_le ha hb (by simp)).eq_of_length (by simp)
  simpa using heq

end List

/-- The values of some strings. -/
abbrev PrefixTable (α T : Type*) := List α → Option T

namespace PrefixTable

variable {α T : Type*} {table : PrefixTable α T} {q w : List α} {v : T}

/-- The value of the longest prefix of the word that has one. -/
def longest (table : PrefixTable α T) (w : List α) : Option T :=
  (List.range (w.length + 1)).reverse.findSome? fun n => table (w.take n)

/-- The string has the value `v`, unless it had one before. -/
def insertNew [DecidableEq α] (table : PrefixTable α T) (q : List α) (v : T) : PrefixTable α T :=
  if (table q).isSome then table else Function.update table q (some v)

/-- The string has no value any more. -/
def erase [DecidableEq α] (table : PrefixTable α T) (q : List α) : PrefixTable α T :=
  Function.update table q none

/-- The longest prefix of the word that has a value, with its value. -/
structure IsLongest (table : PrefixTable α T) (w q : List α) (v : T) : Prop where
  is_prefix : q <+: w
  value : table q = some v
  le : ∀ q', q' <+: w → (table q').isSome → q'.length ≤ q.length

theorem findSome_range_reverse {β : Type*} (f : ℕ → Option β) (n : ℕ) :
    ((List.range n).reverse.findSome? f = none ∧ ∀ i < n, f i = none) ∨
      ∃ i < n, ∃ v, f i = some v ∧ (List.range n).reverse.findSome? f = some v ∧
        ∀ j < n, (f j).isSome → j ≤ i := by
  induction n with
  | zero => exact .inl ⟨rfl, fun i hi => absurd hi (Nat.not_lt_zero i)⟩
  | succ n ih =>
    rw [List.range_succ, List.reverse_append, List.reverse_singleton, List.singleton_append,
      List.findSome?_cons]
    cases hn : f n with
    | some v =>
      exact .inr ⟨n, n.lt_succ_self, v, hn, rfl, fun j hj _ => Nat.le_of_lt_succ hj⟩
    | none =>
      have hlast {j : ℕ} (hj : j < n + 1) (hsome : (f j).isSome) : j < n := by
        refine (Nat.lt_succ_iff_lt_or_eq.mp hj).resolve_right ?_
        rintro rfl
        rw [hn] at hsome
        cases hsome
      rcases ih with ⟨hnone, hall⟩ | ⟨i, hi, v, hv, hsome, hle⟩
      · refine .inl ⟨hnone, fun i hi => ?_⟩
        rcases Nat.lt_succ_iff_lt_or_eq.mp hi with hlt | rfl
        · exact hall i hlt
        · exact hn
      · refine .inr ⟨i, hi.trans n.lt_succ_self, v, hv, hsome, ?_⟩
        intro j hj hj'
        exact hle j (hlast hj hj') hj'

/-- **The longest prefix decides**. -/
theorem longest_eq_some_iff : table.longest w = some v ↔ ∃ q, table.IsLongest w q v := by
  have htake {q : List α} (hq : q <+: w) : q = w.take q.length := List.prefix_iff_eq_take.mp hq
  have hlt {q : List α} (hq : q <+: w) : q.length < w.length + 1 := Nat.lt_succ_of_le hq.length_le
  rcases findSome_range_reverse (fun n => table (w.take n)) (w.length + 1) with
    ⟨hnone, hall⟩ | ⟨i, hi, u, hu, hsome, hle⟩
  · have hno : table.longest w = none := hnone
    rw [hno]
    simp only [reduceCtorEq, false_iff]
    rintro ⟨q, hq, hv, -⟩
    have hnil := hall q.length (hlt hq)
    rw [← htake hq, hv] at hnil
    cases hnil
  · have hyes : table.longest w = some u := hsome
    have hmax : table.IsLongest w (w.take i) u := by
      refine ⟨List.take_prefix _ _, hu, fun q' hq' hsome' => ?_⟩
      rw [htake hq'] at hsome'
      have hqle := hle q'.length (hlt hq') hsome'
      rw [List.length_take]
      have := hq'.length_le
      omega
    rw [hyes]
    constructor
    · rintro ⟨⟩
      exact ⟨_, hmax⟩
    · rintro ⟨q, hq⟩
      have hle₁ := hmax.le q hq.is_prefix (by rw [hq.value]; rfl)
      have hle₂ := hq.le _ hmax.is_prefix (by rw [hmax.value]; rfl)
      have hlen : q.length = (w.take i).length := by omega
      rw [← hmax.value, ← hq.value, htake hq.is_prefix, hlen, ← htake hmax.is_prefix]

theorem longest_eq_none_iff : table.longest w = none ↔ ∀ q, q <+: w → table q = none := by
  rcases findSome_range_reverse (fun n => table (w.take n)) (w.length + 1) with
    ⟨hnone, hall⟩ | ⟨i, hi, u, hu, hsome, -⟩
  · refine ⟨fun _ q hq => ?_, fun _ => hnone⟩
    rw [List.prefix_iff_eq_take.mp hq]
    exact hall q.length (Nat.lt_succ_of_le hq.length_le)
  · have hyes : table.longest w = some u := hsome
    refine ⟨fun hno => ?_, fun hno => ?_⟩
    · rw [hyes] at hno
      cases hno
    · have hnil := hno _ (List.take_prefix i w)
      rw [hu] at hnil
      cases hnil

/-- Only the prefixes of the word are looked at. -/
theorem longest_congr {table' : PrefixTable α T} (h : ∀ q, q <+: w → table q = table' q) :
    table.longest w = table'.longest w := by
  have heq : (fun n => table (w.take n)) = fun n => table' (w.take n) := by
    funext n
    exact h _ (List.take_prefix n w)
  rw [longest, longest, heq]

/-- No prefix of the word is longer than the word. -/
theorem longest_of_value (h : table w = some v) : table.longest w = some v :=
  longest_eq_some_iff.mpr ⟨w, List.prefix_refl w, h, fun _ hq _ => hq.length_le⟩

/-! ## Nodes -/

/-- A compressed tree for the strings of `S` has a node at `q`. -/
def IsNode (S : List α → Prop) (q : List α) : Prop :=
  S q ∨ ∃ a b, a ≠ b ∧ (∃ s, S s ∧ q ++ [a] <+: s) ∧ ∃ s, S s ∧ q ++ [b] <+: s

/-- The prefix of length `n` of the word is a node, or no longer one is. -/
def Fits (S : List α → Prop) (w : List α) (n : ℕ) : Prop :=
  IsNode S (w.take n) ∨ ∀ m, n < m → m ≤ w.length → ¬ IsNode S (w.take m)

theorem IsNode.exists_prefix {S : List α → Prop} (h : IsNode S q) : ∃ s, S s ∧ q <+: s := by
  rcases h with hq | ⟨a, b, -, ⟨s, hs, ha⟩, -⟩
  · exact ⟨q, hq, List.prefix_refl q⟩
  · exact ⟨s, hs, (List.prefix_append q [a]).trans ha⟩

/-- What is not shorter than anything in the table fits. -/
theorem fits_of_length_le {S : List α → Prop} {n : ℕ} (h : ∀ s, S s → s.length ≤ n) :
    Fits S w n := by
  refine .inr fun m hlt hle hnode => ?_
  obtain ⟨s, hs, hpre⟩ := hnode.exists_prefix
  have hlen := hpre.length_le
  rw [List.length_take_of_le hle] at hlen
  have := h s hs
  omega

/-- Between two nodes: where all strings that go on from `q` have the longer prefix `r`, there is
no node. -/
theorem not_isNode_of_prefix {S : List α → Prop} {r : List α} (hlt : q.length < r.length)
    (hS : ∀ s, S s → q <+: s → r <+: s) : ¬ IsNode S q := by
  rintro (hq | ⟨a, b, hab, ⟨s, hs, ha⟩, s', hs', hb⟩)
  · have hle := (hS q hq (List.prefix_refl q)).length_le
    omega
  · have hr := hS s hs ((List.prefix_append q [a]).trans ha)
    have hr' := hS s' hs' ((List.prefix_append q [b]).trans hb)
    have ha' : q ++ [a] <+: r := List.snoc_prefix_of_length_lt ha hr hlt
    have hb' : q ++ [b] <+: r := List.snoc_prefix_of_length_lt hb hr' hlt
    exact hab (List.eq_of_snoc_prefix ha' hb')

end PrefixTable
