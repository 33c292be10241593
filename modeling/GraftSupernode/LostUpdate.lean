/-
# Lost updates

Many writers share one register.  Each reads it, adds its own contribution to the
value it has read, and writes the result back in a second step.  The register is
modelled by the list of the contributions it contains.

* `Access`, `State`, `step`: the reads and writes, in the order in which they happen;
* `Overlap`: between the read and the write of one writer there is a write of another;
* `all_contribute_iff`: at the end every writer's contribution is in the register exactly
  when there is no overlap.

The state also records who holds a stale value (`stale`); the counting invariant is
`Holds`: a stale value, and the register after a stale write, have fewer contributions
than there were writes.
-/
import GraftSupernode.Runs
import Mathlib.Data.List.Nodup
import Mathlib.Data.List.Perm.Subperm
import Mathlib.Logic.Function.Basic

open Runs

namespace LostUpdate

/-- A writer reads the register, or writes it. -/
inductive Access (ι : Type*)
  | read (i : ι)
  | write (i : ι)

/-- The register, the values that have been read, who has read a value that has been
overwritten since, and who has written. -/
structure State (ι : Type*) where
  value : List ι
  snapshot : ι → Option (List ι)
  stale : ι → Bool
  done : ι → Bool

variable {ι : Type*}

/-- The writers, in the order of their writes. -/
def writers (es : List (Access ι)) : List ι :=
  es.filterMap fun
    | .read _ => none
    | .write i => some i

/-- Nobody writes in an empty run. -/
@[simp] theorem writers_nil : writers ([] : List (Access ι)) = [] := rfl

/-- A read is no write. -/
@[simp] theorem writers_read (i : ι) (es : List (Access ι)) :
    writers (.read i :: es) = writers es := rfl

/-- A write has its thread among the writers. -/
@[simp] theorem writers_write (i : ι) (es : List (Access ι)) :
    writers (.write i :: es) = i :: writers es := rfl

/-- The writers are the threads that write. -/
theorem mem_writers {i : ι} {es : List (Access ι)} : i ∈ writers es ↔ .write i ∈ es := by
  induction es with
  | nil => simp
  | cons e es ih => cases e <;> simp [ih]

/-- The register is empty and nobody has read it. -/
def init : State ι := ⟨[], fun _ => none, fun _ => false, fun _ => false⟩

/-- A write comes after a read of the same writer. -/
def HasRead (s : State ι) : Access ι → Prop
  | .read _ => True
  | .write i => (s.snapshot i).isSome

/-- Each writer reads once and then writes once. -/
def InTurn (s : State ι) : Access ι → Prop
  | .read i => s.snapshot i = none ∧ s.done i = false
  | .write i => (s.snapshot i).isSome ∧ s.done i = false

/-- Whoever writes in turn has read. -/
theorem InTurn.hasRead {s : State ι} {e : Access ι} (h : InTurn s e) : HasRead s e := by
  cases e with
  | read i => trivial
  | write i => exact h.1

/-- A write is made with a value that has not been overwritten since it was read. -/
def Fresh (s : State ι) : Access ι → Prop
  | .read _ => True
  | .write i => s.stale i = false

variable [DecidableEq ι]

/-- A read takes the value; a write adds a contribution to the value that was read. -/
def step (s : State ι) : Access ι → State ι
  | .read i =>
    { s with
      snapshot := Function.update s.snapshot i (some s.value)
      stale := Function.update s.stale i false }
  | .write i =>
    { s with
      value := (s.snapshot i).getD s.value ++ [i]
      stale := fun _ => true
      done := Function.update s.done i true }

/-- A read concerns the thread that reads. -/
theorem step_read_snapshot {s : State ι} {i k : ι} (h : i ≠ k) :
    (step s (.read k)).snapshot i = s.snapshot i := Function.update_of_ne h _ _

/-- A read does not change the value. -/
theorem step_read_value (s : State ι) (i : ι) : (step s (.read i)).value = s.value := rfl

/-! ## Counting contributions -/

/-- After `n` writes: nothing has more than `n` contributions, what is stale has fewer, and what
is not stale is the value of the register. -/
structure Holds (n : ℕ) (s : State ι) : Prop where
  value : s.value.length ≤ n
  stale : ∀ i r, s.snapshot i = some r → s.stale i = true → r.length < n
  fresh : ∀ i r, s.snapshot i = some r → s.stale i = false → r = s.value

omit [DecidableEq ι] in
/-- In the beginning nothing has been counted. -/
theorem holds_init : Holds 0 (init : State ι) where
  value := le_rfl
  stale _ _ h := by cases h
  fresh _ _ h := by cases h

/-- A read counts nothing. -/
theorem Holds.read {n : ℕ} {s : State ι} (h : Holds n s) (i : ι) : Holds n (step s (.read i)) := by
  refine ⟨h.value, fun j r hj hstale => ?_, fun j r hj hfresh => ?_⟩
  · by_cases hij : j = i
    · subst hij
      simp [step] at hstale
    · simp only [step, Function.update_of_ne hij] at hj hstale
      exact h.stale j r hj hstale
  · by_cases hij : j = i
    · subst hij
      simpa [step, eq_comm] using hj
    · simp only [step, Function.update_of_ne hij] at hj hfresh
      exact h.fresh j r hj hfresh

omit [DecidableEq ι] in
/-- What has been read has at most as many contributions as there were writes. -/
theorem Holds.snapshot_length {n : ℕ} {s : State ι} (h : Holds n s) {i : ι} {r : List ι}
    (hr : s.snapshot i = some r) : r.length ≤ n := by
  cases hstale : s.stale i with
  | true => exact (h.stale i r hr hstale).le
  | false => exact h.fresh i r hr hstale ▸ h.value

/-- **One write** adds a contribution to what was read; all values read before are stale now. -/
theorem Holds.write {n : ℕ} {s : State ι} (h : Holds n s) {i : ι} {r : List ι}
    (hr : s.snapshot i = some r) : Holds (n + 1) (step s (.write i)) := by
  have hlen := h.snapshot_length hr
  refine ⟨?_, fun j r hj _ => ?_, fun j r hj hfresh => ?_⟩
  · simpa [step, hr] using hlen
  · exact Nat.lt_succ_of_le (h.snapshot_length hj)
  · simp [step] at hfresh

/-- From a state in which no contribution is missing, none is missing at the end exactly when
every write is fresh; from one in which some are missing, some still are. -/
theorem exec_length {n : ℕ} {s : State ι} {es : List (Access ι)} (h : Holds n s)
    (hread : Along step HasRead s es) :
    (exec step s es).value.length ≤ n + (writers es).length ∧
      (s.value.length = n →
        ((exec step s es).value.length = n + (writers es).length ↔ Along step Fresh s es)) ∧
      (s.value.length < n → (exec step s es).value.length < n + (writers es).length) := by
  induction es generalizing n s with
  | nil => exact ⟨h.value, fun hn => by simpa using hn, fun hn => by simpa using hn⟩
  | cons e es ih =>
    obtain ⟨he, hes⟩ := hread
    cases e with
    | read i => simpa [Fresh, step_read_value] using ih (h.read i) hes
    | write i =>
      obtain ⟨r, hr⟩ := Option.isSome_iff_exists.mp he
      have hvalue : (step s (.write i)).value.length = r.length + 1 := by simp [step, hr]
      obtain ⟨hle, heq, hlt⟩ := ih (h.write hr) hes
      rw [writers_write, List.length_cons, along_cons, exec_cons, Fresh]
      have hsum : n + ((writers es).length + 1) = n + 1 + (writers es).length := by omega
      rw [hsum]
      refine ⟨hle, fun hn => ?_, fun hn => ?_⟩
      · cases hstale : s.stale i with
        | false =>
          have hfresh := h.fresh i r hr hstale
          rw [heq (by rw [hvalue, hfresh, hn])]
          simp
        | true =>
          have hmissing := h.stale i r hr hstale
          have := hlt (by omega)
          exact iff_of_false (by omega) (fun hall => by simp at hall)
      · apply hlt
        cases hstale : s.stale i with
        | false => rw [hvalue, h.fresh i r hr hstale]; omega
        | true =>
          have hmissing := h.stale i r hr hstale
          omega

/-- Fresh writes add up. -/
theorem exec_value_of_fresh {n : ℕ} {s : State ι} {es : List (Access ι)} (h : Holds n s)
    (hread : Along step HasRead s es) (hfresh : Along step Fresh s es) :
    (exec step s es).value = s.value ++ writers es := by
  induction es generalizing n s with
  | nil => simp
  | cons e es ih =>
    obtain ⟨he, hread⟩ := hread
    obtain ⟨hstale, hfresh⟩ := hfresh
    cases e with
    | read i => exact ih (h.read i) hread hfresh
    | write i =>
      obtain ⟨r, hr⟩ := Option.isSome_iff_exists.mp he
      have hvalue : (step s (.write i)).value = s.value ++ [i] := by
        simp [step, hr, h.fresh i r hr hstale]
      rw [exec_cons, ih (h.write hr) hread hfresh, hvalue, writers_write, List.append_assoc,
        List.singleton_append]

/-! ## Overlapping accesses -/

/-- Every writer reads at most once and writes at most once. -/
structure OnceEach (es : List (Access ι)) : Prop where
  reads : ∀ i, ¬ List.Sublist [.read i, .read i] es
  writes : ∀ i, ¬ List.Sublist [.write i, .write i] es

omit [DecidableEq ι] in
/-- What is left of a run has each access once, too. -/
theorem OnceEach.tail {e : Access ι} {es : List (Access ι)} (h : OnceEach (e :: es)) :
    OnceEach es :=
  ⟨fun i hi => h.reads i (hi.cons _), fun i hi => h.writes i (hi.cons _)⟩

omit [DecidableEq ι] in
/-- Each thread writes once. -/
theorem OnceEach.nodup_writers {es : List (Access ι)} (h : OnceEach es) : (writers es).Nodup := by
  induction es with
  | nil => exact List.nodup_nil
  | cons e es ih =>
    cases e with
    | read i => exact ih h.tail
    | write i =>
      refine List.nodup_cons.mpr ⟨fun hi => ?_, ih h.tail⟩
      exact h.writes i ((List.singleton_sublist.mpr (mem_writers.mp hi)).cons_cons _)

/-- Writers who take their turns: no writer that has read reads again, and none that has written
writes again. -/
theorem onceEach_of_inTurn {s : State ι} {es : List (Access ι)} (h : Along step InTurn s es) :
    OnceEach es ∧ (∀ i, (s.snapshot i).isSome → .read i ∉ es) ∧
      ∀ i, s.done i = true → .write i ∉ es := by
  induction es generalizing s with
  | nil => exact ⟨⟨fun i hi => by simp at hi, fun i hi => by simp at hi⟩, by simp, by simp⟩
  | cons e es ih =>
    -- what is done at the first access is not done again in the rest
    obtain ⟨he, hes⟩ := h
    obtain ⟨honce, hread, hwrite⟩ := ih hes
    cases e with
    | read k =>
      have hsome : ∀ i, (s.snapshot i).isSome → .read i ∉ es := by
        intro i hi
        refine hread i ?_
        by_cases hik : i = k
        · subst hik; simp [step]
        · rwa [step_read_snapshot hik]
      have hk : Access.read k ∉ es := hread k (by simp [step])
      refine ⟨⟨fun i hi => ?_, fun i hi => ?_⟩, fun i hi hmem => ?_, fun i hi hmem => ?_⟩
      · rcases List.cons_sublist_cons'.mp hi with hi | ⟨hsame, hi⟩
        · exact honce.reads i hi
        · cases hsame
          exact hk (List.singleton_sublist.mp hi)
      · exact honce.writes i (by simpa [List.cons_sublist_cons'] using hi)
      · rcases List.mem_cons.mp hmem with hsame | hmem
        · cases hsame
          rw [he.1] at hi
          cases hi
        · exact hsome i hi hmem
      · exact hwrite i hi (by simpa using hmem)
    | write k =>
      have hk : Access.write k ∉ es := hwrite k (by simp [step])
      refine ⟨⟨fun i hi => ?_, fun i hi => ?_⟩, fun i hi hmem => ?_, fun i hi hmem => ?_⟩
      · exact honce.reads i (by simpa [List.cons_sublist_cons'] using hi)
      · rcases List.cons_sublist_cons'.mp hi with hi | ⟨hsame, hi⟩
        · exact honce.writes i hi
        · cases hsame
          exact hk (List.singleton_sublist.mp hi)
      · exact hread i hi (by simpa using hmem)
      · rcases List.mem_cons.mp hmem with hsame | hlater
        · cases hsame
          rw [he.2] at hi
          cases hi
        · have hik : i ≠ k := fun hik => hk (hik ▸ hlater)
          exact hwrite i (by simpa [step, Function.update_of_ne hik] using hi) hlater

/-- Between the read and the write of a writer there is a write of another one. -/
def Overlap (es : List (Access ι)) : Prop :=
  ∃ i j, j ≠ i ∧ List.Sublist [.read i, .write j, .write i] es

/-- A writer that has read before `s` writes a value that is stale in `s` or later. -/
def LateWrite (s : State ι) (es : List (Access ι)) : Prop :=
  ∃ i, (s.snapshot i).isSome ∧
    (s.stale i = true ∧ .write i ∈ es ∨ ∃ j, j ≠ i ∧ List.Sublist [.write j, .write i] es)

/-- A read that is the first of its writer. -/
theorem lateWrite_read {s : State ι} {k : ι} {es : List (Access ι)}
    (hk : (s.snapshot k).isSome = false) :
    LateWrite (step s (.read k)) es ∨ Overlap es ↔
      LateWrite s (.read k :: es) ∨ Overlap (.read k :: es) := by
  constructor
  · rintro (⟨i, hi, hlate⟩ | ⟨i, j, hij, hsub⟩)
    · by_cases hik : i = k
      · subst hik
        rcases hlate with ⟨hstale, -⟩ | ⟨j, hij, hsub⟩
        · simp [step] at hstale
        · exact .inr ⟨i, j, hij, hsub.cons_cons _⟩
      · simp only [step, Function.update_of_ne hik] at hi hlate
        refine .inl ⟨i, hi, ?_⟩
        rcases hlate with ⟨hstale, hmem⟩ | ⟨j, hij, hsub⟩
        · exact .inl ⟨hstale, List.mem_cons_of_mem _ hmem⟩
        · exact .inr ⟨j, hij, hsub.cons _⟩
    · exact .inr ⟨i, j, hij, hsub.cons _⟩
  · rintro (⟨i, hi, hlate⟩ | ⟨i, j, hij, hsub⟩)
    · have hik : i ≠ k := by
        rintro rfl
        rw [hi] at hk
        cases hk
      refine .inl ⟨i, by simpa [step, Function.update_of_ne hik] using hi, ?_⟩
      simp only [step, Function.update_of_ne hik]
      rcases hlate with ⟨hstale, hmem⟩ | ⟨j, hij, hsub⟩
      · exact .inl ⟨hstale, by simpa using hmem⟩
      · exact .inr ⟨j, hij, by simpa [List.cons_sublist_cons'] using hsub⟩
    · rcases List.cons_sublist_cons'.mp hsub with hsub | ⟨hsame, hsub⟩
      · exact .inr ⟨i, j, hij, hsub⟩
      · cases hsame
        exact .inl ⟨k, by simp [step], .inr ⟨j, hij, hsub⟩⟩

/-- A write that is the last of its writer: what the others have read is stale from now on. -/
theorem lateWrite_write {s : State ι} {k : ι} {es : List (Access ι)}
    (hk : (s.snapshot k).isSome) (hkes : .write k ∉ es) :
    s.stale k = true ∨ LateWrite (step s (.write k)) es ∨ Overlap es ↔
      LateWrite s (.write k :: es) ∨ Overlap (.write k :: es) := by
  constructor
  · rintro (hstale | ⟨i, hi, hlate⟩ | ⟨i, j, hij, hsub⟩)
    · exact .inl ⟨k, hk, .inl ⟨hstale, List.mem_cons_self⟩⟩
    · have hmem : Access.write i ∈ es := by
        rcases hlate with ⟨-, hmem⟩ | ⟨j, -, hsub⟩
        · exact hmem
        · exact hsub.subset (by simp)
      have hik : k ≠ i := fun h => hkes (h ▸ hmem)
      exact .inl ⟨i, hi, .inr ⟨k, hik, (List.singleton_sublist.mpr hmem).cons_cons _⟩⟩
    · exact .inr ⟨i, j, hij, hsub.cons _⟩
  · rintro (⟨i, hi, hlate⟩ | ⟨i, j, hij, hsub⟩)
    · rcases hlate with ⟨hstale, hmem⟩ | ⟨j, hij, hsub⟩
      · rcases List.mem_cons.mp hmem with hsame | hmem
        · cases hsame
          exact .inl hstale
        · exact .inr (.inl ⟨i, hi, .inl ⟨rfl, hmem⟩⟩)
      · have hmem : Access.write i ∈ es := by
          rcases List.cons_sublist_cons'.mp hsub with hsub | ⟨-, hsub⟩
          · exact hsub.subset (by simp)
          · exact List.singleton_sublist.mp hsub
        exact .inr (.inl ⟨i, hi, .inl ⟨rfl, hmem⟩⟩)
    · refine .inr (.inr ⟨i, j, hij, ?_⟩)
      simpa [List.cons_sublist_cons'] using hsub

/-- A run is not fresh when a write comes late, or two threads overlap. -/
theorem not_fresh_iff {s : State ι} {es : List (Access ι)} (hread : Along step HasRead s es)
    (honce : OnceEach es) (hseen : ∀ i, (s.snapshot i).isSome → .read i ∉ es) :
    ¬ Along step Fresh s es ↔ LateWrite s es ∨ Overlap es := by
  induction es generalizing s with
  | nil => simp [LateWrite, Overlap]
  | cons e es ih =>
    obtain ⟨he, hes⟩ := hread
    have hseen' : ∀ i, ((step s e).snapshot i).isSome → .read i ∉ es := by
      intro i hi hmem
      cases e with
      | write k => exact hseen i hi (List.mem_cons_of_mem _ hmem)
      | read k =>
        by_cases hik : i = k
        · subst hik
          exact honce.reads i ((List.singleton_sublist.mpr hmem).cons_cons _)
        · rw [step_read_snapshot hik] at hi
          exact hseen i hi (List.mem_cons_of_mem _ hmem)
    rw [along_cons, not_and_or, ih hes honce.tail hseen']
    cases e with
    | read k =>
      have hk : (s.snapshot k).isSome = false := by
        rw [← Bool.not_eq_true]
        exact fun hk => hseen k hk List.mem_cons_self
      rw [Fresh, not_true, false_or, lateWrite_read hk]
    | write k =>
      have hkes : Access.write k ∉ es := fun hmem =>
        honce.writes k ((List.singleton_sublist.mpr hmem).cons_cons _)
      rw [Fresh, Bool.not_eq_false, lateWrite_write he hkes]

/-- **Lost updates**: every writer's contribution is in the register at the end exactly when no
accesses overlap. -/
theorem all_contribute_iff {es : List (Access ι)} (hturn : Along step InTurn init es) :
    (∀ i, .write i ∈ es → i ∈ (exec step init es).value) ↔ ¬ Overlap es := by
  have hread : Along step HasRead init es := hturn.mono fun _ _ => InTurn.hasRead
  have honce : OnceEach es := (onceEach_of_inTurn hturn).1
  obtain ⟨hle, heq, -⟩ := exec_length holds_init hread
  have hfresh : Along step Fresh init es ↔ ¬ Overlap es := by
    rw [← not_iff_not, not_fresh_iff hread honce (fun i hi => by cases hi), not_not]
    exact or_iff_right (fun ⟨i, hi, _⟩ => by cases hi)
  rw [← hfresh]
  constructor
  · intro hall
    have hsub : writers es ⊆ (exec step init es).value := fun i hi => hall i (mem_writers.mp hi)
    have hlen := (List.subperm_of_subset honce.nodup_writers hsub).length_le
    exact (heq rfl).mp (by omega)
  · intro hall i hi
    rw [exec_value_of_fresh holds_init hread hall]
    exact List.mem_append_right _ (mem_writers.mpr hi)

end LostUpdate
