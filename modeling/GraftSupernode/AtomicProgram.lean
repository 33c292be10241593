/-
# Programs of atomic operations

A program is a tree of atomic operations on a shared store: an operation `o : O`
is answered by a reply in `R o`, and the rest of the program is a function of the
reply.  The same program has two readings:

* `Prog.run` performs all its operations without interruption (`Prog.Reaches`: some of them);
* `Config.step` lets one thread of a pool perform its next operation, so that a
  list of turns is an interleaving of the programs.

`Prog.Every P` says that every operation the program can ever issue satisfies `P`; every turn of
a pool keeps it (`every_step`).  `Prog.Post T Q` says that the result satisfies `Q` whenever the
replies satisfy `T` (`post_step`).
-/
import GraftSupernode.Runs
import Mathlib.Logic.Function.Basic

open Runs

namespace AtomicProgram

/-- A program over the operations `O` with replies `R`, returning an `α`. -/
inductive Prog (O : Type*) (R : O → Type*) (α : Type*)
  | ret (a : α) : Prog O R α
  | call (o : O) (k : R o → Prog O R α) : Prog O R α

/-- The meaning of the operations: the reply and the store afterwards. -/
abbrev Meaning (O : Type*) (R : O → Type*) (σ : Type*) := (o : O) → σ → R o × σ

variable {O : Type*} {R : O → Type*} {α σ : Type*}

namespace Prog

/-- The uninterrupted execution of a program. -/
def run (handle : Meaning O R σ) : Prog O R α → σ → α × σ
  | ret a, s => (a, s)
  | call o k, s => run handle (k (handle o s).1) (handle o s).2

/-- A program that has returned changes nothing. -/
@[simp] theorem run_ret (handle : Meaning O R σ) (a : α) (s : σ) :
    (ret a : Prog O R α).run handle s = (a, s) := rfl

/-- A program goes on with the reply to its operation. -/
@[simp] theorem run_call (handle : Meaning O R σ) (o : O) (k : R o → Prog O R α) (s : σ) :
    (call o k).run handle s = (k (handle o s).1).run handle (handle o s).2 := rfl

/-- Every operation the program can issue satisfies `P`. -/
def Every (P : O → Prop) : Prog O R α → Prop
  | ret _ => True
  | call o k => P o ∧ ∀ r, Every P (k r)

/-- A program that has returned issues nothing. -/
@[simp] theorem every_ret (P : O → Prop) (a : α) : Every P (ret a : Prog O R α) := trivial

/-- A program issues its operation, and what comes after any reply. -/
@[simp] theorem every_call (P : O → Prop) (o : O) (k : R o → Prog O R α) :
    Every P (call o k) ↔ P o ∧ ∀ r, Every P (k r) := Iff.rfl

/-- A weaker condition holds of the operations as well. -/
theorem Every.mono {P Q : O → Prop} (hPQ : ∀ o, P o → Q o) {p : Prog O R α}
    (h : p.Every P) : p.Every Q := by
  induction p with
  | ret a => trivial
  | call o k ih => exact ⟨hPQ o h.1, fun r => ih r (h.2 r)⟩

/-- The program with its result replaced. -/
def map {β : Type*} (f : α → β) : Prog O R α → Prog O R β
  | ret a => ret (f a)
  | call o k => call o fun r => (k r).map f

/-- The operations do not depend on what becomes of the result. -/
theorem every_map {β : Type*} {f : α → β} {P : O → Prop} {p : Prog O R α} (h : p.Every P) :
    (p.map f).Every P := by
  induction p with
  | ret a => trivial
  | call o k ih => exact ⟨h.1, fun r => ih r (h.2 r)⟩

/-- Whenever the replies to the operations satisfy `T`, the result satisfies `Q`. -/
def Post (T : (o : O) → R o → Prop) (Q : α → Prop) : Prog O R α → Prop
  | ret a => Q a
  | call o k => ∀ r, T o r → Post T Q (k r)

/-- A result that satisfies `Q` becomes one that satisfies `Q'`. -/
theorem Post.map {β : Type*} {f : α → β} {T : (o : O) → R o → Prop} {Q : α → Prop} {Q' : β → Prop}
    {p : Prog O R α} (h : p.Post T Q) (hQ : ∀ a, Q a → Q' (f a)) : (p.map f).Post T Q' := by
  induction p with
  | ret a => exact hQ a h
  | call o k ih => exact fun r hr => ih r (h r hr)

/-- There is always a condition that holds of the operations. -/
theorem every_true (p : Prog O R α) : p.Every fun _ => True := by
  induction p with
  | ret a => trivial
  | call o k ih => exact ⟨trivial, ih⟩

/-- **Simulation**: when each operation that is issued answers alike on a store and on its view,
a whole execution does too, and it commutes with the view. -/
theorem run_of_view {τ : Type*} {handle : Meaning O R σ} {handle' : Meaning O R τ} {view : σ → τ}
    {P : O → Prop} (hview : ∀ o s, P o → (handle o s).1 = (handle' o (view s)).1 ∧
      view (handle o s).2 = (handle' o (view s)).2) {p : Prog O R α} (hp : p.Every P) (s : σ) :
    (p.run handle s).1 = (p.run handle' (view s)).1 ∧
      view (p.run handle s).2 = (p.run handle' (view s)).2 := by
  induction p generalizing s with
  | ret a => exact ⟨rfl, rfl⟩
  | call o k ih =>
    obtain ⟨hreply, hstore⟩ := hview o s hp.1
    rw [run_call, run_call, ← hreply, ← hstore]
    exact ih _ (hp.2 _) _

/-- The program and the store after some of the operations of an uninterrupted execution:
`q` is what is left of the program, and `s'` is the store. -/
inductive Reaches (handle : Meaning O R σ) (q : Prog O R α) (s' : σ) : Prog O R α → σ → Prop
  | refl : Reaches handle q s' q s'
  | call {o : O} {k : R o → Prog O R α} {s : σ}
      (h : Reaches handle q s' (k (handle o s).1) (handle o s).2) : Reaches handle q s' (call o k) s

/-- What a program reaches ends in the same way. -/
theorem Reaches.run_eq {handle : Meaning O R σ} {p q : Prog O R α} {s s' : σ}
    (h : Reaches handle q s' p s) : p.run handle s = q.run handle s' := by
  induction h with
  | refl => rfl
  | call h ih => rw [run_call, ih]

/-- What a program reaches, it reaches with its result replaced. -/
theorem Reaches.map {β : Type*} (f : α → β) {handle : Meaning O R σ} {p q : Prog O R α} {s s' : σ}
    (h : Reaches handle q s' p s) : Reaches handle (q.map f) s' (p.map f) s := by
  induction h with
  | refl => exact .refl
  | call h ih => exact .call ih

/-- Every program returns. -/
theorem reaches_run (handle : Meaning O R σ) (p : Prog O R α) (s : σ) :
    Reaches handle (ret (p.run handle s).1) (p.run handle s).2 p s := by
  induction p generalizing s with
  | ret a => exact .refl
  | call o k ih => exact .call (ih _ _)

/-- What is reached on a view is reached on the store. -/
theorem Reaches.of_view {τ : Type*} {handle : Meaning O R σ} {handle' : Meaning O R τ}
    {view : σ → τ}
    (hview : ∀ o s, (handle o s).1 = (handle' o (view s)).1 ∧
      view (handle o s).2 = (handle' o (view s)).2) {p q : Prog O R α} {t t' : τ}
    (h : Reaches handle' q t' p t) {s : σ} (hs : view s = t) :
    ∃ s', Reaches handle q s' p s ∧ view s' = t' := by
  induction h generalizing s with
  | refl => exact ⟨s, .refl, hs⟩
  | @call o k t h ih =>
    subst hs
    obtain ⟨hreply, hstore⟩ := hview o s
    obtain ⟨s', h', hs'⟩ := ih hstore
    exact ⟨s', .call (hreply ▸ h'), hs'⟩

/-- The program has returned. -/
def Done : Prog O R α → Prop
  | ret _ => True
  | call _ _ => False

/-- A program that has returned is done. -/
@[simp] theorem done_ret (a : α) : Done (ret a : Prog O R α) := trivial

/-- A program with an operation left is not done. -/
@[simp] theorem not_done_call (o : O) (k : R o → Prog O R α) : ¬ Done (call o k) := id

/-- A program is done or not whatever becomes of its result. -/
@[simp] theorem done_map {β : Type*} (f : α → β) (p : Prog O R α) : (p.map f).Done ↔ p.Done := by
  cases p <;> exact Iff.rfl

end Prog

/-! ## Pools of threads -/

/-- A pool of threads and the store they share. -/
structure Config (ι σ : Type*) (O : Type*) (R : O → Type*) (α : Type*) where
  store : σ
  thread : ι → Prog O R α

/-- A turn of the schedule: a thread performs its next operation, or the
environment acts on the store. -/
inductive Turn (ι E : Type*)
  | thread (i : ι)
  | env (e : E)

namespace Config

variable {ι E : Type*} [DecidableEq ι]

/-- One turn; a thread that has returned takes no more steps. -/
def step (handle : Meaning O R σ) (env : E → σ → σ) (c : Config ι σ O R α) :
    Turn ι E → Config ι σ O R α
  | .thread i =>
    match c.thread i with
    | .ret _ => c
    | .call o k =>
      ⟨(handle o c.store).2, Function.update c.thread i (k (handle o c.store).1)⟩
  | .env e => ⟨env e c.store, c.thread⟩

variable {handle : Meaning O R σ} {env : E → σ → σ} {c : Config ι σ O R α}

/-- A thread that has returned does nothing in its turn. -/
theorem step_thread_of_ret {i : ι} {a : α} (h : c.thread i = .ret a) :
    c.step handle env (.thread i) = c := by
  simp only [step, h]

/-- In its turn a thread has its operation answered, and goes on with the reply. -/
theorem step_thread_of_call {i : ι} {o : O} {k : R o → Prog O R α} (h : c.thread i = .call o k) :
    c.step handle env (.thread i)
      = ⟨(handle o c.store).2, Function.update c.thread i (k (handle o c.store).1)⟩ := by
  simp only [step, h]

/-- The environment changes the store only. -/
@[simp] theorem step_env (e : E) :
    c.step handle env (.env e) = ⟨env e c.store, c.thread⟩ := rfl

/-- A turn of another thread leaves a thread where it is. -/
theorem step_thread_ne {i j : ι} (hij : j ≠ i) :
    (c.step handle env (.thread i)).thread j = c.thread j := by
  cases h : c.thread i with
  | ret a => rw [step_thread_of_ret h]
  | call o k => rw [step_thread_of_call h]; exact Function.update_of_ne hij _ _

/-- Every thread keeps issuing operations that satisfy `P`. -/
theorem every_step {P : O → Prop} (h : ∀ i, (c.thread i).Every P) (t : Turn ι E) (i : ι) :
    ((c.step handle env t).thread i).Every P := by
  cases t with
  | env e => exact h i
  | thread j =>
    cases hj : c.thread j with
    | ret a => rw [step_thread_of_ret hj]; exact h i
    | call o k =>
      rw [step_thread_of_call hj]
      by_cases hij : i = j
      · subst hij
        have hi := h i
        rw [hj] at hi
        simpa using hi.2 _
      · simpa [Function.update_of_ne hij] using h i

/-- A turn whose reply satisfies `T` keeps what is known of the result of a thread. -/
theorem post_step {T : (o : O) → R o → Prop} {Q : α → Prop} {i : ι}
    (h : (c.thread i).Post T Q) (t : Turn ι E)
    (hT : ∀ o k, c.thread i = .call o k → T o (handle o c.store).1) :
    ((c.step handle env t).thread i).Post T Q := by
  cases t with
  | env e => exact h
  | thread j =>
    by_cases hij : i = j
    · subst hij
      cases hi : c.thread i with
      | ret a => rwa [step_thread_of_ret hi]
      | call o k =>
        rw [hi] at h
        rw [step_thread_of_call hi]
        simpa using h _ (hT o k hi)
    · rwa [step_thread_ne hij]

/-- A thread that is about to perform an operation and has returned later has taken its turn in
between. -/
theorem exists_turn {i : ι} {o : O} {k : R o → Prog O R α} {ts : List (Turn ι E)}
    (hi : c.thread i = .call o k) (hdone : ((exec (step handle env) c ts).thread i).Done) :
    ∃ pre post, ts = pre ++ .thread i :: post ∧
      (exec (step handle env) c pre).thread i = .call o k := by
  induction ts generalizing c with
  | nil =>
    rw [exec_nil, hi] at hdone
    exact hdone.elim
  | cons t ts ih =>
    by_cases ht : t = .thread i
    · exact ⟨[], ts, by rw [ht]; rfl, hi⟩
    · have hsame : (c.step handle env t).thread i = c.thread i := by
        cases t with
        | env e => rfl
        | thread j => exact step_thread_ne fun hij => ht (hij ▸ rfl)
      obtain ⟨pre, post, hts, hpre⟩ := ih (hsame.trans hi) hdone
      exact ⟨t :: pre, post, by rw [hts]; rfl, hpre⟩

/-- Turns of one thread: the pool reaches what the thread reaches. -/
theorem exists_exec_of_reaches (env : E → σ → σ) {i : ι} {q : Prog O R α} {s' : σ}
    (h : Prog.Reaches handle q s' (c.thread i) c.store) :
    ∃ n, exec (step handle env) c (List.replicate n (.thread i))
      = ⟨s', Function.update c.thread i q⟩ := by
  generalize hp : c.thread i = p at h
  generalize hs : c.store = s at h
  induction h generalizing c with
  | refl => exact ⟨0, by rw [← hp, ← hs, Function.update_eq_self]; rfl⟩
  | @call o k s h ih =>
    subst hs
    have hstep : c.step handle env (.thread i) = _ := step_thread_of_call hp
    obtain ⟨n, hn⟩ := ih (c := c.step handle env (.thread i)) (by rw [hstep]; simp)
      (by rw [hstep])
    refine ⟨n + 1, ?_⟩
    rw [List.replicate_succ, exec_cons, hn, hstep]
    simp

/-- All threads have returned. -/
def Finished (c : Config ι σ O R α) : Prop := ∀ i, (c.thread i).Done

end Config

end AtomicProgram
