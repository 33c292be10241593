/-
# Simulation of pools

Two stores that answer each operation alike, and stay related, do so under any schedule: a pool of
threads over the one does what a pool over the other can do, turn for turn.

* `Simulates`: the pools have the same threads and related stores;
* `exists_exec_of_simulates`: a run of the one is matched by a run of the other.
-/
import GraftSupernode.AtomicProgram
import Mathlib.Data.List.Forall2

open Runs

namespace AtomicProgram

variable {O : Type*} {R : O → Type*} {α ι σ τ E E' : Type*}

/-- Both are turns of one thread, or turns of the environment. -/
inductive Turn.Like : Turn ι E → Turn ι E' → Prop
  | thread (i : ι) : Like (.thread i) (.thread i)
  | env (e : E) (e' : E') : Like (.env e) (.env e')

/-- The operations answer alike on related stores, and keep them related. -/
def Agree (Rel : σ → τ → Prop) (handle : Meaning O R σ) (handle' : Meaning O R τ) : Prop :=
  ∀ o s t, Rel s t → (handle o s).1 = (handle' o t).1 ∧ Rel (handle o s).2 (handle' o t).2

/-- What the environment does to the one store it can do to the other. -/
def EnvAgree (Rel : σ → τ → Prop) (env : E → σ → σ) (env' : E' → τ → τ) : Prop :=
  ∀ e s t, Rel s t → ∃ e', Rel (env e s) (env' e' t)

variable {Rel : σ → τ → Prop} {handle : Meaning O R σ} {handle' : Meaning O R τ}

/-- An uninterrupted execution returns the same on both stores. -/
theorem Agree.run (h : Agree Rel handle handle') (p : Prog O R α) {s : σ} {t : τ}
    (hst : Rel s t) :
    (p.run handle s).1 = (p.run handle' t).1 ∧ Rel (p.run handle s).2 (p.run handle' t).2 := by
  induction p generalizing s t with
  | ret a => exact ⟨rfl, hst⟩
  | call o k ih =>
    obtain ⟨hreply, hstore⟩ := h o s t hst
    rw [Prog.run_call, Prog.run_call, hreply]
    exact ih _ hstore

namespace Config

/-- The pools have the same threads, and their stores are related. -/
structure Simulates (Rel : σ → τ → Prop) (c : Config ι σ O R α) (c' : Config ι τ O R α) : Prop where
  thread : c.thread = c'.thread
  store : Rel c.store c'.store

variable [DecidableEq ι] {env : E → σ → σ} {env' : E' → τ → τ}
variable {c : Config ι σ O R α} {c' : Config ι τ O R α}

/-- **One turn** is matched by one of the other pool. -/
theorem Simulates.exists_step (h : Simulates Rel c c') (hop : Agree Rel handle handle')
    (henv : EnvAgree Rel env env') (t : Turn ι E) :
    ∃ t', t.Like t' ∧ Simulates Rel (c.step handle env t) (c'.step handle' env' t') := by
  cases t with
  | env e =>
    obtain ⟨e', hstore⟩ := henv e _ _ h.store
    exact ⟨.env e', .env e e', h.thread, hstore⟩
  | thread i =>
    refine ⟨.thread i, .thread i, ?_⟩
    cases hi : c.thread i with
    | ret a =>
      have hi' : c'.thread i = .ret a := by rw [← h.thread, hi]
      rw [step_thread_of_ret hi, step_thread_of_ret hi']
      exact h
    | call o k =>
      have hi' : c'.thread i = .call o k := by rw [← h.thread, hi]
      obtain ⟨hreply, hstore⟩ := hop o _ _ h.store
      rw [step_thread_of_call hi, step_thread_of_call hi']
      refine ⟨?_, hstore⟩
      rw [hreply, h.thread]

/-- **A run** is matched by one of the other pool with the same turns of the threads. -/
theorem exists_exec_of_simulates (h : Simulates Rel c c') (hop : Agree Rel handle handle')
    (henv : EnvAgree Rel env env') (ts : List (Turn ι E)) :
    ∃ ts', List.Forall₂ Turn.Like ts ts' ∧
      Simulates Rel (exec (step handle env) c ts) (exec (step handle' env') c' ts') := by
  induction ts generalizing c c' with
  | nil => exact ⟨[], .nil, h⟩
  | cons t ts ih =>
    obtain ⟨t', hlike, hstep⟩ := h.exists_step hop henv t
    obtain ⟨ts', hlikes, hexec⟩ := ih hstep
    exact ⟨t' :: ts', .cons hlike hlikes, hexec⟩

end Config

end AtomicProgram
