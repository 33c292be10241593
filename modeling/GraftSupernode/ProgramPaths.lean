/-
# Programs among others

What a program does when its operations are answered in any way: other programs can change the
store between any two of them.  A `Path` is a way through the program, with the answers that it
takes; `Until B Q` says of all ways at once that they come to a part of the program that satisfies
`B`, or return a value that satisfies `Q`.

A thread of a pool goes along a path, whatever the turns are (`exists_path_exec`).
-/
import GraftSupernode.AtomicProgram

open Runs

namespace AtomicProgram

variable {O : Type*} {R : O → Type*} {α σ : Type*}

namespace Prog

/-- The program `p` gets to `q` when its operations are answered so. -/
inductive Path : Prog O R α → List (Σ o, R o) → Prog O R α → Prop
  | refl (p : Prog O R α) : Path p [] p
  | call {o : O} {k : R o → Prog O R α} {r : R o} {as : List (Σ o, R o)} {q : Prog O R α}
      (h : Path (k r) as q) : Path (.call o k) (⟨o, r⟩ :: as) q

/-- One way after the other is a way. -/
theorem Path.trans {p q q' : Prog O R α} {as bs : List (Σ o, R o)} (h : Path p as q)
    (h' : Path q bs q') : Path p (as ++ bs) q' := by
  induction h with
  | refl => exact h'
  | call _ ih => exact .call (ih h')

/-- The answers determine the way: what comes first on it is left behind. -/
theorem Path.rest {p q q' : Prog O R α} {as bs : List (Σ o, R o)} (h : Path p as q)
    (h' : Path p (as ++ bs) q') : Path q bs q' := by
  induction h with
  | refl => exact h'
  | call _ ih =>
    cases h' with
    | call h' => exact ih h'

/-- An uninterrupted execution is a way through the program. -/
theorem exists_path_run (handle : Meaning O R σ) (p : Prog O R α) (s : σ) :
    ∃ as, Path p as (.ret (p.run handle s).1) := by
  induction p generalizing s with
  | ret a => exact ⟨[], .refl _⟩
  | call o k ih =>
    obtain ⟨as, has⟩ := ih (handle o s).1 (handle o s).2
    exact ⟨_, .call has⟩

/-- However its operations are answered, the program comes to a part that satisfies `B`, or
returns a value that satisfies `Q`. -/
def Until (B : Prog O R α → Prop) (Q : α → Prop) : Prog O R α → Prop
  | ret a => B (ret a) ∨ Q a
  | call o k => B (call o k) ∨ ∀ r, Until B Q (k r)

section

variable {B : Prog O R α → Prop} {Q : α → Prop}

/-- A program that has come to `B` is there. -/
theorem until_of {p : Prog O R α} (h : B p) : Until B Q p := by
  cases p with
  | ret a => exact .inl h
  | call o k => exact .inl h

/-- A program that returns what it should. -/
theorem until_ret {a : α} (h : Q a) : Until B Q (ret a) := .inr h

/-- A program that gets there after each answer. -/
theorem until_call {o : O} {k : R o → Prog O R α} (h : ∀ r, Until B Q (k r)) :
    Until B Q (call o k) := .inr h

/-- A way that returns has come to such a part, or the value is such a one. -/
theorem Path.until {p : Prog O R α} {as : List (Σ o, R o)} {a : α} (h : Path p as (.ret a))
    (hp : p.Until B Q) : (∃ pre q, pre <+: as ∧ Path p pre q ∧ B q) ∨ Q a := by
  generalize hq : (.ret a : Prog O R α) = q at h
  induction h with
  | refl p =>
    subst hq
    exact hp.imp (fun hB => ⟨[], _, List.prefix_refl _, .refl _, hB⟩) id
  | @call o k r as q h ih =>
    rcases hp with hB | hp
    · exact .inl ⟨[], _, List.nil_prefix, .refl _, hB⟩
    · refine (ih (hp r) hq).imp (fun hpart => ?_) id
      obtain ⟨pre, q, hpre, hpath, hB⟩ := hpart
      exact ⟨_, q, (List.prefix_cons_inj _).mpr hpre, .call hpath, hB⟩

end

/-- However its operations are answered, the program returns a value that satisfies `Q`. -/
abbrev Always (Q : α → Prop) (p : Prog O R α) : Prop := p.Until (fun _ => False) Q

/-- What always holds of the results holds at the end of each way. -/
theorem Path.always {Q : α → Prop} {p : Prog O R α} {as : List (Σ o, R o)} {a : α}
    (h : Path p as (.ret a)) (hp : p.Always Q) : Q a := by
  rcases h.until hp with ⟨_, _, _, _, hfalse⟩ | hQ
  · exact hfalse.elim
  · exact hQ

end Prog

namespace Config

variable {ι E : Type*} [DecidableEq ι]

/-- **A thread goes along a way through its program**, whatever the turns are. -/
theorem exists_path_exec (handle : Meaning O R σ) (env : E → σ → σ) (c : Config ι σ O R α)
    (ts : List (Turn ι E)) (i : ι) :
    ∃ as, Prog.Path (c.thread i) as ((exec (step handle env) c ts).thread i) := by
  induction ts generalizing c with
  | nil => exact ⟨[], .refl _⟩
  | cons t ts ih =>
    obtain ⟨as, has⟩ := ih (c.step handle env t)
    rw [exec_cons]
    cases t with
    | env e => exact ⟨as, has⟩
    | thread j =>
      by_cases hij : i = j
      · subst hij
        cases hi : c.thread i with
        | ret a =>
          rw [step_thread_of_ret hi, hi] at has
          rw [step_thread_of_ret hi]
          exact ⟨as, has⟩
        | call o k =>
          have hthread : (c.step handle env (.thread i)).thread i = k (handle o c.store).1 := by
            rw [step_thread_of_call hi]
            exact Function.update_self _ _ _
          rw [hthread] at has
          exact ⟨_, .call has⟩
      · rw [step_thread_ne hij] at has
        exact ⟨as, has⟩

end Config

end AtomicProgram
