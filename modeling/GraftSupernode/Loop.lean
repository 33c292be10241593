/-
# Loops

A loop is a step that goes on with a state or leaves with a result.  `run` performs a number of
steps; `exists_run` is the rule of a loop whose body keeps an invariant and lowers a measure: it
leaves after no more steps than the measure allows, with a result that the last step has
established.
-/
import Mathlib.Data.Nat.Notation
import Mathlib.Data.Nat.Basic

namespace Loop

variable {σ ρ : Type*}

/-- The result of a loop that leaves within a number of steps. -/
def run (step : σ → σ ⊕ ρ) : ℕ → σ → Option ρ
  | 0, _ => none
  | n + 1, s =>
    match step s with
    | .inl s' => run step n s'
    | .inr r => some r

variable {step : σ → σ ⊕ ρ}

/-- A loop goes on in the next state. -/
theorem run_of_inl {n : ℕ} {s s' : σ} (h : step s = .inl s') :
    run step (n + 1) s = run step n s' := by
  rw [run, h]

/-- A loop ends with its result. -/
theorem run_of_inr {n : ℕ} {s : σ} {r : ρ} (h : step s = .inr r) :
    run step (n + 1) s = some r := by
  rw [run, h]

/-- **The rule of a loop.** -/
theorem exists_run {I : σ → Prop} {Q : ρ → Prop} {μ : σ → ℕ}
    (hstep : ∀ s, I s → (∃ s', step s = .inl s' ∧ I s' ∧ μ s' < μ s) ∨ ∃ r, step s = .inr r ∧ Q r)
    {s : σ} (hs : I s) {n : ℕ} (hn : μ s < n) : ∃ r, run step n s = some r ∧ Q r := by
  induction n generalizing s with
  | zero => exact absurd hn (Nat.not_lt_zero _)
  | succ n ih =>
    rcases hstep s hs with ⟨s', hgo, hs', hlt⟩ | ⟨r, hleave, hr⟩
    · rw [run_of_inl hgo]
      exact ih hs' (by omega)
    · exact ⟨r, run_of_inr hleave, hr⟩

end Loop
