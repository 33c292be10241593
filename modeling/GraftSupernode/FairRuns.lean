/-
# Infinite runs

An infinite run is a sequence of events; `stateAt n` is its state after `n` of them.  It is fair to
a kind of events when they come again and again (`Often`).  `eventually_of_rank` is the rule for
liveness: a rank that no step raises, and that every event of such a kind lowers, reaches its goal.
-/
import GraftSupernode.Runs

namespace Runs

variable {σ ε : Type*} {step : σ → ε → σ} {s : σ} {e : ℕ → ε}

variable (step) (s) (e) in
/-- The state after `n` events. -/
def stateAt : ℕ → σ
  | 0 => s
  | n + 1 => step (stateAt n) (e n)

/-- Events of the kind `P` come again and again. -/
def Often (P : ε → Prop) (e : ℕ → ε) : Prop := ∀ n, ∃ m, n ≤ m ∧ P (e m)

/-- The state after `n` events is the state that their run ends in. -/
theorem stateAt_eq_exec (n : ℕ) : stateAt step s e n = exec step s ((List.range n).map e) := by
  induction n with
  | zero => rfl
  | succ n ih => rw [List.range_succ, List.map_append, exec_append, ← ih]; rfl

/-- What every step preserves holds from then on. -/
theorem stateAt_invariant {I : σ → Prop} (hstep : ∀ s e, I s → I (step s e)) {n m : ℕ}
    (hnm : n ≤ m) (h : I (stateAt step s e n)) : I (stateAt step s e m) := by
  induction m, hnm using Nat.le_induction with
  | base => exact h
  | succ m _ ih => exact hstep _ _ ih

/-- What other events keep holds when the next event of the kind comes. -/
theorem exists_next {I : σ → Prop} {P : ε → Prop} (hstay : ∀ s e, I s → ¬ P e → I (step s e))
    (hfair : Often P e) {n : ℕ} (h : I (stateAt step s e n)) :
    ∃ m, n ≤ m ∧ I (stateAt step s e m) ∧ P (e m) := by
  obtain ⟨m, hnm, hm⟩ := hfair n
  -- by induction on the number of events up to one of the kind
  induction hk : m - n generalizing n with
  | zero =>
    obtain rfl : n = m := by omega
    exact ⟨n, le_rfl, h, hm⟩
  | succ k ih =>
    by_cases hn : P (e n)
    · exact ⟨n, le_rfl, h, hn⟩
    · have hnext : I (stateAt step s e (n + 1)) := hstay _ _ h hn
      have hlt : n ≠ m := fun heq => hn (heq ▸ hm)
      obtain ⟨m', hm', hI⟩ := ih hnext (by omega) (by omega)
      exact ⟨m', by omega, hI⟩

/-- **The rank rule**. -/
theorem eventually_of_rank (rank : σ → ℕ) {I Q : σ → Prop} {P : ε → Prop}
    (hinv : ∀ s e, I s → I (step s e))
    (hle : ∀ s e, I s → Q (step s e) ∨ rank (step s e) ≤ rank s)
    (hlt : ∀ s e, I s → P e → Q (step s e) ∨ rank (step s e) < rank s)
    (hfair : Often P e) {n : ℕ} (h : I (stateAt step s e n)) :
    ∃ m, n ≤ m ∧ Q (stateAt step s e m) := by
  -- by induction on a bound for the rank
  generalize hb : rank (stateAt step s e n) = b
  induction b using Nat.strong_induction_on generalizing n with
  | _ b ih =>
    obtain ⟨m, hnm, hm⟩ := hfair n
    have hupto (k : ℕ) (hnk : n ≤ k) : (∃ m, n ≤ m ∧ Q (stateAt step s e m)) ∨
        rank (stateAt step s e k) ≤ b := by
      induction k, hnk using Nat.le_induction with
      | base => exact .inr hb.le
      | succ k hk ihk =>
        rcases ihk with hdone | hrank
        · exact .inl hdone
        · rcases hle _ (e k) (stateAt_invariant hinv hk h) with hQ | hnext
          · exact .inl ⟨k + 1, by omega, hQ⟩
          · exact .inr (hnext.trans hrank)
    rcases hupto m hnm with hdone | hrank
    · exact hdone
    · rcases hlt _ (e m) (stateAt_invariant hinv hnm h) hm with hQ | hnext
      · exact ⟨m + 1, by omega, hQ⟩
      · have hlow : rank (stateAt step s e (m + 1)) < b := Nat.lt_of_lt_of_le hnext hrank
        obtain ⟨m', hm', hQ⟩ := ih _ hlow (stateAt_invariant hinv (by omega) h) rfl
        exact ⟨m', by omega, hQ⟩

end Runs
