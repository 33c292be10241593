/-
# Runs of a step function

A system is a step function `step : σ → ε → σ`; a run is a list of events.
`exec` is the state a run ends in; `Along P` and `Sometime P` say that every step of the
run, or some step, satisfies the condition `P` in the state it is taken from.  The rules are the
step-lemma-to-run-lemma induction (`exec_invariant`) and its form for the states
on the way (`exec_invariant_prefix`).

A step can be observed, or not; `trace` lists what is observed in a run.  `simulation` is the rule
for a second system that follows the observations of the first.
-/
import Mathlib.Data.List.Basic
import Mathlib.Data.List.Infix

namespace Runs

variable {σ ε : Type*} (step : σ → ε → σ)

/-- The state that the run `es` ends in. -/
def exec (s : σ) (es : List ε) : σ := es.foldl step s

/-- Every step of the run satisfies `P` in the state it is taken from. -/
def Along (P : σ → ε → Prop) : σ → List ε → Prop
  | _, [] => True
  | s, e :: es => P s e ∧ Along P (step s e) es

@[simp] theorem exec_nil (s : σ) : exec step s [] = s := rfl

@[simp] theorem exec_cons (s : σ) (e : ε) (es : List ε) :
    exec step s (e :: es) = exec step (step s e) es := rfl

theorem exec_append (s : σ) (es fs : List ε) :
    exec step s (es ++ fs) = exec step (exec step s es) fs := by
  simp [exec, List.foldl_append]

@[simp] theorem along_nil (P : σ → ε → Prop) (s : σ) : Along step P s [] := trivial

@[simp] theorem along_cons (P : σ → ε → Prop) (s : σ) (e : ε) (es : List ε) :
    Along step P s (e :: es) ↔ P s e ∧ Along step P (step s e) es := Iff.rfl

theorem along_append (P : σ → ε → Prop) (s : σ) (es fs : List ε) :
    Along step P s (es ++ fs) ↔ Along step P s es ∧ Along step P (exec step s es) fs := by
  induction es generalizing s with
  | nil => simp
  | cons e es ih => simp [ih, and_assoc]

/-- A condition that can be checked at each step can be checked along a run. -/
instance decidableAlong (P : σ → ε → Prop) [∀ s e, Decidable (P s e)] :
    ∀ s es, Decidable (Along step P s es)
  | _, [] => isTrue trivial
  | s, e :: es => @instDecidableAnd _ _ _ (decidableAlong P (step s e) es)

variable {step}

theorem Along.mono {P Q : σ → ε → Prop} (hPQ : ∀ s e, P s e → Q s e) {s : σ} {es : List ε}
    (h : Along step P s es) : Along step Q s es := by
  induction es generalizing s with
  | nil => trivial
  | cons e es ih => exact ⟨hPQ _ _ h.1, ih h.2⟩

theorem Along.and {P Q : σ → ε → Prop} {s : σ} {es : List ε} (hP : Along step P s es)
    (hQ : Along step Q s es) : Along step (fun s e => P s e ∧ Q s e) s es := by
  induction es generalizing s with
  | nil => trivial
  | cons e es ih => exact ⟨⟨hP.1, hQ.1⟩, ih hP.2 hQ.2⟩

/-- A condition on the events alone holds along every run made of such events. -/
theorem along_of_forall_mem {P : ε → Prop} {es : List ε} (h : ∀ e ∈ es, P e) (s : σ) :
    Along step (fun _ e => P e) s es := by
  induction es generalizing s with
  | nil => trivial
  | cons e es ih =>
    exact ⟨h e List.mem_cons_self, ih (fun e' he' => h e' (List.mem_cons_of_mem _ he')) _⟩

/-- **From the step to the run**: what every step preserves holds at the end. -/
theorem exec_invariant {I : σ → Prop} {P : σ → ε → Prop}
    (hstep : ∀ s e, I s → P s e → I (step s e)) {s : σ} {es : List ε}
    (hs : I s) (h : Along step P s es) : I (exec step s es) := by
  induction es generalizing s with
  | nil => exact hs
  | cons e es ih => exact ih (hstep s e hs h.1) h.2

/-- What every step preserves, whatever the event is, holds at the end. -/
theorem exec_of_step {I : σ → Prop} (hstep : ∀ s e, I s → I (step s e)) {s : σ} (hs : I s)
    (es : List ε) : I (exec step s es) := by
  induction es generalizing s with
  | nil => exact hs
  | cons e es ih => exact ih (hstep s e hs)

/-- What every step preserves holds in every state on the way. -/
theorem exec_invariant_prefix {I : σ → Prop} {P : σ → ε → Prop}
    (hstep : ∀ s e, I s → P s e → I (step s e)) {s : σ} {pre post : List ε}
    (hs : I s) (h : Along step P s (pre ++ post)) : I (exec step s pre) :=
  exec_invariant hstep hs ((along_append step P s pre post).mp h).1

/-- What follows from an invariant and the condition on a step holds along the run. -/
theorem Along.of_invariant {I : σ → Prop} {P Q : σ → ε → Prop}
    (hstep : ∀ s e, I s → P s e → I (step s e)) (hQ : ∀ s e, I s → P s e → Q s e)
    {s : σ} {es : List ε} (hs : I s) (h : Along step P s es) : Along step Q s es := by
  induction es generalizing s with
  | nil => trivial
  | cons e es ih => exact ⟨hQ s e hs h.1, ih (hstep s e hs h.1) h.2⟩

/-- The condition on the step taken after a prefix of the run. -/
theorem Along.at_step {P : σ → ε → Prop} {s : σ} {pre post : List ε} {e : ε}
    (h : Along step P s (pre ++ e :: post)) : P (exec step s pre) e :=
  ((along_append step P s pre (e :: post)).mp h).2.1

/-- Every event of the run satisfies the condition in some state. -/
theorem Along.of_mem {P : σ → ε → Prop} {s : σ} {es : List ε} {e : ε} (h : Along step P s es)
    (he : e ∈ es) : ∃ s', P s' e := by
  obtain ⟨pre, post, rfl⟩ := List.append_of_mem he
  exact ⟨_, h.at_step⟩

/-- The converse of `Along.at_step`: a condition that holds at every step holds along the run. -/
theorem along_of_at_step {P : σ → ε → Prop} {s : σ} {es : List ε}
    (h : ∀ pre e post, es = pre ++ e :: post → P (exec step s pre) e) : Along step P s es := by
  induction es generalizing s with
  | nil => trivial
  | cons e es ih =>
    refine ⟨h [] e es rfl, ih fun pre e' post hes => ?_⟩
    have := h (e :: pre) e' post (by rw [hes, List.cons_append])
    simpa using this

/-! ## Events that happen -/

variable (step) in
/-- Some step of the run satisfies `P` in the state it is taken from. -/
def Sometime (P : σ → ε → Prop) : σ → List ε → Prop
  | _, [] => False
  | s, e :: es => P s e ∨ Sometime P (step s e) es

@[simp] theorem sometime_nil (P : σ → ε → Prop) (s : σ) : ¬ Sometime step P s [] := id

@[simp] theorem sometime_cons (P : σ → ε → Prop) (s : σ) (e : ε) (es : List ε) :
    Sometime step P s (e :: es) ↔ P s e ∨ Sometime step P (step s e) es := Iff.rfl

/-- What no step does in a state of an invariant never happens. -/
theorem not_sometime {I : σ → Prop} {P : σ → ε → Prop} (hstep : ∀ s e, I s → I (step s e))
    (hP : ∀ s e, I s → ¬ P s e) {s : σ} {es : List ε} (hs : I s) : ¬ Sometime step P s es := by
  induction es generalizing s with
  | nil => exact sometime_nil P s
  | cons e es ih => exact not_or.mpr ⟨hP s e hs, ih (hstep s e hs)⟩

/-- **From the step to the run**, for a fact that stays once it holds: it holds at the end if it held
before, or if some step brought it about. -/
theorem exec_iff_sometime {I Q : σ → Prop} {P R : σ → ε → Prop}
    (hstep : ∀ s e, I s → P s e → I (step s e))
    (hQ : ∀ s e, I s → P s e → (Q (step s e) ↔ Q s ∨ R s e)) {s : σ} {es : List ε} (hs : I s)
    (h : Along step P s es) : Q (exec step s es) ↔ Q s ∨ Sometime step R s es := by
  induction es generalizing s with
  | nil => simp
  | cons e es ih =>
    rw [exec_cons, ih (hstep s e hs h.1) h.2, hQ s e hs h.1, sometime_cons, or_assoc]

/-! ## Observations -/

variable {τ α : Type*} {obs : σ → ε → Option α} {step' : τ → α → τ}

variable (step) (obs) in
/-- What is observed in the steps of the run, in order. -/
def trace : σ → List ε → List α
  | _, [] => []
  | s, e :: es => (obs s e).toList ++ trace (step s e) es

@[simp] theorem trace_nil (s : σ) : trace step obs s [] = [] := rfl

theorem trace_cons (s : σ) (e : ε) (es : List ε) :
    trace step obs s (e :: es) = (obs s e).toList ++ trace step obs (step s e) es := rfl

theorem trace_append (s : σ) (es fs : List ε) :
    trace step obs s (es ++ fs) = trace step obs s es ++ trace step obs (exec step s es) fs := by
  induction es generalizing s with
  | nil => rfl
  | cons e es ih => rw [List.cons_append, trace_cons, trace_cons, ih, List.append_assoc, exec_cons]

/-- **From the step to the run**, for what holds of a state and of what was observed before. -/
theorem trace_invariant {I : σ → List α → Prop}
    (hstep : ∀ s l e, I s l → I (step s e) (l ++ (obs s e).toList)) {s : σ} {l : List α}
    (hs : I s l) (es : List ε) : I (exec step s es) (l ++ trace step obs s es) := by
  induction es generalizing s l with
  | nil => rwa [trace_nil, List.append_nil]
  | cons e es ih =>
    rw [trace_cons, ← List.append_assoc]
    exact ih (hstep s l e hs)

/-- **From the step to the run**, for what is conserved: what a state holds and what comes in is
what goes out and what the next state holds, in this order. -/
theorem trace_balance {f : σ → List α} {came went : σ → ε → Option α}
    (hstep : ∀ s e, f s ++ (came s e).toList = (went s e).toList ++ f (step s e)) (s : σ)
    (es : List ε) :
    f s ++ trace step came s es = trace step went s es ++ f (exec step s es) := by
  induction es generalizing s with
  | nil => exact List.append_nil _
  | cons e es ih =>
    rw [trace_cons, trace_cons, exec_cons, ← List.append_assoc, hstep, List.append_assoc, ih,
      List.append_assoc]

/-- What is observed in a run is observed in one of its steps. -/
theorem mem_trace {s : σ} {es : List ε} {a : α} :
    a ∈ trace step obs s es ↔
      ∃ pre e post, es = pre ++ e :: post ∧ obs (exec step s pre) e = some a := by
  induction es generalizing s with
  | nil => simp
  | cons e es ih =>
    rw [trace_cons, List.mem_append, Option.mem_toList, ih]
    constructor
    · rintro (h | ⟨pre, e', post, rfl, h⟩)
      · exact ⟨[], e, es, rfl, h⟩
      · exact ⟨e :: pre, e', post, rfl, h⟩
    · rintro ⟨_ | ⟨e₁, pre⟩, e', post, hes, h⟩
      · cases hes
        exact .inl h
      · cases hes
        exact .inr ⟨pre, e', post, rfl, h⟩

/-- What holds of every observation along the run holds of its trace. -/
theorem forall_mem_trace {Q : α → Prop} {s : σ} {es : List ε} :
    (∀ a ∈ trace step obs s es, Q a) ↔
      Along step (fun s e => ∀ a, obs s e = some a → Q a) s es := by
  refine ⟨fun h => along_of_at_step fun pre e post hes a ha => ?_, fun h a ha => ?_⟩
  · exact h a (mem_trace.mpr ⟨pre, e, post, hes, ha⟩)
  · obtain ⟨pre, e, post, rfl, hobs⟩ := mem_trace.mp ha
    exact h.at_step a hobs

/-- **Simulation**: a relation that every step keeps, when the second system takes a step with
what is observed and rests when nothing is, holds at the end; and what holds of each observation
when it is made holds along the run of the second system. -/
theorem simulation {R : σ → τ → Prop} {Q : τ → α → Prop}
    (hrest : ∀ s t e, R s t → obs s e = none → R (step s e) t)
    (hstep : ∀ s t e a, R s t → obs s e = some a → Q t a ∧ R (step s e) (step' t a))
    {s : σ} {t : τ} (h : R s t) (es : List ε) :
    R (exec step s es) (exec step' t (trace step obs s es)) ∧
      Along step' Q t (trace step obs s es) := by
  induction es generalizing s t with
  | nil => exact ⟨h, trivial⟩
  | cons e es ih =>
    rw [trace_cons, exec_cons]
    cases he : obs s e with
    | none => exact ih (hrest s t e h he)
    | some a =>
      obtain ⟨hQ, hR⟩ := hstep s t e a h he
      exact ⟨(ih hR).1, hQ, (ih hR).2⟩

end Runs
