/-
# The table is complete

In every run in which no pre-action returns `Again`, a dispatch finds a row in every state, no
exception leaves it, and it comes to its exit in seven rows, and two more for each `Again`
(`dispatch_completes`).  A pre-action that does return `Again` is answered, and then the table has
no row for it (`no_row_of_pre_again`).
-/
import GraftSupernode.TaskRows

open StateMachine

namespace TaskManager

variable {υ κ : Type*} [LinearOrder υ] [Fintype κ] [DecidableEq κ]
variable (P : Params υ κ) {l : Looper υ κ} {t : ℕ} {s : StateMachine.State} {after : After κ}

/-- A row is taken. -/
def Event.isProcess : Event υ κ → Bool
  | .process _ => true
  | _ => false

/-- A row is taken, and its action returns `Again`. -/
def Event.isAgain : Event υ κ → Bool
  | .process (some o) => o.status = .again
  | _ => false

/-- What is kept in a run whose handlers answer. -/
structure Complete (l : Looper υ κ) : Prop where
  conserved : Conserved P l
  rows : Rows l
  live : l.terminated = false

variable {P}

omit [DecidableEq κ] in
theorem Complete.init : Complete P (Looper.init P) where
  conserved := .init
  rows := by
    refine ⟨⟨fun t ht => absurd ht (Nat.not_lt_zero t), fun t ht => ?_, fun t ht => ?_⟩,
      fun _ _ _ h => by cases h⟩
    · simp [State.jobs, Looper.init, State.init] at ht
    · cases ht
  live := rfl

theorem Complete.step (h : Complete P l) {e : Event υ κ} (he : Answers P l e ∧ NoPreAgain l e) :
    Complete P (l.step P e) :=
  have hstep := h.rows.step h.conserved h.live he.1 he.2
  ⟨h.conserved.step e, hstep.1, hstep.2⟩

theorem work_le (s : StateMachine.State) (st : Status) : work s st ≤ 7 := by
  unfold work
  cases s <;> simp [rank]
  split <;> simp

/-- **What is not a row** leaves the dispatch as it is. -/
theorem Complete.background (h : Complete P l) (hphase : l.phase = .dispatching t s after)
    {e : Event υ κ} (he : e.isProcess = false) :
    (l.step P e).phase = .dispatching t s after ∧
      work s ((l.step P e).manager.task t).status = work s (l.manager.task t).status := by
  have hsame (l' : Looper υ κ) (hphase' : l'.phase = .dispatching t s after)
      (hst : s = .chkPostAction → (l'.manager.task t).status = (l.manager.task t).status) :
      l'.phase = .dispatching t s after ∧
        work s (l'.manager.task t).status = work s (l.manager.task t).status := by
    refine ⟨hphase', ?_⟩
    by_cases hs : s = .chkPostAction
    · rw [hst hs]
    · simp [work, hs]
  have hlt := (h.conserved.dispatch t s after hphase).created
  unfold Looper.step
  rw [if_neg (by simp [h.live])]
  split
  · exact hsame _ hphase fun _ => rfl
  · rename_i h3
    refine hsame _ hphase fun _ => ?_
    exact congrArg Task.status (State.create_task_of_ne _ _ hlt.ne)
  · split
    · refine hsame _ hphase fun _ => ?_
      dsimp only
      unfold State.workerStart
      split <;> rfl
    · exact hsame _ hphase fun _ => rfl
  · split
    · rename_i t' o ht'
      split
      · exact hsame _ hphase fun _ => rfl
      · rename_i m hm
        refine hsame _ hphase fun hs => ?_
        -- the task of the dispatch is in hand, so it is not the one that is done
        have hne : t ≠ t' := by
          rintro rfl
          have hplaced := h.conserved.hand_of_ne hphase (by simp [hs]) (by simp [hs])
          refine hplaced.not_mem_jobs ?_
          simp only [State.jobs, List.mem_append]
          exact .inl (.inr ht')
        obtain ⟨-, -, -, -, htask⟩ := h.conserved.jobs.workerDone ht' hm
        exact congrArg Task.status (htask t hne)
    · exact hsame _ hphase fun _ => rfl
  · cases he
  · rw [hphase]
    exact hsame _ hphase fun _ => rfl

/-- **The work of a dispatch** grows by `Again` only. -/
theorem Complete.work_exec (h : Complete P l) (hphase : l.phase = .dispatching t s after)
    {es : List (Event υ κ)}
    (hes : Runs.Along (Looper.step P) (fun l e => Answers P l e ∧ NoPreAgain l e) l es)
    (hbusy : ∀ mid, mid <+: es → (Runs.exec (Looper.step P) l mid).phase ≠ .idle) :
    es.countP Event.isProcess ≤ work s (l.manager.task t).status + 2 * es.countP Event.isAgain := by
  induction es generalizing l s with
  | nil => exact Nat.zero_le _
  | cons e es ih =>
    obtain ⟨he, hes⟩ := hes
    have hbusy' (mid : List (Event υ κ)) (hmid : mid <+: es) :
        (Runs.exec (Looper.step P) (l.step P e) mid).phase ≠ .idle :=
      hbusy (e :: mid) (List.cons_prefix_cons.mpr ⟨rfl, hmid⟩)
    rw [List.countP_cons, List.countP_cons]
    cases hprocess : e.isProcess with
    | false =>
      obtain ⟨hphase', hwork⟩ := h.background hphase hprocess
      have := ih (h.step he) hphase' hes hbusy'
      have hagain : e.isAgain = false := by
        cases e <;> first | rfl | cases hprocess
      simp only [hagain, Bool.false_eq_true, if_false]
      omega
    | true =>
      cases e with
      | process o =>
        have hstep : l.step P (.process o) = l.process P t s after o := by
          simp [Looper.step, h.live, hphase]
        obtain ⟨-, -, hidle | ⟨s', -, hphase', hwork⟩⟩ :=
          h.rows.process h.conserved hphase he.1 he.2
        · rw [← hstep] at hidle
          exact absurd hidle (hbusy' [] List.nil_prefix)
        · rw [← hstep] at hphase' hwork
          have := ih (h.step he) hphase' hes hbusy'
          obtain ⟨⟨x, rfl, -⟩, -⟩ := he.1
          simp only [Event.isAgain, Option.map_some, Option.some.injEq, decide_eq_true_eq,
            if_true] at hwork ⊢
          split at hwork <;> rename_i hagain <;> simp only [hagain, if_true, if_false] <;> omega
      | _ => cases hprocess

/-- **The table is complete** in a run whose handlers answer, and in which no pre-action returns
`Again`: nothing throws, in every state of a dispatch there is a row, and a dispatch comes to its
exit when every `Again` has come to its end. -/
theorem dispatch_completes {es : List (Event υ κ)}
    (hes : Runs.Along (Looper.step P) (fun l e => Answers P l e ∧ NoPreAgain l e)
      (Looper.init P) es) :
    let l := Runs.exec (Looper.step P) (Looper.init P) es
    l.terminated = false ∧
      (∀ t s after, l.phase = .dispatching t s after → ∃ row,
        StateMachine.process s (l.manager.task t).status (l.manager.task t).h3 = some row) ∧
      ∀ pre post, es = pre ++ post →
        7 + 2 * post.countP Event.isAgain < post.countP Event.isProcess →
        ∃ mid, mid <+: post ∧
          (Runs.exec (Looper.step P) (Looper.init P) (pre ++ mid)).phase = .idle := by
  have hrun {es : List (Event υ κ)} (hes : Runs.Along (Looper.step P)
      (fun l e => Answers P l e ∧ NoPreAgain l e) (Looper.init P) es) :
      Complete P (Runs.exec (Looper.step P) (Looper.init P) es) :=
    Runs.exec_invariant (I := Complete P) (fun _ _ h he => h.step he) .init hes
  refine ⟨(hrun hes).live, fun t s after hphase =>
    ((hrun hes).rows.expected t s after hphase).exists_row, ?_⟩
  rintro pre post rfl hlong
  obtain ⟨hpre, hpost⟩ := (Runs.along_append _ _ _ _ _).mp hes
  by_contra hbusy
  push Not at hbusy
  have hbusy' (mid : List (Event υ κ)) (hmid : mid <+: post) : (Runs.exec (Looper.step P)
      (Runs.exec (Looper.step P) (Looper.init P) pre) mid).phase ≠ .idle := by
    rw [← Runs.exec_append]
    exact hbusy mid hmid
  cases hphase : (Runs.exec (Looper.step P) (Looper.init P) pre).phase with
  | idle => exact hbusy' [] List.nil_prefix hphase
  | dispatching t s after =>
    have hwork := (hrun hpre).work_exec hphase hpost hbusy'
    have := work_le s ((Runs.exec (Looper.step P) (Looper.init P) pre).manager.task t).status
    omega

/-! ## A pre-action that returns `Again` -/

/-- **No row for `Again`**: the task is answered, and two rows later the table has none for it. -/
theorem no_row_of_pre_again (h : Complete P l) (hphase : l.phase = .dispatching t .preAction after)
    (hpre : (l.manager.task t).h3.preAction = true) (hbusy : (l.manager.task t).status ≠ .busy)
    {x : Outcome υ} (hx : x.status = .again) (o : Option (Outcome υ)) :
    let l' := (l.step P (.process (some x))).step P (.process o)
    l'.terminated = false ∧ l'.phase = .dispatching t .preAction after ∧
      StateMachine.process .preAction (l'.manager.task t).status (l'.manager.task t).h3 = none := by
  have hrow : StateMachine.process .preAction (l.manager.task t).status (l.manager.task t).h3 =
      some (some .runPreaction, .chkPreAction) := by
    obtain hst | hst | hst | hst := h.rows.expected t _ after hphase
    · rw [hst, process_preAction]
    · rw [hst, process_preAction]
    · rw [hst, process_preAction]
    · exact absurd hst hbusy
  have hfirst : l.step P (.process (some x)) = l.process P t .preAction after (some x) := by
    simp [Looper.step, h.live, hphase]
  obtain ⟨m, hm⟩ : ∃ m, l.manager.runPreAction t (some x) = some m := by
    rw [State.runPreAction, if_pos hpre]
    exact ⟨_, rfl⟩
  obtain ⟨hst, -⟩ := State.status_perform P (a := some .runPreaction) hm
  rw [StatusAfter, if_pos hpre, Option.map_some, hx, Option.some.injEq] at hst
  have hstep : l.step P (.process (some x)) = l.dispatch m t .chkPreAction after := by
    rw [hfirst]
    simp only [Looper.process, hrow, Option.elim, State.perform, hm]
    rfl
  have hanswer : StateMachine.process .chkPreAction (m.task t).status (m.task t).h3 =
      some (some .runResponse, .preAction) := by
    rw [← hst, process_chkPreAction]
  have hsecond : (l.dispatch m t .chkPreAction after).step P (.process o) =
      l.dispatch (m.respondAndDie P t (m.task t).output.data false) t .preAction after := by
    simp only [Looper.step, Looper.dispatch, h.live, Bool.false_eq_true, if_false, Looper.process,
      hanswer, Option.elim, State.perform]
    rfl
  rw [hstep, hsecond]
  refine ⟨h.live, rfl, ?_⟩
  show StateMachine.process .preAction ((m.respondAndDie P t _ false).task t).status _ = none
  rw [State.respondAndDie_task, if_pos rfl, Task.answered_status, ← hst,
    process_preAction]

/-! ## Two runs -/

/-- A task manager with two threads, room for two jobs with each, one node, and a timeout of a
millisecond. -/
def smallParams : Params ℕ Unit where
  uuid := id
  uuid_injective := Function.injective_id
  upstream := ⟨(), fun _ => some (), fun _ => "", fun _ => 0, fun _ => false, id⟩
  connectionTimeout := ⟨4611686018427388, -62, by decide⟩
  threadCount := 2
  queueSize := 2
  inputSize_le := by decide

theorem connItem_smallParams (uri : String) : (smallParams.upstream.connItem uri).isSome := by
  unfold UpstreamConfig.connItem
  split <;> rfl

/-- A handler that returns the status and leaves no output. -/
def Outcome.returns (st : Status) : Outcome ℕ := ⟨st, none, {}, none⟩

/-- A client's request, for handlers that return these statuses. -/
def requestRun (h3 : Handler3) (statuses : List Status) : List (Event ℕ Unit) :=
  .newClient h3 {} :: statuses.map fun st => .process (some (.returns st))

theorem along_requestRun {Q : Looper ℕ Unit → Event ℕ Unit → Prop} {h3 : Handler3}
    {statuses : List Status} (hnew : ∀ l, Q l (.newClient h3 {}))
    (hst : ∀ l, ∀ st ∈ statuses, Q l (.process (some (.returns st)))) :
    Runs.Along (Looper.step smallParams) Q (Looper.init smallParams) (requestRun h3 statuses) := by
  refine Runs.along_of_at_step fun pre e post hes => ?_
  have hmem : e ∈ requestRun h3 statuses := by simp [hes]
  rcases List.mem_cons.mp hmem with rfl | hmem
  · exact hnew _
  · obtain ⟨st, hst', rfl⟩ := List.mem_map.mp hmem
    exact hst _ st hst'

theorem answers_returns (l : Looper ℕ Unit) {st : Status} (h : st.IsAnswer) :
    Answers smallParams l (.process (some (.returns st))) :=
  ⟨⟨_, rfl, h⟩, fun _ _ _ _ => connItem_smallParams _⟩

/-- A request with a pre-action that returns `Ok`. -/
theorem dispatch_completes_preOk :
    ∃ mid, mid <+: List.replicate 8 (.process (some (.returns .ok))) ∧
      (Runs.exec (Looper.step smallParams) (Looper.init smallParams)
        ([.newClient ⟨true, false, false⟩ {}] ++ mid)).phase = .idle := by
  have halong : Runs.Along (Looper.step smallParams)
      (fun l e => Answers smallParams l e ∧ NoPreAgain l e) (Looper.init smallParams)
      (requestRun ⟨true, false, false⟩ (List.replicate 8 .ok)) := by
    refine along_requestRun (fun l => ⟨.inl rfl, trivial⟩) fun l st hst => ?_
    cases List.eq_of_mem_replicate hst
    exact ⟨answers_returns l (by simp [Status.IsAnswer]), by simp [NoPreAgain, Outcome.returns]⟩
  exact (dispatch_completes halong).2.2 [_] _ (by simp [requestRun]) (by decide)

/-- **A pre-action that returns `Again`**: the handler answers, and the table is not complete. -/
theorem not_complete :
    let es := requestRun ⟨true, false, false⟩ [.ok, .again, .ok]
    Runs.Along (Looper.step smallParams) (Answers smallParams) (Looper.init smallParams) es ∧
      let l := Runs.exec (Looper.step smallParams) (Looper.init smallParams) es
      l.terminated = false ∧ l.phase = .dispatching 0 .preAction .done ∧
        StateMachine.process .preAction (l.manager.task 0).status (l.manager.task 0).h3 = none := by
  refine ⟨along_requestRun (fun _ => .inl rfl) fun l st hst => answers_returns l ?_, rfl, rfl, rfl⟩
  revert st
  simp [Status.IsAnswer]

end TaskManager
