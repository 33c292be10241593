/-
# The calls of a webhook

A `WebHookCallback` (`wallet_manager.cpp`) is the worker action of a periodic task: when it is
called for the first time it forwards its request, and afterwards it stops.  That it has been called
is in the local context of the task, which stays when the task is refused as `Busy`, when it is
scheduled again and when the request comes back.

* `WebHookCallback.call`: the callback, with the context as an `AnyMap`;
* `WebHookLoop`: the loop, with one callback, and what its task has done;
* `Stage`: the callback as it is meant, five stages one after the other;
* `WebHookLoop.sentOnce_of_invoke`: every run goes through the stages in this order, so the webhook
  is sent once at most.
-/
import GraftSupernode.AnyMap
import GraftSupernode.WorkerTasks

open StateMachine

namespace TaskManager

/-- `Context::Local`, with the values that the callback stores. -/
abbrev LocalContext := AnyMap String fun _ : Unit => Bool

/-- `WebHookCallback` -/
structure WebHookCallback where
  result : Output

/-- `WebHookCallback::operator()`: the status that it returns, and the context and the output that
it leaves.  Its key is `__FUNCTION__`. -/
def WebHookCallback.call (c : WebHookCallback) (context : LocalContext) (output : Output) :
    Status × LocalContext × Output :=
  if context.hasKey "operator()" then (.stop, context, output)
  else (.forward, context.set "operator()" () true, c.result)

/-- The key says whether the callback is called for the first time. -/
theorem WebHookCallback.call_of_hasKey (c : WebHookCallback) {context : LocalContext}
    (h : context.hasKey "operator()" = true) (output : Output) :
    c.call context output = (.stop, context, output) := if_pos h

theorem WebHookCallback.call_of_not_hasKey (c : WebHookCallback) {context : LocalContext}
    (h : context.hasKey "operator()" = false) (output : Output) :
    c.call context output = (.forward, context.set "operator()" () true, c.result) :=
  if_neg (by rw [h]; nofun)

variable {υ κ : Type*} [LinearOrder υ]

/-- The loop, with the context of the task of a callback; what the callback has returned, and how
many requests of the task have been sent and have come back. -/
structure WebHookLoop (υ κ : Type*) [LinearOrder υ] where
  looper : Looper υ κ
  context : LocalContext
  returned : List Status
  sent : ℕ
  answered : ℕ

/-- **The stages of a webhook**: it waits for its first call, its request is to be sent, has been
sent, the task is to stop, has stopped. -/
inductive Stage
  | waiting
  | forwarding
  | requested
  | stopping
  | stopped
  deriving DecidableEq

namespace Stage

def rank : Stage → ℕ
  | .waiting => 0
  | .forwarding => 1
  | .requested => 2
  | .stopping => 3
  | .stopped => 4

/-- What the callback has returned. -/
def returned : Stage → List Status
  | .waiting => []
  | .forwarding | .requested => [.forward]
  | .stopping | .stopped => [.forward, .stop]

/-- How many requests have been sent. -/
def sent : Stage → ℕ
  | .waiting | .forwarding => 0
  | .requested | .stopping | .stopped => 1

/-- The result that is to be acted upon. -/
def result : Stage → Option Status
  | .forwarding => some .forward
  | .stopping => some .stop
  | .waiting | .requested | .stopped => none

theorem sent_le (st : Stage) : st.sent ≤ 1 := by
  cases st <;> decide

/-- **From a request that has been sent** the callback returns `Stop`, once. -/
theorem returned_of_sent {st st' : Stage} (hrank : st.rank ≤ st'.rank) (hsent : 0 < st.sent) :
    ∃ new, new <+: [.stop] ∧ st'.returned = st.returned ++ new := by
  cases st with
  | waiting | forwarding => cases hsent
  | requested =>
    cases st' with
    | waiting | forwarding => simp [rank] at hrank
    | requested => exact ⟨[], List.nil_prefix, rfl⟩
    | stopping | stopped => exact ⟨[.stop], List.prefix_rfl, rfl⟩
  | stopping | stopped =>
    cases st' with
    | waiting | forwarding | requested => simp [rank] at hrank
    | stopping | stopped => exact ⟨[], List.nil_prefix, rfl⟩

/-- **After `Stop`** the callback is at its last two stages, and returns nothing more. -/
theorem of_stop {st st' : Stage} (hrank : st.rank ≤ st'.rank) (h : .stop ∈ st.returned) :
    (st' = .stopping ∨ st' = .stopped) ∧ st'.returned = st.returned := by
  cases st with
  | waiting | forwarding | requested => simp [returned] at h
  | stopping | stopped =>
    cases st' with
    | waiting | forwarding | requested => simp [rank] at hrank
    | stopping => exact ⟨.inl rfl, rfl⟩
    | stopped => exact ⟨.inr rfl, rfl⟩

end Stage

namespace WebHookLoop

variable [DecidableEq κ] (P : Params υ κ) (c : WebHookCallback) {t : ℕ}

/-- `WebHookCallback::invoke`: a periodic task with a context of its own. -/
def invoke (l : Looper υ κ) : WebHookLoop υ κ where
  looper := l.step P (.addPeriodicTask workerOnly)
  context := .empty
  returned := []
  sent := 0
  answered := 0

/-- One event; a worker that runs the job of `t` calls the callback. -/
def step (t : ℕ) (s : WebHookLoop υ κ) (e : Event υ κ) : WebHookLoop υ κ :=
  if s.looper.handles t e then
    let bt := s.looper.manager.task t
    let (status, context, output) := c.call s.context bt.output
    { s with
      looper := s.looper.step P (.workerDone t (some ⟨status, none, output, bt.nextUuid⟩))
      context := context
      returned := s.returned ++ [status] }
  else
    { s with
      looper := s.looper.step P e
      sent := s.sent + (s.looper.requests P t e).toNat
      answered := s.answered + (s.looper.repliesTo t e).toNat }

variable [Fintype κ]

/-- **A webhook is sent once at most**; when its request has come back, the next call of the
callback returns `Stop`; and then it is not called again, and its task not scheduled. -/
structure SentOnce (t : ℕ) (s : WebHookLoop υ κ) : Prop where
  sent : s.sent ≤ 1
  answered : s.sent = s.answered + s.looper.manager.upstreams t
  stops : 0 < s.answered → ∀ es, ∃ new, new <+: [.stop] ∧
    (Runs.exec (step P c t) s es).returned = s.returned ++ new
  ends : .stop ∈ s.returned → ∀ es,
    (Runs.exec (step P c t) s es).returned = s.returned ∧
      t ∉ (Runs.exec (step P c t) s es).looper.manager.timerList ∧
      t ∉ (Runs.exec (step P c t) s es).looper.manager.threadPool.jobs ∧
      t ∉ (Runs.exec (step P c t) s es).looper.manager.running

/-- The loop is at a stage of the callback. -/
structure At (t : ℕ) (st : Stage) (s : WebHookLoop υ κ) : Prop where
  conserved : Conserved P s.looper
  created : t < s.looper.manager.created
  h3 : (s.looper.manager.task t).h3 = workerOnly
  returned : s.returned = st.returned
  context : s.context.hasKey "operator()" = decide (s.returned ≠ [])
  sent : s.sent = st.sent
  answered : s.sent = s.answered + s.looper.manager.upstreams t
  due : s.looper.Due t ↔ st.result ≠ none
  status : ∀ x ∈ st.result, (s.looper.manager.task t).status = x
  self : st = .stopped → (s.looper.manager.task t).self = false

variable {P c} {s : WebHookLoop υ κ} {st : Stage}

omit [DecidableEq κ] in
/-- The result that is to be acted upon is `Forward` or `Stop`. -/
theorem At.status_of_due (h : At P t st s) (hdue : s.looper.Due t) :
    st = .forwarding ∧ (s.looper.manager.task t).status = .forward ∨
      st = .stopping ∧ (s.looper.manager.task t).status = .stop := by
  have hresult := h.due.mp hdue
  have hstatus := h.status
  cases st with
  | waiting | requested | stopped => exact absurd rfl hresult
  | forwarding => exact .inl ⟨rfl, hstatus _ rfl⟩
  | stopping => exact .inr ⟨rfl, hstatus _ rfl⟩

omit [DecidableEq κ] in
/-- A task that has stopped is nowhere. -/
theorem At.stored_of_stopped (h : At P t .stopped s) : s.looper.manager.stored P t = 0 := by
  have hplaces := h.conserved.placed.places t
  rw [h.self rfl, Bool.toNat_false] at hplaces
  omega

/-- What stays at a step: the task, and that it has stopped. -/
theorem At.step_looper (h : At P t st s) (e : Event υ κ) :
    Conserved P (s.looper.step P e) ∧ t < (s.looper.step P e).manager.created ∧
      (st = .stopped → ((s.looper.step P e).manager.task t).self = false) := by
  have hages := h.conserved.ages_step e
  refine ⟨h.conserved.step e, h.created.trans_le hages.created, fun hst => ?_⟩
  have hself := hages.self t h.created
  rw [h.self hst] at hself
  exact Bool.eq_false_iff.mpr fun htrue => by cases hself htrue

/-- **The callback is called**: for the first time, or when its request has come back. -/
theorem At.call (h : At P t st s) {e : Event υ κ} (he : s.looper.handles t e = true) :
    ∃ st', st.rank ≤ st'.rank ∧ At P t st' (s.step P c t e) := by
  have hrunning : s.looper.terminated = false ∧ t ∈ s.looper.manager.running := by
    unfold Looper.handles at he
    split at he
    · simp only [Bool.and_eq_true, decide_eq_true_eq, Bool.not_eq_true'] at he
      exact ⟨he.1, he.2.2⟩
    · cases he
  obtain ⟨hlive, ht⟩ := hrunning
  obtain ⟨hno, hup⟩ := h.conserved.of_running ht
  have hresult : st.result = none := by
    by_contra hsome
    exact hno (h.due.mpr hsome)
  unfold step
  rw [if_pos he]
  dsimp only
  -- what the callback returns is the result of the job, and nothing else changes
  have next {st' : Stage} {status : Status} {context : LocalContext} {output : Output}
      (hcall : c.call s.context (s.looper.manager.task t).output = (status, context, output))
      (hstatus : st'.result = some status) (hreturned : s.returned ++ [status] = st'.returned)
      (hcontext : context.hasKey "operator()" = true) (hsent : s.sent = st'.sent) :
      At P t st' { s with
        looper := s.looper.step P (.workerDone t (some
          ⟨status, none, output, (s.looper.manager.task t).nextUuid⟩))
        context := context
        returned := s.returned ++ [status] } := by
    obtain ⟨hconserved, hcreated, -⟩ := h.step_looper (.workerDone t (some
      ⟨status, none, output, (s.looper.manager.task t).nextUuid⟩))
    obtain ⟨hdue, hst, hh3, hup'⟩ := h.conserved.handle_step hlive ht
      ⟨status, none, output, (s.looper.manager.task t).nextUuid⟩
    refine ⟨hconserved, hcreated, hh3.trans h.h3, hreturned, ?_, hsent, ?_,
      iff_of_true hdue (by rw [hstatus]; nofun), ?_, ?_⟩
    · rw [hcontext]
      simp
    · rw [hup']
      exact h.answered
    · intro x hx
      rw [hstatus] at hx
      cases hx
      exact hst
    · rintro rfl
      cases hstatus
  have hkey := h.context
  rw [h.returned] at hkey
  cases st with
  | waiting =>
    have hcall := c.call_of_not_hasKey hkey (s.looper.manager.task t).output
    rw [hcall]
    refine ⟨.forwarding, by decide, next hcall rfl (by rw [h.returned]; rfl) ?_ h.sent⟩
    exact (AnyMap.holds_set s.context "operator()" true).hasKey
  | requested =>
    have hcall := c.call_of_hasKey hkey (s.looper.manager.task t).output
    rw [hcall]
    exact ⟨.stopping, by decide, next hcall rfl (by rw [h.returned]; rfl) hkey h.sent⟩
  | stopped =>
    -- its job is not run any more
    have hcount : 0 < s.looper.manager.running.count t := List.count_pos_iff.mpr ht
    have hzero := h.stored_of_stopped
    simp only [State.stored, State.jobs, List.count_append] at hzero
    omega
  | forwarding | stopping => cases hresult

/-- **Another event**: the result is acted upon, the request comes back, or the stage stays. -/
theorem At.other (h : At P t st s) {e : Event υ κ} (he : s.looper.handles t e = false) :
    ∃ st', st.rank ≤ st'.rank ∧ At P t st' (s.step P c t e) := by
  have heffect := h.conserved.effect_step h.created h.h3
    (fun hdue => (h.status_of_due hdue).imp And.right And.right) he
  obtain ⟨hconserved, hcreated, hself⟩ := h.step_looper e
  have hh3 := heffect.h3.trans h.h3
  have hanswered := h.answered
  unfold step
  rw [if_neg (by rw [he]; nofun)]
  generalize s.looper.requests P t e = requests, s.looper.repliesTo t e = replies at heffect
  cases heffect with
  | rest _ hdue hstatus hup =>
    refine ⟨st, le_rfl, hconserved, hcreated, hh3, h.returned, h.context, h.sent, ?_, ?_, ?_,
      hself⟩
    · rw [hup]
      exact hanswered
    · exact hdue.trans h.due
    · intro x hx
      rw [hstatus (h.due.mpr (by rw [Option.mem_def.mp hx]; nofun))]
      exact h.status x hx
  | sent _ hdue hstatus hdone hup =>
    -- the callback has just returned `Forward`
    obtain ⟨rfl, -⟩ | ⟨-, hstop⟩ := h.status_of_due hdue
    · refine ⟨.requested, by decide, hconserved, hcreated, hh3, h.returned, h.context, ?_, ?_,
        iff_of_false hdone (by nofun), nofun, nofun⟩
      · rw [h.sent]
        rfl
      · rw [hup, hanswered]
        simp only [Bool.toNat_true, Bool.toNat_false]
        omega
    · rw [hstop] at hstatus
      cases hstatus
  | stopped _ hdue hstatus hdone hup hself' =>
    obtain ⟨-, hforward⟩ | ⟨rfl, -⟩ := h.status_of_due hdue
    · rw [hforward] at hstatus
      cases hstatus
    · refine ⟨.stopped, by decide, hconserved, hcreated, hh3, h.returned, h.context, h.sent, ?_,
        iff_of_false hdone (by nofun), nofun, fun _ => hself'⟩
      rw [hup]
      exact hanswered
  | replied _ hdue hdone hup =>
    have hresult : st.result = none := by
      by_contra hsome
      exact hdue (h.due.mpr hsome)
    refine ⟨st, le_rfl, hconserved, hcreated, hh3, h.returned, h.context, h.sent, ?_,
      iff_of_false hdone (by rw [hresult]; exact fun hne => hne rfl), ?_, hself⟩
    · rw [hanswered, hup]
      simp only [Bool.toNat_true, Bool.toNat_false]
      omega
    · rw [hresult]
      nofun

/-- **Every event** keeps the stage, or goes on to the next one. -/
theorem At.step (h : At P t st s) (e : Event υ κ) :
    ∃ st', st.rank ≤ st'.rank ∧ At P t st' (s.step P c t e) := by
  cases he : s.looper.handles t e with
  | true => exact h.call he
  | false => exact h.other he

/-- **Every run** goes through the stages in their order. -/
theorem At.exec (h : At P t st s) (es : List (Event υ κ)) :
    ∃ st', st.rank ≤ st'.rank ∧ At P t st' (Runs.exec (WebHookLoop.step P c t) s es) := by
  refine Runs.exec_of_step (I := fun s' => ∃ st', st.rank ≤ st'.rank ∧ At P t st' s')
    (fun s' e hs => ?_) ⟨st, le_rfl, h⟩ es
  obtain ⟨st', hrank, h'⟩ := hs
  obtain ⟨st'', hrank', h''⟩ := h'.step e
  exact ⟨st'', hrank.trans hrank', h''⟩

/-- **A callback that is invoked** waits for its first call. -/
theorem At.invoke {l : Looper υ κ} (hc : Conserved P l) (hlive : l.terminated = false) :
    At P l.manager.created .waiting (invoke P l) := by
  have hstep : l.step P (.addPeriodicTask workerOnly) =
      { l with manager := l.manager.addPeriodicTask workerOnly } := by
    unfold Looper.step
    rw [if_neg (by rw [hlive]; exact Bool.false_ne_true)]
  -- the new task was nowhere
  have hzero := hc.placed.stored_created
  simp only [State.stored, State.jobs, List.count_append] at hzero
  have hcreated : l.manager.created < (l.step P (.addPeriodicTask workerOnly)).manager.created := by
    rw [hstep]
    exact Nat.lt_succ_self _
  have hh3 : ((l.step P (.addPeriodicTask workerOnly)).manager.task l.manager.created).h3
      = workerOnly := by
    rw [hstep]
    exact congrArg Task.h3 (State.create_task_self l.manager _)
  have hup : (l.step P (.addPeriodicTask workerOnly)).manager.upstreams l.manager.created = 0 := by
    rw [hstep]
    show l.manager.upstreams l.manager.created = 0
    omega
  have hdue : ¬ (l.step P (.addPeriodicTask workerOnly)).Due l.manager.created := by
    rw [hstep]
    rintro (hres | hacts)
    · have hcount : 0 < l.manager.resQueue.items.count l.manager.created :=
        List.count_pos_iff.mpr hres
      omega
    · have hacts : l.phase.acts l.manager.created := hacts
      cases hphase : l.phase with
      | idle =>
        rw [hphase] at hacts
        exact hacts
      | dispatching t s after =>
        rw [hphase] at hacts
        exact (hc.dispatch t s after hphase).created.ne hacts.1
  exact ⟨hc.step (.addPeriodicTask workerOnly), hcreated, hh3, rfl, rfl, rfl,
    hup.symm.trans (Nat.zero_add _).symm, iff_of_false hdue fun hne => hne rfl,
    (fun x hx => by cases hx), (fun hst => by cases hst)⟩

omit [DecidableEq κ] in
/-- At the last two stages the task is not scheduled, and has no job. -/
theorem At.nowhere (h : At P t st s) (hst : st = .stopping ∨ st = .stopped) :
    t ∉ s.looper.manager.timerList ∧ t ∉ s.looper.manager.threadPool.jobs ∧
      t ∉ s.looper.manager.running := by
  rcases hst with rfl | rfl
  · exact h.conserved.of_due (h.due.mpr nofun)
  · have hzero := h.stored_of_stopped
    simp only [State.stored, State.jobs, List.count_append] at hzero
    simp only [← List.count_eq_zero]
    omega

/-- What a stage says of the runs that follow. -/
theorem At.sentOnce (h : At P t st s) : SentOnce P c t s where
  sent := h.sent ▸ st.sent_le
  answered := h.answered
  stops hanswered es := by
    obtain ⟨st', hrank, h'⟩ := h.exec (c := c) es
    have hsent : 0 < st.sent := by
      have := h.answered
      rw [← h.sent]
      omega
    rw [h.returned, h'.returned]
    exact Stage.returned_of_sent hrank hsent
  ends hstop es := by
    obtain ⟨st', hrank, h'⟩ := h.exec (c := c) es
    rw [h.returned] at hstop
    obtain ⟨hst', hreturned⟩ := Stage.of_stop hrank hstop
    rw [h.returned, h'.returned]
    exact ⟨hreturned, h'.nowhere hst'⟩

/-- **A webhook is sent once at most**, whenever its callback is invoked, and in every run that
follows. -/
theorem sentOnce_of_invoke (P : Params υ κ) (c : WebHookCallback) (pre : List (Event υ κ))
    (hlive : (Runs.exec (Looper.step P) (.init P) pre).terminated = false)
    (es : List (Event υ κ)) :
    let l := Runs.exec (Looper.step P) (.init P) pre
    SentOnce P c l.manager.created
      (Runs.exec (step P c l.manager.created) (invoke P l) es) := by
  intro l
  obtain ⟨st, -, h⟩ := (At.invoke (Conserved.exec pre) hlive).exec (c := c) es
  exact h.sentOnce

/-! ## A webhook whose request fails -/

/-- The timer fires, and a worker runs the job. -/
def timerRun : List (Event ℕ Unit) :=
  .timer 0 :: List.replicate 5 (.process none) ++ [.workerStart 0, .workerDone 0 none, .jobReady] ++
    List.replicate 3 (.process none)

/-- The request is sent and fails, and the task is scheduled again. -/
def failedRun : List (Event ℕ Unit) := timerRun ++ [.upstreamReply 0 none] ++ timerRun

theorem sentOnce_failedRun :
    let l := Runs.exec (Looper.step smallParams) (.init smallParams) []
    let s := Runs.exec (step smallParams ⟨{ body := "paid" }⟩ 0) (invoke smallParams l) failedRun
    l.terminated = false ∧ s.returned = [.forward, .stop] ∧ s.sent = 1 ∧ s.answered = 1 ∧
      SentOnce smallParams ⟨{ body := "paid" }⟩ 0 s :=
  ⟨rfl, by decide +kernel, by decide +kernel, by decide +kernel,
    sentOnce_of_invoke smallParams _ [] rfl failedRun⟩

end WebHookLoop

end TaskManager
