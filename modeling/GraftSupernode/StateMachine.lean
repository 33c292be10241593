/-
# The state machine of a task

`StateMachine` (`state_machine.h`, the table of `init_table` in `task.cpp`).  A
dispatch repeats `process` until the state is `exit`; `process` takes the first
row whose start state, statuses and guard fit, runs its action and moves to its
target.  Actions belong to the task manager; here they are names.

* `initTable`: the rows, in the order of the source;
* `process`: the row that is taken, `none` when the table has no row;
* `process_execute` … `process_chkPostAction`: what `process` does in each state.
-/
import Mathlib.Data.List.Basic

namespace StateMachine

/-- `GRAFT_STATUS_LIST` -/
inductive Status
  | none
  | ok
  | forward
  | again
  | error
  | drop
  | busy
  | internalError
  | postpone
  | stop
  deriving DecidableEq, Repr

/-- `GRAFT_STATE_LIST` -/
inductive State
  | execute
  | preAction
  | chkPreAction
  | workerAction
  | chkWorkerAction
  | workerActionDone
  | postAction
  | chkPostAction
  | again
  | exit
  deriving DecidableEq, Repr

/-- `Router::Handler3`: which of the three actions are set. -/
structure Handler3 where
  preAction : Bool
  workerAction : Bool
  postAction : Bool
  deriving DecidableEq, Repr

/-- The actions of the table. -/
inductive Action
  | checkOverflow
  | runPreaction
  | runWorkeraction
  | runPostaction
  | runResponse
  | runErrorResponse
  | runDrop
  | runForward
  | runOkResponse
  | runPostpone
  deriving DecidableEq, Repr

/-- A row of the table.  An empty list of statuses stands for `ANY`. -/
structure Row where
  start : State
  statuses : List Status
  target : State
  guard : Option (Handler3 → Bool)
  action : Option Action

/-- `StateMachine::init_table`.  The status lists are taken as the values that the table spells; the
code keeps them as initializer lists, whose arrays need not outlive `init_table`. -/
def initTable : List Row :=
  [ ⟨.execute, [], .preAction, none, some .checkOverflow⟩,
    ⟨.preAction, [.busy], .exit, none, none⟩,
    ⟨.preAction, [.none, .ok, .forward, .postpone], .chkPreAction, none, some .runPreaction⟩,
    ⟨.chkPreAction, [.again], .preAction, none, some .runResponse⟩,
    ⟨.chkPreAction, [.ok], .workerAction, some Handler3.preAction, none⟩,
    ⟨.chkPreAction, [.forward], .postAction, some Handler3.preAction, none⟩,
    ⟨.chkPreAction, [.error, .internalError, .stop], .exit, some Handler3.preAction,
      some .runErrorResponse⟩,
    ⟨.chkPreAction, [.drop], .exit, some Handler3.preAction, some .runDrop⟩,
    ⟨.chkPreAction, [.none, .ok, .forward, .postpone], .workerAction, none, none⟩,
    ⟨.workerAction, [], .chkWorkerAction, none, some .runWorkeraction⟩,
    ⟨.chkWorkerAction, [], .exit, some Handler3.workerAction, none⟩,
    ⟨.chkWorkerAction, [], .postAction, none, none⟩,
    ⟨.workerActionDone, [.again], .workerAction, none, some .runResponse⟩,
    ⟨.workerActionDone, [], .postAction, none, none⟩,
    ⟨.postAction, [], .chkPostAction, none, some .runPostaction⟩,
    ⟨.chkPostAction, [.again], .postAction, none, some .runResponse⟩,
    ⟨.chkPostAction, [.forward], .exit, none, some .runForward⟩,
    ⟨.chkPostAction, [.ok], .exit, none, some .runOkResponse⟩,
    ⟨.chkPostAction, [.error, .internalError, .stop], .exit, none, some .runErrorResponse⟩,
    ⟨.chkPostAction, [.drop], .exit, none, some .runDrop⟩,
    ⟨.chkPostAction, [.postpone], .exit, none, some .runPostpone⟩ ]

/-- The test that `process` makes of a row. -/
def Row.fits (r : Row) (s : State) (st : Status) (h3 : Handler3) : Bool :=
  s == r.start && (r.statuses.isEmpty || r.statuses.contains st) &&
    r.guard.all (fun g => g h3)

/-- `StateMachine::process`: the action to run and the next state; `none` is the
exception "State machine table is not complete.". -/
def process (s : State) (st : Status) (h3 : Handler3) : Option (Option Action × State) :=
  (initTable.find? fun r => r.fits s st h3).map fun r => (r.action, r.target)

/-! ## The rows by state -/

section rows

variable (st : Status) (h3 : Handler3)

/-- A task begins with the check for an overflow. -/
theorem process_execute : process .execute st h3 = some (some .checkOverflow, .preAction) := by
  cases st <;> rfl

/-- Before the pre action, the status decides whether there is an overflow. -/
theorem process_preAction :
    process .preAction st h3 = match st with
      | .busy => some (none, .exit)
      | .none | .ok | .forward | .postpone => some (some .runPreaction, .chkPreAction)
      | _ => none := by
  cases st <;> rfl

/-- The worker action is started whatever the status is. -/
theorem process_workerAction :
    process .workerAction st h3 = some (some .runWorkeraction, .chkWorkerAction) := by
  cases st <;> rfl

/-- After the worker action is started, the task waits for it if there is one. -/
theorem process_chkWorkerAction :
    process .chkWorkerAction st h3
      = some (none, if h3.workerAction then .exit else .postAction) := by
  obtain ⟨_, worker, _⟩ := h3
  cases worker <;> cases st <;> rfl

/-- After the worker action, a task that runs again is answered, and goes on. -/
theorem process_workerActionDone :
    process .workerActionDone st h3 = match st with
      | .again => some (some .runResponse, .workerAction)
      | _ => some (none, .postAction) := by
  cases st <;> rfl

/-- The post action is run whatever the status is. -/
theorem process_postAction :
    process .postAction st h3 = some (some .runPostaction, .chkPostAction) := by
  cases st <;> rfl

/-- After the post action, the status decides how the task ends. -/
theorem process_chkPostAction :
    process .chkPostAction st h3 = match st with
      | .again => some (some .runResponse, .postAction)
      | .forward => some (some .runForward, .exit)
      | .ok => some (some .runOkResponse, .exit)
      | .error | .internalError | .stop => some (some .runErrorResponse, .exit)
      | .drop => some (some .runDrop, .exit)
      | .postpone => some (some .runPostpone, .exit)
      | .none | .busy => none := by
  cases st <;> rfl

/-- The check after the pre-action tells a handler with a pre-action from one without. -/
theorem process_chkPreAction :
    process .chkPreAction st h3 = match st, h3.preAction with
      | .again, _ => some (some .runResponse, .preAction)
      | .ok, _ => some (none, .workerAction)
      | .forward, true => some (none, .postAction)
      | .forward, false => some (none, .workerAction)
      | .none, _ | .postpone, _ => some (none, .workerAction)
      | .error, true | .internalError, true | .stop, true => some (some .runErrorResponse, .exit)
      | .drop, true => some (some .runDrop, .exit)
      | _, _ => none := by
  obtain ⟨pre, _, _⟩ := h3
  cases pre <;> cases st <;> rfl

/-- No row starts in `again` or `exit`. -/
theorem process_again : process .again st h3 = none := by
  cases st <;> rfl

/-- There is nothing after the exit. -/
theorem process_exit : process .exit st h3 = none := by
  cases st <;> rfl

end rows

/-! ## What a row can do -/

section cases

variable {st : Status} {h3 : Handler3} {a : Option Action} {target : State}

/-- Before the pre action there are these two ways. -/
theorem process_preAction_cases (h : process .preAction st h3 = some (a, target)) :
    st = .busy ∧ a = none ∧ target = .exit ∨
      st ≠ .busy ∧ a = some .runPreaction ∧ target = .chkPreAction := by
  rw [process_preAction] at h
  cases st <;> simp_all

/-- After the pre action there are these three ways. -/
theorem process_chkPreAction_cases (h : process .chkPreAction st h3 = some (a, target)) :
    st = .again ∧ a = some .runResponse ∧ target = .preAction ∨
      a = none ∧ (target = .workerAction ∨ target = .postAction) ∨
      st ≠ .again ∧ (a = some .runErrorResponse ∨ a = some .runDrop) ∧ target = .exit := by
  rw [process_chkPreAction] at h
  cases st <;> cases hpre : h3.preAction <;> simp_all

/-- After the worker action there are these two ways. -/
theorem process_workerActionDone_cases
    (h : process .workerActionDone st h3 = some (a, target)) :
    st = .again ∧ a = some .runResponse ∧ target = .workerAction ∨
      a = none ∧ target = .postAction := by
  rw [process_workerActionDone] at h
  cases st <;> simp_all

/-- After the post action there are these five ways. -/
theorem process_chkPostAction_cases (h : process .chkPostAction st h3 = some (a, target)) :
    st = .again ∧ a = some .runResponse ∧ target = .postAction ∨
      st = .forward ∧ a = some .runForward ∧ target = .exit ∨
      st = .ok ∧ a = some .runOkResponse ∧ target = .exit ∨
      st ≠ .again ∧ (a = some .runErrorResponse ∨ a = some .runDrop) ∧ target = .exit ∨
      st = .postpone ∧ a = some .runPostpone ∧ target = .exit := by
  rw [process_chkPostAction] at h
  cases st <;> simp_all

/-- What is taken is a row of the table that starts in the state. -/
theorem exists_row {s : State} (h : process s st h3 = some (a, target)) :
    ∃ r ∈ initTable, r.start = s ∧ r.action = a ∧ r.target = target := by
  obtain ⟨r, hr, heq⟩ := Option.map_eq_some_iff.mp h
  have hfits := List.find?_some hr
  simp only [Row.fits, Bool.and_eq_true, beq_iff_eq] at hfits
  cases heq
  exact ⟨r, List.mem_of_find?_eq_some hr, hfits.1.1.symm, rfl, rfl⟩

/-- A dispatch does not come back to its start. -/
theorem target_ne_execute {s : State} (h : process s st h3 = some (a, target)) :
    target ≠ .execute := by
  obtain ⟨r, hr, -, -, rfl⟩ := exists_row h
  revert r
  simp [initTable]

/-- The pre-action is reached from the start, or again after it. -/
theorem target_preAction {s : State} (h : process s st h3 = some (a, .preAction)) :
    s = .execute ∧ a = some .checkOverflow ∨ s = .chkPreAction ∧ a = some .runResponse := by
  obtain ⟨r, hr, rfl, rfl, htarget⟩ := exists_row h
  revert r
  simp [initTable]

end cases

end StateMachine
