/-
# Runs of the worker pool

* `jobs_kept`: a job that is posted is taken once, in the order of its queue, by a worker that does
  it;
* `one_worker`: every slot has one worker that goes on, and one that is expelled takes at most one
  job more;
* `destructor_returns`: when every job returns, the destructor does.
-/
import GraftSupernode.WorkerPool
import GraftSupernode.FairRuns
import Mathlib.Data.Nat.Pairing

open Function Runs

namespace WorkerPool

variable {τ : Type*} {s : State τ} {w : ℕ}

open State

/-! ## Jobs in the queues -/

theorem pushTo_eq_some {k : ℕ} {job : τ} {refuse : Bool} {q : BoundedQueue τ}
    (h : s.pushTo k job refuse = some q) : q.items = (s.queues k).items ++ [job] := by
  unfold pushTo at h
  split at h
  · cases h
  · exact (BoundedQueue.push_eq_some h).1

theorem popFrom_eq_some {k : ℕ} {refuse : Bool} {p : τ × BoundedQueue τ}
    (h : s.popFrom k refuse = some p) : (s.queues k).items = p.1 :: p.2.items := by
  unfold popFrom at h
  split at h
  · cases h
  · exact (BoundedQueue.pop_eq_some h).1

@[simp] theorem queues_countPost (s : State τ) (caller : Option ℕ) :
    (s.countPost caller).queues = s.queues := by
  unfold countPost
  split <;> rfl

@[simp] theorem queues_ownerStep (s : State τ) : s.ownerStep.queues = s.queues := by
  unfold ownerStep
  repeat' split
  all_goals rfl

/-- A pop from the queue `k'` as the queue `k` sees it. -/
theorem items_takeFrom {k k' : ℕ} {refuse : Bool} {p : τ × BoundedQueue τ}
    (h : s.popFrom k' refuse = some p) :
    (s.queues k).items = (((some (w, k', p.1)).filter fun x => x.2.1 = k).map fun x => x.2.2).toList
      ++ (update s.queues k' p.2 k).items := by
  by_cases hk : k' = k
  · subst hk
    simpa [Option.filter] using popFrom_eq_some h
  · simp [Option.filter, hk, update_of_ne (Ne.symm hk)]

/-- **A step conserves the jobs of a queue.** -/
theorem items_step (k : ℕ) (s : State τ) (e : Event τ) :
    (s.queues k).items ++ (postedTo k s e).toList
      = (takenFrom k s e).toList ++ ((step s e).queues k).items := by
  cases e with
  | tick d => exact List.append_nil _
  | tryPost caller job refuse =>
    show _ = ((step s _).queues k).items
    simp only [postedTo, posted, step]
    split
    · simp only [State.tryPost]
      cases hq : s.pushTo (s.getWorkerIdx caller) job refuse with
      | none => simp
      | some q =>
        by_cases hk : s.getWorkerIdx caller = k
        · subst hk
          simp [setQueue, pushTo_eq_some hq, Option.filter]
        · simp [setQueue, Option.filter, hk, update_of_ne (Ne.symm hk)]
    · exact List.append_nil _
  | turn w refuse =>
    show _ ++ [] = _
    rw [List.append_nil]
    simp only [takenFrom, took, step]
    split
    · unfold turn
      cases hpc : (s.threads w).pc with
      | pop =>
        cases hq : s.popFrom (s.threads w).id refuse with
        | none => rfl
        | some p => exact items_takeFrom hq
      | steal =>
        cases hq : s.popFrom (s.stealQueue w) refuse with
        | none => rfl
        | some p => exact items_takeFrom hq
      | _ => rfl
    · rfl
  | expelWorkers =>
    show _ ++ [] = _
    simp only [List.append_nil, step]
    split <;> rfl
  | destroy =>
    show _ ++ [] = _
    simp only [List.append_nil, step]
    split <;> rfl
  | owner =>
    show _ ++ [] = _
    rw [List.append_nil, step, queues_ownerStep]
    rfl

/-! ## What a step does to a thread -/

/-- How many steps a thread has left when its flag is down. -/
def Pc.rank : Pc τ → ℕ
  | .left => 0
  | .leave => 1
  | .check => 2
  | .disarm => 3
  | .run _ => 4
  | .arm _ => 5
  | .steal => 6
  | .pop => 7

/-- The thread has found its flag up, and has not popped a job since. -/
def Pc.seeks : Pc τ → Bool
  | .pop => true
  | .steal => true
  | _ => false

/-- The thread counts itself out in its next step. -/
def Pc.isLeave : Pc τ → Bool
  | .leave => true
  | _ => false

/-- What a thread does in a step. -/
structure Goes (t t' : Worker τ) : Prop where
  id : t'.id = t.id
  runningFlag : t'.runningFlag = t.runningFlag
  isLeft : t'.pc.isLeft = (t.pc.isLeave || t.pc.isLeft)
  isLeave : t'.pc.isLeave = true → t.runningFlag = false
  rank : t.runningFlag = false → t'.pc.isLeft = true ∨ t'.pc.rank < t.pc.rank

/-- **A step of a thread** leaves all but the queues, the thread and the count of the active. -/
theorem turn_eq (s : State τ) (w : ℕ) (refuse : Bool) : ∃ q t,
    s.turn w refuse = { s with
      queues := q
      threads := update s.threads w t
      activeCount := if (s.threads w).pc.isLeave then s.activeCount - 1 else s.activeCount } ∧
    Goes (s.threads w) t := by
  unfold State.turn
  cases hpc : (s.threads w).pc with
  | check =>
    cases hflag : (s.threads w).runningFlag with
    | true =>
      exact ⟨_, _, rfl, rfl, rfl, by simp [hpc, Pc.isLeft, Pc.isLeave], by simp [Pc.isLeave],
        by simp [hflag]⟩
    | false =>
      exact ⟨_, _, rfl, rfl, rfl, by simp [hpc, Pc.isLeft, Pc.isLeave],
        by simp [Pc.isLeave, hflag], by simp [hflag, hpc, Pc.rank]⟩
  | left =>
    exact ⟨s.queues, s.threads w, by simp [Pc.isLeave], rfl, rfl,
      by simp [hpc, Pc.isLeft, Pc.isLeave], by simp [hpc, Pc.isLeave], by simp [hpc, Pc.isLeft]⟩
  | pop =>
    cases hq : s.popFrom (s.threads w).id refuse with
    | none | some p =>
      exact ⟨_, _, rfl, rfl, rfl, by simp [hpc, Pc.isLeft, Pc.isLeave], by simp [Pc.isLeave],
        by simp [hpc, Pc.rank]⟩
  | steal =>
    cases hq : s.popFrom (s.stealQueue w) refuse with
    | none | some p =>
      exact ⟨_, _, rfl, rfl, rfl, by simp [hpc, Pc.isLeft, Pc.isLeave], by simp [Pc.isLeave],
        by simp [hpc, Pc.rank]⟩
  | _ =>
    exact ⟨_, _, rfl, rfl, rfl, by simp [hpc, Pc.isLeft, Pc.isLeave], by simp [Pc.isLeave],
      by simp [hpc, Pc.rank, Pc.isLeft]⟩

theorem tryPost_eq (s : State τ) (caller : Option ℕ) (job : τ) (refuse : Bool) :
    ∃ q n, s.tryPost caller job refuse = { s with queues := q, nextWorker := n } := by
  unfold State.tryPost countPost
  split <;> split <;> exact ⟨_, _, rfl⟩

/-- **A step of the owner** goes on, expels the worker in a slot or stops it. -/
theorem ownerStep_cases (s : State τ) :
    (∃ o, s.ownerStep = { s with owner := o }) ∨
    (∃ now i, s.owner = .mark now i ∧
      s.ownerStep = { s.expel i with owner := .scan now (i + 1) }) ∨
    ∃ i, s.owner = .stop i ∧ i < s.size ∧
      s.ownerStep = { s.clearFlag (s.workers i) with owner := .join i } := by
  unfold State.ownerStep
  cases howner : s.owner with
  | mark now i => exact .inr (.inl ⟨now, i, rfl, rfl⟩)
  | stop i =>
    by_cases hi : i < s.size
    · exact .inr (.inr ⟨i, rfl, hi, if_pos hi⟩)
    · exact .inl ⟨.drain, if_neg hi⟩
  | idle | destroyed => exact .inl ⟨s.owner, rfl⟩
  | scan now i =>
    left
    dsimp only
    split
    · split <;> exact ⟨_, rfl⟩
    · exact ⟨_, rfl⟩
  | join i =>
    left
    dsimp only
    split
    · exact ⟨_, rfl⟩
    · exact ⟨s.owner, rfl⟩
  | drain =>
    left
    dsimp only
    split
    · exact ⟨_, rfl⟩
    · exact ⟨s.owner, rfl⟩

theorem threads_clearFlag (s : State τ) (v w : ℕ) :
    ((s.clearFlag v).threads w).pc = (s.threads w).pc ∧
      ((s.clearFlag v).threads w).id = (s.threads w).id ∧
      (((s.clearFlag v).threads w).runningFlag = true → (s.threads w).runningFlag = true) := by
  by_cases hw : w = v
  · subst hw
    simp [clearFlag, setThread]
  · simp [clearFlag, setThread, update_of_ne hw]

/-- **What a step does**: it concerns no thread, or is one of a thread, or the owner expels the
worker in a slot or stops it. -/
theorem step_cases (s : State τ) (e : Event τ) :
    (∃ q n t o, step s e = { s with queues := q, nextWorker := n, now := t, owner := o }) ∨
    (∃ v refuse, e = .turn v refuse ∧ v < s.started ∧ step s e = s.turn v refuse) ∨
    (∃ now i, s.owner = .mark now i ∧
      step s e = { s.expel i with owner := .scan now (i + 1) }) ∨
    ∃ i, s.owner = .stop i ∧ i < s.size ∧
      step s e = { s.clearFlag (s.workers i) with owner := .join i } := by
  cases e with
  | tick d => exact .inl ⟨_, _, _, _, rfl⟩
  | tryPost caller job refuse =>
    left
    simp only [step]
    split
    · obtain ⟨q, n, heq⟩ := tryPost_eq s caller job refuse
      exact ⟨q, n, _, _, heq⟩
    · exact ⟨_, _, _, _, rfl⟩
  | turn v refuse =>
    by_cases hv : v < s.started
    · exact .inr (.inl ⟨v, refuse, rfl, hv, if_pos hv⟩)
    · exact .inl ⟨_, _, _, _, if_neg hv⟩
  | expelWorkers | destroy =>
    left
    simp only [step]
    split <;> exact ⟨_, _, _, _, rfl⟩
  | owner =>
    rcases ownerStep_cases s with ⟨o, heq⟩ | hmark | hstop
    · exact .inl ⟨_, _, _, o, heq⟩
    · exact .inr (.inr (.inl hmark))
    · exact .inr (.inr (.inr hstop))

/-- **A thread goes on in its own steps only**; another one can do no more than lower its flag. -/
theorem thread_step (hw : w < s.started) {e : Event τ} (he : ∀ refuse, e ≠ .turn w refuse) :
    ((step s e).threads w).pc = (s.threads w).pc ∧ ((step s e).threads w).id = (s.threads w).id ∧
      (((step s e).threads w).runningFlag = true → (s.threads w).runningFlag = true) := by
  rcases step_cases s e with ⟨q, n, t, o, heq⟩ | ⟨v, refuse, hturn, -, heq⟩ | ⟨now, i, -, heq⟩ |
    ⟨i, -, -, heq⟩ <;> rw [heq]
  · exact ⟨rfl, rfl, id⟩
  · have hvw : w ≠ v := fun h => he refuse (h ▸ hturn)
    obtain ⟨q, t, heq', -⟩ := turn_eq s v refuse
    rw [heq']
    simp [update_of_ne hvw]
  · have hne : w ≠ s.started := hw.ne
    simpa only [expel, update_of_ne hne] using threads_clearFlag s (s.workers i) w
  · exact threads_clearFlag s (s.workers i) w

/-- In its own step a thread goes on. -/
theorem goes_step (hw : w < s.started) (refuse : Bool) :
    Goes (s.threads w) ((step s (.turn w refuse)).threads w) := by
  obtain ⟨q, t, heq, hgoes⟩ := turn_eq s w refuse
  rw [step, if_pos hw, heq]
  simpa only [update_self] using hgoes

/-- The slots stay, and so do the workers that are started; a new one comes next, and starts at the
top. -/
theorem started_step (s : State τ) (e : Event τ) :
    (step s e).size = s.size ∧ ((step s e).started = s.started ∨
      (step s e).started = s.started + 1 ∧ ∃ i, (step s e).threads s.started = .new i) := by
  rcases step_cases s e with ⟨q, n, t, o, heq⟩ | ⟨v, refuse, -, -, heq⟩ | ⟨now, i, -, heq⟩ |
    ⟨i, -, -, heq⟩ <;> rw [heq]
  · exact ⟨rfl, .inl rfl⟩
  · obtain ⟨q, t, heq', -⟩ := turn_eq s v refuse
    rw [heq']
    exact ⟨rfl, .inl rfl⟩
  · exact ⟨rfl, .inr ⟨rfl, i, update_self ..⟩⟩
  · exact ⟨rfl, .inl rfl⟩

/-! ## Jobs of the workers -/

/-- What a worker has changes in its own steps only. -/
theorem held_step_of_ne {e : Event τ} (he : ∀ refuse, e ≠ .turn w refuse) :
    (step s e).held w = s.held w := by
  unfold State.held
  rcases (started_step s e).2 with hstarted | ⟨hstarted, i, hnew⟩
  · rw [hstarted]
    split
    · rename_i hw
      rw [(thread_step hw he).1]
    · rfl
  · by_cases hw : w < s.started
    · rw [if_pos hw, if_pos (by omega), (thread_step hw he).1]
    · rw [if_neg hw]
      split
      · obtain rfl : w = s.started := by omega
        rw [hnew]
        rfl
      · rfl

theorem fst_of_took {refuse : Bool} {x : ℕ × ℕ × τ} (h : took s (.turn w refuse) = some x) :
    x.1 = w := by
  simp only [took] at h
  split at h
  · split at h
    · obtain ⟨p, -, rfl⟩ := Option.map_eq_some_iff.mp h
      rfl
    · obtain ⟨p, -, rfl⟩ := Option.map_eq_some_iff.mp h
      rfl
    · cases h
  · cases h

theorem fst_of_finished {refuse : Bool} {x : ℕ × τ} (h : finished s (.turn w refuse) = some x) :
    x.1 = w := by
  simp only [finished] at h
  split at h
  · split at h <;> cases h
    rfl
  · cases h

/-- A worker takes and ends jobs in its own steps. -/
theorem eq_none_of_ne {e : Event τ} (he : ∀ refuse, e ≠ .turn w refuse) :
    takenBy w s e = none ∧ finishedBy w s e = none := by
  cases e with
  | turn v refuse =>
    have hvw : v ≠ w := fun h => he refuse (h ▸ rfl)
    refine ⟨?_, ?_⟩
    · rw [takenBy, Option.map_eq_none_iff, Option.filter_eq_none_iff]
      intro x hx
      simpa [fst_of_took hx] using hvw
    · rw [finishedBy, Option.map_eq_none_iff, Option.filter_eq_none_iff]
      intro x hx
      simpa [fst_of_finished hx] using hvw
  | _ => exact ⟨rfl, rfl⟩

/-- **A step conserves the job that a worker has.** -/
theorem held_step (w : ℕ) (s : State τ) (e : Event τ) :
    (s.held w).toList ++ (takenBy w s e).toList
      = (finishedBy w s e).toList ++ ((step s e).held w).toList := by
  by_cases hturn : ∃ refuse, e = .turn w refuse
  · obtain ⟨refuse, rfl⟩ := hturn
    by_cases hw : w < s.started
    · simp only [takenBy, took, finishedBy, finished, step, State.held, if_pos hw, State.turn]
      cases hpc : (s.threads w).pc with
      | pop =>
        cases hq : s.popFrom (s.threads w).id refuse with
        | none => simp [setThread, State.goto, hw, Pc.job?, Option.filter]
        | some p => simp [setThread, State.goto, setQueue, hw, Pc.job?, Option.filter]
      | steal =>
        cases hq : s.popFrom (s.stealQueue w) refuse with
        | none => simp [setThread, State.goto, hw, Pc.job?, Option.filter]
        | some p => simp [setThread, State.goto, setQueue, hw, Pc.job?, Option.filter]
      | check =>
        cases hflag : (s.threads w).runningFlag <;>
          simp [setThread, State.goto, hw, Pc.job?, Option.filter]
      | _ => simp [setThread, State.goto, hw, hpc, Pc.job?, Option.filter]
    · simp [takenBy, took, finishedBy, finished, step, hw]
  · have he : ∀ refuse, e ≠ .turn w refuse := fun refuse h => hturn ⟨refuse, h⟩
    rw [held_step_of_ne he, (eq_none_of_ne he).1, (eq_none_of_ne he).2]
    exact List.append_nil _

/-- What a worker has taken is what it has done and what it has. -/
theorem taken_eq (threadCount queueSize expellingIntervalMs now w : ℕ) (es : List (Event τ)) :
    trace step (takenBy w) (init threadCount queueSize expellingIntervalMs now) es
      = trace step (finishedBy w) (init threadCount queueSize expellingIntervalMs now) es
        ++ ((exec step (init threadCount queueSize expellingIntervalMs now) es).held w).toList := by
  have hnone : (init threadCount queueSize expellingIntervalMs now : State τ).held w = none := by
    unfold State.held
    split <;> rfl
  have hkept := trace_balance (held_step w)
    (init threadCount queueSize expellingIntervalMs now) es
  rwa [hnone] at hkept

/-- **The jobs are conserved**: those posted to a queue are those taken from it and those that are
still in it, in this order; those a worker has taken are those it has done and the one it is at. -/
theorem jobs_kept (threadCount queueSize expellingIntervalMs now : ℕ) (es : List (Event τ)) :
    let s : State τ := init threadCount queueSize expellingIntervalMs now
    (∀ k, trace step (postedTo k) s es
      = trace step (takenFrom k) s es ++ ((exec step s es).queues k).items) ∧
    ∀ w, trace step (takenBy w) s es
      = trace step (finishedBy w) s es ++ ((exec step s es).held w).toList := by
  intro s
  refine ⟨fun k => ?_, fun w => taken_eq _ _ _ _ w es⟩
  have hkept := trace_balance (items_step k) s es
  rwa [show (s.queues k).items = [] from rfl, List.nil_append] at hkept

/-! ## The workers of the slots -/

/-- What holds where the owner is: no worker has been stopped; the slot is one of the pool; the
workers of the slots before have left, and that of the slot has been stopped. -/
def State.OwnerSound (s : State τ) : Prop :=
  match s.owner with
  | .idle | .scan _ _ => ∀ i < s.size, (s.threads (s.workers i)).runningFlag = true
  | .mark _ i => i < s.size ∧ ∀ i < s.size, (s.threads (s.workers i)).runningFlag = true
  | .stop i =>
    (∀ j < i, j < s.size → (s.threads (s.workers j)).pc.isLeft = true) ∧
      ∀ j < s.size, i ≤ j → (s.threads (s.workers j)).runningFlag = true
  | .join i =>
    i < s.size ∧ (s.threads (s.workers i)).runningFlag = false ∧
      (∀ j < i, (s.threads (s.workers j)).pc.isLeft = true) ∧
      ∀ j < s.size, i < j → (s.threads (s.workers j)).runningFlag = true
  | .drain => ∀ j < s.size, (s.threads (s.workers j)).pc.isLeft = true
  | .destroyed => s.alive = 0

/-- **The invariant**: the worker of a slot has been started for it, and no other worker of the slot
has its flag up; a thread that leaves has its flag down; the counters count. -/
structure Sound (s : State τ) : Prop where
  started : s.started = s.size + s.expelledCount
  slot : ∀ i < s.size, s.workers i < s.started ∧ (s.threads (s.workers i)).id = i
  id_lt : ∀ w < s.started, (s.threads w).id < s.size
  current : ∀ w < s.started, (s.threads w).runningFlag = true → s.workers (s.threads w).id = w
  leaving : ∀ w < s.started, (s.threads w).runningFlag = true →
    (s.threads w).pc.isLeave = false ∧ (s.threads w).pc.isLeft = false
  activeCount : s.activeCount = s.alive
  owner : s.OwnerSound

theorem sound_init (threadCount queueSize expellingIntervalMs now : ℕ) :
    Sound (init threadCount queueSize expellingIntervalMs now : State τ) where
  started := rfl
  slot i hi := ⟨hi, rfl⟩
  id_lt w hw := hw
  current w _ _ := rfl
  leaving w _ _ := ⟨rfl, rfl⟩
  activeCount := by simp [init, alive, Worker.new, Pc.isLeft]
  owner i _ := rfl

/-- A thread that goes on is still there, or counts itself out. -/
theorem alive_turn (hw : w < s.started) {q : ℕ → BoundedQueue τ} {t : Worker τ} {a : ℕ}
    (hgoes : Goes (s.threads w) t) :
    ({ s with queues := q, threads := update s.threads w t, activeCount := a } : State τ).alive
      = if (s.threads w).pc.isLeave then s.alive - 1 else s.alive := by
  unfold alive
  dsimp only
  split
  · rename_i hleave
    have hmem : w ∈ (Finset.range s.started).filter fun v => (s.threads v).pc.isLeft = false := by
      rw [Finset.mem_filter, Finset.mem_range]
      refine ⟨hw, ?_⟩
      cases hpc : (s.threads w).pc <;> rw [hpc] at hleave <;> first | rfl | cases hleave
    rw [← Finset.card_erase_of_mem hmem]
    congr 1
    ext v
    rw [Finset.mem_erase, Finset.mem_filter, Finset.mem_filter]
    by_cases hv : v = w
    · subst hv
      simp [hgoes.isLeft, hleave]
    · simp [hv]
  · rename_i hleave
    congr 1
    refine Finset.filter_congr fun v _ => ?_
    by_cases hv : v = w
    · subst hv
      rw [update_self, hgoes.isLeft, Bool.eq_false_of_not_eq_true hleave, Bool.false_or]
    · rw [update_of_ne hv]

/-- Threads that keep their flags, and do not come back, change nothing for the owner. -/
theorem State.OwnerSound.of_threads {s s' : State τ} (h : s.OwnerSound)
    (howner : s'.owner = s.owner) (hsize : s'.size = s.size) (hworkers : s'.workers = s.workers)
    (hflag : ∀ v, (s'.threads v).runningFlag = (s.threads v).runningFlag)
    (hleft : ∀ v, (s.threads v).pc.isLeft = true → (s'.threads v).pc.isLeft = true)
    (halive : s.alive = 0 → s'.alive = 0) : s'.OwnerSound := by
  unfold OwnerSound at h ⊢
  rw [howner, hsize, hworkers]
  simp only [hflag]
  cases ho : s.owner with
  | idle | scan | mark => rwa [ho] at h
  | stop i =>
    rw [ho] at h
    exact ⟨fun j hj hjs => hleft _ (h.1 j hj hjs), h.2⟩
  | join i =>
    rw [ho] at h
    exact ⟨h.1, h.2.1, fun j hj => hleft _ (h.2.2.1 j hj), h.2.2.2⟩
  | drain =>
    rw [ho] at h
    exact fun j hj => hleft _ (h j hj)
  | destroyed =>
    rw [ho] at h
    exact halive h

namespace Sound

theorem turn (h : Sound s) (hw : w < s.started) (refuse : Bool) : Sound (s.turn w refuse) := by
  obtain ⟨q, t, heq, hgoes⟩ := turn_eq s w refuse
  have halive := alive_turn hw (q := q)
    (a := if (s.threads w).pc.isLeave then s.activeCount - 1 else s.activeCount) hgoes
  rw [heq]
  have hthread (v : ℕ) : (update s.threads w t v).id = (s.threads v).id ∧
      (update s.threads w t v).runningFlag = (s.threads v).runningFlag ∧
      ((s.threads v).pc.isLeft = true → (update s.threads w t v).pc.isLeft = true) := by
    by_cases hv : v = w
    · subst hv
      rw [update_self]
      exact ⟨hgoes.id, hgoes.runningFlag, fun hleft => by rw [hgoes.isLeft, hleft, Bool.or_true]⟩
    · rw [update_of_ne hv]
      exact ⟨rfl, rfl, id⟩
  refine ⟨h.started, fun i hi => ?_, fun v hv => ?_, fun v hv hflag => ?_, fun v hv hflag => ?_,
    ?_, ?_⟩
  · exact ⟨(h.slot i hi).1, (hthread _).1.trans (h.slot i hi).2⟩
  · exact (hthread v).1 ▸ h.id_lt v hv
  · show s.workers (update s.threads w t v).id = v
    rw [(hthread v).1]
    exact h.current v hv ((hthread v).2.1 ▸ hflag)
  · have hup : (s.threads v).runningFlag = true := (hthread v).2.1 ▸ hflag
    have hleaving := h.leaving v hv hup
    by_cases hvw : v = w
    · subst hvw
      simp only [update_self]
      refine ⟨?_, by rw [hgoes.isLeft, hleaving.1, hleaving.2]; rfl⟩
      by_contra hleave
      rw [Bool.not_eq_false] at hleave
      rw [hgoes.isLeave hleave] at hup
      cases hup
    · simp only [update_of_ne hvw]
      exact hleaving
  · rw [halive]
    show (if _ then _ else _) = _
    rw [h.activeCount]
  · refine h.owner.of_threads rfl rfl rfl (fun v => (hthread v).2.1) (fun v => (hthread v).2.2) ?_
    intro hzero
    rw [halive]
    split <;> omega

theorem setOwner (h : Sound s) {o : Owner} (ho : ({ s with owner := o } : State τ).OwnerSound) :
    Sound ({ s with owner := o } : State τ) :=
  ⟨h.started, h.slot, h.id_lt, h.current, h.leaving, h.activeCount, ho⟩

/-- Different slots have different workers. -/
theorem workers_ne (h : Sound s) {i j : ℕ} (hi : i < s.size) (hj : j < s.size) (hij : i ≠ j) :
    s.workers i ≠ s.workers j := fun heq =>
  hij (by rw [← (h.slot i hi).2, heq, (h.slot j hj).2])

theorem clearFlag (h : Sound s) {i : ℕ} (howner : s.owner = .stop i) (hi : i < s.size) :
    Sound ({ s.clearFlag (s.workers i) with owner := .join i } : State τ) := by
  have hthread := threads_clearFlag s (s.workers i)
  have howner' := h.owner
  rw [OwnerSound, howner] at howner'
  refine ⟨h.started, fun j hj => ?_, fun v hv => ?_, fun v hv hflag => ?_, fun v hv hflag => ?_,
    ?_, hi, ?_, fun j hj => ?_, fun j hj hij => ?_⟩
  · exact ⟨(h.slot j hj).1, (hthread _).2.1.trans (h.slot j hj).2⟩
  · exact (hthread v).2.1 ▸ h.id_lt v hv
  · show s.workers ((s.clearFlag (s.workers i)).threads v).id = v
    rw [(hthread v).2.1]
    exact h.current v hv ((hthread v).2.2 hflag)
  · have hleaving := h.leaving v hv ((hthread v).2.2 hflag)
    rwa [← (hthread v).1] at hleaving
  · refine h.activeCount.trans (congrArg Finset.card (Finset.filter_congr fun v _ => ?_))
    rw [← (hthread v).1]
  · simp [State.clearFlag, setThread]
  · rw [← howner'.1 j hj (hj.trans hi)]
    exact congrArg Pc.isLeft (hthread _).1
  · have hne := h.workers_ne hj hi hij.ne'
    have hflag := howner'.2 j hj hij.le
    simpa [State.clearFlag, setThread, update_of_ne hne] using hflag

theorem expel (h : Sound s) {now i : ℕ} (howner : s.owner = .mark now i) :
    Sound ({ s.expel i with owner := .scan now (i + 1) } : State τ) := by
  have howner' := h.owner
  rw [OwnerSound, howner] at howner'
  obtain ⟨hi, hup⟩ := howner'
  have hthread (v : ℕ) (hv : v < s.started) : (s.expel i).threads v
      = if v = s.workers i then { s.threads v with runningFlag := false } else s.threads v := by
    rw [State.expel]
    dsimp only
    rw [update_of_ne hv.ne, State.clearFlag, setThread]
    split
    · rename_i hvi
      subst hvi
      exact update_self ..
    · rename_i hvi
      exact update_of_ne hvi ..
  have hnew : (s.expel i).threads s.started = .new i := update_self ..
  have hpc (v : ℕ) (hv : v < s.started) : ((s.expel i).threads v).pc = (s.threads v).pc := by
    rw [hthread v hv]
    split <;> rfl
  have hid (v : ℕ) (hv : v < s.started) : ((s.expel i).threads v).id = (s.threads v).id := by
    rw [hthread v hv]
    split <;> rfl
  have hflag (v : ℕ) (hv : v < s.started) (hvup : ((s.expel i).threads v).runningFlag = true) :
      v ≠ s.workers i ∧ (s.threads v).runningFlag = true := by
    rw [hthread v hv] at hvup
    split at hvup
    · cases hvup
    · exact ⟨‹_›, hvup⟩
  have hworkers (j : ℕ) (hj : j ≠ i) : (s.expel i).workers j = s.workers j := update_of_ne hj ..
  refine ⟨?_, fun j hj => ?_, fun v hv => ?_, fun v hv hvup => ?_, fun v hv hvup => ?_, ?_,
    fun j hj => ?_⟩
  · show s.started + 1 = s.size + (s.expelledCount + 1)
    rw [h.started, Nat.add_assoc]
  · show (s.expel i).workers j < s.started + 1 ∧
      ((s.expel i).threads ((s.expel i).workers j)).id = j
    by_cases hji : j = i
    · subst hji
      rw [show (s.expel j).workers j = s.started from update_self .., hnew]
      exact ⟨Nat.lt_succ_self _, rfl⟩
    · have hslot := h.slot j hj
      rw [hworkers j hji, hid _ hslot.1]
      exact ⟨Nat.lt_succ_of_lt hslot.1, hslot.2⟩
  · show ((s.expel i).threads v).id < s.size
    rcases Nat.lt_succ_iff_lt_or_eq.mp hv with hv | rfl
    · rw [hid v hv]
      exact h.id_lt v hv
    · rw [hnew]
      exact hi
  · show (s.expel i).workers ((s.expel i).threads v).id = v
    rcases Nat.lt_succ_iff_lt_or_eq.mp hv with hv | rfl
    · obtain ⟨hvi, hvup⟩ := hflag v hv hvup
      have hcurrent := h.current v hv hvup
      rw [hid v hv, hworkers _ (fun hvi' => hvi (by rw [← hcurrent, hvi'])), hcurrent]
    · rw [hnew]
      exact update_self ..
  · show ((s.expel i).threads v).pc.isLeave = false ∧ ((s.expel i).threads v).pc.isLeft = false
    rcases Nat.lt_succ_iff_lt_or_eq.mp hv with hv | rfl
    · rw [hpc v hv]
      exact h.leaving v hv (hflag v hv hvup).2
    · rw [hnew]
      exact ⟨rfl, rfl⟩
  · show s.activeCount + 1 = ((Finset.range (s.started + 1)).filter
      fun v => ((s.expel i).threads v).pc.isLeft = false).card
    have hthere : (Worker.new i : Worker τ).pc.isLeft = false := rfl
    rw [Finset.range_add_one, Finset.filter_insert, hnew, if_pos hthere,
      Finset.card_insert_of_notMem (by simp), h.activeCount, alive]
    congr 2
    exact Finset.filter_congr fun v hv => by rw [hpc v (Finset.mem_range.mp hv)]
  · show ((s.expel i).threads ((s.expel i).workers j)).runningFlag = true
    by_cases hji : j = i
    · subst hji
      rw [show (s.expel j).workers j = s.started from update_self .., hnew]
      rfl
    · rw [hworkers j hji, hthread _ (h.slot j hj).1, if_neg (h.workers_ne hj hi hji)]
      exact hup j hj

theorem ownerStep (h : Sound s) : Sound s.ownerStep := by
  have howner := h.owner
  unfold State.ownerStep
  rw [OwnerSound] at howner
  cases ho : s.owner with
  | idle | destroyed => exact h
  | mark now i => exact h.expel ho
  | scan now i =>
    rw [ho] at howner
    dsimp only
    split
    · rename_i hi
      split
      · refine h.setOwner ?_
        split
        · exact howner
        · exact ⟨hi, howner⟩
      · exact h.setOwner howner
    · exact h.setOwner howner
  | stop i =>
    rw [ho] at howner
    dsimp only
    split
    · exact h.clearFlag ho ‹_›
    · rename_i hi
      exact h.setOwner fun j hj => howner.1 j (Nat.lt_of_lt_of_le hj (not_lt.mp hi)) hj
  | join i =>
    rw [ho] at howner
    dsimp only
    split
    · rename_i hleft
      refine h.setOwner ⟨fun j hj hjs => ?_, fun j hj hij => howner.2.2.2 j hj hij⟩
      rcases Nat.lt_succ_iff_lt_or_eq.mp hj with hj | rfl
      · exact howner.2.2.1 j hj
      · exact hleft
    · exact h
  | drain =>
    dsimp only
    split
    · exact h.setOwner (h.activeCount.symm.trans ‹_›)
    · exact h

theorem step (h : Sound s) (e : Event τ) : Sound (WorkerPool.step s e) := by
  have howner := h.owner
  rw [OwnerSound] at howner
  cases e with
  | tick d => exact ⟨h.started, h.slot, h.id_lt, h.current, h.leaving, h.activeCount, h.owner⟩
  | tryPost caller job refuse =>
    simp only [WorkerPool.step]
    split
    · obtain ⟨q, n, heq⟩ := tryPost_eq s caller job refuse
      rw [heq]
      exact ⟨h.started, h.slot, h.id_lt, h.current, h.leaving, h.activeCount, h.owner⟩
    · exact h
  | turn w refuse =>
    simp only [WorkerPool.step]
    split
    · exact h.turn ‹_› refuse
    · exact h
  | expelWorkers =>
    simp only [WorkerPool.step]
    split
    · rename_i ho
      rw [ho] at howner
      exact h.setOwner howner
    · exact h
  | destroy =>
    simp only [WorkerPool.step]
    split
    · rename_i ho
      rw [ho] at howner
      exact h.setOwner ⟨fun j hj _ => absurd hj (Nat.not_lt_zero j), fun j hj _ => howner j hj⟩
    · exact h
  | owner => exact h.ownerStep

end Sound

/-- **The invariant of every run**. -/
theorem sound_exec (threadCount queueSize expellingIntervalMs now : ℕ) (es : List (Event τ)) :
    Sound (exec step (init threadCount queueSize expellingIntervalMs now : State τ) es) :=
  exec_of_step (I := Sound) (fun _ e h => h.step e) (sound_init ..) es

/-- A flag that is down stays down. -/
theorem flag_step (hw : w < s.started) (hflag : (s.threads w).runningFlag = false) (e : Event τ) :
    w < (step s e).started ∧ ((step s e).threads w).runningFlag = false := by
  have hstarted : w < (step s e).started := by
    rcases (started_step s e).2 with h | ⟨h, -⟩ <;> omega
  refine ⟨hstarted, ?_⟩
  by_cases hturn : ∃ refuse, e = .turn w refuse
  · obtain ⟨refuse, rfl⟩ := hturn
    exact (goes_step hw refuse).runningFlag.trans hflag
  · by_contra hup
    rw [Bool.not_eq_false] at hup
    have hold := (thread_step hw fun refuse h => hturn ⟨refuse, h⟩).2.2 hup
    rw [hflag] at hold
    cases hold

/-- With its flag down, a thread takes a job only when it has found the flag up before. -/
theorem seeks_step (hw : w < s.started) (hflag : (s.threads w).runningFlag = false) (e : Event τ) :
    (takenBy w s e).toList.length + (if ((step s e).threads w).pc.seeks = true then 1 else 0)
      ≤ if (s.threads w).pc.seeks = true then 1 else 0 := by
  by_cases hturn : ∃ refuse, e = .turn w refuse
  · obtain ⟨refuse, rfl⟩ := hturn
    simp only [takenBy, took, step, if_pos hw, State.turn]
    cases hpc : (s.threads w).pc with
    | pop =>
      cases hq : s.popFrom (s.threads w).id refuse with
      | none => simp [setThread, State.goto, Pc.seeks]
      | some p => simp [setThread, State.goto, setQueue, Pc.seeks, Option.filter]
    | steal =>
      cases hq : s.popFrom (s.stealQueue w) refuse with
      | none => simp [setThread, State.goto, Pc.seeks]
      | some p => simp [setThread, State.goto, setQueue, Pc.seeks, Option.filter]
    | check => simp [setThread, State.goto, hflag, Pc.seeks]
    | _ => simp [setThread, State.goto, hpc, Pc.seeks]
  · have he : ∀ refuse, e ≠ .turn w refuse := fun refuse h => hturn ⟨refuse, h⟩
    rw [(eq_none_of_ne he).1, (thread_step hw he).1]
    exact (Nat.zero_add _).le

/-- **A worker whose flag is down** takes at most one job more, and none unless it has found its
flag up before and is still looking for a job. -/
theorem length_takenBy_le (hw : w < s.started) (hflag : (s.threads w).runningFlag = false)
    (es : List (Event τ)) :
    (trace step (takenBy w) s es).length ≤ if (s.threads w).pc.seeks then 1 else 0 := by
  induction es generalizing s with
  | nil => exact Nat.zero_le _
  | cons e es ih =>
    obtain ⟨hw', hflag'⟩ := flag_step hw hflag e
    have hstep := seeks_step hw hflag e
    have hrest := ih hw' hflag'
    rw [trace_cons, List.length_append]
    omega

/-- The number of slots stays. -/
theorem size_exec (s : State τ) (es : List (Event τ)) : (exec step s es).size = s.size :=
  exec_of_step (I := fun s' : State τ => s'.size = s.size)
    (fun s' e h => (started_step s' e).1.trans h) rfl es

/-- **One worker for each slot**: until the destructor is called, each slot has one worker whose
flag is up, and that worker has not left; the counters count all workers and those that have not;
and a worker that has been expelled takes at most one job more, however the run goes on. -/
theorem one_worker (threadCount queueSize expellingIntervalMs now : ℕ) (es : List (Event τ)) :
    let s : State τ := exec step (init threadCount queueSize expellingIntervalMs now) es
    (s.owner.stopping = false → ∀ i < threadCount, ∃! w, w < s.started ∧ (s.threads w).id = i ∧
      (s.threads w).runningFlag = true ∧ (s.threads w).pc.isLeft = false) ∧
    s.started = threadCount + s.expelledCount ∧ s.activeCount = s.alive ∧
    ∀ w < s.started, (s.threads w).runningFlag = false → ∀ es',
      (trace step (takenBy w) s es').length ≤ if (s.threads w).pc.seeks then 1 else 0 := by
  intro s
  have h : Sound s := sound_exec threadCount queueSize expellingIntervalMs now es
  have hsize : s.size = threadCount := size_exec _ es
  refine ⟨fun hlive i hi => ?_, hsize ▸ h.started, h.activeCount, fun w hw hflag =>
    length_takenBy_le hw hflag⟩
  rw [← hsize] at hi
  have hup : (s.threads (s.workers i)).runningFlag = true := by
    have howner := h.owner
    rw [OwnerSound] at howner
    cases ho : s.owner with
    | idle | scan =>
      rw [ho] at howner
      exact howner i hi
    | mark =>
      rw [ho] at howner
      exact howner.2 i hi
    | _ =>
      rw [ho] at hlive
      cases hlive
  obtain ⟨hw, hid⟩ := h.slot i hi
  refine ⟨s.workers i, ⟨hw, hid, hup, (h.leaving _ hw hup).2⟩, ?_⟩
  rintro v ⟨hv, rfl, hvup, -⟩
  exact (h.current v hv hvup).symm

/-! ## The destructor -/

variable {e : ℕ → Event τ} {n : ℕ}

/-- Every thread goes on again and again: no job takes for ever. -/
def Turns (e : ℕ → Event τ) : Prop := ∀ w, Often (fun ev => ∃ refuse, ev = .turn w refuse) e

/-- The owner goes on again and again. -/
def OwnerTurns (e : ℕ → Event τ) : Prop := Often (· = .owner) e

/-- A thread that has left does not come back. -/
theorem isLeft_step (hw : w < s.started) (hleft : (s.threads w).pc.isLeft = true) (e : Event τ) :
    w < (step s e).started ∧ ((step s e).threads w).pc.isLeft = true := by
  have hstarted : w < (step s e).started := by
    rcases (started_step s e).2 with h | ⟨h, -⟩ <;> omega
  refine ⟨hstarted, ?_⟩
  by_cases hturn : ∃ refuse, e = .turn w refuse
  · obtain ⟨refuse, rfl⟩ := hturn
    rw [(goes_step hw refuse).isLeft, hleft, Bool.or_true]
  · rw [(thread_step hw fun refuse h => hturn ⟨refuse, h⟩).1]
    exact hleft

/-- **A thread whose flag is down leaves.** -/
theorem eventually_left (hturns : Turns e) (hw : w < (stateAt step s e n).started)
    (hflag : ((stateAt step s e n).threads w).runningFlag = false) :
    ∃ m, n ≤ m ∧ ((stateAt step s e m).threads w).pc.isLeft = true := by
  refine eventually_of_rank (fun s : State τ => (s.threads w).pc.rank)
    (I := fun s : State τ => w < s.started ∧ (s.threads w).runningFlag = false)
    (Q := fun s : State τ => (s.threads w).pc.isLeft = true) (fun s ev h => flag_step h.1 h.2 ev)
    (fun s ev h => ?_) (fun s ev h hturn => ?_) (hturns w) ⟨hw, hflag⟩
  · by_cases hturn : ∃ refuse, ev = .turn w refuse
    · obtain ⟨refuse, rfl⟩ := hturn
      exact ((goes_step h.1 refuse).rank h.2).imp_right Nat.le_of_lt
    · rw [(thread_step h.1 fun refuse h => hturn ⟨refuse, h⟩).1]
      exact .inr le_rfl
  · obtain ⟨refuse, rfl⟩ := hturn
    exact (goes_step h.1 refuse).rank h.2

/-- How many steps the owner has left in the destructor. -/
def Owner.rank (size : ℕ) : Owner → ℕ
  | .stop i => 2 * (size - i) + 3
  | .join i => 2 * (size - i) + 2
  | .drain => 1
  | _ => 0

/-- In the destructor no worker comes, and the owner goes on in its own steps only. -/
theorem stopping_step (h : s.owner.stopping = true) (e : Event τ) :
    (step s e).started = s.started ∧ (step s e).workers = s.workers ∧
      (e ≠ .owner → (step s e).owner = s.owner) := by
  refine ⟨?_, ?_, fun he => ?_⟩
  · rcases step_cases s e with ⟨q, n, t, o, heq⟩ | ⟨v, refuse, -, -, heq⟩ | ⟨now, i, ho, heq⟩ |
      ⟨i, -, -, heq⟩ <;> rw [heq]
    · obtain ⟨q, t, heq', -⟩ := turn_eq s v refuse
      rw [heq']
    · rw [ho] at h
      cases h
    · rfl
  · rcases step_cases s e with ⟨q, n, t, o, heq⟩ | ⟨v, refuse, -, -, heq⟩ | ⟨now, i, ho, heq⟩ |
      ⟨i, -, -, heq⟩ <;> rw [heq]
    · obtain ⟨q, t, heq', -⟩ := turn_eq s v refuse
      rw [heq']
    · rw [ho] at h
      cases h
    · rfl
  · cases e with
    | tick d => rfl
    | tryPost caller job refuse =>
      simp only [step]
      split
      · obtain ⟨q, n, heq⟩ := tryPost_eq s caller job refuse
        rw [heq]
      · rfl
    | turn v refuse =>
      simp only [step]
      split
      · obtain ⟨q, t, heq, -⟩ := turn_eq s v refuse
        rw [heq]
      · rfl
    | expelWorkers | destroy =>
      refine congrArg State.owner (if_neg fun ho => ?_)
      rw [ho] at h
      cases h
    | owner => exact absurd rfl he

/-- The owner stays where it is in the destructor, or gets on. -/
theorem ownerStep_rank (hsound : Sound s) (h : s.owner.stopping = true) :
    s.ownerStep.owner.stopping = true ∧ (s.ownerStep.owner = s.owner ∨
      s.ownerStep.owner.rank s.size < s.owner.rank s.size) := by
  unfold State.ownerStep
  cases ho : s.owner with
  | idle | scan | mark =>
    rw [ho] at h
    cases h
  | destroyed => exact ⟨by rw [ho]; rfl, .inl ho⟩
  | stop i =>
    dsimp only
    split
    · exact ⟨rfl, .inr (Nat.lt_succ_self _)⟩
    · refine ⟨rfl, .inr ?_⟩
      simp only [Owner.rank]
      omega
  | join i =>
    dsimp only
    split
    · have hi : i < s.size := by
        have howner := hsound.owner
        rw [OwnerSound, ho] at howner
        exact howner.1
      refine ⟨rfl, .inr ?_⟩
      simp only [Owner.rank]
      omega
    · exact ⟨by rw [ho]; rfl, .inl ho⟩
  | drain =>
    dsimp only
    split
    · exact ⟨rfl, .inr Nat.zero_lt_one⟩
    · exact ⟨by rw [ho]; rfl, .inl ho⟩

/-- In the destructor the workers stay, and the owner stays or gets on. -/
theorem stopping_stateAt (hsound : ∀ n, Sound (stateAt step s e n)) {m : ℕ} (hnm : n ≤ m)
    (h : (stateAt step s e n).owner.stopping = true) :
    (stateAt step s e m).owner.stopping = true ∧
      (stateAt step s e m).started = (stateAt step s e n).started ∧
      (stateAt step s e m).workers = (stateAt step s e n).workers ∧
      ((stateAt step s e m).owner = (stateAt step s e n).owner ∨
        (stateAt step s e m).owner.rank s.size < (stateAt step s e n).owner.rank s.size) := by
  induction m, hnm using Nat.le_induction with
  | base => exact ⟨h, rfl, rfl, .inl rfl⟩
  | succ m _ ih =>
    obtain ⟨hstop, hstarted, hworkers, howner⟩ := ih
    obtain ⟨hstarted', hworkers', hother⟩ := stopping_step hstop (e m)
    have hsize : (stateAt step s e m).size = s.size := by
      rw [stateAt_eq_exec, size_exec]
    have hmove : (step (stateAt step s e m) (e m)).owner.stopping = true ∧
        ((step (stateAt step s e m) (e m)).owner = (stateAt step s e m).owner ∨
          (step (stateAt step s e m) (e m)).owner.rank s.size
            < (stateAt step s e m).owner.rank s.size) := by
      by_cases he : e m = .owner
      · rw [he, ← hsize]
        exact ownerStep_rank (hsound m) hstop
      · rw [hother he]
        exact ⟨hstop, .inl rfl⟩
    refine ⟨hmove.1, hstarted'.trans hstarted, hworkers'.trans hworkers, ?_⟩
    rw [show stateAt step s e (m + 1) = step (stateAt step s e m) (e m) from rfl]
    rcases hmove.2 with hsame | hlt
    · rwa [hsame]
    · rcases howner with hsame | hlt'
      · exact .inr (hsame ▸ hlt)
      · exact .inr (hlt.trans hlt')

theorem started_stateAt (s : State τ) (e : ℕ → Event τ) {m : ℕ} (hnm : n ≤ m) :
    (stateAt step s e n).started ≤ (stateAt step s e m).started := by
  induction m, hnm using Nat.le_induction with
  | base => exact le_rfl
  | succ m _ ih =>
    rcases (started_step (stateAt step s e m) (e m)).2 with h | ⟨h, -⟩
    · exact ih.trans h.ge
    · exact ih.trans (h ▸ Nat.le_succ _)

theorem isLeft_stateAt {m : ℕ} (hnm : n ≤ m) (hw : w < (stateAt step s e n).started)
    (hleft : ((stateAt step s e n).threads w).pc.isLeft = true) :
    ((stateAt step s e m).threads w).pc.isLeft = true :=
  (stateAt_invariant (I := fun s : State τ => w < s.started ∧ (s.threads w).pc.isLeft = true)
    (fun _ ev h => isLeft_step h.1 h.2 ev) hnm ⟨hw, hleft⟩).2

/-- **All threads leave** whose flags are down. -/
theorem eventually_all_left (hturns : Turns e) (k : ℕ) (hk : k ≤ (stateAt step s e n).started)
    (hflag : ∀ w < k, ((stateAt step s e n).threads w).runningFlag = false) :
    ∃ m, n ≤ m ∧ ∀ w < k, ((stateAt step s e m).threads w).pc.isLeft = true := by
  induction k with
  | zero => exact ⟨n, le_rfl, fun w hw => absurd hw (Nat.not_lt_zero w)⟩
  | succ k ih =>
    obtain ⟨m, hnm, hm⟩ := ih (by omega) fun w hw => hflag w (by omega)
    obtain ⟨m', hnm', hm'⟩ := eventually_left hturns (by omega) (hflag k (Nat.lt_succ_self k))
    have hstarted := started_stateAt s e hnm
    have hstarted' := started_stateAt s e hnm'
    refine ⟨max m m', by omega, fun w hw => ?_⟩
    rcases Nat.lt_succ_iff_lt_or_eq.mp hw with hw | rfl
    · exact isLeft_stateAt (Nat.le_max_left ..) (by omega) (hm w hw)
    · exact isLeft_stateAt (Nat.le_max_right ..) (by omega) hm'

/-- The owner can get on in the destructor. -/
def State.OwnerReady (s : State τ) : Prop :=
  match s.owner with
  | .stop _ => True
  | .join i =>
    s.workers i < s.started ∧ (s.threads (s.workers i)).pc.isLeft = true
  | .drain => s.activeCount = 0
  | _ => False

/-- The owner that can get on does so in its step. -/
theorem State.OwnerReady.rank (hsound : Sound s) (h : s.OwnerReady) :
    s.ownerStep.owner.rank s.size < s.owner.rank s.size := by
  unfold OwnerReady at h
  unfold State.ownerStep
  cases ho : s.owner with
  | idle | scan | mark | destroyed =>
    rw [ho] at h
    exact h.elim
  | stop i =>
    dsimp only
    split <;> simp only [Owner.rank] <;> omega
  | join i =>
    have howner := hsound.owner
    rw [OwnerSound, ho] at howner
    rw [ho] at h
    have hi : i < s.size := howner.1
    dsimp only
    rw [if_pos h.2]
    simp only [Owner.rank]
    omega
  | drain =>
    rw [ho] at h
    dsimp only
    rw [if_pos h]
    exact Nat.zero_lt_one

/-- What the owner waits for stays. -/
theorem State.OwnerReady.step (hstop : s.owner.stopping = true) (h : s.OwnerReady) {e : Event τ}
    (he : e ≠ .owner) : (WorkerPool.step s e).OwnerReady := by
  obtain ⟨hstarted, hworkers, howner⟩ := stopping_step hstop e
  unfold OwnerReady at h ⊢
  rw [howner he, hstarted, hworkers]
  cases ho : s.owner with
  | idle | scan | mark | destroyed | stop =>
    rw [ho] at h
    exact h
  | join i =>
    rw [ho] at h
    exact ⟨h.1, (isLeft_step h.1 h.2 e).2⟩
  | drain =>
    rw [ho] at h
    dsimp only at h ⊢
    rcases step_cases s e with ⟨q, n, t, o, heq⟩ | ⟨v, refuse, -, -, heq⟩ | ⟨now, i, ho', -⟩ |
      ⟨i, ho', -⟩
    · rw [heq]
      exact h
    · obtain ⟨q, t, heq', -⟩ := turn_eq s v refuse
      rw [heq, heq']
      dsimp only
      split <;> omega
    · rw [ho] at ho'
      cases ho'
    · rw [ho] at ho'
      cases ho'

/-- **What the owner waits for comes**: it can get on, or has got on before. -/
theorem eventually_ready (hsound : ∀ n, Sound (stateAt step s e n)) (hturns : Turns e)
    (hstop : (stateAt step s e n).owner.stopping = true)
    (hdone : (stateAt step s e n).owner ≠ .destroyed) :
    ∃ m, n ≤ m ∧ ((stateAt step s e m).OwnerReady ∨
      (stateAt step s e m).owner.rank s.size < (stateAt step s e n).owner.rank s.size) := by
  have howner := (hsound n).owner
  rw [OwnerSound] at howner
  cases ho : (stateAt step s e n).owner with
  | idle | scan | mark =>
    rw [ho] at hstop
    cases hstop
  | destroyed => exact absurd ho hdone
  | stop i => exact ⟨n, le_rfl, .inl (by rw [OwnerReady, ho]; trivial)⟩
  | join i =>
    rw [ho] at howner
    have hlt := ((hsound n).slot i howner.1).1
    obtain ⟨m, hnm, hleft⟩ := eventually_left hturns hlt howner.2.1
    obtain ⟨-, hstarted, hworkers, hsame | hrank⟩ := stopping_stateAt hsound hnm hstop
    · refine ⟨m, hnm, .inl ?_⟩
      rw [OwnerReady, hsame, ho]
      exact ⟨by rw [hworkers, hstarted]; exact hlt, by rw [hworkers]; exact hleft⟩
    · exact ⟨m, hnm, .inr (ho ▸ hrank)⟩
  | drain =>
    rw [ho] at howner
    have hdown (w : ℕ) (hw : w < (stateAt step s e n).started) :
        ((stateAt step s e n).threads w).runningFlag = false := by
      by_contra hup
      rw [Bool.not_eq_false] at hup
      have hcurrent := (hsound n).current w hw hup
      have hleft := howner _ ((hsound n).id_lt w hw)
      rw [hcurrent, ((hsound n).leaving w hw hup).2] at hleft
      cases hleft
    obtain ⟨m, hnm, hleft⟩ := eventually_all_left hturns _ le_rfl hdown
    obtain ⟨-, hstarted, -, hsame | hrank⟩ := stopping_stateAt hsound hnm hstop
    · refine ⟨m, hnm, .inl ?_⟩
      rw [OwnerReady, hsame, ho]
      dsimp only
      rw [(hsound m).activeCount, alive, Finset.card_eq_zero, Finset.filter_eq_empty_iff]
      intro w hw
      rw [Finset.mem_range, hstarted] at hw
      rw [hleft w hw]
      simp
    · exact ⟨m, hnm, .inr (ho ▸ hrank)⟩

/-- **The owner gets on** in the destructor. -/
theorem eventually_gets_on (hsound : ∀ n, Sound (stateAt step s e n)) (howner : OwnerTurns e)
    (hturns : Turns e) (hstop : (stateAt step s e n).owner.stopping = true)
    (hdone : (stateAt step s e n).owner ≠ .destroyed) :
    ∃ m, n ≤ m ∧
      (stateAt step s e m).owner.rank s.size < (stateAt step s e n).owner.rank s.size := by
  obtain ⟨m, hnm, hready | hrank⟩ := eventually_ready hsound hturns hstop hdone
  · obtain ⟨hstop', -, -, hsame⟩ := stopping_stateAt hsound hnm hstop
    -- it stays ready up to its turn
    obtain ⟨m', hm', ⟨hsame', hstop'', hready'⟩, hturn⟩ := exists_next (e := e)
      (I := fun t : State τ => t.owner = (stateAt step s e m).owner ∧ t.owner.stopping = true ∧
        t.OwnerReady)
      (fun t ev h hev => by
        have hkeep := (stopping_step h.2.1 ev).2.2 hev
        exact ⟨hkeep.trans h.1, hkeep ▸ h.2.1, h.2.2.step h.2.1 hev⟩)
      howner ⟨rfl, hstop', hready⟩
    have hget := hready'.rank (hsound m')
    have hsize : (stateAt step s e m').size = s.size := by
      rw [stateAt_eq_exec, size_exec]
    have hnext : stateAt step s e (m' + 1) = (stateAt step s e m').ownerStep := by
      show step (stateAt step s e m') (e m') = _
      rw [hturn, step]
    refine ⟨m' + 1, by omega, ?_⟩
    rw [hnext]
    rw [hsize, hsame'] at hget
    rcases hsame with hsame | hrank
    · rwa [hsame] at hget
    · exact hget.trans hrank
  · exact ⟨m, hnm, hrank⟩

/-- **The destructor returns** when every job does: then all threads have left, and every job that
has been taken has been done. -/
theorem destructor_returns (threadCount queueSize expellingIntervalMs now : ℕ)
    (howner : OwnerTurns e) (hturns : Turns e)
    (hstop : (stateAt step (init threadCount queueSize expellingIntervalMs now) e
      n).owner.stopping = true) :
    ∃ m, n ≤ m ∧
      let s : State τ := init threadCount queueSize expellingIntervalMs now
      (stateAt step s e m).owner = .destroyed ∧
      (∀ w < (stateAt step s e m).started, ((stateAt step s e m).threads w).pc.isLeft = true) ∧
      ∀ w, trace step (takenBy w) s ((List.range m).map e)
        = trace step (finishedBy w) s ((List.range m).map e) := by
  have hsound (k : ℕ) :
      Sound (stateAt step (init threadCount queueSize expellingIntervalMs now : State τ) e k) := by
    rw [stateAt_eq_exec]
    exact sound_exec ..
  obtain ⟨m, hnm, hm⟩ : ∃ m, n ≤ m ∧
      (stateAt step (init threadCount queueSize expellingIntervalMs now : State τ) e m).owner
        = .destroyed := by
    -- by induction on how far the owner has got
    generalize hr : (stateAt step (init threadCount queueSize expellingIntervalMs now : State τ) e
      n).owner.rank threadCount = r
    induction r using Nat.strong_induction_on generalizing n with
    | _ r ih =>
      by_cases hdone : (stateAt step (init threadCount queueSize expellingIntervalMs now : State τ)
          e n).owner = .destroyed
      · exact ⟨n, le_rfl, hdone⟩
      · obtain ⟨m, hnm, hlt⟩ := eventually_gets_on hsound howner hturns hstop hdone
        obtain ⟨m', hm', hQ⟩ := ih _ (hr ▸ hlt) (stopping_stateAt hsound hnm hstop).1 rfl
        exact ⟨m', by omega, hQ⟩
  have hleft (w : ℕ) (hw : w < (stateAt step
      (init threadCount queueSize expellingIntervalMs now : State τ) e m).started) :
      ((stateAt step (init threadCount queueSize expellingIntervalMs now) e m).threads
        w).pc.isLeft = true := by
    have halive := (hsound m).owner
    rw [OwnerSound, hm] at halive
    dsimp only at halive
    rw [alive, Finset.card_eq_zero, Finset.filter_eq_empty_iff] at halive
    simpa using halive (Finset.mem_range.mpr hw)
  refine ⟨m, hnm, hm, hleft, fun w => ?_⟩
  have hnone : (stateAt step (init threadCount queueSize expellingIntervalMs now : State τ) e
      m).held w = none := by
    unfold State.held
    split
    · rename_i hw
      have := hleft w hw
      generalize ((stateAt step _ e m).threads w).pc = pc at this
      cases pc <;> first | rfl | cases this
    · rfl
  rw [taken_eq, ← stateAt_eq_exec, hnone]
  exact List.append_nil _

/-- Two jobs are posted to two workers.  The first worker is expelled from its job, and the pool is
destroyed before the second one has looked for its own. -/
def stopStart : List (Event ℕ) :=
  [.tryPost none 7 false, .tryPost none 8 false, .turn 0 false, .turn 0 false, .turn 0 false,
    .tick 300, .expelWorkers, .owner, .owner, .owner, .owner, .destroy]

/-- Then the owner and every thread go on again and again. -/
def stopRun (n : ℕ) : Event ℕ :=
  stopStart.getD n (if n % 2 = 0 then .owner else .turn (Nat.unpair (n / 2)).2 false)

theorem stopRun_of_le {n : ℕ} (h : 12 ≤ n) :
    stopRun n = if n % 2 = 0 then .owner else .turn (Nat.unpair (n / 2)).2 false := by
  rw [stopRun, List.getD_eq_getElem?_getD, List.getElem?_eq_none h, Option.getD_none]

theorem ownerTurns_stopRun : OwnerTurns stopRun := fun n =>
  ⟨2 * n + 12, by omega, (stopRun_of_le (by omega)).trans (if_pos (by omega))⟩

theorem turns_stopRun : Turns stopRun := by
  intro w n
  have hle := Nat.left_le_pair (n + 6) w
  have hturn : stopRun (2 * Nat.pair (n + 6) w + 1) = .turn w false := by
    have hodd : (2 * Nat.pair (n + 6) w + 1) % 2 ≠ 0 := by omega
    have hhalf : (2 * Nat.pair (n + 6) w + 1) / 2 = Nat.pair (n + 6) w := by omega
    rw [stopRun_of_le (by omega), if_neg hodd, hhalf, Nat.unpair_pair]
  exact ⟨2 * Nat.pair (n + 6) w + 1, by omega, false, hturn⟩

theorem destructor_returns_stopRun : ∃ m, 12 ≤ m ∧
    let s : State ℕ := init 2 2 200 0
    (stateAt step s stopRun m).owner = .destroyed ∧
    (∀ w < (stateAt step s stopRun m).started,
      ((stateAt step s stopRun m).threads w).pc.isLeft = true) ∧
    ∀ w, trace step (takenBy w) s ((List.range m).map stopRun)
      = trace step (finishedBy w) s ((List.range m).map stopRun) :=
  destructor_returns 2 2 200 0 ownerTurns_stopRun turns_stopRun rfl

end WorkerPool
