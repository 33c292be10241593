/-
# Waiting for a callback

Tasks that wait, each for a callback that names its id, on a clock.  The two may come in either
order: a task that comes first is kept with a deadline, a callback that comes first is kept for a
life time.  This is what the task manager keeps of its postponed tasks, without the tasks.

* `Sound`: every task that waits has its deadline in the queue, and none has expired early;
* `expire_eq_self`, `expire_of_due`: a scan that starts from the latest deadline drops all
  tasks or none;
* `Waits`, `Kept`: one half of a rendezvous waits for the other.
-/
import GraftSupernode.ExpiringList
import GraftSupernode.PriorityQueue
import GraftSupernode.Runs
import Mathlib.Data.Prod.Lex

namespace Rendezvous

/-- What is seen: a task starts to wait, it goes on with an input, or it has waited too long. -/
inductive Note (ι : Type*)
  | postpone (t time : ℕ)
  | resume (t : ℕ) (input : ι)
  | expire (t time : ℕ)

/-- The two halves: tasks with their deadlines, and callbacks.  `log` has the latest note first. -/
structure Waiting (υ ι : Type*) [LinearOrder υ] where
  now : ℕ
  postponedTasks : υ → Option ℕ
  expireTaskQueue : PriorityQueue (ℕ ×ₗ υ)
  futurePostponeUuids : ExpiringList (υ × ι)
  log : List (Note ι)

inductive Event (υ ι : Type*)
  | tick (d : ℕ)
  | postpone (t : ℕ)
  | callback (u : υ) (input : ι)
  | expire

variable {υ ι : Type*} [LinearOrder υ] (uuid : ℕ → υ) (timeout : ℕ)

/-- A task goes on with the callback that is there, or waits. -/
def postpone (w : Waiting υ ι) (t : ℕ) : Waiting υ ι :=
  let (res, future) := w.futurePostponeUuids.extract w.now fun e => e.1 = uuid t
  match res with
  | some e => { w with futurePostponeUuids := future, log := .resume t e.2 :: w.log }
  | none =>
    { w with
      futurePostponeUuids := future
      postponedTasks := Function.update w.postponedTasks (uuid t) (some t)
      expireTaskQueue := w.expireTaskQueue.push (toLex (w.now + timeout, uuid t))
      log := .postpone t w.now :: w.log }

/-- A callback lets the task go on that waits for it, or is kept. -/
def callback (w : Waiting υ ι) (u : υ) (input : ι) : Waiting υ ι :=
  match w.postponedTasks u with
  | none => { w with futurePostponeUuids := w.futurePostponeUuids.add w.now (u, input) }
  | some t =>
    { w with
      postponedTasks := Function.update w.postponedTasks u none
      log := .resume t input :: w.log }

/-- The top of the queue is due: its task expires if it still waits. -/
def expireTop (w : Waiting υ ι) (u : υ) : Waiting υ ι :=
  { (match w.postponedTasks u with
      | some t =>
        { w with
          postponedTasks := Function.update w.postponedTasks u none
          log := .expire t w.now :: w.log }
      | none => w) with expireTaskQueue := w.expireTaskQueue.pop }

/-- What is due expires, from the top of the queue. -/
def expireLoop : ℕ → Waiting υ ι → Waiting υ ι
  | 0, w => w
  | fuel + 1, w =>
    match w.expireTaskQueue.top with
    | none => w
    | some e => if w.now ≤ (ofLex e).1 then w else expireLoop fuel (expireTop w (ofLex e).2)

def expire (w : Waiting υ ι) : Waiting υ ι := expireLoop w.expireTaskQueue.items.length w

def step (w : Waiting υ ι) : Event υ ι → Waiting υ ι
  | .tick d => { w with now := w.now + d }
  | .postpone t => postpone uuid timeout w t
  | .callback u input => callback w u input
  | .expire => expire w

/-! ## The latest postponement -/

/-- The time of a postponement of `t`. -/
def Note.postponedAt (t : ℕ) : Note ι → Option ℕ
  | .postpone t' time => if t' = t then some time else none
  | _ => none

/-- `t` goes on. -/
def Note.isResume (t : ℕ) : Note ι → Bool
  | .resume t' _ => t' = t
  | _ => false

/-- The time of the latest postponement of `t`. -/
def lastPostponed (log : List (Note ι)) (t : ℕ) : Option ℕ := log.findSome? (Note.postponedAt t)

theorem lastPostponed_cons (n : Note ι) (log : List (Note ι)) (t : ℕ) :
    lastPostponed (n :: log) t = (n.postponedAt t).or (lastPostponed log t) := by
  rw [lastPostponed, List.findSome?_cons]
  cases n.postponedAt t <;> rfl

/-! ## Deadlines -/

/-- Each task that waits is found under its own id, with its deadline in the queue; and a task has
expired only after the deadline of its latest postponement. -/
structure Sound (w : Waiting υ ι) : Prop where
  key : ∀ u t, w.postponedTasks u = some t → u = uuid t
  queued : ∀ u t, w.postponedTasks u = some t → ∃ time, lastPostponed w.log t = some time ∧
    toLex (time + timeout, u) ∈ w.expireTaskQueue
  timely : ∀ t now earlier, .expire t now :: earlier <:+ w.log →
    ∃ time, lastPostponed earlier t = some time ∧ time + timeout < now

variable {uuid timeout} {w : Waiting υ ι} {t t' : ℕ} {u : υ}

/-- A note that is not about an expiry keeps the log timely. -/
theorem Sound.timely_cons (h : Sound uuid timeout w) {n : Note ι}
    (hn : ∀ t now, n = .expire t now →
      ∃ time, lastPostponed w.log t = some time ∧ time + timeout < now) {t now : ℕ}
    {earlier : List (Note ι)} (hsuffix : .expire t now :: earlier <:+ n :: w.log) :
    ∃ time, lastPostponed earlier t = some time ∧ time + timeout < now := by
  rcases List.suffix_cons_iff.mp hsuffix with heq | hsuffix
  · cases heq
    exact hn t now rfl
  · exact h.timely t now earlier hsuffix

/-- No task is postponed, and those that still wait keep their deadlines. -/
theorem Sound.mono (h : Sound uuid timeout w) {w' : Waiting υ ι} {n : Note ι}
    (hlog : w'.log = n :: w.log)
    (hpost : ∀ u t, w'.postponedTasks u = some t → w.postponedTasks u = some t ∧
      (w'.expireTaskQueue = w.expireTaskQueue ∨
        ∀ time, toLex (time, u) ∈ w.expireTaskQueue → toLex (time, u) ∈ w'.expireTaskQueue))
    (hn : ∀ t, n.postponedAt t = none)
    (hexpire : ∀ t now, n = .expire t now →
      ∃ time, lastPostponed w.log t = some time ∧ time + timeout < now) :
    Sound uuid timeout w' := by
  refine ⟨fun u t hu => h.key u t (hpost u t hu).1, fun u t hu => ?_, fun t now earlier hs => ?_⟩
  · obtain ⟨hold, hqueue⟩ := hpost u t hu
    obtain ⟨time, htime, hmem⟩ := h.queued u t hold
    refine ⟨time, ?_, ?_⟩
    · rw [hlog, lastPostponed_cons, hn, Option.none_or, htime]
    · rcases hqueue with hqueue | hqueue
      · rwa [hqueue]
      · exact hqueue _ hmem
  · exact h.timely_cons hexpire (hlog ▸ hs)

theorem Sound.postpone (h : Sound uuid timeout w) (t : ℕ) :
    Sound uuid timeout (postpone uuid timeout w t) := by
  unfold Rendezvous.postpone
  dsimp only
  split
  · exact h.mono rfl (fun u t hu => ⟨hu, .inl rfl⟩) (fun _ => rfl) (by simp)
  · refine ⟨fun u t' hu => ?_, fun u t' hu => ?_, fun t' now earlier hs =>
      h.timely_cons (by simp) hs⟩
    · dsimp only at hu
      rw [Function.update_apply] at hu
      split at hu
      · cases hu
        assumption
      · exact h.key u t' hu
    · dsimp only at hu ⊢
      rw [Function.update_apply] at hu
      rw [lastPostponed_cons]
      simp only [PriorityQueue.mem_push, Note.postponedAt]
      split at hu
      · rename_i heq
        cases hu
        exact ⟨w.now, by simp, .inl (by rw [heq])⟩
      · rename_i hne
        have ht : t ≠ t' := fun heq => hne (heq ▸ h.key u t' hu)
        obtain ⟨time, htime, hmem⟩ := h.queued u t' hu
        exact ⟨time, by simp [ht, htime], .inr hmem⟩

theorem Sound.callback (h : Sound uuid timeout w) (u : υ) (input : ι) :
    Sound uuid timeout (callback w u input) := by
  unfold Rendezvous.callback
  split
  · exact ⟨h.key, h.queued, h.timely⟩
  · refine h.mono rfl (fun u' t' hu => ?_) (fun _ => rfl) (by simp)
    dsimp only at hu
    rw [Function.update_apply] at hu
    split at hu
    · cases hu
    · exact ⟨hu, .inl rfl⟩

/-- **The top of the queue** is not before any deadline. -/
theorem le_top {e e' : ℕ ×ₗ υ} (h : w.expireTaskQueue.top = some e)
    (he' : e' ∈ w.expireTaskQueue) : (ofLex e').1 ≤ (ofLex e).1 := by
  have hle := PriorityQueue.le_top h he'
  rw [Prod.Lex.le_iff] at hle
  exact hle.elim le_of_lt fun heq => heq.1.le

/-- The task at the top of the queue has waited too long if the top is due, whether that entry is
its own or an older one. -/
theorem Sound.expireTop {e : ℕ ×ₗ υ} (h : Sound uuid timeout w)
    (htop : w.expireTaskQueue.top = some e) (hdue : (ofLex e).1 < w.now) :
    Sound uuid timeout (expireTop w (ofLex e).2) := by
  have hpop (u : υ) (hu : u ≠ (ofLex e).2) (time : ℕ)
      (hmem : toLex (time, u) ∈ w.expireTaskQueue) : toLex (time, u) ∈ w.expireTaskQueue.pop := by
    refine (PriorityQueue.eq_top_or_mem_pop htop hmem).resolve_left fun heq => hu ?_
    rw [← heq]
    rfl
  unfold Rendezvous.expireTop
  split
  · rename_i t hpost
    refine h.mono (n := .expire t w.now) rfl (fun u' t' hu => ?_) (fun _ => rfl) ?_
    · dsimp only at hu
      rw [Function.update_apply] at hu
      split at hu
      · cases hu
      · rename_i hne
        exact ⟨hu, .inr (hpop u' hne)⟩
    · rintro t' now heq
      cases heq
      obtain ⟨time, htime, hmem⟩ := h.queued _ t hpost
      exact ⟨time, htime, (le_top htop hmem).trans_lt hdue⟩
  · rename_i hpost
    refine ⟨h.key, fun u' t' hu => ?_, h.timely⟩
    obtain ⟨time, htime, hmem⟩ := h.queued u' t' hu
    refine ⟨time, htime, hpop u' ?_ _ hmem⟩
    rintro rfl
    rw [hpost] at hu
    cases hu

theorem Sound.expireLoop (fuel : ℕ) (h : Sound uuid timeout w) :
    Sound uuid timeout (expireLoop fuel w) := by
  induction fuel generalizing w with
  | zero => exact h
  | succ fuel ih =>
    unfold Rendezvous.expireLoop
    split
    · exact h
    · rename_i e htop
      split
      · exact h
      · exact ih (h.expireTop htop (not_le.mp (by assumption)))

/-- **Every step is sound**. -/
theorem Sound.step (h : Sound uuid timeout w) (e : Event υ ι) :
    Sound uuid timeout (step uuid timeout w e) := by
  cases e with
  | tick d => exact ⟨h.key, h.queued, h.timely⟩
  | postpone t => exact h.postpone t
  | callback u input => exact h.callback u input
  | expire => exact h.expireLoop _

/-! ## A scan drops all or nothing -/

/-- **A deadline that is not due** stops the scan at once. -/
theorem expire_eq_self {e : ℕ ×ₗ υ} (he : e ∈ w.expireTaskQueue) (hle : w.now ≤ (ofLex e).1) :
    expire w = w := by
  cases htop : w.expireTaskQueue.top with
  | none => exact absurd he (PriorityQueue.not_mem_of_top_eq_none htop e)
  | some top =>
    have hitems := PriorityQueue.items_eq_of_top htop
    rw [expire, hitems, List.length_cons, expireLoop, htop]
    exact if_pos (hle.trans (le_top htop he))

theorem now_expireTop : (expireTop w u).now = w.now := by
  unfold expireTop
  split <;> rfl

theorem expireTaskQueue_expireTop : (expireTop w u).expireTaskQueue = w.expireTaskQueue.pop := by
  unfold expireTop
  split <;> rfl

theorem expireLoop_of_due {fuel : ℕ} (hdue : ∀ e ∈ w.expireTaskQueue, (ofLex e).1 < w.now)
    (hfuel : w.expireTaskQueue.items.length ≤ fuel) :
    (expireLoop fuel w).expireTaskQueue.items = [] := by
  induction fuel generalizing w with
  | zero => exact List.eq_nil_of_length_eq_zero (Nat.le_zero.mp hfuel)
  | succ fuel ih =>
    unfold expireLoop
    split
    · rename_i htop
      exact List.head?_eq_none_iff.mp htop
    · rename_i e htop
      rw [if_neg (not_le.mpr (hdue e (PriorityQueue.mem_of_top htop)))]
      refine ih (fun e' he' => ?_) ?_
      · rw [expireTaskQueue_expireTop] at he'
        rw [now_expireTop]
        exact hdue e' (PriorityQueue.mem_of_mem_pop he')
      · rw [PriorityQueue.items_eq_of_top htop, List.length_cons] at hfuel
        rw [expireTaskQueue_expireTop]
        exact Nat.le_of_succ_le_succ hfuel

/-- **When every entry is due** no task waits any longer. -/
theorem expire_of_due (h : Sound uuid timeout w)
    (hdue : ∀ e ∈ w.expireTaskQueue, (ofLex e).1 < w.now) (u : υ) :
    (expire w).postponedTasks u = none := by
  have hempty := expireLoop_of_due hdue le_rfl
  cases hpost : (expire w).postponedTasks u with
  | none => rfl
  | some t =>
    obtain ⟨time, -, hmem⟩ := (h.expireLoop _).queued u t hpost
    rw [PriorityQueue.mem_def, hempty] at hmem
    cases hmem

/-! ## One half waits for the other -/

/-- The callbacks that are kept for `u`. -/
def Waiting.callbacks (w : Waiting υ ι) (u : υ) : ℕ :=
  w.futurePostponeUuids.cont.countP fun e => decide (e.2.1 = u)

/-- How often `t` has gone on. -/
def Waiting.resumes (w : Waiting υ ι) (t : ℕ) : ℕ := w.log.countP (Note.isResume t)

/-- The event is a callback for `u`. -/
def Event.IsCallback (u : υ) : Event υ ι → Prop
  | .callback u' _ => u' = u
  | _ => False

variable (uuid timeout) in
/-- The task `t` waits since `time`; it has gone on `n` times before. -/
structure Waits (t time n : ℕ) (w : Waiting υ ι) : Prop where
  postponed : w.postponedTasks (uuid t) = some t
  deadline : toLex (time + timeout, uuid t) ∈ w.expireTaskQueue
  callbacks : w.callbacks (uuid t) = 0
  resumes : w.resumes t = n

variable (uuid) in
/-- A callback for the task `t` is kept until `time`, and the task has not come; it has gone on
`n` times before. -/
structure Kept (t time n : ℕ) (input : ι) (w : Waiting υ ι) : Prop where
  postponed : w.postponedTasks (uuid t) = none
  entry : (time, (uuid t, input)) ∈ w.futurePostponeUuids.cont
  callbacks : w.callbacks (uuid t) ≤ 1
  resumes : w.resumes t = n

theorem callbacks_postpone_le (t' : ℕ) :
    (postpone uuid timeout w t').callbacks u ≤ w.callbacks u := by
  unfold postpone
  dsimp only
  split <;> exact ExpiringList.countP_extract_le _

theorem callbacks_callback_le {u' : υ} (hu : u' ≠ u) (input : ι) :
    (callback w u' input).callbacks u ≤ w.callbacks u := by
  unfold callback
  split
  · refine (ExpiringList.countP_add_le _ _).trans ?_
    simp [Waiting.callbacks, hu]
  · exact le_rfl

theorem futurePostponeUuids_expireLoop (fuel : ℕ) :
    (expireLoop fuel w).futurePostponeUuids = w.futurePostponeUuids := by
  induction fuel generalizing w with
  | zero => rfl
  | succ fuel ih =>
    unfold expireLoop
    split
    · rfl
    · split
      · rfl
      · rw [ih]
        unfold expireTop
        split <;> rfl

theorem resumes_cons {w' : Waiting υ ι} {n : Note ι} (h : w'.log = n :: w.log)
    (hn : n.isResume t = false) : w'.resumes t = w.resumes t := by
  simp [Waiting.resumes, h, hn]

theorem resumes_expireLoop (fuel : ℕ) : (expireLoop fuel w).resumes t = w.resumes t := by
  induction fuel generalizing w with
  | zero => rfl
  | succ fuel ih =>
    unfold expireLoop
    split
    · rfl
    · split
      · rfl
      · rw [ih]
        unfold expireTop
        split
        · exact resumes_cons rfl rfl
        · rfl

/-- A task that does not wait still does not after a scan. -/
theorem postponedTasks_expireLoop (fuel : ℕ) (h : w.postponedTasks u = none) :
    (expireLoop fuel w).postponedTasks u = none := by
  induction fuel generalizing w with
  | zero => exact h
  | succ fuel ih =>
    unfold expireLoop
    split
    · exact h
    · split
      · exact h
      · refine ih ?_
        unfold expireTop
        split
        · dsimp only
          rw [Function.update_apply, h, ite_self]
        · exact h

/-- Without a callback there is nothing to find. -/
theorem extract_of_callbacks_eq_zero (h : w.callbacks u = 0) :
    (w.futurePostponeUuids.extract w.now fun e => e.1 = u).1 = none :=
  ExpiringList.extract_eq_none h

/-- The postponement of another task, or a callback for another, is no going on of `t`. -/
theorem resumes_postpone (ht : t' ≠ t) :
    (postpone uuid timeout w t').resumes t = w.resumes t := by
  unfold postpone
  dsimp only
  split
  · exact resumes_cons rfl (by simpa [Note.isResume] using ht)
  · exact resumes_cons rfl rfl

theorem Sound.resumes_callback (h : Sound uuid timeout w) {u' : υ} (hu : u' ≠ uuid t) (input : ι) :
    (Rendezvous.callback w u' input).resumes t = w.resumes t := by
  unfold Rendezvous.callback
  split
  · rfl
  · rename_i t' hpost
    refine resumes_cons rfl ?_
    simp only [Note.isResume, decide_eq_false_iff_not]
    rintro rfl
    exact hu (h.key u' t' hpost)

/-- **A task waits until its callback comes**, or its deadline. -/
theorem Waits.step {time n : ℕ} (huuid : Function.Injective uuid) (hs : Sound uuid timeout w)
    (h : Waits uuid timeout t time n w) {e : Event υ ι} (he : ¬ e.IsCallback (uuid t))
    (hnow : w.now ≤ time + timeout) : Waits uuid timeout t time n (step uuid timeout w e) := by
  cases e with
  | tick d => exact ⟨h.postponed, h.deadline, h.callbacks, h.resumes⟩
  | postpone t' =>
    have hcallbacks : (postpone uuid timeout w t').callbacks (uuid t) = 0 :=
      Nat.eq_zero_of_le_zero (h.callbacks ▸ callbacks_postpone_le t')
    by_cases ht : t' = t
    · subst ht
      have hnone := extract_of_callbacks_eq_zero h.callbacks
      refine ⟨?_, ?_, hcallbacks, ?_⟩ <;> simp only [Rendezvous.step, postpone, hnone]
      · exact Function.update_self _ _ _
      · exact PriorityQueue.mem_push.mpr (.inr h.deadline)
      · exact (resumes_cons rfl rfl).trans h.resumes
    · refine ⟨?_, ?_, hcallbacks, (resumes_postpone ht).trans h.resumes⟩
      · simp only [Rendezvous.step, postpone]
        split
        · exact h.postponed
        · exact (Function.update_of_ne (fun e => ht (huuid e.symm)) _ _).trans h.postponed
      · simp only [Rendezvous.step, postpone]
        split
        · exact h.deadline
        · exact PriorityQueue.mem_push.mpr (.inr h.deadline)
  | callback u input =>
    have hu : u ≠ uuid t := he
    refine ⟨?_, ?_, Nat.eq_zero_of_le_zero (h.callbacks ▸ callbacks_callback_le hu input),
      (hs.resumes_callback hu input).trans h.resumes⟩
    · simp only [Rendezvous.step, callback]
      split
      · exact h.postponed
      · exact (Function.update_of_ne hu.symm _ _).trans h.postponed
    · simp only [Rendezvous.step, callback]
      split <;> exact h.deadline
  | expire =>
    have hself : Rendezvous.step uuid timeout w .expire = w := expire_eq_self h.deadline hnow
    rwa [hself]

/-- **A callback is kept until its task comes**, or its life time ends. -/
theorem Kept.step {time n : ℕ} {input : ι} (huuid : Function.Injective uuid)
    (hs : Sound uuid timeout w) (h : Kept uuid t time n input w) {e : Event υ ι}
    (he : ¬ e.IsCallback (uuid t)) (hne : e ≠ .postpone t)
    (hnow : (Rendezvous.step uuid timeout w e).now < time) :
    Kept uuid t time n input (Rendezvous.step uuid timeout w e) := by
  cases e with
  | tick d => exact ⟨h.postponed, h.entry, h.callbacks, h.resumes⟩
  | postpone t' =>
    have ht : t' ≠ t := fun heq => hne (heq ▸ rfl)
    have huuid' : uuid t ≠ uuid t' := fun e => ht (huuid e.symm)
    refine ⟨?_, ?_, (callbacks_postpone_le t').trans h.callbacks,
      (resumes_postpone ht).trans h.resumes⟩
    · simp only [Rendezvous.step, postpone]
      split
      · exact h.postponed
      · exact (Function.update_of_ne huuid' _ _).trans h.postponed
    · -- another task takes only an input of its own
      have hlive : w.now < time := by
        simp only [Rendezvous.step, postpone] at hnow
        split at hnow <;> exact hnow
      have hmem := ExpiringList.mem_extract (p := fun e => decide (e.1 = uuid t')) h.entry hlive
        (by simp [huuid'])
      simp only [Rendezvous.step, postpone]
      split <;> exact hmem
  | callback u input' =>
    have hu : u ≠ uuid t := he
    refine ⟨?_, ?_, (callbacks_callback_le hu input').trans h.callbacks,
      (hs.resumes_callback hu input').trans h.resumes⟩
    · simp only [Rendezvous.step, callback]
      split
      · exact h.postponed
      · exact (Function.update_of_ne hu.symm _ _).trans h.postponed
    · simp only [Rendezvous.step, callback] at hnow ⊢
      split
      · rename_i hnone
        rw [hnone] at hnow
        exact ExpiringList.mem_add.mpr (.inl (ExpiringList.mem_chop h.entry hnow))
      · exact h.entry
  | expire =>
    refine ⟨postponedTasks_expireLoop _ h.postponed, ?_, ?_, (resumes_expireLoop _).trans h.resumes⟩
    · simp only [Rendezvous.step, expire, futurePostponeUuids_expireLoop]
      exact h.entry
    · simp only [Rendezvous.step, expire, Waiting.callbacks, futurePostponeUuids_expireLoop]
      exact h.callbacks

/-! ## The other half comes -/

variable {input : ι} {time n : ℕ}

/-- Without a callback the task that is postponed waits. -/
theorem waits_postpone (h : w.callbacks (uuid t) = 0) :
    Waits uuid timeout t w.now (w.resumes t) (postpone uuid timeout w t) := by
  have hnone := extract_of_callbacks_eq_zero h
  refine ⟨?_, ?_, Nat.eq_zero_of_le_zero (h ▸ callbacks_postpone_le t), ?_⟩ <;>
    simp only [postpone, hnone]
  · exact Function.update_self _ _ _
  · exact PriorityQueue.mem_push.mpr (.inl rfl)
  · exact resumes_cons rfl rfl

/-- A callback for a task that does not wait is kept. -/
theorem kept_callback (hpost : w.postponedTasks (uuid t) = none)
    (h : w.callbacks (uuid t) = 0) :
    Kept uuid t (w.now + w.futurePostponeUuids.delta) (w.resumes t) input
      (callback w (uuid t) input) := by
  refine ⟨?_, ?_, ?_, ?_⟩ <;> simp only [callback, hpost]
  · exact ExpiringList.mem_add.mpr (.inr rfl)
  · refine (ExpiringList.countP_add_le _ _).trans ?_
    simp only [Waiting.callbacks] at h
    simp [h]
  · rfl

/-- What both orders come to: the task goes on with the callback's input, and nothing is left of
either half. -/
structure Met (uuid : ℕ → υ) (t n : ℕ) (input : ι) (w w' : Waiting υ ι) : Prop where
  log : w'.log = .resume t input :: w.log
  resumes : w'.resumes t = n + 1
  postponed : w'.postponedTasks (uuid t) = none
  callbacks : w'.callbacks (uuid t) = 0

theorem Waits.callback (h : Waits uuid timeout t time n w) (input : ι) :
    Met uuid t n input w (callback w (uuid t) input) := by
  have hn := h.resumes
  constructor <;> simp only [Rendezvous.callback, h.postponed]
  · simpa [Waiting.resumes, Note.isResume] using hn
  · exact Function.update_self _ _ _
  · exact h.callbacks

/-- The callback is found. -/
theorem Kept.extract (h : Kept uuid t time n input w) (hnow : w.now < time) :
    (w.futurePostponeUuids.extract w.now fun e => e.1 = uuid t).1 = some (uuid t, input) ∧
      (w.futurePostponeUuids.extract w.now fun e => e.1 = uuid t).2.cont.countP
        (fun e => decide (e.2.1 = uuid t)) = 0 :=
  ExpiringList.extract_of_unique (p := fun e : υ × ι => decide (e.1 = uuid t)) h.entry hnow
    (by simp) h.callbacks

theorem Kept.postpone (h : Kept uuid t time n input w) (hnow : w.now < time) :
    Met uuid t n input w (postpone uuid timeout w t) := by
  have hn := h.resumes
  obtain ⟨hfound, hnone⟩ := h.extract hnow
  constructor <;> simp only [Rendezvous.postpone, hfound]
  · simpa [Waiting.resumes, Note.isResume] using hn
  · exact h.postponed
  · exact hnone

/-! ## Runs -/

theorem now_le_step (w : Waiting υ ι) (e : Event υ ι) : w.now ≤ (step uuid timeout w e).now := by
  cases e with
  | tick d => exact Nat.le_add_right _ _
  | postpone t =>
    simp only [step, postpone]
    split <;> exact le_rfl
  | callback u input =>
    simp only [step, callback]
    split <;> exact le_rfl
  | expire =>
    simp only [step, expire]
    generalize w.expireTaskQueue.items.length = fuel
    induction fuel generalizing w with
    | zero => exact le_rfl
    | succ fuel ih =>
      unfold expireLoop
      split
      · exact le_rfl
      · split
        · exact le_rfl
        · exact (now_expireTop (w := w)).ge.trans (ih _)

theorem now_le_exec (w : Waiting υ ι) (es : List (Event υ ι)) :
    w.now ≤ (Runs.exec (step uuid timeout) w es).now := by
  induction es generalizing w with
  | nil => exact le_rfl
  | cons e es ih => exact (now_le_step w e).trans (ih _)

theorem Sound.exec (h : Sound uuid timeout w) (es : List (Event υ ι)) :
    Sound uuid timeout (Runs.exec (Rendezvous.step uuid timeout) w es) :=
  Runs.exec_of_step (fun _ e h => h.step e) h es

/-- **The task comes first**: it waits as long as no callback for it comes and its deadline is
not over. -/
theorem Waits.exec (huuid : Function.Injective uuid) (hs : Sound uuid timeout w)
    (h : Waits uuid timeout t time n w) {es : List (Event υ ι)}
    (hes : ∀ e ∈ es, ¬ e.IsCallback (uuid t))
    (hnow : (Runs.exec (Rendezvous.step uuid timeout) w es).now ≤ time + timeout) :
    Waits uuid timeout t time n (Runs.exec (Rendezvous.step uuid timeout) w es) := by
  induction es generalizing w with
  | nil => exact h
  | cons e es ih =>
    refine ih (hs.step e) (h.step huuid hs (hes e List.mem_cons_self) ?_)
      (fun e' he' => hes e' (List.mem_cons_of_mem e he')) hnow
    exact ((now_le_step w e).trans (now_le_exec _ es)).trans hnow

/-- **The callback comes first**: it is kept as long as its task does not come and its life time
is not over. -/
theorem Kept.exec (huuid : Function.Injective uuid) (hs : Sound uuid timeout w)
    (h : Kept uuid t time n input w) {es : List (Event υ ι)}
    (hes : ∀ e ∈ es, ¬ e.IsCallback (uuid t) ∧ e ≠ .postpone t)
    (hnow : (Runs.exec (Rendezvous.step uuid timeout) w es).now < time) :
    Kept uuid t time n input (Runs.exec (Rendezvous.step uuid timeout) w es) := by
  induction es generalizing w with
  | nil => exact h
  | cons e es ih =>
    obtain ⟨hcallback, hpostpone⟩ := hes e List.mem_cons_self
    refine ih (hs.step e) (h.step huuid hs hcallback hpostpone ?_)
      (fun e' he' => hes e' (List.mem_cons_of_mem e he')) hnow
    exact (now_le_exec _ es).trans_lt hnow

/-- The life time of callbacks does not change. -/
theorem delta_exec (w : Waiting υ ι) (es : List (Event υ ι)) :
    (Runs.exec (step uuid timeout) w es).futurePostponeUuids.delta
      = w.futurePostponeUuids.delta := by
  induction es generalizing w with
  | nil => rfl
  | cons e es ih =>
    refine (ih _).trans ?_
    cases e with
    | tick d => rfl
    | postpone t =>
      simp only [step, postpone]
      split <;> exact ExpiringList.extract_delta _ _ _
    | callback u input =>
      simp only [step, callback]
      split
      · exact ExpiringList.add_delta _ _ _
      · rfl
    | expire => exact congrArg ExpiringList.delta (futurePostponeUuids_expireLoop _)

/-- Without a callback for `u` none is kept. -/
theorem callbacks_exec {es : List (Event υ ι)} (hes : ∀ e ∈ es, ¬ e.IsCallback u)
    (h : w.callbacks u = 0) : (Runs.exec (step uuid timeout) w es).callbacks u = 0 := by
  refine Runs.exec_invariant (I := fun w : Waiting υ ι => w.callbacks u = 0) (fun w e h he => ?_) h
    (Runs.along_of_forall_mem hes _)
  cases e with
  | tick d => exact h
  | postpone t => exact Nat.eq_zero_of_le_zero (h ▸ callbacks_postpone_le t)
  | callback u' input => exact Nat.eq_zero_of_le_zero (h ▸ callbacks_callback_le he input)
  | expire => simpa [step, expire, Waiting.callbacks, futurePostponeUuids_expireLoop] using h

end Rendezvous
