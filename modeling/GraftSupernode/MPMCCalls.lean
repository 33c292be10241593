/-
# Calls of the lock-free queue

* `refused_iff`: in any run, when a call of `push` or `pop` returns `false`;
* `refused_push_of_consumer`: with one consumer, as the queue of results has it, a push is refused
  only when the queue is full, or has room for one item, in the cell that the consumer is emptying;
* `sequential`: calls that do not overlap are those of a bounded queue.
-/
import GraftSupernode.MPMCRuns

open Runs

namespace MPMCBoundedQueue

open BoundedQueue

variable {ι α : Type*} [DecidableEq ι] {moved : α → α} {size : ℕ}

/-- A call from its start to its end, without another one in between: it has five steps at most. -/
def alone (call : ι × Op α) : List (Event ι α) :=
  [.call call.1 call.2, .next call.1 false, .next call.1 false, .next call.1 false,
    .next call.1 false, .next call.1 false]

/-- **When a call returns `false`**: the queue is full or empty, or another thread has claimed the
cell that is in the way, and has not returned. -/
theorem refused_iff [Inhabited α] {s : State ι α} (hs : construct size = .ok s)
    (es : List (Event ι α)) (hb : size + es.length < 2 ^ 63) :
    ∃ q, Replays (.empty size) ((trace (step moved) claimed s es).map Prod.snd) q ∧
      ∀ i pos spurious,
        (∀ data, (exec (step moved) s es).pc i = .pushSeq data pos →
          (refused (exec (step moved) s es) (.next i spurious) = some (i, .push data) ↔
            (exec (step moved) s es).enqueuePos = pos ∧
              (q.Full ∨ size ≤ pos ∧ ∃ j, PopsAt (exec (step moved) s es) j (pos - size)))) ∧
        ((exec (step moved) s es).pc i = .popSeq pos →
          (refused (exec (step moved) s es) (.next i spurious) = some (i, .pop) ↔
            (exec (step moved) s es).dequeuePos = pos ∧
              (q.items = [] ∨ ∃ j, PushesAt (exec (step moved) s es) j pos))) := by
  have h := inv_construct hs
  obtain ⟨H, stage, h', hlen, hreplay⟩ := h.run moved es (by simpa using hb.le)
  rw [view_construct hs] at hreplay
  rw [List.length_nil, Nat.zero_add] at hlen
  have hb' : H.length + size < 2 ^ 63 := by omega
  exact ⟨h'.view, hreplay, fun i pos spurious =>
    ⟨fun data hpc => h'.refused_push_iff hb' hpc spurious,
      fun hpc => h'.refused_pop_iff hb' hpc spurious⟩⟩

/-- A run in which the third push finds no room. -/
def threePushes : List (Event Bool ℕ) :=
  alone (false, .push 1) ++ alone (false, .push 2) ++ [.call false (.push 3), .next false false]

theorem refused_iff_threePushes : ∃ q, Replays (.empty 2)
      ((trace (step id) claimed twoCells threePushes).map Prod.snd) q ∧ ∀ i pos spurious,
        (∀ data, (exec (step id) twoCells threePushes).pc i = .pushSeq data pos →
          (refused (exec (step id) twoCells threePushes) (.next i spurious) = some (i, .push data) ↔
            (exec (step id) twoCells threePushes).enqueuePos = pos ∧ (q.Full ∨
              2 ≤ pos ∧ ∃ j, PopsAt (exec (step id) twoCells threePushes) j (pos - 2)))) ∧
        ((exec (step id) twoCells threePushes).pc i = .popSeq pos →
          (refused (exec (step id) twoCells threePushes) (.next i spurious) = some (i, .pop) ↔
            (exec (step id) twoCells threePushes).dequeuePos = pos ∧
              (q.items = [] ∨ ∃ j, PushesAt (exec (step id) twoCells threePushes) j pos))) :=
  refused_iff construct_two threePushes (by decide)

/-! ## One consumer -/

/-- The calls of `pop`. -/
def Pc.Pops : Pc α → Prop
  | .popLoad | .popSeq _ | .popSwap _ | .popData _ | .popStore _ _ => True
  | _ => False

/-- Only the thread `c` pops, and it has claimed the position before the first. -/
structure Consumer (c : ι) (s : State ι α) : Prop where
  only : ∀ i, (s.pc i).Pops → i = c
  last : ∀ i p, PopsAt s i p → p + 1 = s.dequeuePos

/-- A thread goes on, and has claimed the position before the first if it has claimed one. -/
theorem Consumer.of_update {c : ι} {s s' : State ι α} (h : Consumer c s) {i : ι} {pc' : Pc α}
    (hpc : s'.pc = Function.update s.pc i pc') (hpops : pc'.Pops → i = c)
    (hdeq : s'.dequeuePos = s.dequeuePos ∨ i = c)
    (hlast : ∀ p, (pc' = .popData p ∨ ∃ a, pc' = .popStore a p) → p + 1 = s'.dequeuePos) :
    Consumer c s' where
  only j hj := by
    rw [hpc] at hj
    by_cases hji : j = i
    · subst hji
      rw [Function.update_self] at hj
      exact hpops hj
    · rw [Function.update_of_ne hji] at hj
      exact h.only j hj
  last j p hj := by
    rw [PopsAt, hpc] at hj
    by_cases hji : j = i
    · subst hji
      rw [Function.update_self] at hj
      exact hlast p hj
    · rw [Function.update_of_ne hji] at hj
      rcases hdeq with hdeq | hdeq
      · rw [hdeq]
        exact h.last j p hj
      · -- the consumer is `i`, so `j` does not pop
        have hjc : j = c := h.only j (by rcases hj with hj | ⟨a, hj⟩ <;> rw [hj] <;> trivial)
        exact absurd (hjc.trans hdeq.symm) hji

/-- Pops stay with the one consumer in a step. -/
theorem Consumer.step {c : ι} {s : State ι α} {H : List α} {stage : ℕ → Stage ι}
    (h : Consumer c s) (hinv : Inv size s H stage) (hb : H.length + size < 2 ^ 63) {e : Event ι α}
    (he : ∀ i, e = .call i .pop → i = c) :
    Consumer c (MPMCBoundedQueue.step moved s e) := by
  cases e with
  | call i op =>
    simp only [MPMCBoundedQueue.step]
    split
    · cases op with
      | push data => exact h.of_update rfl False.elim (.inl rfl) (by simp)
      | pop => exact h.of_update rfl (fun _ => he i rfl) (.inl rfl) (by simp)
    · exact h
  | next i spurious =>
    have hi := h.only i
    have hlast := h.last i
    simp only [MPMCBoundedQueue.step, next]
    cases hpc : s.pc i with
    | idle => exact h
    | pushLoad data => exact h.of_update rfl False.elim (.inl rfl) (by simp)
    | pushSeq data pos =>
      dsimp only
      split
      · exact h.of_update rfl False.elim (.inl rfl) (by simp)
      · split <;> exact h.of_update rfl False.elim (.inl rfl) (by simp)
    | pushSwap data pos =>
      dsimp only
      split <;> exact h.of_update rfl False.elim (.inl rfl) (by simp)
    | pushData data pos => exact h.of_update rfl False.elim (.inl rfl) (by simp)
    | pushStore data pos => exact h.of_update rfl False.elim (.inl rfl) (by simp)
    | popLoad =>
      exact h.of_update rfl (fun _ => hi (by rw [hpc]; trivial)) (.inl rfl) (by simp)
    | popSeq pos =>
      have hc := hi (by rw [hpc]; trivial)
      dsimp only
      split
      · exact h.of_update rfl (fun _ => hc) (.inl rfl) (by simp)
      · split <;> exact h.of_update rfl (fun _ => hc) (.inl rfl) (by simp)
    | popSwap pos =>
      have hc := hi (by rw [hpc]; trivial)
      dsimp only
      split
      · rename_i hswap
        refine h.of_update rfl (fun _ => hc) (.inr hc) fun p hp => ?_
        obtain rfl : pos = p := by simpa using hp
        have hdeq := hinv.order.deq_le
        have htwo := hinv.two_le
        exact (word_of_lt (by omega)).symm
      · exact h.of_update rfl (fun _ => hc) (.inl rfl) (by simp)
    | popData pos =>
      refine h.of_update rfl (fun _ => hi (by rw [hpc]; trivial)) (.inl rfl) fun p hp => ?_
      obtain rfl : pos = p := by simpa using hp
      exact hlast pos (.inl hpc)
    | popStore data pos => exact h.of_update rfl False.elim (.inl rfl) (by simp)

variable (moved) in
/-- Pops stay with the one consumer in a run. -/
theorem Consumer.run {c : ι} {s : State ι α} {H : List α} {stage : ℕ → Stage ι}
    (h : Consumer c s) (hinv : Inv size s H stage) {es : List (Event ι α)}
    (hb : H.length + size + es.length ≤ 2 ^ 63) (hes : ∀ i, .call i .pop ∈ es → i = c) :
    Consumer c (exec (MPMCBoundedQueue.step moved) s es) := by
  induction es generalizing s H stage with
  | nil => exact h
  | cons e es ih =>
    rw [List.length_cons] at hb
    obtain ⟨H₁, stage₁, h₁, hg⟩ := hinv.step moved (by omega) e
    have hlen := hg.length_le
    refine ih (h.step hinv (by omega) fun i hi => hes i (hi ▸ List.mem_cons_self)) h₁ (by omega)
      fun i hi => hes i (List.mem_cons_of_mem _ hi)

/-- **With one consumer** a push is refused only when the queue is full, or holds one item less and
the consumer is emptying the cell of the one before. -/
theorem refused_push_of_consumer [Inhabited α] {s : State ι α} (hs : construct size = .ok s)
    (es : List (Event ι α)) (hb : size + es.length < 2 ^ 63) {c : ι}
    (hes : ∀ i, .call i .pop ∈ es → i = c) {i : ι} {data : α} {spurious : Bool}
    (href : refused (exec (step moved) s es) (.next i spurious) = some (i, .push data)) :
    ∃ q, Replays (.empty size) ((trace (step moved) claimed s es).map Prod.snd) q ∧
      (q.Full ∨ q.items.length + 1 = size ∧ ∃ pos, PopsAt (exec (step moved) s es) c pos) := by
  have h := inv_construct hs
  obtain ⟨H, stage, h', hlen, hreplay⟩ := h.run moved es (by simpa using hb.le)
  rw [view_construct hs] at hreplay
  rw [List.length_nil, Nat.zero_add] at hlen
  have hconsumer : Consumer c s := by
    refine ⟨fun j hj => ?_, fun j p hj => ?_⟩
    · rw [pc_construct hs] at hj
      exact hj.elim
    · simp [PopsAt, pc_construct hs] at hj
  have hc := hconsumer.run moved h (by simpa using hb.le) hes
  obtain ⟨pos, hpc⟩ : ∃ pos, (exec (step moved) s es).pc i = .pushSeq data pos := by
    cases hpc : (exec (step moved) s es).pc i with
    | pushSeq data' pos =>
      simp only [refused, hpc] at href
      split at href <;> cases href
      exact ⟨pos, rfl⟩
    | popSeq pos =>
      simp only [refused, hpc] at href
      split at href <;> cases href
    | _ => simp [refused, hpc] at href
  refine ⟨h'.view, hreplay, ?_⟩
  obtain ⟨hpos, hcase⟩ := (h'.refused_push_iff (by omega) hpc spurious).mp href
  rcases hcase with hfull | ⟨hle, j, hj⟩
  · exact .inl hfull
  · have hlast := hc.last j _ hj
    have hjc : j = c := hc.only j (by rcases hj with hj | ⟨a, hj⟩ <;> rw [hj] <;> trivial)
    subst hjc
    refine .inr ⟨?_, _, hj⟩
    have htwo := h'.two_le
    have henq := h'.enqueuePos
    simp only [Inv.view, List.length_drop]
    omega

/-- The other thread is the consumer. -/
theorem refused_push_of_consumer_two :
    ∃ q, Replays (.empty 2) ((trace (step id) claimed twoCells threePushes).map Prod.snd) q ∧
      (q.Full ∨ q.items.length + 1 = 2 ∧
        ∃ pos, PopsAt (exec (step id) twoCells threePushes) true pos) :=
  refused_push_of_consumer construct_two threePushes (by decide)
    (fun i hi => absurd hi (by simp [threePushes, alone]))
    (show refused (exec (step id) twoCells threePushes) (.next false false)
      = some (false, .push 3) from rfl)

/-! ## Calls that do not overlap -/

/-- What the bounded queue does with a call: what it returns `true` from. -/
def serve (q : BoundedQueue α) : Op α → Option (Done α) × BoundedQueue α
  | .push a =>
    match q.push a with
    | some q' => (some (.push a), q')
    | none => (none, q)
  | .pop =>
    match q.pop with
    | some (a, q') => (some (.pop a), q')
    | none => (none, q)

/-- The answers to calls, one after the other. -/
def answers (q : BoundedQueue α) : List (ι × Op α) → List (ι × Option (Done α))
  | [] => []
  | (i, op) :: calls => (i, (serve q op).1) :: answers (serve q op).2 calls

/-- A call returns. -/
def answered (s : State ι α) (e : Event ι α) : Option (ι × Option (Done α)) :=
  ((returned s e).map fun d => (d.1, some d.2)).or ((refused s e).map fun op => (op.1, none))

/-- The last place of a thread counts. -/
@[simp] theorem goto_goto (s : State ι α) (i : ι) (a b : Pc α) :
    (s.goto i a).goto i b = s.goto i b := by
  simp only [State.goto, Function.update_idem]

/-- A thread is where it has gone. -/
@[simp] theorem pc_goto (s : State ι α) (i : ι) (a : Pc α) : (s.goto i a).pc i = a :=
  Function.update_self ..

/-- Where a thread is does not change the cells. -/
@[simp] theorem cell_goto (s : State ι α) (i : ι) (a : Pc α) (p : ℕ) :
    (s.goto i a).cell p = s.cell p := rfl

/-- Where a thread is does not change the position for pushes. -/
@[simp] theorem enqueuePos_goto (s : State ι α) (i : ι) (a : Pc α) :
    (s.goto i a).enqueuePos = s.enqueuePos := rfl

/-- Where a thread is does not change the position for pops. -/
@[simp] theorem dequeuePos_goto (s : State ι α) (i : ι) (a : Pc α) :
    (s.goto i a).dequeuePos = s.dequeuePos := rfl

/-- The other threads stay where they are. -/
theorem pc_goto_of_ne (s : State ι α) {i j : ι} (hji : j ≠ i) (a : Pc α) :
    (s.goto i a).pc j = s.pc j := Function.update_of_ne hji ..

omit [DecidableEq ι] in
/-- The data of a cell do not move a thread. -/
@[simp] theorem pc_setData (s : State ι α) (p : ℕ) (a : α) : (s.setData p a).pc = s.pc := rfl

omit [DecidableEq ι] in
/-- The sequence of a cell does not move a thread. -/
@[simp] theorem pc_setSequence (s : State ι α) (p n : ℕ) : (s.setSequence p n).pc = s.pc := rfl

/-- A thread that is idle may go there. -/
theorem goto_idle {s : State ι α} {i : ι} (hi : s.pc i = .idle) : s.goto i .idle = s := by
  simp only [State.goto, ← hi, Function.update_eq_self]

variable (moved) in
/-- **A push that is alone**: it is refused when the queue is full. -/
theorem Inv.push_alone {s : State ι α} {H : List α} {stage : ℕ → Stage ι} (h : Inv size s H stage)
    (hb : H.length + size < 2 ^ 63) (hidle : ∀ j, s.pc j = .idle) (i : ι) (data : α) :
    trace (MPMCBoundedQueue.step moved) answered s (alone (i, .push data))
        = [(i, if h.view.Full then none else some (.push data))] ∧
      trace (MPMCBoundedQueue.step moved) claimed s (alone (i, .push data))
        = (if h.view.Full then [] else [(i, .push data)]) ∧
      ∀ j, (exec (MPMCBoundedQueue.step moved) s (alone (i, .push data))).pc j = .idle := by
  have hload : next moved (s.goto i (.pushLoad data)) i false
      = s.goto i (.pushSeq data H.length) := by
    simp [next, h.enqueuePos]
  -- the state in which the push looks at its cell
  have hseq : Inv size (s.goto i (.pushSeq data H.length)) H stage :=
    h.goto (by rw [hidle]; rfl) rfl le_rfl
  have hpops (j : ι) (p : ℕ) : ¬ PopsAt (s.goto i (.pushSeq data H.length)) j p := by
    by_cases hji : j = i
    · subst hji
      simp [PopsAt]
    · simp [PopsAt, State.goto, Function.update_of_ne hji, hidle]
  have href := hseq.refused_push_iff hb (pc_goto ..) false
  have hdif := h.dif_push hb le_rfl
  have hle := h.memory.sequence_next_le h.order h.two_le
  have hdone : next moved s i false = s := by simp only [next, hidle]
  by_cases hfull : h.view.Full
  · have hlt : dif (s.cell H.length).sequence H.length < 0 := by
      by_contra hge
      have := href.mpr ⟨h.enqueuePos, .inl hfull⟩
      simp [refused, hge] at this
    have hrefuse : next moved (s.goto i (.pushSeq data H.length)) i false = s := by
      simp [next, hlt, hlt.ne, goto_idle (hidle i)]
    simp [alone, trace_cons, MPMCBoundedQueue.step, hidle, hload, hrefuse, hdone, answered,
      returned, refused, claimed, hlt, hfull]
  · have hzero : dif (s.cell H.length).sequence H.length = 0 := by
      have hge : ¬ dif (s.cell H.length).sequence H.length < 0 := fun hlt => by
        obtain ⟨-, hcase⟩ := href.mp (by simp [refused, hlt])
        rcases hcase with hf | ⟨-, j, hj⟩
        · exact hfull hf
        · exact hpops j _ hj
      omega
    refine ⟨?_, ?_, fun j => ?_⟩
    · simp [alone, trace_cons, MPMCBoundedQueue.step, hidle, answered, returned, refused, hfull,
        hzero, next, h.enqueuePos]
    · simp [alone, trace_cons, MPMCBoundedQueue.step, hidle, claimed, hfull, hzero, next,
        h.enqueuePos]
    · by_cases hji : j = i
      · subst hji
        simp [alone, MPMCBoundedQueue.step, hidle, hzero, next, h.enqueuePos]
      · simp [alone, MPMCBoundedQueue.step, hidle, hzero, next, h.enqueuePos, pc_goto_of_ne _ hji]

variable (moved) in
/-- **A pop that is alone**: it is refused when the queue is empty. -/
theorem Inv.pop_alone {s : State ι α} {H : List α} {stage : ℕ → Stage ι} (h : Inv size s H stage)
    (hb : H.length + size < 2 ^ 63) (hidle : ∀ j, s.pc j = .idle) (i : ι) :
    ∃ a, trace (MPMCBoundedQueue.step moved) answered s (alone (i, .pop))
        = [(i, if h.view.items = [] then none else some (.pop a))] ∧
      trace (MPMCBoundedQueue.step moved) claimed s (alone (i, .pop))
        = (if h.view.items = [] then [] else [(i, .pop a)]) ∧
      ∀ j, (exec (MPMCBoundedQueue.step moved) s (alone (i, .pop))).pc j = .idle := by
  have hload : next moved (s.goto i .popLoad) i false = s.goto i (.popSeq s.dequeuePos) := by
    simp [next]
  -- the state in which the pop looks at its cell
  have hseq : Inv size (s.goto i (.popSeq s.dequeuePos)) H stage :=
    h.goto (by rw [hidle]; rfl) rfl le_rfl
  have hpushes (j : ι) (p : ℕ) : ¬ PushesAt (s.goto i (.popSeq s.dequeuePos)) j p := by
    by_cases hji : j = i
    · subst hji
      simp [PushesAt]
    · simp [PushesAt, pc_goto_of_ne _ hji, hidle]
  have href := hseq.refused_pop_iff hb (pc_goto ..) false
  have hdif := h.dif_pop hb le_rfl
  have hdone : next moved s i false = s := by simp only [next, hidle]
  refine ⟨(s.cell s.dequeuePos).data, ?_⟩
  by_cases hempty : h.view.items = []
  · have hlt : dif (s.cell s.dequeuePos).sequence (word (s.dequeuePos + 1)) < 0 := by
      by_contra hge
      have := href.mpr ⟨rfl, .inl hempty⟩
      simp [refused, hge] at this
    have hrefuse : next moved (s.goto i (.popSeq s.dequeuePos)) i false = s := by
      simp [next, hlt, hlt.ne, goto_idle (hidle i)]
    simp [alone, trace_cons, MPMCBoundedQueue.step, hidle, hload, hrefuse, hdone, answered,
      returned, refused, claimed, hlt, hempty]
  · have hzero : dif (s.cell s.dequeuePos).sequence (word (s.dequeuePos + 1)) = 0 := by
      have hge : ¬ dif (s.cell s.dequeuePos).sequence (word (s.dequeuePos + 1)) < 0 := fun hlt => by
        obtain ⟨-, hcase⟩ := href.mp (by simp [refused, hlt])
        rcases hcase with hf | ⟨j, hj⟩
        · exact hempty hf
        · exact hpushes j _ hj
      have hle := h.memory.sequence_first_le h.order h.two_le
      omega
    refine ⟨?_, ?_, fun j => ?_⟩
    · simp [alone, trace_cons, MPMCBoundedQueue.step, hidle, answered, returned, refused, hempty,
        hzero, next]
      rfl
    · simp [alone, trace_cons, MPMCBoundedQueue.step, hidle, claimed, hempty, hzero, next]
    · by_cases hji : j = i
      · subst hji
        simp [alone, MPMCBoundedQueue.step, hidle, hzero, next]
      · simp [alone, MPMCBoundedQueue.step, hidle, hzero, next, pc_goto_of_ne _ hji]

variable (moved) in
/-- A call that is alone is served by the bounded queue. -/
theorem Inv.call_alone {s : State ι α} {H : List α} {stage : ℕ → Stage ι} (h : Inv size s H stage)
    (hb : H.length + size + 6 ≤ 2 ^ 63) (hidle : ∀ j, s.pc j = .idle) (call : ι × Op α) :
    ∃ H' stage', ∃ h' : Inv size (exec (MPMCBoundedQueue.step moved) s (alone call)) H' stage',
      H'.length ≤ H.length + 6 ∧
      trace (MPMCBoundedQueue.step moved) answered s (alone call)
        = [(call.1, (serve h.view call.2).1)] ∧
      (serve h.view call.2).2 = h'.view ∧
      ∀ j, (exec (MPMCBoundedQueue.step moved) s (alone call)).pc j = .idle := by
  obtain ⟨i, op⟩ := call
  obtain ⟨H', stage', h', hlen, hreplay⟩ := h.run moved (alone (i, op)) hb
  refine ⟨H', stage', h', hlen, ?_⟩
  cases op with
  | push data =>
    obtain ⟨hanswer, hclaim, hdone⟩ := h.push_alone moved (by omega) hidle i data
    rw [hclaim] at hreplay
    rw [hanswer]
    by_cases hfull : h.view.Full
    · rw [if_pos hfull] at hreplay ⊢
      rw [serve, push_eq_none.mpr hfull]
      exact ⟨rfl, hreplay.eq_of_nil.symm, hdone⟩
    · rw [if_neg hfull] at hreplay ⊢
      have hpush : h.view.push data = some h'.view := hreplay.does
      rw [serve, hpush]
      exact ⟨rfl, rfl, hdone⟩
  | pop =>
    obtain ⟨a, hanswer, hclaim, hdone⟩ := h.pop_alone moved (by omega) hidle i
    rw [hclaim] at hreplay
    rw [hanswer]
    by_cases hempty : h.view.items = []
    · rw [if_pos hempty] at hreplay ⊢
      rw [serve, pop_eq_none.mpr hempty]
      exact ⟨rfl, hreplay.eq_of_nil.symm, hdone⟩
    · rw [if_neg hempty] at hreplay ⊢
      have hpop : h.view.pop = some (a, h'.view) := hreplay.does
      rw [serve, hpop]
      exact ⟨rfl, rfl, hdone⟩

/-- **Calls that do not overlap** are answered as the bounded queue answers them. -/
theorem sequential [Inhabited α] {s : State ι α} (hs : construct size = .ok s)
    (calls : List (ι × Op α)) (hb : size + 6 * calls.length ≤ 2 ^ 63) :
    trace (MPMCBoundedQueue.step moved) answered s (calls.flatMap alone)
      = answers (.empty size) calls := by
  suffices hgen : ∀ {s : State ι α} {H : List α} {stage : ℕ → Stage ι} (h : Inv size s H stage),
      H.length + size + 6 * calls.length ≤ 2 ^ 63 → (∀ j, s.pc j = .idle) →
        trace (MPMCBoundedQueue.step moved) answered s (calls.flatMap alone)
          = answers h.view calls by
    rw [← view_construct hs]
    exact hgen (inv_construct hs) (by simpa using hb) (pc_construct hs)
  clear hs hb
  induction calls with
  | nil => intros; rfl
  | cons call calls ih =>
    intro s H stage h hb hidle
    rw [List.length_cons] at hb
    obtain ⟨H', stage', h', hlen, hanswer, hserve, hdone⟩ :=
      h.call_alone moved (by omega) hidle call
    rw [List.flatMap_cons, trace_append, hanswer, ih h' (by omega) hdone, ← hserve]
    rfl

/-- A queue for two items: the second thread pops, and a third push is refused. -/
theorem sequential_two :
    trace (MPMCBoundedQueue.step id) answered twoCells
        ([(false, .push 1), (false, .push 2), (false, .push 3), (true, .pop)].flatMap alone)
      = answers (.empty 2) [(false, .push 1), (false, .push 2), (false, .push 3), (true, .pop)] :=
  sequential construct_two _ (by decide)

end MPMCBoundedQueue
