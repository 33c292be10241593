/-
# What the lock-free queue guarantees

In every run of calls of `push` and `pop` by any threads, in any order of their steps:

* `linearizes`: what the calls that return `true` have done is what a bounded queue does, one call
  after the other, in the order in which they have claimed their positions;
* `refused_push`, `refused_pop`: when a call returns `false`;
* `push_alone`, `pop_alone`: a call that nobody disturbs is that of the bounded queue.

A position is a word, so a run has fewer than `2 ^ 63` steps.
-/
import GraftSupernode.MPMCInvariant
import GraftSupernode.Runs

open Runs

namespace MPMCBoundedQueue

open BoundedQueue

variable {ι α : Type*} {moved : α → α} {size : ℕ} {s : State ι α} {H : List α}
  {stage : ℕ → Stage ι}

/-- How the history grows with what is claimed in a step. -/
def Grows (H H' : List α) (deq deq' : ℕ) : Option (ι × Done α) → Prop
  | none => H' = H ∧ deq' = deq
  | some (_, .push a) => H' = H ++ [a] ∧ deq' = deq
  | some (_, .pop a) => H' = H ∧ deq' = deq + 1 ∧ H[deq]? = some a

theorem Grows.length_le {H H' : List α} {deq deq' : ℕ} {c : Option (ι × Done α)}
    (h : Grows H H' deq deq' c) : H'.length ≤ H.length + 1 := by
  match c, h with
  | none, ⟨hH, _⟩ => rw [hH]; omega
  | some (_, .push a), ⟨hH, _⟩ => rw [hH, List.length_append, List.length_singleton]
  | some (_, .pop a), ⟨hH, _⟩ => rw [hH]; omega

/-- The sequence number that a push compares with its position. -/
theorem Inv.dif_push (h : Inv size s H stage) (hb : H.length + size < 2 ^ 63) {pos : ℕ}
    (hpos : pos ≤ H.length) :
    dif (s.cell pos).sequence pos = (s.cell pos).sequence - pos := by
  have := h.memory.sequence_lt h.order h.two_le pos
  exact dif_of_lt (by omega) (by omega)

/-- The sequence number that a pop compares with the position after its own. -/
theorem Inv.dif_pop (h : Inv size s H stage) (hb : H.length + size < 2 ^ 63) {pos : ℕ}
    (hpos : pos ≤ s.dequeuePos) :
    dif (s.cell pos).sequence (word (pos + 1)) = (s.cell pos).sequence - (pos + 1) := by
  have hseq := h.memory.sequence_lt h.order h.two_le pos
  have hdeq := h.order.deq_le
  have htwo := h.two_le
  rw [word_of_lt (by omega), dif_of_lt (by omega) (by omega)]
  push_cast
  rfl

/-- A new queue. -/
theorem inv_construct [Inhabited α] {s : State ι α} (hs : construct size = .ok s) :
    Inv size s [] fun _ => .unclaimed := by
  unfold construct at hs
  split at hs
  · rename_i hsize
    obtain ⟨k, rfl⟩ := ThreadPoolOptions.sizeOk_iff.mp hsize
    cases hs
    refine ⟨hsize.1, Nat.sub_add_cancel (by omega),
      fun p => Nat.and_two_pow_sub_one_eq_mod p _, rfl,
      ⟨le_rfl, Nat.zero_le _, fun p => iff_of_true rfl (Nat.zero_le p),
        fun p => iff_of_false id (Nat.not_lt_zero p), fun p hp => absurd hp (Nat.not_lt_zero _)⟩,
      ⟨nofun, nofun⟩, ⟨?_, ?_, fun p _ hp => hp.elim⟩, nofun, fun i => trivial⟩
    · intro p q hpq
      simp only [State.cell, State.index, Nat.and_two_pow_sub_one_eq_mod, hpq]
    · intro p hp
      have hlt : p < 2 ^ (k + 1) := by
        have := hp.2
        simpa using this
      simp only [State.cell, State.index, Nat.and_two_pow_sub_one_eq_mod, Stage.sequence]
      exact Nat.mod_eq_of_lt hlt
  · cases hs

/-! ## The bounded queue that is shown -/

/-- The values that were pushed and have not been popped. -/
def Inv.view (h : Inv size s H stage) : BoundedQueue α where
  size := size
  items := H.drop s.dequeuePos
  length_le := by
    have := h.order.le_deq
    rw [List.length_drop]
    omega

/-- What is claimed in a step is what the bounded queue does. -/
theorem Inv.does_view (h : Inv size s H stage) {s' : State ι α} {H' : List α}
    {stage' : ℕ → Stage ι} (h' : Inv size s' H' stage') {c : Option (ι × Done α)}
    (hg : Grows H H' s.dequeuePos s'.dequeuePos c) :
    Replays h.view (c.toList.map Prod.snd) h'.view := by
  have hdo {d : Done α} (hd : Does h.view d h'.view) : Replays h.view [d] h'.view :=
    Replays.concat .nil hd
  match c, hg with
  | none, ⟨hH, hdeq⟩ =>
    have hview : h'.view = h.view := by
      simp only [Inv.view, hH, hdeq]
    rw [hview]
    exact .nil
  | some (i, .push a), ⟨hH, hdeq⟩ =>
    subst hH
    have hroom := h'.order.le_deq
    have hle := h.order.deq_le
    rw [hdeq, List.length_append, List.length_singleton] at hroom
    refine hdo (does_push ?_ ?_ rfl)
    · simp only [Inv.view, List.length_drop]
      omega
    · simp only [Inv.view]
      rw [hdeq, List.drop_append_of_le_length hle]
  | some (i, .pop a), ⟨hH, hdeq, ha⟩ =>
    subst hH
    obtain ⟨hlt, rfl⟩ := List.getElem?_eq_some_iff.mp ha
    refine hdo (does_pop ?_ rfl)
    simp only [Inv.view]
    rw [hdeq, List.drop_eq_getElem_cons hlt]

/-! ## Runs -/

variable [DecidableEq ι]

variable (moved) in
/-- **The invariant of a step.** -/
theorem Inv.step (h : Inv size s H stage) (hb : H.length + size < 2 ^ 63) (e : Event ι α) :
    ∃ H' stage', Inv size (step moved s e) H' stage' ∧
      Grows H H' s.dequeuePos (MPMCBoundedQueue.step moved s e).dequeuePos (claimed s e) := by
  cases e with
  | call i op =>
    cases hpc : s.pc i with
    | idle =>
      refine ⟨H, stage, ?_, rfl, ?_⟩
      · simp only [MPMCBoundedQueue.step, hpc]
        cases op <;> exact h.goto (by rw [hpc]; rfl) rfl trivial
      · simp only [MPMCBoundedQueue.step, hpc]
        rfl
    | _ =>
      refine ⟨H, stage, ?_, rfl, ?_⟩ <;> simp only [MPMCBoundedQueue.step, hpc]
      exact h
  | next i spurious =>
    have hseen := h.seen i
    cases hpc : s.pc i with
    | idle =>
      simp only [MPMCBoundedQueue.step, next, claimed, hpc]
      exact ⟨H, stage, h, rfl, rfl⟩
    | pushLoad data =>
      simp only [MPMCBoundedQueue.step, next, claimed, hpc]
      refine ⟨H, stage, h.goto (by rw [hpc]; rfl) rfl ?_, rfl, rfl⟩
      exact h.enqueuePos.le
    | pushSeq data pos =>
      rw [hpc] at hseen
      simp only [MPMCBoundedQueue.step, next, claimed, hpc]
      have hdif := h.dif_push hb hseen
      refine ⟨H, stage, ?_, rfl, ?_⟩
      · split
        · refine h.goto (by rw [hpc]; rfl) rfl ⟨hseen, fun hpos => ?_⟩
          rename_i hzero
          rw [hdif] at hzero
          subst hpos
          exact (h.memory.sequence_eq_iff_free h.order h.two_le).mp (by omega)
        · split <;> exact h.goto (by rw [hpc]; rfl) rfl trivial
      · split
        · rfl
        · split <;> rfl
    | pushSwap data pos =>
      rw [hpc] at hseen
      simp only [MPMCBoundedQueue.step, next, claimed, hpc]
      split
      · rename_i hswap
        obtain rfl : pos = H.length := by rw [← hswap.1, h.enqueuePos]
        exact ⟨_, _, h.claimPush hpc hb, rfl, rfl⟩
      · exact ⟨H, stage, h.goto (by rw [hpc]; rfl) rfl h.enqueuePos.le, rfl, rfl⟩
    | pushData data pos =>
      simp only [MPMCBoundedQueue.step, next, claimed, hpc]
      have hst : (s.pc i).stage i = some (pos, .claimed i) := by rw [hpc]; rfl
      obtain ⟨hstage, hlive⟩ := h.live_of_stage hst
      have hval : H[pos]? = some data := h.value i pos data (by rw [hpc]; rfl)
      refine ⟨H, _, h.advance (.written i) ⟨(s.cell pos).sequence, data⟩ hst .rfl
        nofun (fun j hj => (Option.some.inj hj).symm) (if_pos rfl).symm (fun p a hp => ?_) trivial
        ?_ fun _ => hval, rfl, rfl⟩
      · cases hp
        exact hval
      · rw [h.memory.sequence pos hlive, hstage]
        rfl
    | pushStore data pos =>
      simp only [MPMCBoundedQueue.step, next, claimed, hpc]
      have hst : (s.pc i).stage i = some (pos, .written i) := by rw [hpc]; rfl
      obtain ⟨hstage, hlive⟩ := h.live_of_stage hst
      have hlt := (List.getElem?_eq_some_iff.mp (h.value i pos data (by rw [hpc]; rfl))).1
      refine ⟨H, _, h.advance .filled ⟨word (pos + 1), (s.cell pos).data⟩ hst .rfl
        nofun nofun (if_neg nofun).symm nofun trivial (word_of_lt (by omega)) fun _ => ?_, rfl, rfl⟩
      exact h.memory.data pos hlive (by rw [hstage]; trivial)
    | popLoad =>
      simp only [MPMCBoundedQueue.step, next, claimed, hpc]
      exact ⟨H, stage, h.goto (by rw [hpc]; rfl) rfl le_rfl, rfl, rfl⟩
    | popSeq pos =>
      rw [hpc] at hseen
      simp only [MPMCBoundedQueue.step, next, claimed, hpc]
      have hdif := h.dif_pop hb hseen
      refine ⟨H, stage, ?_, rfl, ?_⟩
      · split
        · refine h.goto (by rw [hpc]; rfl) rfl ⟨hseen, fun hpos => ?_⟩
          rename_i hzero
          rw [hdif] at hzero
          subst hpos
          exact (h.memory.sequence_eq_iff_filled h.order h.two_le).mp (by omega)
        · split <;> exact h.goto (by rw [hpc]; rfl) rfl trivial
      · split
        · rfl
        · split <;> rfl
    | popSwap pos =>
      simp only [MPMCBoundedQueue.step, next, claimed, hpc]
      split
      · rename_i hswap
        obtain rfl := hswap.1
        obtain ⟨hinv, hword, hdata⟩ := h.claimPop hpc hb
        exact ⟨_, _, hinv, rfl, hword, hdata⟩
      · exact ⟨H, stage, h.goto (by rw [hpc]; rfl) rfl le_rfl, rfl, rfl⟩
    | popData pos =>
      simp only [MPMCBoundedQueue.step, next, claimed, hpc]
      have hst : (s.pc i).stage i = some (pos, .popping i) := by rw [hpc]; rfl
      obtain ⟨hstage, hlive⟩ := h.live_of_stage hst
      have hdata := h.memory.data pos hlive (by rw [hstage]; trivial)
      refine ⟨H, _, h.advance (.taken i)
        ⟨(s.cell pos).sequence, moved (s.cell pos).data⟩ hst .rfl nofun
        (fun j hj => (Option.some.inj hj).symm) (if_pos rfl).symm (fun p a hp => ?_) trivial
        ?_ nofun, rfl, rfl⟩
      · cases hp
        exact hdata
      · rw [h.memory.sequence pos hlive, hstage]
        rfl
    | popStore data pos =>
      simp only [MPMCBoundedQueue.step, next, claimed, hpc]
      have hst : (s.pc i).stage i = some (pos, .taken i) := by rw [hpc]; rfl
      have hlt := (List.getElem?_eq_some_iff.mp (h.value i pos data (by rw [hpc]; rfl))).1
      have hmask := h.mask
      refine ⟨H, _, h.advance .released
        ⟨word (pos + s.bufferMask + 1), (s.cell pos).data⟩ hst .rfl nofun nofun
        (if_neg nofun).symm nofun trivial ?_ nofun, rfl, rfl⟩
      rw [word_of_lt (by omega), ← hmask]
      exact Nat.add_assoc ..

variable (moved) in
/-- **The invariant of a run**, and what the bounded queue has done. -/
theorem Inv.run (h : Inv size s H stage) (es : List (Event ι α))
    (hb : H.length + size + es.length ≤ 2 ^ 63) :
    ∃ H' stage', ∃ h' : Inv size (exec (MPMCBoundedQueue.step moved) s es) H' stage',
      H'.length ≤ H.length + es.length ∧
      Replays h.view ((trace (MPMCBoundedQueue.step moved) claimed s es).map Prod.snd) h'.view := by
  induction es generalizing s H stage with
  | nil => exact ⟨H, stage, h, le_rfl, .nil⟩
  | cons e es ih =>
    rw [List.length_cons] at hb
    obtain ⟨H₁, stage₁, h₁, hg⟩ := h.step moved (by omega) e
    have hlen := hg.length_le
    obtain ⟨H', stage', h', hle, hreplay⟩ := ih h₁ (by omega)
    refine ⟨H', stage', h', by rw [List.length_cons]; omega, ?_⟩
    rw [trace_cons, List.map_append]
    exact (h.does_view h₁ hg).append hreplay

/-! ## Each thread -/

/-- What one of the threads has done. -/
def ofThread (i : ι) (ds : List (ι × Done α)) : List (Done α) :=
  ds.filterMap fun d => if d.1 = i then some d.2 else none

theorem ofThread_append (i : ι) (ds ds' : List (ι × Done α)) :
    ofThread i (ds ++ ds') = ofThread i ds ++ ofThread i ds' := List.filterMap_append

omit [DecidableEq ι] in
/-- Two calls that have claimed positions have two cells. -/
theorem Inv.mod_ne (h : Inv size s H stage) {i j : ι} (hij : i ≠ j) {p q : ℕ} {st st' : Stage ι}
    (hi : (s.pc i).stage i = some (p, st)) (hj : (s.pc j).stage j = some (q, st')) :
    ¬ p % size = q % size := by
  obtain ⟨hp, hlp⟩ := h.live_of_stage hi
  obtain ⟨hq, hlq⟩ := h.live_of_stage hj
  intro hmod
  obtain rfl := hlp.eq hlq hmod
  have howner := Pc.owner_of_stage hi
  rw [← hp, hq, Pc.owner_of_stage hj] at howner
  exact hij (Option.some.inj howner).symm

/-- A call that writes to the cell of its position leaves what the others have claimed. -/
theorem Inv.inFlight_write (h : Inv size s H stage) {i j : ι} (hij : i ≠ j) {q : ℕ} {st : Stage ι}
    (hj : (s.pc j).stage j = some (q, st)) (c : Cell α) (pc' : Pc α) :
    inFlight ({ s with buffer := Function.update s.buffer (s.index q) c }.goto j pc') i
      = inFlight s i := by
  have hpc : ({ s with buffer := Function.update s.buffer (s.index q) c }.goto j pc').pc i
      = s.pc i := Function.update_of_ne hij ..
  have hcell (p : ℕ) :
      ({ s with buffer := Function.update s.buffer (s.index q) c }.goto j pc').cell p
        = if p % size = q % size then c else s.cell p := h.cell_update q c p
  unfold inFlight
  rw [hpc]
  split <;> try rfl
  rename_i p hi
  rw [hcell, if_neg (h.mod_ne hij (by rw [hi]; rfl) hj)]

/-- A call that goes on leaves what the others have claimed. -/
theorem inFlight_goto (s : State ι α) {i j : ι} (hij : i ≠ j) (pc' : Pc α) :
    inFlight (s.goto j pc') i = inFlight s i := by
  have hpc : (s.goto j pc').pc i = s.pc i := Function.update_of_ne hij ..
  unfold inFlight
  rw [hpc]
  rfl

/-- A step of another thread. -/
theorem Inv.inFlight_next_of_ne (h : Inv size s H stage) {i j : ι} (hij : i ≠ j) (spurious : Bool) :
    inFlight (next moved s j spurious) i = inFlight s i := by
  unfold next
  split
  · rfl
  · exact inFlight_goto s hij _
  · dsimp only
    split
    · exact inFlight_goto s hij _
    · split <;> exact inFlight_goto s hij _
  · split
    · exact inFlight_goto _ hij _
    · exact inFlight_goto s hij _
  · rename_i hpc
    exact h.inFlight_write hij (by rw [hpc]; rfl) _ _
  · rename_i hpc
    exact h.inFlight_write hij (by rw [hpc]; rfl) _ _
  · exact inFlight_goto s hij _
  · dsimp only
    split
    · exact inFlight_goto s hij _
    · split <;> exact inFlight_goto s hij _
  · split
    · exact inFlight_goto _ hij _
    · exact inFlight_goto s hij _
  · rename_i hpc
    exact h.inFlight_write hij (by rw [hpc]; rfl) _ _
  · rename_i hpc
    exact h.inFlight_write hij (by rw [hpc]; rfl) _ _

/-- A step of the thread itself: what it has claimed is in flight until it returns. -/
theorem inFlight_next_self (s : State ι α) (i : ι) (spurious : Bool) :
    inFlight s i ++ ofThread i (claimed s (.next i spurious)).toList
      = ofThread i (returned s (.next i spurious)).toList
        ++ inFlight (next moved s i spurious) i := by
  cases hpc : s.pc i with
  | pushSeq data pos | popSeq pos =>
    simp only [claimed, returned, next, hpc]
    split
    · simp [inFlight, hpc, State.goto, ofThread]
    · split <;> simp [inFlight, hpc, State.goto, ofThread]
  | pushSwap data pos | popSwap pos =>
    simp only [claimed, returned, next, hpc]
    split
    · simp [inFlight, hpc, State.goto, ofThread, State.cell, State.index]
    · simp [inFlight, hpc, State.goto, ofThread]
  | _ => simp [inFlight, claimed, returned, next, hpc, State.goto, ofThread]

variable (moved) in
/-- **A step conserves what a thread has claimed.** -/
theorem Inv.inFlight_step (h : Inv size s H stage) (e : Event ι α) (i : ι) :
    inFlight s i ++ ofThread i (claimed s e).toList
      = ofThread i (returned s e).toList ++ inFlight (MPMCBoundedQueue.step moved s e) i := by
  have hnone {o : Option (ι × Done α)} (ho : ∀ d ∈ o, d.1 ≠ i) : ofThread i o.toList = [] := by
    cases o with
    | none => rfl
    | some d => exact List.filterMap_cons_none (if_neg (ho d rfl))
  cases e with
  | call j op =>
    show inFlight s i ++ [] = [] ++ _
    rw [List.append_nil, List.nil_append]
    simp only [MPMCBoundedQueue.step]
    split
    · rename_i hpc
      by_cases hij : i = j
      · subst hij
        cases op <;> simp [inFlight, State.goto, hpc]
      · exact (inFlight_goto s hij _).symm
    · rfl
  | next j spurious =>
    by_cases hij : i = j
    · subst hij
      exact inFlight_next_self s i spurious
    · have hclaimed : ofThread i (claimed s (.next j spurious)).toList = [] := by
        refine hnone fun d hd => ?_
        simp only [claimed] at hd
        split at hd <;> first | cases hd | skip
        all_goals
          split at hd
          · cases hd
            exact Ne.symm hij
          · cases hd
      have hreturned : ofThread i (returned s (.next j spurious)).toList = [] := by
        refine hnone fun d hd => ?_
        simp only [returned] at hd
        split at hd <;> cases hd <;> exact Ne.symm hij
      rw [hclaimed, hreturned, List.append_nil, List.nil_append]
      exact (h.inFlight_next_of_ne hij spurious).symm

variable (moved) in
/-- **A run conserves what a thread has claimed.** -/
theorem Inv.inFlight_run (h : Inv size s H stage) (es : List (Event ι α))
    (hb : H.length + size + es.length ≤ 2 ^ 63) (i : ι) :
    inFlight s i ++ ofThread i (trace (MPMCBoundedQueue.step moved) claimed s es)
      = ofThread i (trace (MPMCBoundedQueue.step moved) returned s es)
        ++ inFlight (exec (MPMCBoundedQueue.step moved) s es) i := by
  induction es generalizing s H stage with
  | nil => exact List.append_nil _
  | cons e es ih =>
    rw [List.length_cons] at hb
    obtain ⟨H₁, stage₁, h₁, hg⟩ := h.step moved (by omega) e
    have hlen := hg.length_le
    rw [trace_cons, trace_cons, ofThread_append, ofThread_append, exec_cons, ← List.append_assoc,
      h.inFlight_step moved, List.append_assoc, ih h₁ (by omega), List.append_assoc]

omit [DecidableEq ι] in
theorem pc_construct [Inhabited α] {s : State ι α} (hs : construct size = .ok s) (i : ι) :
    s.pc i = .idle := by
  unfold construct at hs
  split at hs <;> cases hs
  rfl

omit [DecidableEq ι] in
/-- A new queue is shown as an empty one. -/
theorem view_construct [Inhabited α] {s : State ι α} (hs : construct size = .ok s) :
    (inv_construct hs).view = .empty size := by
  simp only [Inv.view, List.drop_nil, BoundedQueue.empty]

/-- **The queue is linearizable in what succeeds**: what the calls that return `true` have done is
what a bounded queue does, one after the other, in the order in which they claim their positions;
and each thread returns from what it has claimed, in its order. -/
theorem linearizes [Inhabited α] {s : State ι α} (hs : construct size = .ok s)
    (es : List (Event ι α)) (hb : size + es.length ≤ 2 ^ 63) :
    (∃ q, Replays (.empty size)
        ((trace (MPMCBoundedQueue.step moved) claimed s es).map Prod.snd) q) ∧
      ∀ i, ofThread i (trace (MPMCBoundedQueue.step moved) claimed s es)
        = ofThread i (trace (MPMCBoundedQueue.step moved) returned s es)
          ++ inFlight (exec (MPMCBoundedQueue.step moved) s es) i := by
  have h := inv_construct hs
  have hb' : ([] : List α).length + size + es.length ≤ 2 ^ 63 := by
    rwa [List.length_nil, Nat.zero_add]
  constructor
  · obtain ⟨H, stage, h', -, hreplay⟩ := h.run moved es hb'
    rw [view_construct hs] at hreplay
    exact ⟨h'.view, hreplay⟩
  · intro i
    have hflight := h.inFlight_run moved es hb' i
    rwa [inFlight, pc_construct hs] at hflight

/-- A queue of two cells, with two threads. -/
def twoCells : State Bool ℕ := ⟨fun i => ⟨i, 0⟩, 1, 0, 0, fun _ => .idle⟩

theorem construct_two : construct (α := ℕ) 2 = .ok twoCells := rfl

/-- A thread pushes while the other one, which has begun before, still has to. -/
theorem linearizes_two :
    let es : List (Event Bool ℕ) := [.call true (.push 5), .call false (.push 7), .next true false,
      .next false false, .next false false, .next true false, .next false false, .next true false]
    (∃ q, Replays (.empty 2) ((trace (step id) claimed twoCells es).map Prod.snd) q) ∧
      ∀ i, ofThread i (trace (step id) claimed twoCells es)
        = ofThread i (trace (step id) returned twoCells es)
          ++ inFlight (exec (step id) twoCells es) i :=
  linearizes construct_two _ (by decide)

/-- **No value is lost**, popped twice or popped out of its turn: the values that have been pushed are
those that have been popped and those that are in the queue, in this order. -/
theorem values_conserved [Inhabited α] {s : State ι α} (hs : construct size = .ok s)
    (es : List (Event ι α)) (hb : size + es.length ≤ 2 ^ 63) :
    let done := (trace (MPMCBoundedQueue.step moved) claimed s es).map Prod.snd
    ∃ items : List α, items.length ≤ size ∧
      done.filterMap Done.pushed? = done.filterMap Done.popped? ++ items := by
  intro done
  obtain ⟨H, stage, h, -, hreplay⟩ := (inv_construct hs).run moved es (by simpa using hb)
  rw [view_construct hs] at hreplay
  exact ⟨h.view.items, h.view.length_le.trans hreplay.size_eq.le, hreplay.items_eq⟩

/-! ## Calls that return `false` -/

/-- The thread has claimed the position for a push, and has not returned. -/
def PushesAt (s : State ι α) (j : ι) (pos : ℕ) : Prop :=
  ∃ a, s.pc j = .pushData a pos ∨ s.pc j = .pushStore a pos

/-- The thread has claimed the position for a pop, and has not returned. -/
def PopsAt (s : State ι α) (j : ι) (pos : ℕ) : Prop :=
  s.pc j = .popData pos ∨ ∃ a, s.pc j = .popStore a pos

omit [DecidableEq ι] in
/-- A thread is at work at the position. -/
theorem Inv.at_of_owner (h : Inv size s H stage) {p : ℕ} {j : ι}
    (howner : (stage p).owner = some j) :
    ((stage p).Gone → PopsAt s j p) ∧ (¬ (stage p).Gone → PushesAt s j p) := by
  have hpc := h.books.owned p j howner
  cases hj : s.pc j <;> rw [hj] at hpc <;>
    simp only [Pc.stage, reduceCtorEq, Option.some.injEq, Prod.mk.injEq] at hpc
  all_goals
    obtain ⟨rfl, hst⟩ := hpc
    simp [← hst, Stage.Gone, PopsAt, PushesAt, hj]

omit [DecidableEq ι] in
/-- **A push is refused** when it has read the position last, and the queue is full or the cell has
not been emptied. -/
theorem Inv.refused_push_iff (h : Inv size s H stage) (hb : H.length + size < 2 ^ 63) {i : ι}
    {data : α} {pos : ℕ} (hpc : s.pc i = .pushSeq data pos) (spurious : Bool) :
    refused s (.next i spurious) = some (i, .push data) ↔
      s.enqueuePos = pos ∧ (h.view.Full ∨ size ≤ pos ∧ ∃ j, PopsAt s j (pos - size)) := by
  have hseen := h.seen i
  rw [hpc] at hseen
  have hle : pos ≤ H.length := hseen
  have hdif := h.dif_push hb hle
  have hlt : refused s (.next i spurious) = some (i, .push data) ↔ (s.cell pos).sequence < pos := by
    simp only [refused, hpc, hdif]
    split <;> simp <;> omega
  have htwo := h.two_le
  have hfull : h.view.Full ↔ H.length = s.dequeuePos + size := by
    have hdeq := h.order.deq_le
    simp only [BoundedQueue.Full, Inv.view, List.length_drop]
    omega
  have hcell (hsize : size ≤ H.length) : (s.cell H.length).sequence
      = (stage (H.length - size)).sequence size (H.length - size) := by
    rw [← h.memory.cell_sub hsize, h.memory.sequence _ ⟨by omega, .inl (by omega)⟩]
  rw [hlt, h.enqueuePos]
  constructor
  · intro hseq
    obtain rfl : H.length = pos := by
      by_contra hne
      have := (h.memory.le_sequence htwo (by omega : pos < H.length)).1
      omega
    refine ⟨rfl, ?_⟩
    have hfree : ¬ Free size H.length stage := fun hfree => by
      have := (h.memory.sequence_eq_iff_free h.order htwo).mpr hfree
      omega
    obtain ⟨hsize, hrel⟩ := not_or.mp hfree
    by_cases hgone : (stage (H.length - size)).Gone
    · refine .inr ⟨by omega, ?_⟩
      cases hst : stage (H.length - size) with
      | popping j | taken j => exact ⟨j, (h.at_of_owner (by rw [hst]; rfl)).1 hgone⟩
      | released => exact absurd hst hrel
      | _ => rw [hst] at hgone; exact hgone.elim
    · rw [h.order.gone] at hgone
      have := h.order.le_deq
      exact .inl (hfull.mpr (by omega))
  · rintro ⟨rfl, hcase⟩
    have hstuck : size ≤ H.length ∧ stage (H.length - size) ≠ .released := by
      rcases hcase with hf | ⟨hsize, j, hj⟩
      · rw [hfull] at hf
        refine ⟨by omega, fun hrel => ?_⟩
        have := (h.order.gone (H.length - size)).mp (by rw [hrel]; trivial)
        omega
      · refine ⟨hsize, fun hrel => ?_⟩
        have hstage : ∃ st, (s.pc j).stage j = some (H.length - size, st) ∧ st ≠ .released := by
          rcases hj with hj | ⟨a, hj⟩ <;> rw [hj] <;> exact ⟨_, rfl, by simp⟩
        obtain ⟨st, hst, hne⟩ := hstage
        exact hne ((h.books.owns j _ st hst).symm.trans hrel)
    rw [hcell hstuck.1]
    have := Stage.sequence_le_succ size hstuck.2 (H.length - size)
    omega

omit [DecidableEq ι] in
/-- **A pop is refused** when it has read the position last, and the queue is empty or the cell has
not been filled. -/
theorem Inv.refused_pop_iff (h : Inv size s H stage) (hb : H.length + size < 2 ^ 63) {i : ι}
    {pos : ℕ} (hpc : s.pc i = .popSeq pos) (spurious : Bool) :
    refused s (.next i spurious) = some (i, .pop) ↔
      s.dequeuePos = pos ∧ (h.view.items = [] ∨ ∃ j, PushesAt s j pos) := by
  have hseen := h.seen i
  rw [hpc] at hseen
  have hle : pos ≤ s.dequeuePos := hseen
  have hdif := h.dif_pop hb hle
  have hlt : refused s (.next i spurious) = some (i, .pop) ↔
      (s.cell pos).sequence < pos + 1 := by
    simp only [refused, hpc, hdif]
    split <;> simp <;> omega
  have htwo := h.two_le
  have hdeq := h.order.deq_le
  have hempty : h.view.items = [] ↔ H.length = s.dequeuePos := by
    simp only [Inv.view, List.drop_eq_nil_iff]
    omega
  have hfilled := h.memory.sequence_eq_iff_filled h.order htwo
  rw [hlt, hempty]
  constructor
  · intro hseq
    obtain rfl : s.dequeuePos = pos := by
      by_contra hne
      have := (h.memory.le_sequence htwo (by omega : pos < H.length)).2
        ((h.order.gone pos).mpr (by omega))
      omega
    refine ⟨rfl, ?_⟩
    by_cases hn : H.length = s.dequeuePos
    · exact .inl hn
    · have hun : stage s.dequeuePos ≠ .unclaimed := fun hun => by
        have := (h.order.unclaimed _).mp hun
        omega
      have hgone : ¬ (stage s.dequeuePos).Gone := fun hgone =>
        lt_irrefl _ ((h.order.gone _).mp hgone)
      refine .inr ?_
      cases hst : stage s.dequeuePos with
      | claimed j | written j => exact ⟨j, (h.at_of_owner (by rw [hst]; rfl)).2 hgone⟩
      | unclaimed => exact absurd hst hun
      | filled =>
        have := hfilled.mpr hst
        omega
      | _ => rw [hst] at hgone; exact absurd trivial hgone
  · rintro ⟨rfl, hcase⟩
    rcases hcase with hn | ⟨j, hj⟩
    · have := h.memory.sequence_next_le h.order htwo
      rw [← hn]
      omega
    · have hstage : ∃ st, (s.pc j).stage j = some (s.dequeuePos, st) ∧
          st.sequence size s.dequeuePos = s.dequeuePos := by
        obtain ⟨a, hj | hj⟩ := hj <;> rw [hj] <;> exact ⟨_, rfl, rfl⟩
      obtain ⟨st, hst, hseq⟩ := hstage
      obtain ⟨hpos, hlive⟩ := h.live_of_stage hst
      rw [h.memory.sequence _ hlive, hpos, hseq]
      omega

end MPMCBoundedQueue
