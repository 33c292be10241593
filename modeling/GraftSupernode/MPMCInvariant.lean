/-
# The stages of a position

A position of the lock-free queue is claimed by a push, written, filled, claimed by a pop, taken,
and released, in this order.  The sequence number in its cell is what its stage says, as long as no
later position has taken the cell over (`Live`).

* `Order`: how far the two positions have come;
* `Books`: each call that has claimed a position is at the stage of it, and it is the only one;
* `Memory`: what is in the cells;
* `Inv`: all of them, and what the calls have read, which no step breaks (`Inv.step`).

`H` lists the values that were pushed, by position.
-/
import GraftSupernode.MPMCBoundedQueue

namespace MPMCBoundedQueue

open BoundedQueue

variable {ι α : Type*}

/-! ## Machine words -/

theorem word_of_lt {n : ℕ} (h : n < 2 ^ 63) : word n = n :=
  Nat.mod_eq_of_lt (h.trans (by decide))

theorem dif_of_lt {seq pos : ℕ} (hseq : seq < 2 ^ 63) (hpos : pos < 2 ^ 63) :
    dif seq pos = seq - pos := by
  rw [dif, intptr, intptr, if_pos hseq, if_pos hpos]

/-! ## Stages -/

/-- How far a position has come, and the thread whose call has claimed it. -/
inductive Stage (ι : Type*)
  | unclaimed
  | claimed (i : ι)
  | written (i : ι)
  | filled
  | popping (i : ι)
  | taken (i : ι)
  | released

namespace Stage

/-- The thread that works at the position. -/
def owner : Stage ι → Option ι
  | claimed i | written i | popping i | taken i => some i
  | unclaimed | filled | released => none

/-- A pop has claimed the position. -/
def Gone : Stage ι → Prop
  | popping _ | taken _ | released => True
  | unclaimed | claimed _ | written _ | filled => False

/-- The value that was pushed is in the cell. -/
def Holds : Stage ι → Prop
  | written _ | filled | popping _ => True
  | unclaimed | claimed _ | taken _ | released => False

/-- The sequence number of the position `p`. -/
def sequence (size : ℕ) : Stage ι → ℕ → ℕ
  | unclaimed, p | claimed _, p | written _, p => p
  | filled, p | popping _, p | taken _, p => p + 1
  | released, p => p + size

theorem le_sequence (size : ℕ) (st : Stage ι) (p : ℕ) : p ≤ st.sequence size p := by
  cases st <;> simp only [sequence] <;> omega

theorem sequence_le {size : ℕ} (hsize : 2 ≤ size) (st : Stage ι) (p : ℕ) :
    st.sequence size p ≤ p + size := by
  cases st <;> simp only [sequence] <;> omega

theorem lt_sequence_of_gone {size : ℕ} (hsize : 2 ≤ size) {st : Stage ι} (hst : st.Gone) (p : ℕ) :
    p < st.sequence size p := by
  cases st <;> simp only [sequence, Gone] at hst ⊢ <;> omega

theorem sequence_le_succ (size : ℕ) {st : Stage ι} (hst : st ≠ .released) (p : ℕ) :
    st.sequence size p ≤ p + 1 := by
  cases st <;> simp only [sequence, ne_eq, not_true_eq_false] at hst ⊢ <;> omega

/-- With two cells or more, only a position that is released lets a push in. -/
theorem eq_released {size : ℕ} (hsize : 2 ≤ size) {st : Stage ι} {p : ℕ}
    (h : st.sequence size p = p + size) : st = .released := by
  cases st <;> simp only [sequence] at h <;> first | rfl | omega

end Stage

/-- The position that a call has claimed, and the stage that the call has brought it to. -/
def Pc.stage (i : ι) : Pc α → Option (ℕ × Stage ι)
  | .pushData _ pos => some (pos, .claimed i)
  | .pushStore _ pos => some (pos, .written i)
  | .popData pos => some (pos, .popping i)
  | .popStore _ pos => some (pos, .taken i)
  | _ => none

/-- The value that a call works with, and its position. -/
def Pc.value : Pc α → Option (ℕ × α)
  | .pushData data pos | .pushStore data pos | .popStore data pos => some (pos, data)
  | _ => none

/-- Each call is at the stage of the position that it has claimed, and is the only one there. -/
structure Books (pc : ι → Pc α) (stage : ℕ → Stage ι) : Prop where
  owns : ∀ i p st, (pc i).stage i = some (p, st) → stage p = st
  owned : ∀ p i, (stage p).owner = some i → (pc i).stage i = some (p, stage p)

theorem Pc.owner_of_stage {i : ι} {pc : Pc α} {p : ℕ} {st : Stage ι}
    (h : pc.stage i = some (p, st)) : st.owner = some i := by
  cases pc <;> simp only [Pc.stage, reduceCtorEq, Option.some.injEq, Prod.mk.injEq] at h <;>
    rw [← h.2] <;> rfl

namespace Books

variable [DecidableEq ι] {pc : ι → Pc α} {stage : ℕ → Stage ι} {i : ι} {pc' : Pc α} {p : ℕ}
  {st' : Stage ι}

/-- A call that has claimed nothing goes on. -/
theorem goto (h : Books pc stage) (hold : (pc i).stage i = none) (hnew : pc'.stage i = none) :
    Books (Function.update pc i pc') stage where
  owns j p st hj := by
    by_cases hji : j = i
    · subst hji
      rw [Function.update_self, hnew] at hj
      cases hj
    · rw [Function.update_of_ne hji] at hj
      exact h.owns j p st hj
  owned p j hj := by
    have hpc := h.owned p j hj
    by_cases hji : j = i
    · subst hji
      rw [hold] at hpc
      cases hpc
    · rwa [Function.update_of_ne hji]

/-- A call brings its position, or one that nobody works at, to another stage. -/
theorem advance (h : Books pc stage) (hp : ∀ j, (stage p).owner = some j → j = i)
    (hi : ∀ q st, (pc i).stage i = some (q, st) → q = p)
    (hnew : pc'.stage i = if st'.owner = some i then some (p, st') else none)
    (howner : ∀ j, st'.owner = some j → j = i) :
    Books (Function.update pc i pc') (Function.update stage p st') where
  owns j q st hj := by
    by_cases hji : j = i
    · subst hji
      rw [Function.update_self, hnew] at hj
      split at hj
      · cases hj
        exact Function.update_self ..
      · cases hj
    · rw [Function.update_of_ne hji] at hj
      have hq := h.owns j q st hj
      have hqp : q ≠ p := by
        intro hqp
        subst hqp
        exact hji (hp j (hq ▸ Pc.owner_of_stage hj))
      rwa [Function.update_of_ne hqp]
  owned q j hj := by
    by_cases hqp : q = p
    · subst hqp
      rw [Function.update_self] at hj ⊢
      obtain rfl := howner j hj
      rw [Function.update_self, hnew, if_pos hj]
    · rw [Function.update_of_ne hqp] at hj ⊢
      have hpc := h.owned q j hj
      have hji : j ≠ i := by
        intro hji
        subst hji
        exact hqp (hi q _ hpc)
      rwa [Function.update_of_ne hji]

end Books

/-! ## Cells -/

/-- No later position has taken over the cell of the position `p`, and the cell is in use: `n`
positions are claimed. -/
def Live (size n p : ℕ) : Prop := n ≤ p + size ∧ (p < n ∨ p < size)

theorem eq_of_mod_eq {size p q : ℕ} (h : p % size = q % size) (hpq : p < q + size)
    (hqp : q < p + size) : p = q := by
  rcases Nat.le_total p q with hle | hle
  · have hdvd : size ∣ q - p := (Nat.modEq_iff_dvd' hle).mp h
    have := Nat.eq_zero_of_dvd_of_lt hdvd (by omega)
    omega
  · have hdvd : size ∣ p - q := (Nat.modEq_iff_dvd' hle).mp h.symm
    have := Nat.eq_zero_of_dvd_of_lt hdvd (by omega)
    omega

/-- Two positions in the window have two cells. -/
theorem Live.eq {size n p q : ℕ} (hp : Live size n p) (hq : Live size n q)
    (h : p % size = q % size) : p = q := by
  obtain ⟨hp, hp'⟩ := hp
  obtain ⟨hq, hq'⟩ := hq
  exact eq_of_mod_eq h (by omega) (by omega)

/-- Every cell is that of a position in the window. -/
theorem exists_live {size : ℕ} (hsize : 2 ≤ size) (n p : ℕ) :
    ∃ q, Live size n q ∧ q % size = p % size := by
  have hpos : 0 < size := by omega
  have hlt := Nat.mod_lt p hpos
  by_cases hn : p % size < n
  · -- the last position below `n` with this cell
    have hdiv := Nat.div_add_mod (n - 1 - p % size) size
    have hmod := Nat.mod_lt (n - 1 - p % size) hpos
    refine ⟨p % size + size * ((n - 1 - p % size) / size), ⟨by omega, .inl (by omega)⟩, ?_⟩
    rw [Nat.add_mul_mod_self_left, Nat.mod_mod]
  · exact ⟨p % size, ⟨by omega, .inr hlt⟩, Nat.mod_mod ..⟩

/-- What is in the cells: the sequence number that the stage says, and the value that was pushed as
long as it is there. -/
structure Memory (size : ℕ) (cell : ℕ → Cell α) (H : List α) (stage : ℕ → Stage ι) : Prop where
  mod : ∀ p q, p % size = q % size → cell p = cell q
  sequence : ∀ p, Live size H.length p → (cell p).sequence = (stage p).sequence size p
  data : ∀ p, Live size H.length p → (stage p).Holds → H[p]? = some (cell p).data

/-- How far the two positions have come. -/
structure Order (size deq n : ℕ) (stage : ℕ → Stage ι) : Prop where
  deq_le : deq ≤ n
  le_deq : n ≤ deq + size
  unclaimed : ∀ p, stage p = .unclaimed ↔ n ≤ p
  gone : ∀ p, (stage p).Gone ↔ p < deq
  released : ∀ p, p + size < n → stage p = .released

/-- The cell of the next position is free. -/
def Free (size n : ℕ) (stage : ℕ → Stage ι) : Prop := n < size ∨ stage (n - size) = .released

/-- What a call has read is right, or it is old. -/
def Seen (size deq n : ℕ) (stage : ℕ → Stage ι) : Pc α → Prop
  | .pushSeq _ pos => pos ≤ n
  | .pushSwap _ pos => pos ≤ n ∧ (pos = n → Free size n stage)
  | .popSeq pos => pos ≤ deq
  | .popSwap pos => pos ≤ deq ∧ (pos = deq → stage deq = .filled)
  | _ => True

/-- **The invariant of the queue.** -/
structure Inv (size : ℕ) (s : State ι α) (H : List α) (stage : ℕ → Stage ι) : Prop where
  two_le : 2 ≤ size
  mask : s.bufferMask + 1 = size
  index : ∀ p, s.index p = p % size
  enqueuePos : s.enqueuePos = H.length
  order : Order size s.dequeuePos H.length stage
  books : Books s.pc stage
  memory : Memory size s.cell H stage
  value : ∀ i p a, (s.pc i).value = some (p, a) → H[p]? = some a
  seen : ∀ i, Seen size s.dequeuePos H.length stage (s.pc i)

/-! ## What the sequence numbers say -/

section Reading

variable {size deq : ℕ} {cell : ℕ → Cell α} {H : List α} {stage : ℕ → Stage ι}

/-- The cell of the next position is that of the position a round before. -/
theorem Memory.cell_sub (hm : Memory size cell H stage) {n : ℕ} (hle : size ≤ n) :
    cell (n - size) = cell n :=
  hm.mod _ _ (Nat.mod_eq_sub_mod hle).symm

theorem Memory.sequence_lt (hm : Memory size cell H stage) (ho : Order size deq H.length stage)
    (hsize : 2 ≤ size) (p : ℕ) : (cell p).sequence < H.length + size := by
  obtain ⟨q, hlive, hq⟩ := exists_live hsize H.length p
  rw [← hm.mod q p hq, hm.sequence q hlive]
  by_cases hn : q < H.length
  · have := Stage.sequence_le hsize (stage q) q
    omega
  · rw [(ho.unclaimed q).mpr (by omega)]
    have := hlive.2
    simp only [Stage.sequence]
    omega

/-- The sequence number in the cell of a position that was claimed. -/
theorem Memory.le_sequence (hm : Memory size cell H stage) (hsize : 2 ≤ size) {p : ℕ}
    (hp : p < H.length) : p ≤ (cell p).sequence ∧
      ((stage p).Gone → p < (cell p).sequence) := by
  obtain ⟨q, hlive, hq⟩ := exists_live hsize H.length p
  rw [← hm.mod q p hq, hm.sequence q hlive]
  have hle := Stage.le_sequence size (stage q) q
  by_cases hlt : q < p
  · have := eq_of_mod_eq hq (by omega) (by have := hlive.1; omega)
    omega
  · by_cases heq : q = p
    · subst heq
      exact ⟨hle, fun hgone => Stage.lt_sequence_of_gone hsize hgone q⟩
    · omega

/-- **A push is let in** exactly when the cell of the next position is free. -/
theorem Memory.sequence_eq_iff_free (hm : Memory size cell H stage)
    (ho : Order size deq H.length stage) (hsize : 2 ≤ size) :
    (cell H.length).sequence = H.length ↔ Free size H.length stage := by
  by_cases hlt : H.length < size
  · have hlive : Live size H.length H.length := ⟨by omega, .inr hlt⟩
    rw [hm.sequence _ hlive, (ho.unclaimed _).mpr le_rfl]
    exact iff_of_true rfl (.inl hlt)
  · have hlive : Live size H.length (H.length - size) := ⟨by omega, .inl (by omega)⟩
    rw [← hm.cell_sub (by omega), hm.sequence _ hlive]
    constructor
    · intro h
      exact .inr (Stage.eq_released hsize (p := H.length - size) (by omega))
    · rintro (h | h)
      · exact absurd h hlt
      · rw [h]
        exact Nat.sub_add_cancel (by omega)

/-- The sequence number in the cell of the next position. -/
theorem Memory.sequence_next_le (hm : Memory size cell H stage) (ho : Order size deq H.length stage)
    (hsize : 2 ≤ size) : (cell H.length).sequence ≤ H.length := by
  by_cases hlt : H.length < size
  · rw [hm.sequence _ ⟨by omega, .inr hlt⟩, (ho.unclaimed _).mpr le_rfl]
    exact le_rfl
  · rw [← hm.cell_sub (by omega), hm.sequence _ ⟨by omega, .inl (by omega)⟩]
    have := Stage.sequence_le hsize (stage (H.length - size)) (H.length - size)
    omega

/-- The sequence number in the cell of the first position. -/
theorem Memory.sequence_first_le (hm : Memory size cell H stage)
    (ho : Order size deq H.length stage) (hsize : 2 ≤ size) : (cell deq).sequence ≤ deq + 1 := by
  have hdeq := ho.deq_le
  by_cases hlt : deq < H.length
  · rw [hm.sequence _ ⟨ho.le_deq, .inl hlt⟩]
    refine Stage.sequence_le_succ _ (fun hrel => ?_) deq
    exact lt_irrefl _ ((ho.gone deq).mp (by rw [hrel]; trivial))
  · obtain rfl : deq = H.length := by omega
    exact Nat.le_succ_of_le (hm.sequence_next_le ho hsize)

/-- **A pop is let in** exactly when the next position is filled. -/
theorem Memory.sequence_eq_iff_filled (hm : Memory size cell H stage)
    (ho : Order size deq H.length stage) (hsize : 2 ≤ size) :
    (cell deq).sequence = deq + 1 ↔ stage deq = .filled := by
  have hdeq := ho.deq_le
  have hle := ho.le_deq
  by_cases hlt : deq < H.length
  · have hlive : Live size H.length deq := ⟨hle, .inl hlt⟩
    have hgone : ¬ (stage deq).Gone := fun h => lt_irrefl _ ((ho.gone deq).mp h)
    have hun : stage deq ≠ .unclaimed := fun h => absurd ((ho.unclaimed deq).mp h) (by omega)
    rw [hm.sequence _ hlive]
    cases hst : stage deq <;> simp [hst, Stage.Gone, Stage.sequence] at hgone hun ⊢
  · obtain rfl : deq = H.length := by omega
    rw [(ho.unclaimed H.length).mpr le_rfl]
    simp only [reduceCtorEq, iff_false]
    have := hm.sequence_next_le ho hsize
    omega

end Reading

/-! ## Steps -/

theorem Pc.value_of_stage {i : ι} {pc : Pc α} (h : pc.stage i = none) : pc.value = none := by
  cases pc <;> first | rfl | cases h

section Steps

variable {size : ℕ} {s : State ι α} {H : List α} {stage : ℕ → Stage ι} {i : ι}

/-- A value in the cell of a position, and the cells of the others. -/
theorem Inv.cell_update (h : Inv size s H stage) (pos : ℕ) (c : Cell α) (p : ℕ) :
    ({ s with buffer := Function.update s.buffer (s.index pos) c } : State ι α).cell p
      = if p % size = pos % size then c else s.cell p := by
  show Function.update s.buffer (s.index pos) c (s.index p) = _
  rw [h.index, h.index]
  split
  · rename_i heq
    rw [heq, Function.update_self]
  · rename_i hne
    rw [Function.update_of_ne hne, State.cell, h.index]

/-- A position that a call has claimed is in the window. -/
theorem Inv.live_of_stage (h : Inv size s H stage) {pos : ℕ} {st : Stage ι}
    (hst : (s.pc i).stage i = some (pos, st)) : stage pos = st ∧ Live size H.length pos := by
  have hstage := h.books.owns i pos st hst
  have howner := Pc.owner_of_stage hst
  have hlt : pos < H.length := by
    by_contra hle
    rw [← hstage, (h.order.unclaimed pos).mpr (by omega)] at howner
    cases howner
  refine ⟨hstage, ?_, .inl hlt⟩
  by_contra hle
  rw [← hstage, h.order.released pos (by omega)] at howner
  cases howner

/-- What was read stays right when a call goes on that has claimed its position. -/
theorem Seen.advance {deq n pos : ℕ} {pc : Pc α} (h : Seen size deq n stage pc)
    (howner : (stage pos).owner = some i) (st' : Stage ι) :
    Seen size deq n (Function.update stage pos st') pc := by
  have hother (q : ℕ) (st : Stage ι) (hst : st.owner = none) (hq : stage q = st) :
      Function.update stage pos st' q = st := by
    rw [Function.update_of_ne, hq]
    intro hqp
    rw [← hqp, hq, hst] at howner
    cases howner
  cases pc with
  | pushSwap data p => exact ⟨h.1, fun hp => (h.2 hp).imp_right (hother _ .released rfl)⟩
  | popSwap p => exact ⟨h.1, fun hp => hother _ .filled rfl (h.2 hp)⟩
  | _ => exact h

/-- What was read stays right, or is old, when the next position is claimed. -/
theorem Seen.claimPush {deq n : ℕ} {pc : Pc α} (h : Seen size deq n stage pc)
    (hun : stage n = .unclaimed) (st' : Stage ι) :
    Seen size deq (n + 1) (Function.update stage n st') pc := by
  cases pc with
  | pushSeq data p => exact Nat.le_succ_of_le h
  | pushSwap data p => exact ⟨Nat.le_succ_of_le h.1, fun hp => by have := h.1; omega⟩
  | popSwap p =>
    refine ⟨h.1, fun hp => ?_⟩
    have hfilled := h.2 hp
    rw [Function.update_of_ne, hfilled]
    intro hdeq
    rw [hdeq, hun] at hfilled
    cases hfilled
  | _ => exact h

/-- What was read stays right, or is old, when the first position is popped. -/
theorem Seen.claimPop {deq n : ℕ} {pc : Pc α} (h : Seen size deq n stage pc)
    (hfilled : stage deq = .filled) (st' : Stage ι) :
    Seen size (deq + 1) n (Function.update stage deq st') pc := by
  cases pc with
  | popSeq p => exact Nat.le_succ_of_le h
  | popSwap p => exact ⟨Nat.le_succ_of_le h.1, fun hp => by have := h.1; omega⟩
  | pushSwap data p =>
    refine ⟨h.1, fun hp => (h.2 hp).imp_right fun hrel => ?_⟩
    rw [Function.update_of_ne, hrel]
    intro hdeq
    rw [hdeq, hfilled] at hrel
    cases hrel
  | _ => exact h

variable [DecidableEq ι]

/-- A call that has claimed nothing goes on. -/
theorem Inv.goto (h : Inv size s H stage) {pc' : Pc α} (hold : (s.pc i).stage i = none)
    (hnew : pc'.stage i = none) (hseen : Seen size s.dequeuePos H.length stage pc') :
    Inv size (s.goto i pc') H stage where
  two_le := h.two_le
  mask := h.mask
  index := h.index
  enqueuePos := h.enqueuePos
  order := h.order
  books := h.books.goto hold hnew
  memory := h.memory
  value j p a hj := by
    simp only [State.goto] at hj
    by_cases hji : j = i
    · subst hji
      rw [Function.update_self, Pc.value_of_stage hnew] at hj
      cases hj
    · rw [Function.update_of_ne hji] at hj
      exact h.value j p a hj
  seen j := by
    simp only [State.goto]
    by_cases hji : j = i
    · subst hji
      rwa [Function.update_self]
    · rw [Function.update_of_ne hji]
      exact h.seen j

/-- **A call goes on that has claimed its position**, and writes to the cell of it. -/
theorem Inv.advance (h : Inv size s H stage) {pos : ℕ} {st : Stage ι} (st' : Stage ι)
    {pc' : Pc α} (c : Cell α)
    (hst : (s.pc i).stage i = some (pos, st)) (hgone : st'.Gone ↔ st.Gone)
    (hun : st' ≠ .unclaimed) (howner : ∀ j, st'.owner = some j → j = i)
    (hnew : pc'.stage i = if st'.owner = some i then some (pos, st') else none)
    (hvalue : ∀ p a, pc'.value = some (p, a) → H[p]? = some a)
    (hseen : Seen size s.dequeuePos H.length (Function.update stage pos st') pc')
    (hseq : c.sequence = st'.sequence size pos) (hdata : st'.Holds → H[pos]? = some c.data) :
    Inv size ({ s with buffer := Function.update s.buffer (s.index pos) c }.goto i pc') H
      (Function.update stage pos st') := by
  obtain ⟨hstage, hlive⟩ := h.live_of_stage hst
  have hpos : pos < H.length := by
    by_contra hle
    have := (h.order.unclaimed pos).mpr (by omega)
    rw [hstage] at this
    rw [this] at hst
    cases Pc.owner_of_stage hst
  have hcell (p : ℕ) :
      ({ s with buffer := Function.update s.buffer (s.index pos) c }.goto i pc').cell p
        = if p % size = pos % size then c else s.cell p := h.cell_update pos c p
  have hother {p : ℕ} (hp : p ≠ pos) : Function.update stage pos st' p = stage p :=
    Function.update_of_ne hp ..
  have hmod {p : ℕ} (hl : Live size H.length p) (hp : p ≠ pos) : ¬ p % size = pos % size :=
    fun heq => hp (hl.eq hlive heq)
  refine ⟨h.two_le, h.mask, h.index, h.enqueuePos, ⟨h.order.deq_le, h.order.le_deq, ?_, ?_, ?_⟩, ?_,
    ⟨?_, ?_, ?_⟩, ?_, ?_⟩
  · intro p
    by_cases hp : p = pos
    · subst hp
      rw [Function.update_self]
      exact iff_of_false hun (by omega)
    · rw [hother hp]
      exact h.order.unclaimed p
  · intro p
    by_cases hp : p = pos
    · subst hp
      rw [Function.update_self, hgone, ← hstage]
      exact h.order.gone p
    · rw [hother hp]
      exact h.order.gone p
  · intro p hp
    rw [hother (by have := hlive.1; omega)]
    exact h.order.released p hp
  · refine h.books.advance (fun j hj => ?_) (fun q st hq => ?_) hnew howner
    · rw [hstage, Pc.owner_of_stage hst] at hj
      exact (Option.some.inj hj).symm
    · rw [hst] at hq
      cases hq
      rfl
  · intro p q hpq
    rw [hcell, hcell, hpq, h.memory.mod p q hpq]
  · intro p hl
    rw [hcell]
    by_cases hp : p = pos
    · subst hp
      rw [if_pos rfl, Function.update_self, hseq]
    · rw [if_neg (hmod hl hp), hother hp]
      exact h.memory.sequence p hl
  · intro p hl hholds
    rw [hcell]
    by_cases hp : p = pos
    · subst hp
      rw [Function.update_self] at hholds
      rw [if_pos rfl]
      exact hdata hholds
    · rw [hother hp] at hholds
      rw [if_neg (hmod hl hp)]
      exact h.memory.data p hl hholds
  · intro j p a hj
    by_cases hji : j = i
    · subst hji
      simp only [State.goto, Function.update_self] at hj
      exact hvalue p a hj
    · simp only [State.goto, Function.update_of_ne hji] at hj
      exact h.value j p a hj
  · intro j
    by_cases hji : j = i
    · subst hji
      simp only [State.goto, Function.update_self]
      exact hseen
    · simp only [State.goto, Function.update_of_ne hji]
      exact (h.seen j).advance (hstage ▸ Pc.owner_of_stage hst) st'

/-- **A push claims the next position.** -/
theorem Inv.claimPush (h : Inv size s H stage) {data : α} (hpc : s.pc i = .pushSwap data H.length)
    (hb : H.length + size < 2 ^ 63) :
    Inv size ({ s with enqueuePos := word (H.length + 1) }.goto i (.pushData data H.length))
      (H ++ [data]) (Function.update stage H.length (.claimed i)) := by
  have hseen := h.seen i
  rw [hpc] at hseen
  have hfree : Free size H.length stage := hseen.2 rfl
  have hseq := (h.memory.sequence_eq_iff_free h.order h.two_le).mpr hfree
  have hun : stage H.length = .unclaimed := (h.order.unclaimed _).mpr le_rfl
  have hlen : (H ++ [data]).length = H.length + 1 := List.length_append
  have hdeq := h.order.deq_le
  have hother {p : ℕ} (hp : p ≠ H.length) :
      Function.update stage H.length (.claimed i) p = stage p := Function.update_of_ne hp ..
  have hroom : H.length < s.dequeuePos + size := by
    rcases hfree with hlt | hrel
    · omega
    · by_contra hle
      have := (h.order.gone (H.length - size)).mp (by rw [hrel]; trivial)
      omega
  have hlive {p : ℕ} (hl : Live size (H.length + 1) p) (hp : p ≠ H.length) :
      Live size H.length p := by
    obtain ⟨hle, hlt⟩ := hl
    exact ⟨by omega, by omega⟩
  have hold {p : ℕ} {a : α} (hp : H[p]? = some a) : (H ++ [data])[p]? = some a := by
    rw [List.getElem?_append_left (List.getElem?_eq_some_iff.mp hp).1, hp]
  refine ⟨h.two_le, h.mask, h.index, ?_, ⟨?_, ?_, ?_, ?_, ?_⟩, ?_, ⟨h.memory.mod, ?_, ?_⟩, ?_, ?_⟩
  · rw [hlen]
    exact word_of_lt (by omega)
  · rw [hlen]
    exact Nat.le_succ_of_le hdeq
  · rw [hlen]
    exact hroom
  · intro p
    rw [hlen]
    by_cases hp : p = H.length
    · subst hp
      rw [Function.update_self]
      exact iff_of_false nofun (by omega)
    · rw [hother hp, h.order.unclaimed]
      omega
  · intro p
    by_cases hp : p = H.length
    · subst hp
      rw [Function.update_self]
      exact iff_of_false id (by show ¬ H.length < s.dequeuePos; omega)
    · rw [hother hp]
      exact h.order.gone p
  · intro p hp
    rw [hlen] at hp
    rw [hother (by have := h.two_le; omega)]
    by_cases hlt : p + size < H.length
    · exact h.order.released p hlt
    · rcases hfree with hfree | hfree
      · omega
      · rwa [show p = H.length - size by omega]
  · refine h.books.advance (fun j hj => ?_) (fun q st hq => ?_) ?_ (fun j hj => ?_)
    · rw [hun] at hj
      cases hj
    · rw [hpc] at hq
      cases hq
    · exact (if_pos rfl).symm
    · exact (Option.some.inj hj).symm
  · intro p hl
    rw [hlen] at hl
    by_cases hp : p = H.length
    · subst hp
      rw [Function.update_self]
      exact hseq
    · rw [hother hp]
      exact h.memory.sequence p (hlive hl hp)
  · intro p hl hholds
    rw [hlen] at hl
    by_cases hp : p = H.length
    · subst hp
      rw [Function.update_self] at hholds
      exact hholds.elim
    · rw [hother hp] at hholds
      exact hold (h.memory.data p (hlive hl hp) hholds)
  · intro j p a hj
    by_cases hji : j = i
    · subst hji
      simp only [State.goto, Function.update_self, Pc.value, Option.some.injEq, Prod.mk.injEq] at hj
      obtain ⟨rfl, rfl⟩ := hj
      exact List.getElem?_concat_length
    · simp only [State.goto, Function.update_of_ne hji] at hj
      exact hold (h.value j p a hj)
  · intro j
    rw [hlen]
    by_cases hji : j = i
    · subst hji
      simp only [State.goto, Function.update_self]
      trivial
    · simp only [State.goto, Function.update_of_ne hji]
      exact (h.seen j).claimPush hun _

/-- **A pop claims the first position.** -/
theorem Inv.claimPop (h : Inv size s H stage) (hpc : s.pc i = .popSwap s.dequeuePos)
    (hb : H.length + size < 2 ^ 63) :
    Inv size ({ s with dequeuePos := word (s.dequeuePos + 1) }.goto i (.popData s.dequeuePos)) H
      (Function.update stage s.dequeuePos (.popping i)) ∧
      word (s.dequeuePos + 1) = s.dequeuePos + 1 ∧
      H[s.dequeuePos]? = some (s.cell s.dequeuePos).data := by
  have hseen := h.seen i
  rw [hpc] at hseen
  have hfilled : stage s.dequeuePos = .filled := hseen.2 rfl
  have hlt : s.dequeuePos < H.length := by
    by_contra hle
    rw [(h.order.unclaimed _).mpr (by omega)] at hfilled
    cases hfilled
  have hlive : Live size H.length s.dequeuePos := ⟨h.order.le_deq, .inl hlt⟩
  have hword : word (s.dequeuePos + 1) = s.dequeuePos + 1 := word_of_lt (by omega)
  have hother {p : ℕ} (hp : p ≠ s.dequeuePos) :
      Function.update stage s.dequeuePos (.popping i) p = stage p := Function.update_of_ne hp ..
  have hdata := h.memory.data _ hlive (by rw [hfilled]; trivial)
  refine ⟨?_, hword, hdata⟩
  rw [hword]
  refine ⟨h.two_le, h.mask, h.index, h.enqueuePos, ⟨hlt, ?_, ?_, ?_, ?_⟩, ?_,
    ⟨h.memory.mod, ?_, ?_⟩, ?_, ?_⟩
  · show H.length ≤ s.dequeuePos + 1 + size
    have := h.order.le_deq
    omega
  · intro p
    by_cases hp : p = s.dequeuePos
    · subst hp
      rw [Function.update_self]
      exact iff_of_false nofun (by omega)
    · rw [hother hp]
      exact h.order.unclaimed p
  · intro p
    show _ ↔ p < s.dequeuePos + 1
    by_cases hp : p = s.dequeuePos
    · subst hp
      rw [Function.update_self]
      exact iff_of_true trivial (by omega)
    · rw [hother hp, h.order.gone]
      omega
  · intro p hp
    rw [hother (by have := hlive.1; omega)]
    exact h.order.released p hp
  · refine h.books.advance (fun j hj => ?_) (fun q st hq => ?_) ?_ (fun j hj => ?_)
    · rw [hfilled] at hj
      cases hj
    · rw [hpc] at hq
      cases hq
    · exact (if_pos rfl).symm
    · exact (Option.some.inj hj).symm
  · intro p hl
    have hseq := h.memory.sequence p hl
    by_cases hp : p = s.dequeuePos
    · subst hp
      rw [Function.update_self]
      rwa [hfilled] at hseq
    · rw [hother hp]
      exact hseq
  · intro p hl hholds
    by_cases hp : p = s.dequeuePos
    · subst hp
      exact hdata
    · rw [hother hp] at hholds
      exact h.memory.data p hl hholds
  · intro j p a hj
    by_cases hji : j = i
    · subst hji
      simp only [State.goto, Function.update_self, Pc.value, reduceCtorEq] at hj
    · simp only [State.goto, Function.update_of_ne hji] at hj
      exact h.value j p a hj
  · intro j
    by_cases hji : j = i
    · subst hji
      simp only [State.goto, Function.update_self]
      trivial
    · simp only [State.goto, Function.update_of_ne hji]
      exact (h.seen j).claimPop hfilled _

end Steps

end MPMCBoundedQueue
