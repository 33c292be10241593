/-
# Runs of an expiring list

Calls of `ExpiringListT::add` and `ExpiringListT::extract` (`expiring_list.h`) at times that do not
decrease.  Beside the list there are the entries that have been added and have not been extracted:
the list has all of them but some that have expired.

* `chopSearch`: `chop` with the binary search of `std::lower_bound`;
* `Inv`: the invariant of a run, kept by each call (`Inv.step`);
* `correct_of_run`: in every run, what each call does to the list.

An entry expires at its time: whether one is still there at that very time depends on its place,
since the first entry is dropped then and the others are not.
-/
import GraftSupernode.ExpiringList
import GraftSupernode.LowerBound
import Mathlib.Algebra.Order.Group.Multiset
import Mathlib.Data.List.Induction
import Mathlib.Tactic.Abel

namespace ExpiringList

variable {α : Type*} {l : ExpiringList α} {now : ℕ}

/-! ## Dropping what has expired -/

/-- The oldest entry is the first one. -/
def Sorted (l : ExpiringList α) : Prop := l.cont.Pairwise fun e f => e.1 ≤ f.1

/-- `ExpiringListT::chop`, with `std::lower_bound` from the second entry on. -/
def chopSearch (l : ExpiringList α) (now : ℕ) : ExpiringList α :=
  match l.cont with
  | [] => l
  | e :: cont =>
    if now < e.1 then l
    else { l with cont := cont.drop (LowerBound.lowerBoundOf (fun e => e.1 < now) cont) }

/-- **The binary search** finds where the entries end that have expired. -/
theorem chop_eq_chopSearch (h : l.Sorted) : l.chop now = l.chopSearch now := by
  unfold chop chopSearch
  cases hcont : l.cont with
  | nil => rfl
  | cons e cont =>
    rw [Sorted, hcont, List.pairwise_cons] at h
    dsimp only
    rw [LowerBound.drop_lowerBoundOf]
    refine h.2.imp ?_
    intro e f hle hf
    have hlt : f.1 < now := of_decide_eq_true hf
    exact decide_eq_true (by omega)

/-- **What is dropped** has expired, and what stays has not, or expires now. -/
theorem exists_cont_eq (h : l.Sorted) (now : ℕ) :
    ∃ gone, l.cont = gone ++ (l.chop now).cont ∧ (∀ e ∈ gone, e.1 ≤ now) ∧
      ∀ e ∈ (l.chop now).cont, now ≤ e.1 := by
  rw [chop_cont]
  cases hcont : l.cont with
  | nil => exact ⟨[], rfl, fun _ he => (by cases he), fun _ he => (by cases he)⟩
  | cons e cont =>
    rw [Sorted, hcont, List.pairwise_cons] at h
    dsimp only
    split
    · rename_i hlive
      refine ⟨[], rfl, fun _ he => (by cases he), ?_⟩
      intro f hf
      rcases List.mem_cons.mp hf with rfl | hf
      · exact hlive.le
      · exact hlive.le.trans (h.1 f hf)
    · rename_i hdue
      refine ⟨e :: cont.takeWhile fun e => e.1 < now, ?_, ?_, ?_⟩
      · rw [List.cons_append, List.takeWhile_append_dropWhile]
      · intro f hf
        rcases List.mem_cons.mp hf with rfl | hf
        · exact not_lt.mp hdue
        · have hlt := List.mem_takeWhile_imp hf
          rw [decide_eq_true_eq] at hlt
          exact hlt.le
      · -- the first one that stays has not expired
        intro f hf
        have hrest := h.2.sublist (List.dropWhile_suffix fun e : ℕ × α => e.1 < now).sublist
        have hhead := List.head?_dropWhile_not (fun e : ℕ × α => decide (e.1 < now)) cont
        cases hdrop : cont.dropWhile fun e => e.1 < now with
        | nil =>
          rw [hdrop] at hf
          cases hf
        | cons g rest =>
          rw [hdrop] at hf hrest hhead
          have hg : now ≤ g.1 := by simpa using hhead
          rcases List.mem_cons.mp hf with rfl | hf
          · exact hg
          · exact hg.trans ((List.pairwise_cons.mp hrest).1 f hf)

theorem Sorted.chop (h : l.Sorted) (now : ℕ) : (l.chop now).Sorted :=
  h.sublist (l.chop_suffix now).sublist

/-! ## One call -/

/-- What `add` does: some entries that have expired go, and the new one is the last. -/
def Added (l : ExpiringList α) (now : ℕ) (a : α) (l' : ExpiringList α) : Prop :=
  ∃ gone kept, l.cont = gone ++ kept ∧ (∀ e ∈ gone, e.1 ≤ now) ∧
    l' = { l with cont := kept ++ [(now + l.delta, a)] }

theorem added (h : l.Sorted) (now : ℕ) (a : α) : Added l now a (l.add now a) := by
  obtain ⟨gone, hcont, hgone, -⟩ := exists_cont_eq h now
  refine ⟨gone, (l.chop now).cont, hcont, hgone, ?_⟩
  rw [add, chop_delta]

section

variable [DecidableEq α]

/-- What `extract` does, and the entry that it takes: some entries that have expired go, and of the
others the oldest one that is equal to `u`, which has not expired before. -/
inductive Extracted (l : ExpiringList α) (now : ℕ) (u : α) :
    Option (ℕ × α) → Option α × ExpiringList α → Prop
  | found (gone before after : List (ℕ × α)) (time : ℕ)
      (hcont : l.cont = gone ++ (before ++ (time, u) :: after)) (hgone : ∀ e ∈ gone, e.1 ≤ now)
      (hbefore : ∀ e ∈ before, e.2 ≠ u) (hlive : now ≤ time) :
      Extracted l now u (some (time, u)) (some u, { l with cont := before ++ after })
  | none (gone kept : List (ℕ × α)) (hcont : l.cont = gone ++ kept) (hgone : ∀ e ∈ gone, e.1 ≤ now)
      (hkept : ∀ e ∈ kept, e.2 ≠ u) :
      Extracted l now u none (none, { l with cont := kept })

/-- The entry that `extract` finds. -/
def entryFound (l : ExpiringList α) (now : ℕ) (u : α) : Option (ℕ × α) :=
  if l.cont.isEmpty then none else (l.chop now).cont.find? fun e => e.2 = u

theorem extracted (h : l.Sorted) (now : ℕ) (u : α) :
    Extracted l now u (l.entryFound now u) (l.extract now fun a => a = u) := by
  obtain ⟨gone, hcont, hgone, hlive⟩ := exists_cont_eq h now
  have hchop (cont : List (ℕ × α)) : mk (l.chop now).delta cont = { l with cont := cont } := by
    rw [chop_delta]
  unfold entryFound extract
  split
  · rename_i hempty
    exact .none [] l.cont rfl (fun _ he => (by cases he)) (by simp [List.isEmpty_iff.mp hempty])
  · dsimp only
    cases hfind : (l.chop now).cont.find? fun e => e.2 = u with
    | none =>
      have hkept := List.find?_eq_none.mp hfind
      dsimp only
      rw [show l.chop now = { l with cont := (l.chop now).cont } from hchop _]
      exact .none gone (l.chop now).cont hcont hgone (by simpa using hkept)
    | some e =>
      obtain ⟨he, before, after, hsplit, hbefore⟩ := List.find?_eq_some_iff_append.mp hfind
      obtain ⟨time, a⟩ := e
      obtain rfl : a = u := of_decide_eq_true he
      have hnot : ∀ e ∈ before, ¬ decide (e.2 = a) = true := by simpa using hbefore
      have herase : (l.chop now).cont.eraseP (fun e => decide (e.2 = a)) = before ++ after := by
        rw [hsplit, List.eraseP_append_right _ hnot]
        simp
      rw [hsplit] at hcont hlive
      dsimp only
      rw [herase, hchop]
      exact .found gone before after time hcont hgone (by simpa using hnot)
        (hlive (time, a) (by simp))

end

/-! ## Runs -/

/-- A call; `remove` is an `extract` of which only the first part is returned. -/
inductive Call (α : Type*)
  | add (a : α)
  | extract (u : α)

/-- The list, and the entries that have been added and have not been extracted. -/
structure History (α : Type*) where
  list : ExpiringList α
  pending : Multiset (ℕ × α)

/-- The list at the start, with its life time. -/
def History.start (delta : ℕ) : History α := ⟨⟨delta, []⟩, 0⟩

/-- **The invariant of a run**, up to the time `now`: no entry of the list expires later than one
that is added now, and what is pending and is not in the list has expired. -/
structure Inv (delta now : ℕ) (h : History α) : Prop where
  delta_eq : h.list.delta = delta
  sorted : h.list.Sorted
  le : ∀ e ∈ h.list.cont, e.1 ≤ now + delta
  pending : ∃ gone : Multiset (ℕ × α), h.pending = gone + ↑h.list.cont ∧ ∀ e ∈ gone, e.1 ≤ now

theorem inv_start (delta : ℕ) : Inv delta 0 (.start delta : History α) where
  delta_eq := rfl
  sorted := List.Pairwise.nil
  le := fun e he => by cases he
  pending := ⟨0, rfl, fun e he => absurd he (Multiset.notMem_zero e)⟩

namespace Inv

variable {delta t : ℕ} {h : History α}

/-- Time passes. -/
theorem mono (hinv : Inv delta t h) (hle : t ≤ now) : Inv delta now h := by
  obtain ⟨gone, hpending, hgone⟩ := hinv.pending
  refine ⟨hinv.delta_eq, hinv.sorted, ?_, gone, hpending, fun e he => (hgone e he).trans hle⟩
  intro e he
  have := hinv.le e he
  omega

/-- **What has not expired** is in the list, if it is pending. -/
theorem filter_pending (hinv : Inv delta now h) :
    h.pending.filter (fun e => now < e.1) =
      (↑h.list.cont : Multiset (ℕ × α)).filter fun e => now < e.1 := by
  obtain ⟨gone, hpending, hgone⟩ := hinv.pending
  have hnone : gone.filter (fun e => now < e.1) = 0 :=
    Multiset.filter_eq_nil.mpr fun e he => not_lt.mpr (hgone e he)
  rw [hpending, Multiset.filter_add, hnone, zero_add]

/-- **Entries that have expired**, beside those that had before. -/
theorem expired_add {old : Multiset (ℕ × α)} {gone : List (ℕ × α)} (hold : ∀ e ∈ old, e.1 ≤ now)
    (hgone : ∀ e ∈ gone, e.1 ≤ now) : ∀ e ∈ old + ↑gone, e.1 ≤ now := by
  intro e he
  rcases Multiset.mem_add.mp he with he | he
  · exact hold e he
  · exact hgone e he

/-- **Some entries are taken out** of the list, and those of them that have not expired are not
pending any longer. -/
theorem of_sublist (hinv : Inv delta now h) {cont : List (ℕ × α)} {pending gone : Multiset (ℕ × α)}
    (hsub : cont.Sublist h.list.cont) (hpending : pending = gone + ↑cont)
    (hgone : ∀ e ∈ gone, e.1 ≤ now) : Inv delta now ⟨{ h.list with cont := cont }, pending⟩ where
  delta_eq := hinv.delta_eq
  sorted := hinv.sorted.sublist hsub
  le := fun e he => hinv.le e (hsub.subset he)
  pending := ⟨gone, hpending, hgone⟩

end Inv

section

variable [DecidableEq α]

/-- A call at the time `now`. -/
def History.step (h : History α) (now : ℕ) : Call α → History α
  | .add a => ⟨h.list.add now a, (now + h.list.delta, a) ::ₘ h.pending⟩
  | .extract u =>
    ⟨(h.list.extract now fun a => a = u).2,
      match h.list.entryFound now u with
      | some e => h.pending.erase e
      | none => h.pending⟩

/-- The calls one after the other, each with its time. -/
def History.run (delta : ℕ) (calls : List (ℕ × Call α)) : History α :=
  calls.foldl (fun h c => h.step c.1 c.2) (.start delta)

namespace Inv

variable {delta t : ℕ} {h : History α}

theorem stepAdd (hinv : Inv delta now h) (a : α) : Inv delta now (h.step now (.add a)) := by
  obtain ⟨gone, kept, hcont, hgone, hadd⟩ := added hinv.sorted now a
  obtain ⟨old, hpending, hold⟩ := hinv.pending
  have hsub : kept.Sublist h.list.cont := by
    rw [hcont]
    exact List.sublist_append_right gone kept
  rw [History.step, hadd]
  refine ⟨hinv.delta_eq, ?_, ?_, old + ↑gone, ?_, expired_add hold hgone⟩
  · -- the new entry expires last
    refine List.pairwise_append.mpr ⟨hinv.sorted.sublist hsub, List.pairwise_singleton _ _, ?_⟩
    intro e he f hf
    rw [List.mem_singleton.mp hf, hinv.delta_eq]
    exact hinv.le e (hsub.subset he)
  · intro e he
    rcases List.mem_append.mp he with he | he
    · exact hinv.le e (hsub.subset he)
    · rw [List.mem_singleton.mp he, hinv.delta_eq]
  · dsimp only
    rw [hpending, hcont, ← Multiset.coe_add, ← Multiset.coe_add, ← Multiset.singleton_add,
      Multiset.coe_singleton]
    abel

theorem stepExtract (hinv : Inv delta now h) (u : α) :
    Inv delta now (h.step now (.extract u)) := by
  obtain ⟨old, hpending, hold⟩ := hinv.pending
  have hextract := extracted hinv.sorted now u
  rw [History.step]
  generalize h.list.entryFound now u = entry at hextract
  generalize (h.list.extract now fun a => a = u) = r at hextract
  cases hextract with
  | none gone kept hcont hgone hkept =>
    apply hinv.of_sublist _ _ (expired_add hold hgone)
    · rw [hcont]
      exact List.sublist_append_right gone kept
    · rw [hpending, hcont, ← Multiset.coe_add, add_assoc]
  | found gone before after time hcont hgone hbefore hlive =>
    have hcons : h.pending = (time, u) ::ₘ (old + ↑gone + ↑(before ++ after)) := by
      rw [hpending, hcont, ← Multiset.coe_add, ← Multiset.coe_add, ← Multiset.cons_coe,
        ← Multiset.coe_add, ← Multiset.singleton_add, ← Multiset.singleton_add]
      abel
    apply hinv.of_sublist _ _ (expired_add hold hgone)
    · rw [hcont]
      exact ((List.sublist_cons_self _ after).append_left before).trans
        (List.sublist_append_right gone _)
    · dsimp only
      rw [hcons, Multiset.erase_cons_head]

/-- **Each call** keeps the invariant. -/
theorem step (hinv : Inv delta t h) (hle : t ≤ now) (c : Call α) :
    Inv delta now (h.step now c) := by
  cases c with
  | add a => exact (hinv.mono hle).stepAdd a
  | extract u => exact (hinv.mono hle).stepExtract u

end Inv

/-- **The invariant holds** before each call of a run. -/
theorem inv_run (delta : ℕ) {calls : List (ℕ × Call α)} {last : ℕ × Call α}
    (h : (calls ++ [last]).Pairwise fun c d => c.1 ≤ d.1) :
    Inv delta last.1 (.run delta calls) := by
  induction calls using List.reverseRecOn generalizing last with
  | nil => exact (inv_start delta).mono (Nat.zero_le _)
  | append_singleton calls c ih =>
    obtain ⟨hcalls, -, hle⟩ := List.pairwise_append.mp h
    have hrun : History.run delta (calls ++ [c]) = (History.run delta calls).step c.1 c.2 := by
      rw [History.run, List.foldl_append]
      rfl
    rw [hrun]
    exact ((ih hcalls).step le_rfl c.2).mono (hle c (by simp) last (by simp))

/-- **What a call at the time `now` does** to the list, after some calls. -/
structure Correct (h : History α) (now : ℕ) (c : Call α) : Prop where
  /-- The binary search finds the end of what is dropped. -/
  search : h.list.chop now = h.list.chopSearch now
  /-- The list is sorted after the call, as it was before. -/
  sorted : h.list.Sorted ∧ (h.step now c).list.Sorted
  added : ∀ a, c = .add a → Added h.list now a (h.step now c).list
  extracted : ∀ u, c = .extract u →
    Extracted h.list now u (h.list.entryFound now u) (h.list.extract now fun a => a = u)
  /-- What has not expired is found. -/
  finds : ∀ u time, c = .extract u → (time, u) ∈ h.pending → now < time →
    (h.list.extract now fun a => a = u).1 = some u
  /-- What has not expired is not dropped. -/
  kept : (h.step now c).pending.filter (fun e => now < e.1) =
    (↑(h.step now c).list.cont : Multiset (ℕ × α)).filter fun e => now < e.1

/-- **What is pending and has not expired** is found. -/
theorem Inv.finds {delta : ℕ} {h : History α} (hinv : Inv delta now h) {u : α} {time : ℕ}
    (hmem : (time, u) ∈ h.pending) (hlive : now < time) :
    (h.list.extract now fun a => a = u).1 = some u := by
  have hcont : (time, u) ∈ h.list.cont := by
    obtain ⟨old, hpending, hold⟩ := hinv.pending
    rw [hpending] at hmem
    rcases Multiset.mem_add.mp hmem with hmem | hmem
    · exact absurd (hold _ hmem) (not_le.mpr hlive)
    · exact hmem
  have hextract := ExpiringList.extracted hinv.sorted now u
  generalize h.list.entryFound now u = entry at hextract
  generalize (h.list.extract now fun a => a = u) = r at hextract
  cases hextract with
  | none gone kept hsplit hgone hkept =>
    rw [hsplit] at hcont
    rcases List.mem_append.mp hcont with hmem | hmem
    · exact absurd (hgone _ hmem) (not_le.mpr hlive)
    · exact absurd rfl (hkept _ hmem)
  | found gone before after time' hsplit hgone hbefore hlive' => rfl

/-- **In every run** at times that do not decrease each call does what it should. -/
theorem correct_of_run (delta : ℕ) (calls : List (ℕ × Call α)) (now : ℕ) (c : Call α)
    (h : (calls ++ [(now, c)]).Pairwise fun c d => c.1 ≤ d.1) :
    Correct (.run delta calls) now c := by
  have hinv := inv_run delta h
  have hstep := hinv.step le_rfl c
  refine ⟨chop_eq_chopSearch hinv.sorted, ⟨hinv.sorted, hstep.sorted⟩, ?_, ?_, ?_,
    hstep.filter_pending⟩
  · rintro a rfl
    exact added hinv.sorted now a
  · rintro u rfl
    exact extracted hinv.sorted now u
  · rintro u time rfl hmem hlive
    exact hinv.finds hmem hlive

/-- The first entry expires at this very time and is dropped, and the second one is extracted. -/
theorem correct_of_run_twice :
    Correct (.run 2 [(1, .add "u"), (2, .add "u")]) 3 (.extract "u") :=
  correct_of_run 2 [(1, .add "u"), (2, .add "u")] 3 (.extract "u") (by decide)

end

end ExpiringList
