/-
# Expiring lists

`ExpiringListT` (`expiring_list.h`): entries with the time at which they expire, oldest first.
`chop` drops entries that have expired, whenever an entry is added or looked for; an entry that
has not expired stays (`mem_chop`).

All entries live equally long, so the list is sorted by time, and `std::lower_bound` skips the
entries before `now`.
-/
import Mathlib.Data.List.Basic
import Mathlib.Data.List.TakeWhile

/-- `ExpiringListT`: `delta` is the life time of an entry. -/
structure ExpiringList (α : Type*) where
  delta : ℕ
  cont : List (ℕ × α)

namespace ExpiringList

variable {α : Type*}

/-- `ExpiringListT::chop` -/
def chop (l : ExpiringList α) (now : ℕ) : ExpiringList α :=
  match l.cont with
  | [] => l
  | e :: cont =>
    if now < e.1 then l else { l with cont := cont.dropWhile fun e => e.1 < now }

/-- `ExpiringListT::add` at the time `now`. -/
def add (l : ExpiringList α) (now : ℕ) (a : α) : ExpiringList α :=
  let l := l.chop now
  { l with cont := l.cont ++ [(now + l.delta, a)] }

/-- `ExpiringListT::extract` at the time `now`, for the entries that `p` equates. -/
def extract (l : ExpiringList α) (now : ℕ) (p : α → Bool) : Option α × ExpiringList α :=
  if l.cont.isEmpty then (none, l)
  else
    let l := l.chop now
    match l.cont.find? fun e => p e.2 with
    | none => (none, l)
    | some e => (some e.2, { l with cont := l.cont.eraseP fun e => p e.2 })

/-! ## What is left -/

/-- `chop` drops from the front what has expired, up to the first item that has not. -/
theorem chop_cont (l : ExpiringList α) (now : ℕ) :
    (l.chop now).cont = match l.cont with
      | [] => []
      | e :: cont => if now < e.1 then e :: cont else cont.dropWhile fun e => e.1 < now := by
  unfold chop
  split
  · rename_i h; rw [h]
  · rename_i e cont h
    split
    · exact h
    · rfl

/-- `chop` leaves the lifetime. -/
@[simp] theorem chop_delta (l : ExpiringList α) (now : ℕ) : (l.chop now).delta = l.delta := by
  unfold chop
  split
  · rfl
  · split <;> rfl

/-- `chop` leaves the end of the list. -/
theorem chop_suffix (l : ExpiringList α) (now : ℕ) : (l.chop now).cont <:+ l.cont := by
  rw [chop_cont]
  cases l.cont with
  | nil => exact List.suffix_rfl
  | cons e cont =>
    dsimp only
    split
    · exact List.suffix_rfl
    · exact (List.dropWhile_suffix _).trans (List.suffix_cons e cont)

/-- **A live entry is kept**. -/
theorem mem_chop {l : ExpiringList α} {now : ℕ} {e : ℕ × α} (h : e ∈ l.cont) (hlive : now < e.1) :
    e ∈ (l.chop now).cont := by
  rw [chop_cont]
  cases hcont : l.cont with
  | nil => rw [hcont] at h; cases h
  | cons e' cont =>
    rw [hcont] at h
    dsimp only
    split
    · exact h
    · rename_i hdue
      rcases List.mem_cons.mp h with rfl | h
      · exact absurd hlive hdue
      · have hsplit := List.takeWhile_append_dropWhile (p := fun e : ℕ × α => e.1 < now) (l := cont)
        rw [← hsplit] at h
        rcases List.mem_append.mp h with h | h
        · have := List.mem_takeWhile_imp h
          simp only [decide_eq_true_eq] at this
          omega
        · exact h

/-- After `add`, the list has what `chop` has left, and the new item. -/
theorem mem_add {l : ExpiringList α} {now : ℕ} {a : α} {e : ℕ × α} :
    e ∈ (l.add now a).cont ↔ e ∈ (l.chop now).cont ∨ e = (now + l.delta, a) := by
  simp [add]

/-- `add` leaves the lifetime. -/
@[simp] theorem add_delta (l : ExpiringList α) (now : ℕ) (a : α) :
    (l.add now a).delta = l.delta := chop_delta l now

/-- `extract` leaves the lifetime. -/
@[simp] theorem extract_delta (l : ExpiringList α) (now : ℕ) (p : α → Bool) :
    (l.extract now p).2.delta = l.delta := by
  unfold extract
  split
  · rfl
  · dsimp only
    split <;> exact chop_delta l now

/-- `extract` leaves items that were there, in their order. -/
theorem extract_sublist (l : ExpiringList α) (now : ℕ) (p : α → Bool) :
    (l.extract now p).2.cont.Sublist l.cont := by
  unfold extract
  split
  · exact List.Sublist.refl _
  · dsimp only
    split
    · exact (l.chop_suffix now).sublist
    · exact List.eraseP_sublist.trans (l.chop_suffix now).sublist

/-! ## The entries of one kind -/

section countP

variable {l : ExpiringList α} {now : ℕ} {p : α → Bool} {e : ℕ × α}

/-- `extract` adds no item of any kind. -/
theorem countP_extract_le (q : ℕ × α → Bool) :
    (l.extract now p).2.cont.countP q ≤ l.cont.countP q :=
  (l.extract_sublist now p).countP_le

/-- `add` adds one item at most of any kind. -/
theorem countP_add_le (q : ℕ × α → Bool) (a : α) :
    (l.add now a).cont.countP q ≤ l.cont.countP q + if q (now + l.delta, a) then 1 else 0 := by
  simp only [add, List.countP_append, List.countP_singleton, chop_delta]
  exact Nat.add_le_add_right (l.chop_suffix now).sublist.countP_le _

/-- Nothing is extracted when no item is the one that is looked for. -/
theorem extract_eq_none (h : l.cont.countP (fun e => p e.2) = 0) :
    (l.extract now p).1 = none := by
  have hchop : (l.chop now).cont.find? (fun e => p e.2) = none :=
    List.find?_eq_none.mpr fun e he =>
      List.countP_eq_zero.mp h e ((l.chop_suffix now).subset he)
  unfold extract
  split
  · rfl
  · dsimp only
    rw [hchop]

/-- **A live entry of another kind** stays when one is taken. -/
theorem mem_extract (he : e ∈ l.cont) (hlive : now < e.1) (hp : p e.2 = false) :
    e ∈ (l.extract now p).2.cont := by
  have hchop := mem_chop he hlive
  unfold extract
  split
  · exact he
  · dsimp only
    split
    · exact hchop
    · exact (List.mem_eraseP_of_neg (by simp [hp])).mpr hchop

/-- **A live entry that is the only one of its kind** is found, and then there is none. -/
theorem extract_of_unique (he : e ∈ l.cont) (hlive : now < e.1) (hp : p e.2 = true)
    (hunique : l.cont.countP (fun e => p e.2) ≤ 1) :
    (l.extract now p).1 = some e.2 ∧
      (l.extract now p).2.cont.countP (fun e => p e.2) = 0 := by
  have hchop := mem_chop he hlive
  have hcount : (l.chop now).cont.countP (fun e => p e.2) ≤ 1 :=
    (l.chop_suffix now).sublist.countP_le.trans hunique
  obtain ⟨before, after, hsplit⟩ := List.append_of_mem hchop
  rw [hsplit, List.countP_append, List.countP_cons_of_pos (by simpa using hp)] at hcount
  have hbefore : ∀ e' ∈ before, ¬ p e'.2 = true := by
    have : before.countP (fun e => p e.2) = 0 := by omega
    exact List.countP_eq_zero.mp this
  have hafter : after.countP (fun e => p e.2) = 0 := by omega
  have hfind : (l.chop now).cont.find? (fun e => p e.2) = some e := by
    rw [hsplit, List.find?_append, List.find?_eq_none.mpr hbefore, Option.none_or,
      List.find?_cons_of_pos (by simpa using hp)]
  have herase : (l.chop now).cont.eraseP (fun e => p e.2) = before ++ after := by
    rw [hsplit, List.eraseP_append_right _ hbefore, List.eraseP_cons_of_pos (by simpa using hp)]
  have hnonempty : l.cont.isEmpty = false := by
    cases hcont : l.cont with
    | nil => rw [hcont] at he; cases he
    | cons _ _ => rfl
  unfold extract
  rw [if_neg (by simp [hnonempty])]
  dsimp only
  rw [hfind]
  refine ⟨rfl, ?_⟩
  dsimp only
  rw [herase, List.countP_append, hafter, List.countP_eq_zero.mpr hbefore]

end countP

end ExpiringList
