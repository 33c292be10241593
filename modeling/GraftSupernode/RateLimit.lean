/-
# The rate limit

What `IpMap::inc` (`blacklist.cpp`) amounts to, for a map with `R` requests a second and a window of
`W` seconds and a clock that does not run back.

* `inc_law_iff`: when a call triggers, by the number of calls since the window was opened.  A window
  moves on by whole seconds, and its count is debited by `R` for each of them; what is kept is
  `count = N - R * shift`.
* `answers_inc_iff`: the calls of an address are answered as if there were no other addresses.  A
  record can be evicted by a call of the address before it, but then the next call would have opened
  a new window anyway.

Both need a limit `W * R` that an `int` can hold (`Fits`): it is compared as an `int` with the next
count.  Below that, nothing overflows and nothing is lost of a debit (`countRequest_eq`), and all
counting is done in the integers.

A call does to the record of its own address what `next` says, and evicts at most one record, an old
one (`inc_spec`); all the rest is about `next`.
-/
import GraftSupernode.BlackList
import GraftSupernode.Runs
import Mathlib.Tactic.Ring
import Mathlib.Tactic.Linarith

namespace IpMap

variable {m : IpMap} {addr a : BitVec 32} {wnd : Window} {now : ℤ}

/-! ## The records -/

/-- `IpMap`, as it is constructed. -/
def new (requestsPerSec wndSizeSec : ℤ) : IpMap := { requestsPerSec, wndSizeSec }

/-- The window in a list of records. -/
def lookup (ipwnd : List (BitVec 32 × Window)) (addr : BitVec 32) : Option Window :=
  (ipwnd.find? fun e => e.1 = addr).map Prod.snd

/-- The window of an address, if there is a record of it. -/
def window (m : IpMap) (addr : BitVec 32) : Option Window := lookup m.ipwnd addr

theorem lookup_set (addr : BitVec 32) (wnd : Window) (l : List (BitVec 32 × Window))
    (a : BitVec 32) : lookup (set addr wnd l) a = if a = addr then some wnd else lookup l a := by
  induction l with
  | nil =>
    by_cases ha : a = addr
    · subst ha
      simp [lookup, set]
    · simp [lookup, set, ha, Ne.symm ha]
  | cons e l ih =>
    rw [set]
    by_cases ha : a = addr
    · subst ha
      rw [if_pos rfl] at ih ⊢
      split
      · simp [lookup]
      · split
        · simp [lookup]
        · rename_i hne
          rw [lookup, List.find?_cons_of_neg (by simpa using Ne.symm hne)]
          exact ih
    · rw [if_neg ha] at ih ⊢
      split
      · rw [lookup, List.find?_cons_of_neg (by simpa using Ne.symm ha)]
        rfl
      · split
        · rename_i heq
          rw [lookup, lookup, List.find?_cons_of_neg (by simpa using Ne.symm ha),
            List.find?_cons_of_neg (by simpa using heq ▸ Ne.symm ha)]
        · rw [lookup, lookup] at ih
          rw [lookup, lookup, List.find?_cons, List.find?_cons]
          split
          · rfl
          · exact ih

theorem lookup_filter (l : List (BitVec 32 × Window)) (k a : BitVec 32) :
    lookup (l.filter fun e => e.1 ≠ k) a = if a = k then none else lookup l a := by
  induction l with
  | nil => simp [lookup]
  | cons e l ih =>
    by_cases hk : e.1 = k
    · rw [List.filter_cons_of_neg (by simp [hk]), ih]
      split
      · rfl
      · rename_i ha
        rw [lookup, lookup, List.find?_cons_of_neg (by simpa [hk] using Ne.symm ha)]
    · rw [List.filter_cons_of_pos (by simp [hk])]
      by_cases he : e.1 = a
      · rw [if_neg (he ▸ hk), lookup, lookup, List.find?_cons_of_pos (by simpa using he),
          List.find?_cons_of_pos (by simpa using he)]
      · rw [lookup, List.find?_cons_of_neg (by simpa using he)]
        rw [lookup] at ih
        rw [ih, lookup, lookup, List.find?_cons_of_neg (by simpa using he)]

/-- The order of the map. -/
def Ordered (l : List (BitVec 32 × Window)) : Prop := l.Pairwise fun e f => e.1 < f.1

theorem mem_of_neighbor {l : List (BitVec 32 × Window)} {e : BitVec 32 × Window}
    (h : (l.find? fun e => addr < e.1).or l.head? = some e) : e ∈ l := by
  rcases Option.or_eq_some_iff.mp h with h | ⟨-, h⟩
  · exact List.mem_of_find?_eq_some h
  · exact List.mem_of_mem_head? h

theorem mem_set {l : List (BitVec 32 × Window)} {e : BitVec 32 × Window}
    (h : e ∈ set addr wnd l) : e = (addr, wnd) ∨ e ∈ l := by
  induction l with
  | nil => exact .inl (List.mem_singleton.mp h)
  | cons f l ih =>
    rw [set] at h
    split at h
    · exact List.mem_cons.mp h
    · split at h
      · exact (List.mem_cons.mp h).imp_right (List.mem_cons_of_mem f)
      · rcases List.mem_cons.mp h with rfl | h
        · exact .inr List.mem_cons_self
        · exact (ih h).imp_right (List.mem_cons_of_mem f)

theorem Ordered.set {l : List (BitVec 32 × Window)} (h : Ordered l) (addr : BitVec 32)
    (wnd : Window) : Ordered (set addr wnd l) := by
  induction l with
  | nil => exact List.pairwise_singleton _ _
  | cons f l ih =>
    obtain ⟨hfirst, hrest⟩ := List.pairwise_cons.mp h
    rw [IpMap.set]
    split
    · rename_i hlt
      refine List.pairwise_cons.mpr ⟨fun e he => ?_, h⟩
      rcases List.mem_cons.mp he with rfl | he
      · exact hlt
      · exact BitVec.lt_trans hlt (hfirst e he)
    · split
      · rename_i heq
        exact List.pairwise_cons.mpr ⟨fun e he => heq ▸ hfirst e he, hrest⟩
      · rename_i hlt hne
        refine List.pairwise_cons.mpr ⟨fun e he => ?_, ih hrest⟩
        rcases mem_set he with rfl | he
        · bv_omega
        · exact hfirst e he

theorem Ordered.lookup_of_mem {l : List (BitVec 32 × Window)} (h : Ordered l)
    {e : BitVec 32 × Window} (he : e ∈ l) : lookup l e.1 = some e.2 := by
  induction l with
  | nil => cases he
  | cons f l ih =>
    obtain ⟨hfirst, hrest⟩ := List.pairwise_cons.mp h
    rcases List.mem_cons.mp he with rfl | he
    · simp [lookup]
    · rw [lookup, List.find?_cons_of_neg (by simpa using BitVec.ne_of_lt (hfirst e he))]
      exact ih hrest he

/-! ## A call -/

/-- The window of an address after a request, and whether it triggers. -/
def next (m : IpMap) (wnd : Option Window) (now : ℤ) : Window × Bool :=
  match wnd with
  | some wnd => m.nextWindow wnd now
  | none => (⟨now, 1⟩, false)

/-- A record that a call of the address before it evicts. -/
def Old (m : IpMap) (wnd : Window) (now : ℤ) : Prop :=
  wnd.tpStart + seconds m.wndSizeSec + seconds m.wndSizeSec ≤ now

theorem inc_eq (m : IpMap) (addr : BitVec 32) (now : ℤ) :
    m.inc addr now = ((m.next (m.window addr) now).2,
      { m with ipwnd := set addr (m.next (m.window addr) now).1 m.ipwnd }.removeItAndNeighbor addr
        (m.next (m.window addr) now).2 now) := by
  rw [inc, window, lookup]
  cases m.ipwnd.find? fun e => e.1 = addr <;> rfl

/-- `inc` says what `next` says. -/
theorem inc_fst (m : IpMap) (addr : BitVec 32) (now : ℤ) :
    (m.inc addr now).1 = (m.next (m.window addr) now).2 := by
  rw [inc_eq]

/-- The record of an address that has made a call, after it. -/
def left (r : Window × Bool) : Option Window := if r.2 then none else some r.1

/-- What a call leaves of a record, when none is evicted. -/
def after (m : IpMap) (addr : BitVec 32) (now : ℤ) (a : BitVec 32) : Option Window :=
  if a = addr then left (m.next (m.window addr) now) else m.window a

/-- **What `removeItAndNeighbor` removes**: the record of an address that has triggered, and at most
one more, which is old. -/
theorem lookup_removeItAndNeighbor (m : IpMap) (addr : BitVec 32) (triggered : Bool) (now : ℤ)
    (hm : Ordered m.ipwnd) :
    ∃ l, m.removeItAndNeighbor addr triggered now = { m with ipwnd := l } ∧ Ordered l ∧
      ∀ a, lookup l a = (if a = addr ∧ triggered then none else m.window a) ∨
        lookup l a = none ∧
          ∃ wnd, m.window a = some wnd ∧ ¬ (a = addr ∧ triggered) ∧ m.Old wnd now := by
  rw [removeItAndNeighbor]
  have hleft : ∀ a, lookup (if triggered then m.ipwnd.filter fun e => e.1 ≠ addr else m.ipwnd) a
      = if a = addr ∧ triggered then none else m.window a := by
    intro a
    cases triggered with
    | false => simp [window]
    | true =>
      rw [if_pos rfl, lookup_filter]
      simp [window]
  have hord : Ordered (if triggered then m.ipwnd.filter fun e => e.1 ≠ addr else m.ipwnd) := by
    split
    · exact hm.filter _
    · exact hm
  generalize (if triggered then m.ipwnd.filter fun e => e.1 ≠ addr else m.ipwnd) = l at hleft hord
  split
  · exact ⟨l, rfl, hord, fun a => .inl (hleft a)⟩
  · rename_i e he
    have hlookup := hord.lookup_of_mem (mem_of_neighbor he)
    rw [hleft] at hlookup
    split
    · rename_i hold
      refine ⟨_, rfl, hord.filter _, fun a => ?_⟩
      rw [lookup_filter, hleft]
      by_cases ha : a = e.1
      · subst ha
        rw [if_pos rfl]
        split at hlookup
        · cases hlookup
        · rename_i hnot
          exact .inr ⟨rfl, e.2, hlookup, hnot, hold⟩
      · exact .inl (if_neg ha)
    · exact ⟨l, rfl, hord, fun a => .inl (hleft a)⟩

/-- **What a call does to the records**: to its own what `next` says, and it evicts at most one,
which is old. -/
theorem inc_spec (m : IpMap) (addr : BitVec 32) (now : ℤ) (hm : Ordered m.ipwnd) :
    ∃ l, (m.inc addr now).2 = { m with ipwnd := l } ∧ Ordered l ∧
      ∀ a, lookup l a = m.after addr now a ∨
        lookup l a = none ∧ ∃ wnd, m.after addr now a = some wnd ∧ m.Old wnd now := by
  rw [inc_eq]
  generalize hr : m.next (m.window addr) now = r
  have hafter : ∀ a, m.after addr now a
      = if a = addr ∧ r.2 then none else lookup (set addr r.1 m.ipwnd) a := by
    intro a
    rw [after, hr, left, lookup_set]
    by_cases ha : a = addr
    · cases r.2 <;> simp [ha]
    · simp [ha, window]
  obtain ⟨l, hl, hord, hlookup⟩ := lookup_removeItAndNeighbor
    { m with ipwnd := set addr r.1 m.ipwnd } addr r.2 now (hm.set addr r.1)
  refine ⟨l, hl, hord, fun a => ?_⟩
  rw [hafter]
  rcases hlookup a with hkept | ⟨hnone, wnd, hwnd, hnot, hold⟩
  · exact .inl hkept
  · exact .inr ⟨hnone, wnd, by rw [if_neg hnot]; exact hwnd, hold⟩

/-! ## One window -/

/-- The values of an `int`. -/
def Fits (x : ℤ) : Prop := -2 ^ 31 ≤ x ∧ x < 2 ^ 31

theorem narrow_of_fits {x : ℤ} (h : Fits x) : narrow x = x := by
  obtain ⟨hlow, hhigh⟩ := h
  exact Int.bmod_eq_of_le (by omega) (by omega)

/-- The whole seconds by which a window moves on. -/
def secsPast (m : IpMap) (wnd : Window) (now : ℤ) : ℤ :=
  if wnd.tpStart + seconds m.wndSizeSec + seconds 1 < now then
    (now - (wnd.tpStart + seconds m.wndSizeSec)) / seconds 1
  else 0

/-- The window, moved on by whole seconds, with its count debited for them. -/
def moved (m : IpMap) (wnd : Window) (now : ℤ) : Window where
  tpStart := wnd.tpStart + seconds (m.secsPast wnd now)
  count := if wnd.tpStart + seconds m.wndSizeSec + seconds 1 < now then
      narrow (wnd.count - m.secsPast wnd now * m.requestsPerSec)
    else wnd.count

/-- The window is too old to be moved on, or nothing would be left in it. -/
def Reopens (m : IpMap) (wnd : Window) (now : ℤ) : Prop :=
  wnd.tpStart + seconds m.wndSizeSec + seconds m.wndSizeSec < now ∨
    wnd.tpStart + seconds m.wndSizeSec + seconds 1 < now ∧ (m.moved wnd now).count ≤ 0

instance (m : IpMap) (wnd : Window) (now : ℤ) : Decidable (m.Reopens wnd now) :=
  inferInstanceAs (Decidable (_ ∨ _))

/-- **A request of an address that has a window**: a new window, or the old one moved on by whole
seconds. -/
theorem nextWindow_eq (m : IpMap) (wnd : Window) (now : ℤ) :
    m.nextWindow wnd now =
      if m.Reopens wnd now then (⟨now, 1⟩, false) else m.countRequest (m.moved wnd now) := by
  rw [nextWindow]
  by_cases hold : wnd.tpStart + seconds m.wndSizeSec + seconds m.wndSizeSec < now
  · rw [if_pos hold, if_pos (show m.Reopens wnd now from .inl hold)]
  · by_cases hpast : wnd.tpStart + seconds m.wndSizeSec + seconds 1 < now
    · have hmoved : m.moved wnd now =
          ⟨wnd.tpStart + seconds ((now - (wnd.tpStart + seconds m.wndSizeSec)) / seconds 1),
            narrow (wnd.count - (now - (wnd.tpStart + seconds m.wndSizeSec)) / seconds 1
              * m.requestsPerSec)⟩ := by
        rw [moved, secsPast, if_pos hpast, if_pos hpast]
      have hre : m.Reopens wnd now ↔ (m.moved wnd now).count ≤ 0 := by
        rw [Reopens, or_iff_right hold, and_iff_right hpast]
      rw [if_neg hold, if_pos hpast]
      simp only [hre, hmoved]
    · have hmoved : m.moved wnd now = wnd := by
        rw [moved, secsPast, if_neg hpast, if_neg hpast]
        simp [seconds]
      have hre : ¬ m.Reopens wnd now := not_or.mpr ⟨hold, fun h => hpast h.1⟩
      rw [if_neg hold, if_neg hpast, if_neg hre, hmoved]

/-- A window moves on so far that less than a second of the time since its end is left. -/
theorem secsPast_spec (m : IpMap) (wnd : Window) (now : ℤ) :
    0 ≤ m.secsPast wnd now ∧
      now ≤ wnd.tpStart + seconds (m.secsPast wnd now) + seconds m.wndSizeSec + seconds 1 ∧
      (m.secsPast wnd now = 0 ∨
        wnd.tpStart + seconds (m.secsPast wnd now) + seconds m.wndSizeSec ≤ now) := by
  rw [secsPast]
  split
  · rename_i hpast
    simp only [seconds, one_mul] at hpast ⊢
    omega
  · rename_i hpast
    refine ⟨le_rfl, ?_, .inl rfl⟩
    simp only [seconds] at hpast ⊢
    omega

/-- The count of a record that is kept. -/
def Within (m : IpMap) (wnd : Window) : Prop :=
  0 < wnd.count ∧ wnd.count ≤ m.wndSizeSec * m.requestsPerSec

/-- A request that is counted, in the integers. -/
def counted (m : IpMap) (wnd : Window) (now : ℤ) : Window × Bool :=
  (⟨wnd.tpStart + seconds (m.secsPast wnd now),
      wnd.count - m.secsPast wnd now * m.requestsPerSec + 1⟩,
    m.wndSizeSec * m.requestsPerSec < wnd.count - m.secsPast wnd now * m.requestsPerSec + 1)

/-- **No debit is lost**: a window moves on by no more seconds than its size, so that the difference
is an `int` if the limit is one. -/
theorem moved_count (hR : 1 ≤ m.requestsPerSec)
    (hlimit : m.wndSizeSec * m.requestsPerSec < 2 ^ 31) (hwithin : m.Within wnd)
    (hnot : ¬ m.Reopens wnd now) :
    (m.moved wnd now).count = wnd.count - m.secsPast wnd now * m.requestsPerSec ∧
      0 < (m.moved wnd now).count ∧ (m.moved wnd now).count ≤ wnd.count := by
  obtain ⟨hpos, hle⟩ := hwithin
  obtain ⟨hyoung, hleft⟩ := not_or.mp hnot
  by_cases hpast : wnd.tpStart + seconds m.wndSizeSec + seconds 1 < now
  · have hleft : 0 < (m.moved wnd now).count := not_le.mp fun hnone => hleft ⟨hpast, hnone⟩
    have hsecs : 0 ≤ m.secsPast wnd now ∧ m.secsPast wnd now ≤ m.wndSizeSec := by
      rw [secsPast, if_pos hpast]
      simp only [seconds, one_mul] at hpast hyoung ⊢
      omega
    have hdebit : m.secsPast wnd now * m.requestsPerSec ≤ m.wndSizeSec * m.requestsPerSec :=
      mul_le_mul_of_nonneg_right hsecs.2 (by omega)
    have hdebit' : 0 ≤ m.secsPast wnd now * m.requestsPerSec := mul_nonneg hsecs.1 (by omega)
    have hcount : (m.moved wnd now).count
        = wnd.count - m.secsPast wnd now * m.requestsPerSec := by
      rw [moved, if_pos hpast]
      exact narrow_of_fits ⟨by omega, by omega⟩
    exact ⟨hcount, hleft, by omega⟩
  · have hsecs : m.secsPast wnd now = 0 := if_neg hpast
    have hcount : (m.moved wnd now).count = wnd.count := if_neg hpast
    rw [hcount, hsecs]
    exact ⟨by simp, hpos, le_rfl⟩

/-- A request of a window that is kept is counted as in the integers, while the limit and the count
are `int`s. -/
theorem countRequest_eq (hR : 1 ≤ m.requestsPerSec)
    (hlimit : m.wndSizeSec * m.requestsPerSec < 2 ^ 31) (hwithin : m.Within wnd)
    (hcount : wnd.count + 1 < 2 ^ 31) (hnot : ¬ m.Reopens wnd now) :
    m.countRequest (m.moved wnd now) = m.counted wnd now := by
  obtain ⟨hmoved, hpos, hle⟩ := moved_count hR hlimit hwithin hnot
  obtain ⟨hwpos, hwle⟩ := hwithin
  have hone : narrow ((m.moved wnd now).count + 1) = (m.moved wnd now).count + 1 :=
    narrow_of_fits ⟨by omega, by omega⟩
  have htwo : narrow (m.wndSizeSec * m.requestsPerSec) = m.wndSizeSec * m.requestsPerSec :=
    narrow_of_fits ⟨by omega, hlimit⟩
  rw [countRequest, counted, hone, htwo, hmoved]
  rfl

/-! ## Runs -/

/-- A call of `inc`: an address and the time. -/
abbrev Call := BitVec 32 × ℤ

/-- The calls are made in the order of time. -/
def InOrder (calls : List Call) : Prop := calls.Pairwise fun c d => c.2 ≤ d.2

/-- A map that is being called, with what is to be known of the current window of an address: the
time of the call that opened it, and the number of calls from that one on. -/
structure Watched where
  map : IpMap
  opened : BitVec 32 → ℤ × ℤ

/-- A call opens a window where there is none, or where the window there is is given up. -/
def opens (m : IpMap) (addr : BitVec 32) (now : ℤ) : Bool :=
  match m.window addr with
  | some wnd => m.Reopens wnd now
  | none => true

def Watched.call (s : Watched) (c : Call) : Watched where
  map := (s.map.inc c.1 c.2).2
  opened := Function.update s.opened c.1
    (if s.map.opens c.1 c.2 then (c.2, 1) else ((s.opened c.1).1, (s.opened c.1).2 + 1))

/-- A new map, when nothing is opened. -/
def Watched.start (requestsPerSec wndSizeSec : ℤ) : Watched where
  map := new requestsPerSec wndSizeSec
  opened := fun _ => (0, 0)

/-- **Undefined behaviour**: a call that counts computes an `int` that does not fit, the product of
the window and the rate or the next count. -/
def Overflows (m : IpMap) (addr : BitVec 32) (now : ℤ) : Prop :=
  ∃ wnd, m.window addr = some wnd ∧ ¬ m.Reopens wnd now ∧
    ¬ (Fits (m.wndSizeSec * m.requestsPerSec) ∧ Fits ((m.moved wnd now).count + 1))

/-- What a call makes of the record of its address. -/
theorem next_cases (m : IpMap) (addr : BitVec 32) (now : ℤ) :
    (m.opens addr now = true ∧ m.next (m.window addr) now = (⟨now, 1⟩, false) ∧
      ¬ m.Overflows addr now) ∨
    (m.opens addr now = false ∧ ∃ wnd, m.window addr = some wnd ∧ ¬ m.Reopens wnd now ∧
      m.next (m.window addr) now = m.countRequest (m.moved wnd now)) := by
  rw [opens, Overflows]
  cases m.window addr with
  | none => exact .inl ⟨rfl, rfl, by rintro ⟨wnd, hwnd, -⟩; cases hwnd⟩
  | some wnd =>
    by_cases hre : m.Reopens wnd now
    · refine .inl ⟨decide_eq_true hre, by rw [next, nextWindow_eq, if_pos hre], ?_⟩
      rintro ⟨wnd', hwnd, hnot, -⟩
      cases hwnd
      exact hnot hre
    · exact .inr ⟨decide_eq_false hre, wnd, rfl, hre, by rw [next, nextWindow_eq, if_neg hre]⟩

/-- The window is kept, and the next count is an `int`. -/
def Ready (m : IpMap) (wnd : Window) : Prop := m.Within wnd ∧ wnd.count + 1 < 2 ^ 31

/-- **A call while the limit is an `int`**: it opens a window, or it counts, and overflows nothing. -/
theorem next_cases_of_ready (hR : 1 ≤ m.requestsPerSec)
    (hlimit : m.wndSizeSec * m.requestsPerSec < 2 ^ 31)
    (hready : ∀ wnd, m.window addr = some wnd → m.opens addr now = false → m.Ready wnd) :
    ¬ m.Overflows addr now ∧
      ((m.opens addr now = true ∧ m.next (m.window addr) now = (⟨now, 1⟩, false)) ∨
      (m.opens addr now = false ∧ ∃ wnd, m.window addr = some wnd ∧
        m.next (m.window addr) now = m.counted wnd now)) := by
  rcases next_cases m addr now with ⟨hopens, hnext, hnone⟩ | ⟨hopens, wnd, hwnd, hre, hnext⟩
  · exact ⟨hnone, .inl ⟨hopens, hnext⟩⟩
  · obtain ⟨hwithin, hcount⟩ := hready wnd hwnd hopens
    refine ⟨?_, .inr ⟨hopens, wnd, hwnd, hnext.trans (countRequest_eq hR hlimit hwithin hcount hre)⟩⟩
    rintro ⟨wnd', hwnd', -, hfits⟩
    cases hwnd.symm.trans hwnd'
    obtain ⟨-, hpos, hle⟩ := moved_count hR hlimit hwithin hre
    exact hfits ⟨⟨by linarith [hwithin.1, hwithin.2], hlimit⟩, by omega, by omega⟩

/-- A call that does not trigger leaves a count that is within the limit. -/
theorem within_left (hR : 1 ≤ m.requestsPerSec) (hW : 1 ≤ m.wndSizeSec)
    (hlimit : m.wndSizeSec * m.requestsPerSec < 2 ^ 31)
    (hready : ∀ wnd, m.window addr = some wnd → m.opens addr now = false → m.Ready wnd)
    (h : left (m.next (m.window addr) now) = some wnd) : m.Within wnd := by
  rcases next_cases m addr now with ⟨-, hnext, -⟩ | ⟨hopens, wnd', hwnd', hre, hnext⟩
  · rw [hnext] at h
    cases h
    refine ⟨one_pos, ?_⟩
    calc (1 : ℤ) = 1 * 1 := rfl
      _ ≤ m.wndSizeSec * m.requestsPerSec := mul_le_mul hW hR (by decide) (by omega)
  · obtain ⟨hwithin, hcount⟩ := hready wnd' hwnd' hopens
    obtain ⟨hmoved, hpos, -⟩ := moved_count hR hlimit hwithin hre
    rw [hnext, countRequest_eq hR hlimit hwithin hcount hre, left] at h
    split at h
    · cases h
    · rename_i htriggered
      cases h
      rw [counted, decide_eq_true_iff] at htriggered
      refine ⟨?_, not_lt.mp htriggered⟩
      change 0 < wnd'.count - m.secsPast wnd' now * m.requestsPerSec + 1
      omega

/-- **The invariant of a window** that was opened at `c` and has `n` calls, none after `last`: it
has moved on by some seconds, not beyond that time, and the count is debited for each. -/
def Tracks (m : IpMap) (c n last : ℤ) (wnd : Window) : Prop :=
  ∃ shift, 0 ≤ shift ∧ wnd.tpStart = c + seconds shift ∧
    wnd.count = n - m.requestsPerSec * shift ∧
    (shift = 0 ∨ c + seconds (shift + m.wndSizeSec) ≤ last)

theorem Tracks.opened (m : IpMap) (now last : ℤ) : m.Tracks now 1 last ⟨now, 1⟩ :=
  ⟨0, le_rfl, by simp [seconds], by simp, .inl rfl⟩

variable {c n last : ℤ}

/-- The count is at most the number of calls. -/
theorem Tracks.count_le (h : m.Tracks c n last wnd) (hR : 1 ≤ m.requestsPerSec) :
    wnd.count ≤ n := by
  obtain ⟨shift, hpos, -, hcount, -⟩ := h
  have hdebit : 0 ≤ m.requestsPerSec * shift := mul_nonneg (by omega) hpos
  omega

/-- Moved on, and with one more call. -/
theorem Tracks.counted (h : m.Tracks c n last wnd) (hle : now ≤ last) :
    m.Tracks c (n + 1) last (m.counted wnd now).1 := by
  obtain ⟨shift, hpos, hstart, hcount, hbound⟩ := h
  obtain ⟨hsecs, -, hpast⟩ := m.secsPast_spec wnd now
  refine ⟨shift + m.secsPast wnd now, by omega, ?_, ?_, ?_⟩
  · rw [IpMap.counted, hstart]
    simp only [seconds]
    ring
  · rw [IpMap.counted, hcount]
    ring
  · rw [hstart] at hpast
    simp only [seconds] at hpast hbound ⊢
    omega

/-- More than `R` calls for each second of a time, which is at least the window. -/
def Exceeds (requestsPerSec wndSizeSec n time : ℤ) : Prop :=
  requestsPerSec * max (seconds wndSizeSec) time < n * seconds 1

instance (requestsPerSec wndSizeSec n time : ℤ) :
    Decidable (Exceeds requestsPerSec wndSizeSec n time) :=
  inferInstanceAs (Decidable (_ < _))

/-- **When a call triggers**, by the seconds that the window has moved on. -/
theorem Tracks.triggers_iff (h : m.Tracks c n now wnd) :
    ∃ shift, 0 ≤ shift ∧ now - c - seconds 1 ≤ seconds (shift + m.wndSizeSec) ∧
      (shift = 0 ∨ seconds (shift + m.wndSizeSec) ≤ now - c) ∧
      ((m.counted wnd now).2 = true ↔ m.requestsPerSec * (shift + m.wndSizeSec) < n + 1) := by
  obtain ⟨shift, hpos, hstart, hcount, hbound⟩ := h
  obtain ⟨hsecs, hnow, hpast⟩ := m.secsPast_spec wnd now
  rw [hstart] at hnow hpast
  refine ⟨shift + m.secsPast wnd now, by omega, ?_, ?_, ?_⟩
  · simp only [seconds] at hnow ⊢
    omega
  · simp only [seconds] at hpast hbound ⊢
    omega
  · rw [IpMap.counted, decide_eq_true_iff, hcount]
    constructor
    · intro hlt
      linarith
    · intro hlt
      linarith

/-- The law for a call that counts. -/
theorem Tracks.law (h : m.Tracks c n now wnd) (hR : 1 ≤ m.requestsPerSec) :
    ((m.counted wnd now).2 = true →
      Exceeds m.requestsPerSec m.wndSizeSec (n + 1) (now - c - seconds 1)) ∧
    (Exceeds m.requestsPerSec m.wndSizeSec (n + 1) (now - c) →
      (m.counted wnd now).2 = true) := by
  obtain ⟨shift, hpos, hnow, hbound, htrigger⟩ := h.triggers_iff
  rw [htrigger]
  constructor
  · intro hlt
    -- the span is at most the seconds that the window has moved on and the window
    have hmax : max (seconds m.wndSizeSec) (now - c - seconds 1)
        ≤ (shift + m.wndSizeSec) * seconds 1 := by
      refine max_le ?_ ?_
      · simp only [seconds]
        omega
      · simp only [seconds] at hnow ⊢
        omega
    calc m.requestsPerSec * max (seconds m.wndSizeSec) (now - c - seconds 1)
        ≤ m.requestsPerSec * ((shift + m.wndSizeSec) * seconds 1) :=
          mul_le_mul_of_nonneg_left hmax (by omega)
      _ = m.requestsPerSec * (shift + m.wndSizeSec) * seconds 1 := (mul_assoc _ _ _).symm
      _ < (n + 1) * seconds 1 := mul_lt_mul_of_pos_right hlt (by decide)
  · intro hlt
    have hmax : (shift + m.wndSizeSec) * seconds 1 ≤ max (seconds m.wndSizeSec) (now - c) := by
      rcases hbound with rfl | hbound
      · refine le_max_of_le_left ?_
        simp only [seconds]
        omega
      · refine le_max_of_le_right ?_
        simp only [seconds] at hbound ⊢
        omega
    refine lt_of_mul_lt_mul_right ?_ (show 0 ≤ seconds 1 by decide)
    calc m.requestsPerSec * (shift + m.wndSizeSec) * seconds 1
        = m.requestsPerSec * ((shift + m.wndSizeSec) * seconds 1) := mul_assoc _ _ _
      _ ≤ m.requestsPerSec * max (seconds m.wndSizeSec) (now - c) :=
          mul_le_mul_of_nonneg_left hmax (by omega)
      _ < (n + 1) * seconds 1 := hlt

/-- A call that opens a window is within every rate. -/
theorem not_exceeds_one (hR : 1 ≤ m.requestsPerSec) (hW : 1 ≤ m.wndSizeSec) (time : ℤ) :
    ¬ Exceeds m.requestsPerSec m.wndSizeSec 1 time := by
  rw [Exceeds, not_lt]
  have hmax : seconds 1 ≤ max (seconds m.wndSizeSec) time := by
    refine le_max_of_le_left ?_
    simp only [seconds]
    omega
  calc 1 * seconds 1 ≤ 1 * max (seconds m.wndSizeSec) time :=
      mul_le_mul_of_nonneg_left hmax (by decide)
    _ ≤ m.requestsPerSec * max (seconds m.wndSizeSec) time :=
      mul_le_mul_of_nonneg_right hR (le_trans (by decide) hmax)

/-! ### The law -/

namespace Watched

variable {s : Watched} {R W : ℤ}

theorem opened_call_self (s : Watched) (c : Call) : (s.call c).opened c.1 =
    if s.map.opens c.1 c.2 then (c.2, 1) else ((s.opened c.1).1, (s.opened c.1).2 + 1) :=
  Function.update_self _ _ _

theorem opened_call_of_ne {c : Call} (ha : a ≠ c.1) : (s.call c).opened a = s.opened a :=
  Function.update_of_ne ha _ _

/-- The invariant of a run with calls up to a time; nothing is said of a window that has more calls
than an `int` can count. -/
structure Inv (R W last : ℤ) (s : Watched) : Prop where
  requests : s.map.requestsPerSec = R
  size : s.map.wndSizeSec = W
  ordered : Ordered s.map.ipwnd
  tracks : ∀ a wnd, s.map.window a = some wnd → (s.opened a).2 < 2 ^ 31 →
    s.map.Tracks (s.opened a).1 (s.opened a).2 last wnd ∧ s.map.Within wnd

theorem inv_start (R W last : ℤ) : (start R W).Inv R W last where
  requests := rfl
  size := rfl
  ordered := List.Pairwise.nil
  tracks := fun a wnd h => by cases h

/-- A window can take one more call. -/
theorem Inv.ready (h : s.Inv R W last) (hR : 1 ≤ R) (hn : (s.opened a).2 + 1 < 2 ^ 31)
    (hwnd : s.map.window a = some wnd) : s.map.Ready wnd := by
  obtain ⟨htracks, hwithin⟩ := h.tracks a wnd hwnd (by omega)
  have hcount := htracks.count_le (h.requests ▸ hR)
  exact ⟨hwithin, by omega⟩

theorem Inv.call (hR : 1 ≤ R) (hW : 1 ≤ W) (hlimit : W * R < 2 ^ 31) (h : s.Inv R W last)
    (c : Call) (hle : c.2 ≤ last) : (s.call c).Inv R W last := by
  obtain ⟨l, hl, hord, hlookup⟩ := inc_spec s.map c.1 c.2 h.ordered
  have hmap : (s.call c).map = { s.map with ipwnd := l } := hl
  refine ⟨by rw [hmap]; exact h.requests, by rw [hmap]; exact h.size, by rw [hmap]; exact hord,
    fun a wnd hwnd hn => ?_⟩
  rw [hmap] at hwnd ⊢
  have hafter : s.map.after c.1 c.2 a = some wnd := by
    rcases hlookup a with heq | ⟨hnone, -⟩
    · exact heq.symm.trans hwnd
    · cases hnone.symm.trans hwnd
  change s.map.Tracks _ _ last wnd ∧ s.map.Within wnd
  rw [after] at hafter
  by_cases ha : a = c.1
  · subst ha
    rw [if_pos rfl] at hafter
    have hR' : 1 ≤ s.map.requestsPerSec := h.requests ▸ hR
    have hW' : 1 ≤ s.map.wndSizeSec := h.size ▸ hW
    have hlimit' : s.map.wndSizeSec * s.map.requestsPerSec < 2 ^ 31 := by
      rw [h.requests, h.size]
      exact hlimit
    have hready : ∀ wnd, s.map.window c.1 = some wnd → s.map.opens c.1 c.2 = false →
        s.map.Ready wnd := by
      intro wnd hwnd hopens
      rw [opened_call_self, hopens, if_neg Bool.false_ne_true] at hn
      exact h.ready hR hn hwnd
    refine ⟨?_, within_left hR' hW' hlimit' hready hafter⟩
    rw [opened_call_self]
    rcases (next_cases_of_ready hR' hlimit' hready).2 with
      ⟨hopens, hnext⟩ | ⟨hopens, wnd', hwnd', hnext⟩
    · rw [hnext] at hafter
      cases hafter
      rw [if_pos hopens]
      exact Tracks.opened s.map c.2 last
    · rw [hnext, left] at hafter
      split at hafter
      · cases hafter
      · cases hafter
        rw [opened_call_self, hopens, if_neg Bool.false_ne_true] at hn
        rw [hopens, if_neg Bool.false_ne_true]
        dsimp only at hn
        exact (h.tracks _ _ hwnd' (by omega)).1.counted hle
  · rw [if_neg ha] at hafter
    rw [opened_call_of_ne ha] at hn ⊢
    exact h.tracks a wnd hafter hn

/-- **The law of a call**, while the limit and the number of calls are `int`s. -/
theorem Inv.law (hR : 1 ≤ R) (hW : 1 ≤ W) (hlimit : W * R < 2 ^ 31) {addr : BitVec 32}
    (h : s.Inv R W now) (hopened : (s.call (addr, now)).opened addr = (c, n)) (hn : n < 2 ^ 31) :
    ¬ s.map.Overflows addr now ∧
      ((s.map.inc addr now).1 = true → Exceeds R W n (now - c - seconds 1)) ∧
      (Exceeds R W n (now - c) → (s.map.inc addr now).1 = true) := by
  rw [opened_call_self] at hopened
  have hready : ∀ wnd, s.map.window addr = some wnd → s.map.opens addr now = false →
      s.map.Ready wnd := by
    intro wnd hwnd hopens
    rw [hopens, if_neg Bool.false_ne_true] at hopened
    cases hopened
    exact h.ready hR hn hwnd
  obtain ⟨rfl, rfl, -, htracks⟩ := h
  obtain ⟨hnone, hnext⟩ := next_cases_of_ready hR hlimit hready
  refine ⟨hnone, ?_⟩
  rw [inc_fst]
  rcases hnext with ⟨hopens, hnext⟩ | ⟨hopens, wnd, hwnd, hnext⟩
  · rw [if_pos hopens] at hopened
    cases hopened
    rw [hnext]
    refine ⟨fun h => ?_, fun h => absurd h (not_exceeds_one hR hW _)⟩
    cases h
  · rw [hopens, if_neg Bool.false_ne_true] at hopened
    cases hopened
    rw [hnext]
    exact (htracks addr wnd hwnd (lt_trans (lt_add_one _) hn)).1.law hR

end Watched

theorem inc_new {R W : ℤ} (hW : 1 ≤ W) (addr : BitVec 32) :
    ((new R W).inc addr 0).2 = { new R W with ipwnd := [(addr, ⟨0, 1⟩)] } := by
  have hyoung : 0 < seconds W := by
    simp only [seconds]
    omega
  simp [inc, new, set, removeItAndNeighbor, hyoung]

/-- A limit that does not fit: the second of two calls at once overflows. -/
theorem overflows_second {R W : ℤ} (hW : 1 ≤ W) (hlimit : ¬ W * R < 2 ^ 31) (addr : BitVec 32) :
    ((new R W).inc addr 0).2.Overflows addr 0 ∧ ((new R W).inc addr 0).2.opens addr 0 = false := by
  have hmap := inc_new (R := R) hW addr
  have hwnd : ((new R W).inc addr 0).2.window addr = some ⟨0, 1⟩ := by
    rw [hmap]
    simp [window, lookup]
  have hnot : ¬ ((new R W).inc addr 0).2.Reopens ⟨0, 1⟩ 0 := by
    rw [hmap]
    simp only [Reopens, new, seconds]
    omega
  refine ⟨⟨_, hwnd, hnot, fun hfits => hlimit ?_⟩, ?_⟩
  · have hfits := hfits.1.2
    rw [hmap] at hfits
    exact hfits
  · rw [opens, hwnd]
    exact decide_eq_false hnot

/-- **The law of the rate limit**, for a call at `now`, where `c` is the time of the call that
opened the current window and `n` the number of calls from that one on: it holds, and no `int`
overflows, exactly when the limit itself is an `int`. -/
theorem inc_law_iff (R W : ℤ) (hR : 1 ≤ R) (hW : 1 ≤ W) :
    (∀ (calls : List Call) (addr : BitVec 32) (now c n : ℤ), InOrder (calls ++ [(addr, now)]) →
      (Runs.exec Watched.call (Watched.start R W) (calls ++ [(addr, now)])).opened addr = (c, n) →
      n < 2 ^ 31 →
      let m := (Runs.exec Watched.call (Watched.start R W) calls).map
      ¬ m.Overflows addr now ∧
        ((m.inc addr now).1 = true → Exceeds R W n (now - c - seconds 1)) ∧
        (Exceeds R W n (now - c) → (m.inc addr now).1 = true)) ↔
      W * R < 2 ^ 31 := by
  constructor
  · intro h
    by_contra hlimit
    obtain ⟨hoverflow, hopens⟩ := overflows_second hW hlimit 0#32
    have hopened : (Runs.exec Watched.call (Watched.start R W)
        ([(0#32, 0)] ++ [(0#32, 0)])).opened 0#32 = (0, 2) := by
      have hopens : ((Watched.start R W).call (0#32, 0)).map.opens 0#32 0 = false := hopens
      rw [Runs.exec_append, Runs.exec_cons, Runs.exec_nil, Runs.exec_cons, Runs.exec_nil,
        Watched.opened_call_self _ (0#32, 0), hopens, if_neg Bool.false_ne_true,
        Watched.opened_call_self _ (0#32, 0)]
      rfl
    exact (h [(0#32, 0)] 0#32 0 0 2 (List.pairwise_pair.mpr le_rfl) hopened (by decide)).1
      hoverflow
  · intro hlimit calls addr now c n horder hopened hn
    have hle : ∀ c ∈ calls, c.2 ≤ now := fun c hc =>
      (List.pairwise_append.mp horder).2.2 c hc _ (List.mem_singleton_self _)
    have hinv : (Runs.exec Watched.call (Watched.start R W) calls).Inv R W now :=
      Runs.exec_invariant (fun s c h hle => h.call hR hW hlimit c hle)
        (Watched.inv_start R W now) (Runs.along_of_forall_mem hle _)
    rw [Runs.exec_append, Runs.exec_cons, Runs.exec_nil] at hopened
    exact hinv.law hR hW hlimit hopened hn

/-- Three calls, where two are allowed in a second: at once, and one at the end of the window. -/
theorem inc_law_three :
    let m := (Runs.exec Watched.call (Watched.start 2 1) [(7#32, 0), (7#32, 0)]).map
    ¬ m.Overflows 7#32 (seconds 1) ∧
      ((m.inc 7#32 (seconds 1)).1 = true → Exceeds 2 1 3 (seconds 1 - 0 - seconds 1)) ∧
      (Exceeds 2 1 3 (seconds 1 - 0) → (m.inc 7#32 (seconds 1)).1 = true) :=
  (inc_law_iff 2 1 (by decide) (by decide)).mpr (by decide) [(7#32, 0), (7#32, 0)] 7#32
    (seconds 1) 0 3 (List.pairwise_cons.mpr ⟨by decide, List.pairwise_pair.mpr (by decide)⟩)
    (by decide) (by decide)

/-- A limit of `2 ^ 31` is negative in an `int`, and the second of two calls triggers. -/
theorem inc_law_overflow :
    let m := (Runs.exec Watched.call (Watched.start 65536 32768) [(7#32, 0)]).map
    (Runs.exec Watched.call (Watched.start 65536 32768) ([(7#32, 0)] ++ [(7#32, 0)])).opened 7#32
        = (0, 2) ∧
      (m.inc 7#32 0).1 = true ∧ ¬ Exceeds 65536 32768 2 (0 - 0 - seconds 1) := by
  decide

/-! ## The neighbours -/

/-- `IpMap::inc` of a map that never evicts. -/
def incKeeping (m : IpMap) (addr : BitVec 32) (now : ℤ) : Bool × IpMap :=
  let r := m.next (m.window addr) now
  let ipwnd := set addr r.1 m.ipwnd
  (r.2, { m with ipwnd := if r.2 then ipwnd.filter fun e => e.1 ≠ addr else ipwnd })

/-- The answers that the calls get, each with its address. -/
def answers (inc : IpMap → BitVec 32 → ℤ → Bool × IpMap) :
    IpMap → List Call → List (BitVec 32 × Bool)
  | _, [] => []
  | m, c :: calls => (c.1, (inc m c.1 c.2).1) :: answers inc (inc m c.1 c.2).2 calls

/-- Without eviction a call leaves of the records what `next` says. -/
theorem window_incKeeping (m : IpMap) (addr : BitVec 32) (now : ℤ) (a : BitVec 32) :
    (m.incKeeping addr now).2.window a = m.after addr now a := by
  rw [incKeeping, window, after, left]
  dsimp only
  split
  · rw [lookup_filter, lookup_set]
    split
    · rfl
    · rfl
  · rw [lookup_set]
    rfl

/-- The invariant of a map, with or without eviction. -/
structure Bounded (R W : ℤ) (m : IpMap) : Prop where
  requests : m.requestsPerSec = R
  size : m.wndSizeSec = W
  ordered : Ordered m.ipwnd
  within : ∀ a wnd, m.window a = some wnd → m.Within wnd

theorem bounded_new (R W : ℤ) : Bounded R W (new R W) where
  requests := rfl
  size := rfl
  ordered := List.Pairwise.nil
  within := fun a wnd h => by cases h

section

variable {R W : ℤ} {k : IpMap}

theorem Bounded.ready (h : Bounded R W m) (hlimit : W * R < 2 ^ 31 - 1)
    (hwnd : m.window addr = some wnd) : m.Ready wnd := by
  have hwithin := h.within addr wnd hwnd
  have hle := hwithin.2
  rw [h.requests, h.size] at hle
  exact ⟨hwithin, by omega⟩

theorem Bounded.after (h : Bounded R W m) (hR : 1 ≤ R) (hW : 1 ≤ W) (hlimit : W * R < 2 ^ 31)
    (hready : ∀ wnd, m.window addr = some wnd → m.Ready wnd)
    (hwnd : m.after addr now a = some wnd) : m.Within wnd := by
  rw [IpMap.after] at hwnd
  split at hwnd
  · refine within_left (h.requests ▸ hR) (h.size ▸ hW) ?_ (fun wnd hwnd _ => hready wnd hwnd) hwnd
    rw [h.requests, h.size]
    exact hlimit
  · exact h.within a wnd hwnd

theorem Bounded.inc (h : Bounded R W m) (hR : 1 ≤ R) (hW : 1 ≤ W) (hlimit : W * R < 2 ^ 31)
    (hready : ∀ wnd, m.window addr = some wnd → m.Ready wnd) (now : ℤ) :
    Bounded R W (m.inc addr now).2 := by
  obtain ⟨l, hl, hord, hlookup⟩ := inc_spec m addr now h.ordered
  rw [hl]
  refine ⟨h.requests, h.size, hord, fun a wnd hwnd => ?_⟩
  rcases hlookup a with hkept | ⟨hnone, -⟩
  · exact h.after hR hW hlimit hready (hkept.symm.trans hwnd)
  · cases hnone.symm.trans hwnd

theorem Bounded.incKeeping (h : Bounded R W m) (hR : 1 ≤ R) (hW : 1 ≤ W)
    (hlimit : W * R < 2 ^ 31) (hready : ∀ wnd, m.window addr = some wnd → m.Ready wnd) (now : ℤ) :
    Bounded R W (m.incKeeping addr now).2 := by
  refine ⟨h.requests, h.size, ?_, fun a wnd hwnd => ?_⟩
  · rw [IpMap.incKeeping]
    dsimp only
    split
    · exact (h.ordered.set _ _).filter _
    · exact h.ordered.set _ _
  · rw [window_incKeeping] at hwnd
    exact h.after hR hW hlimit hready hwnd

/-- No call overflows a map whose limit leaves room for one more call. -/
theorem Bounded.not_overflows (h : Bounded R W m) (hR : 1 ≤ R) (hlimit : W * R < 2 ^ 31 - 1)
    (addr : BitVec 32) (now : ℤ) : ¬ m.Overflows addr now := by
  refine (next_cases_of_ready (h.requests ▸ hR) ?_ fun wnd hwnd _ => h.ready hlimit hwnd).1
  rw [h.requests, h.size]
  omega

/-- **A record that is evicted would have been given up**: at the boundary, where it is as old as
two windows and no older, the whole count is debited. -/
theorem next_of_old (hR : 1 ≤ m.requestsPerSec) (hW : 2 ≤ m.wndSizeSec)
    (hlimit : m.wndSizeSec * m.requestsPerSec < 2 ^ 31) (hwithin : m.Within wnd)
    (hold : m.Old wnd now) : m.next (some wnd) now = m.next none now := by
  have hre : m.Reopens wnd now := by
    by_contra hnot
    rw [Old] at hold
    rcases hold.lt_or_eq with hlt | heq
    · exact hnot (.inl hlt)
    · have hpast : wnd.tpStart + seconds m.wndSizeSec + seconds 1 < now := by
        rw [← heq]
        simp only [seconds]
        omega
      have hsecs : m.secsPast wnd now = m.wndSizeSec := by
        rw [secsPast, if_pos hpast, ← heq]
        simp only [seconds, one_mul]
        omega
      obtain ⟨hcount, hpos, -⟩ := moved_count hR hlimit hwithin hnot
      rw [hsecs] at hcount
      have hle := hwithin.2
      omega
  rw [next, nextWindow_eq, if_pos hre]
  rfl

/-- **The two maps**: the same record of the address, or one that is evicted in the first map and
kept in the second. -/
structure Same (R W last : ℤ) (a : BitVec 32) (m k : IpMap) : Prop where
  evicting : Bounded R W m
  keeping : Bounded R W k
  window : m.window a = k.window a ∨
    m.window a = none ∧ ∃ wnd, k.window a = some wnd ∧ k.Old wnd last

theorem Same.next_eq (hR : 1 ≤ R) (hW : 2 ≤ W) (hlimit : W * R < 2 ^ 31)
    (h : Same R W last a m k) (hle : last ≤ now) :
    m.next (m.window a) now = k.next (k.window a) now := by
  have hcongr : ∀ wnd, m.next wnd now = k.next wnd now := by
    intro wnd
    cases wnd with
    | none => rfl
    | some wnd =>
      simp only [next, nextWindow, IpMap.countRequest, h.evicting.requests, h.keeping.requests,
        h.evicting.size, h.keeping.size]
  rcases h.window with heq | ⟨hnone, wnd, hwnd, hold⟩
  · rw [hcongr, heq]
  · rw [hcongr, hnone, hwnd]
    have hlimit' : k.wndSizeSec * k.requestsPerSec < 2 ^ 31 := by
      rw [h.keeping.requests, h.keeping.size]
      exact hlimit
    exact (next_of_old (h.keeping.requests ▸ hR) (h.keeping.size ▸ hW) hlimit'
      (h.keeping.within a wnd hwnd) (le_trans hold hle)).symm

/-- A call of another address can only evict the record. -/
theorem Same.inc_of_ne (hR : 1 ≤ R) (hW : 2 ≤ W) (hlimit : W * R < 2 ^ 31 - 1)
    (h : Same R W last a m k) (hne : a ≠ addr) (hle : last ≤ now) :
    Same R W now a (m.inc addr now).2 k := by
  refine ⟨h.evicting.inc hR (by omega) (by omega) (fun wnd => h.evicting.ready hlimit) now,
    h.keeping, ?_⟩
  obtain ⟨l, hl, -, hlookup⟩ := inc_spec m addr now h.evicting.ordered
  rw [hl]
  have hkept := hlookup a
  rw [after, if_neg hne] at hkept
  rcases h.window with heq | ⟨hnone, wnd, hwnd, hold⟩
  · rw [heq] at hkept
    refine hkept.imp_right ?_
    rintro ⟨hnone, wnd, hwnd, hold⟩
    refine ⟨hnone, wnd, hwnd, ?_⟩
    rw [Old, h.keeping.size, ← h.evicting.size]
    exact hold
  · refine .inr ⟨?_, wnd, hwnd, le_trans hold hle⟩
    rcases hkept with hkept | ⟨hkept, -⟩
    · exact hkept.trans hnone
    · exact hkept

/-- A call of the address has the same answer in both maps. -/
theorem Same.inc_self (hR : 1 ≤ R) (hW : 2 ≤ W) (hlimit : W * R < 2 ^ 31 - 1)
    (h : Same R W last a m k) (hle : last ≤ now) :
    (m.inc a now).1 = (k.incKeeping a now).1 ∧
      Same R W now a (m.inc a now).2 (k.incKeeping a now).2 := by
  have hnext := h.next_eq hR hW (by omega) hle
  refine ⟨(inc_fst m a now).trans (congrArg Prod.snd hnext),
    h.evicting.inc hR (by omega) (by omega) (fun wnd => h.evicting.ready hlimit) now,
    h.keeping.incKeeping hR (by omega) (by omega) (fun wnd => h.keeping.ready hlimit) now, ?_⟩
  obtain ⟨l, hl, -, hlookup⟩ := inc_spec m a now h.evicting.ordered
  rw [hl, window_incKeeping, after, if_pos rfl]
  have hkept := hlookup a
  rw [after, if_pos rfl, hnext] at hkept
  refine hkept.imp_right ?_
  rintro ⟨hnone, wnd, hwnd, hold⟩
  refine ⟨hnone, wnd, hwnd, ?_⟩
  have hsize : (k.incKeeping a now).2.wndSizeSec = m.wndSizeSec :=
    h.keeping.size.trans h.evicting.size.symm
  rw [Old, hsize]
  exact hold

theorem Same.answers_eq (hR : 1 ≤ R) (hW : 2 ≤ W) (hlimit : W * R < 2 ^ 31 - 1)
    (h : Same R W last a m k) {calls : List Call} (hlast : ∀ c ∈ calls, last ≤ c.2)
    (horder : InOrder calls) :
    (answers inc m calls).filter (fun r => r.1 = a)
      = answers incKeeping k (calls.filter fun c => c.1 = a) := by
  induction calls generalizing m k last with
  | nil => rfl
  | cons c calls ih =>
    obtain ⟨hfirst, hrest⟩ := List.pairwise_cons.mp horder
    have hle : last ≤ c.2 := hlast c List.mem_cons_self
    rw [answers]
    by_cases ha : c.1 = a
    · obtain ⟨hanswer, hsame⟩ := h.inc_self hR hW hlimit hle
      rw [List.filter_cons_of_pos (by simpa using ha), List.filter_cons_of_pos (by simpa using ha),
        answers, ha, hanswer, ih hsame hfirst hrest]
    · rw [List.filter_cons_of_neg (by simpa using ha), List.filter_cons_of_neg (by simpa using ha)]
      exact ih (h.inc_of_ne hR hW hlimit (Ne.symm ha) hle) hfirst hrest

/-- No call of a run overflows, with or without eviction. -/
theorem along_not_overflows (hR : 1 ≤ R) (hW : 1 ≤ W) (hlimit : W * R < 2 ^ 31 - 1)
    (calls : List Call) :
    Runs.Along (fun m c => (m.inc c.1 c.2).2) (fun m c => ¬ m.Overflows c.1 c.2) (new R W) calls ∧
      Runs.Along (fun m c => (m.incKeeping c.1 c.2).2) (fun m c => ¬ m.Overflows c.1 c.2)
        (new R W) calls :=
  ⟨Runs.Along.of_invariant (I := Bounded R W) (P := fun _ _ => True)
      (fun m c h _ => h.inc hR hW (by omega) (fun wnd => h.ready hlimit) c.2)
      (fun m c h _ => h.not_overflows hR hlimit c.1 c.2) (bounded_new R W)
      (Runs.along_of_forall_mem (fun _ _ => trivial) _),
    Runs.Along.of_invariant (I := Bounded R W) (P := fun _ _ => True)
      (fun m c h _ => h.incKeeping hR hW (by omega) (fun wnd => h.ready hlimit) c.2)
      (fun m c h _ => h.not_overflows hR hlimit c.1 c.2) (bounded_new R W)
      (Runs.along_of_forall_mem (fun _ _ => trivial) _)⟩

/-- A call at the time when the window was opened is counted. -/
theorem Bounded.inc_at_once (hR : 1 ≤ R) (hW : 1 ≤ W) (hlimit : W * R < 2 ^ 31)
    (h : Bounded R W m) (hwnd : m.window addr = some ⟨0, n⟩) (hn : n + 1 ≤ W * R) :
    Bounded R W (m.inc addr 0).2 ∧ (m.inc addr 0).2.window addr = some ⟨0, n + 1⟩ := by
  have hready : ∀ wnd, m.window addr = some wnd → m.Ready wnd := by
    intro wnd hwnd'
    cases hwnd.symm.trans hwnd'
    exact ⟨h.within addr _ hwnd, by dsimp only; omega⟩
  refine ⟨h.inc hR hW hlimit hready 0, ?_⟩
  have hyoung : ¬ (0 + seconds m.wndSizeSec + seconds m.wndSizeSec ≤ 0) := by
    rw [h.size]
    simp only [seconds]
    omega
  have hpast : ¬ (0 + seconds m.wndSizeSec + seconds 1 < 0) := by
    rw [h.size]
    simp only [seconds]
    omega
  have hnot : ¬ m.Reopens ⟨0, n⟩ 0 :=
    not_or.mpr ⟨fun hlt => hyoung hlt.le, fun hcount => hpast hcount.1⟩
  have hcounted : m.counted ⟨0, n⟩ 0 = (⟨0, n + 1⟩, false) := by
    have hsecs : m.secsPast ⟨0, n⟩ 0 = 0 := if_neg hpast
    have hle : ¬ m.wndSizeSec * m.requestsPerSec < n + 1 := by
      rw [h.size, h.requests]
      omega
    simp [counted, hsecs, seconds, hle]
  have hafter : m.after addr 0 addr = some ⟨0, n + 1⟩ := by
    have hlimit' : m.wndSizeSec * m.requestsPerSec < 2 ^ 31 := by
      rw [h.requests, h.size]
      exact hlimit
    rw [IpMap.after, if_pos rfl, hwnd, next, nextWindow_eq, if_neg hnot,
      countRequest_eq (h.requests ▸ hR) hlimit' (hready _ hwnd).1 (hready _ hwnd).2 hnot, hcounted]
    rfl
  obtain ⟨l, hl, -, hlookup⟩ := inc_spec m addr 0 h.ordered
  rw [hl]
  rcases hlookup addr with hkept | ⟨-, wnd, hwnd', hold⟩
  · exact hkept.trans hafter
  · cases hafter.symm.trans hwnd'
    exact absurd hold hyoung

/-- Calls at once are counted up to the limit. -/
theorem window_replicate (hR : 1 ≤ R) (hW : 1 ≤ W) (hlimit : W * R < 2 ^ 31) (addr : BitVec 32)
    (n : ℕ) (hn : n + 1 ≤ W * R) :
    let m := Runs.exec (fun m (c : Call) => (m.inc c.1 c.2).2) (new R W)
      (List.replicate (n + 1) (addr, 0))
    Bounded R W m ∧ m.window addr = some ⟨0, n + 1⟩ := by
  induction n with
  | zero =>
    have hmap := inc_new (R := R) hW addr
    refine ⟨(bounded_new R W).inc hR hW hlimit (fun wnd h => by cases h) 0, ?_⟩
    change ((new R W).inc addr 0).2.window addr = _
    rw [hmap]
    simp [window, lookup]
  | succ n ih =>
    obtain ⟨hbounded, hwnd⟩ := ih (by push_cast at hn; omega)
    rw [List.replicate_succ', Runs.exec_append]
    exact hbounded.inc_at_once hR hW hlimit hwnd (by push_cast at hn ⊢; omega)

/-- A window that has as many calls as an `int` can count. -/
theorem Bounded.overflows_at_once (hW : 1 ≤ W) (h : Bounded R W m)
    (hwnd : m.window addr = some ⟨0, n⟩) (hn : 2 ^ 31 ≤ n + 1) : m.Overflows addr 0 := by
  have hpast : ¬ (0 + seconds m.wndSizeSec + seconds 1 < 0) := by
    rw [h.size]
    simp only [seconds]
    omega
  refine ⟨_, hwnd, ?_, fun hfits => ?_⟩
  · rw [Reopens, h.size]
    simp only [seconds]
    omega
  · have hcount : (m.moved ⟨0, n⟩ 0).count = n := if_neg hpast
    have hlt := hfits.2.2
    rw [hcount] at hlt
    omega

/-- **A limit that leaves no room for one more call**: calls at once come to an overflow. -/
theorem exists_overflows (hR : 1 ≤ R) (hW : 1 ≤ W) (hlimit : ¬ W * R < 2 ^ 31 - 1)
    (addr : BitVec 32) :
    ∃ n, (Runs.exec (fun m (c : Call) => (m.inc c.1 c.2).2) (new R W)
      (List.replicate n (addr, 0))).Overflows addr 0 := by
  by_cases hfits : W * R < 2 ^ 31
  · obtain ⟨n, hn⟩ := Int.eq_ofNat_of_zero_le (show 0 ≤ W * R - 1 by omega)
    obtain ⟨hbounded, hwnd⟩ := window_replicate hR hW hfits addr n (by omega)
    exact ⟨n + 1, hbounded.overflows_at_once hW hwnd (by omega)⟩
  · exact ⟨1, (overflows_second hW hfits addr).1⟩

end

/-- **Eviction is invisible**: an address gets the answers of a map that never evicts and that only
it calls.  This holds, and no `int` overflows in either map, exactly when one more than the limit
is an `int`. -/
theorem answers_inc_iff (R W : ℤ) (hR : 1 ≤ R) (hW : 2 ≤ W) :
    (∀ (calls : List Call) (a : BitVec 32), InOrder calls →
      Runs.Along (fun m c => (m.inc c.1 c.2).2) (fun m c => ¬ m.Overflows c.1 c.2) (new R W)
        calls ∧
      Runs.Along (fun m c => (m.incKeeping c.1 c.2).2) (fun m c => ¬ m.Overflows c.1 c.2) (new R W)
        (calls.filter fun c => c.1 = a) ∧
      (answers inc (new R W) calls).filter (fun r => r.1 = a)
        = answers incKeeping (new R W) (calls.filter fun c => c.1 = a)) ↔
      W * R < 2 ^ 31 - 1 := by
  constructor
  · intro h
    by_contra hlimit
    obtain ⟨n, hoverflows⟩ := exists_overflows hR (by omega) hlimit 0#32
    have horder : InOrder (List.replicate n (0#32, 0) ++ [(0#32, 0)]) := by
      rw [← List.replicate_succ']
      exact List.pairwise_replicate.mpr (.inr le_rfl)
    exact (h _ 0#32 horder).1.at_step hoverflows
  · intro hlimit calls a horder
    refine ⟨(along_not_overflows hR (by omega) hlimit _).1,
      (along_not_overflows hR (by omega) hlimit _).2, ?_⟩
    cases calls with
    | nil => rfl
    | cons c calls =>
      have hsame : Same R W c.2 a (new R W) (new R W) :=
        ⟨bounded_new R W, bounded_new R W, .inl rfl⟩
      refine hsame.answers_eq hR hW hlimit (fun d hd => ?_) horder
      rcases List.mem_cons.mp hd with rfl | hd
      · exact le_rfl
      · exact List.rel_of_pairwise_cons horder hd

/-- At the boundary, after a call of the neighbour that evicts the record. -/
theorem answers_inc_boundary :
    (answers inc (new 3 2) [(7#32, 0), (7#32, 5), (3#32, seconds 4), (7#32, seconds 4)]).filter
        (fun r => r.1 = 7#32)
      = answers incKeeping (new 3 2)
        ([(7#32, 0), (7#32, 5), (3#32, seconds 4), (7#32, seconds 4)].filter
          fun c => c.1 = 7#32) :=
  ((answers_inc_iff 3 2 (by decide) (by decide)).mpr (by decide) _ 7#32
    (List.pairwise_cons.mpr ⟨by decide, List.pairwise_cons.mpr
      ⟨by decide, List.pairwise_pair.mpr (by decide)⟩⟩)).2.2

/-- With a limit of `2 ^ 32` the count is not debited at the boundary, and the call triggers; when
the neighbour has evicted the record, it opens a new window. -/
theorem answers_inc_overflow :
    (answers inc (new 65536 65536)
        [(7#32, 0), (3#32, seconds 131072), (7#32, seconds 131072)]).filter (fun r => r.1 = 7#32)
      = [(7#32, false), (7#32, false)] ∧
    answers incKeeping (new 65536 65536)
        ([(7#32, 0), (3#32, seconds 131072), (7#32, seconds 131072)].filter fun c => c.1 = 7#32)
      = [(7#32, false), (7#32, true)] := by
  decide

end IpMap
