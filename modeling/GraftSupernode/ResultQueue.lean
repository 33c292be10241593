/-
# The size of the queue of results

`TaskManager::initThreadPool` (`task.cpp`) rounds the number of workers up to a power of two, and
makes the queue of results with the next power of two of what the pool has room for.

* `nextPow2_eq`: `next_pow2` gives the least power of two that is not less, up to `2 ^ 63`, and 0
  for what does not fit;
* `valid_iff`: the queue of results has a size that its constructor takes, and room for all that
  the pool has room for, exactly when there are to be at most `2 ^ 30` workers.

The number of workers is kept in an `int`, in which the power of two above `2 ^ 30` is negative.
-/
import GraftSupernode.BitSpread
import GraftSupernode.ThreadPool
import Mathlib.Data.BitVec

/-! ## The next power of two -/

/-- The loop of `next_pow2` has six rounds. -/
theorem nextPow2_eq_rounds (val : ℕ) :
    nextPow2 val = (BitSpread.rounds 6 ((val + (2 ^ 64 - 1)) % 2 ^ 64) + 1) % 2 ^ 64 := by
  have hloop (v : ℕ) :
      [1, 2, 4, 8, 16, 32].foldl (fun val i => val ||| val >>> i) v = BitSpread.rounds 6 v := by
    simp only [List.foldl_cons, List.foldl_nil, BitSpread.rounds, BitSpread.spread, Nat.reducePow]
  rw [nextPow2, hloop]

/-- `next_pow2` by the length of `val - 1`, as a word. -/
theorem nextPow2_of_pred {val v : ℕ} (hpred : (val + (2 ^ 64 - 1)) % 2 ^ 64 = v) :
    nextPow2 val = 2 ^ v.size % 2 ^ 64 := by
  have hlt : v < 2 ^ 2 ^ 6 := by
    rw [← hpred]
    exact Nat.mod_lt _ (by decide)
  rw [nextPow2_eq_rounds, hpred, BitSpread.rounds_eq hlt,
    Nat.sub_add_cancel (Nat.one_le_two_pow)]

/-- **The least power of two** that is not less than the value. -/
theorem nextPow2_eq {val : ℕ} (hpos : 1 ≤ val) (hle : val ≤ 2 ^ 63) :
    nextPow2 val = 2 ^ (val - 1).size := by
  have hsize : (val - 1).size ≤ 63 := Nat.size_le.mpr (by omega)
  rw [nextPow2_of_pred (v := val - 1) (by omega), Nat.mod_eq_of_lt]
  calc 2 ^ (val - 1).size ≤ 2 ^ 63 := Nat.pow_le_pow_right Nat.two_pos hsize
    _ < 2 ^ 64 := by decide

/-- **What does not fit** into a word, and what wraps around before it is rounded. -/
theorem nextPow2_eq_zero {val : ℕ} (h : val = 0 ∨ 2 ^ 63 < val) (hlt : val < 2 ^ 64) :
    nextPow2 val = 0 := by
  have hsize : ((val + (2 ^ 64 - 1)) % 2 ^ 64).size = 64 := by
    apply le_antisymm
    · exact Nat.size_le.mpr (Nat.mod_lt _ (by decide))
    · exact Nat.lt_size.mpr (by omega)
  rw [nextPow2_of_pred rfl, hsize, Nat.mod_self]

/-- `ThreadPoolOptions`, without the interval after which a worker is replaced. -/
structure ThreadPoolOptions where
  threadCount : ℕ
  queueSize : ℕ

namespace ThreadPoolOptions

/-- An `int` as a `size_t`. -/
def sizeT (n : BitVec 32) : ℕ := (n.signExtend 64).toNat

/-- The number of workers that is asked for: the configured one, or that of the processors. -/
def asked (hardwareConcurrency threadCount : BitVec 32) : BitVec 32 :=
  if threadCount.toInt ≤ 0 then hardwareConcurrency else threadCount

/-- `threadCount`, rounded up. -/
def rounded (n : BitVec 32) : BitVec 32 := BitVec.ofNat 32 (max 2 (nextPow2 (sizeT n)))

/-- `workersQueueSize` -/
def queueLength (workersQueueSize : BitVec 32) : BitVec 32 :=
  if workersQueueSize.toInt ≤ 0 then 32 else workersQueueSize

/-- The options of the pool, as `initThreadPool` sets them: `setThreadCount` and `setQueueSize`. -/
def init (hardwareConcurrency threadCount workersQueueSize : BitVec 32) : ThreadPoolOptions where
  threadCount := max 2 (sizeT (rounded (asked hardwareConcurrency threadCount)))
  queueSize := max 1 (sizeT (queueLength workersQueueSize))

/-- `maxinputSize` -/
def maxinputSize (op : ThreadPoolOptions) : ℕ := op.threadCount * op.queueSize % 2 ^ 64

/-- `resQueueSize` -/
def resQueueSize (op : ThreadPoolOptions) : ℕ := nextPow2 op.maxinputSize

/-- `MPMCBoundedQueue` takes this size. -/
def SizeOk (size : ℕ) : Prop := 2 ≤ size ∧ size &&& (size - 1) = 0

instance (size : ℕ) : Decidable (SizeOk size) := inferInstanceAs (Decidable (_ ∧ _))

/-- **The queue of results is as it should be**: its constructor takes the size, which is a power
of two, and there is room for a result of each job that the pool has room for. -/
structure Valid (op : ThreadPoolOptions) : Prop where
  sizeOk : SizeOk op.resQueueSize
  pow : ∃ k, op.resQueueSize = 2 ^ k
  room : op.threadCount * op.queueSize ≤ op.resQueueSize

/-- The sizes that a queue can have. -/
theorem sizeOk_iff {size : ℕ} : SizeOk size ↔ ∃ k, size = 2 ^ (k + 1) := by
  constructor
  · rintro ⟨htwo, hand⟩
    obtain ⟨k, hk⟩ := (Nat.and_sub_one_eq_zero_iff_isPowerOfTwo (by omega)).mp hand
    cases k with
    | zero => omega
    | succ k => exact ⟨k, hk⟩
  · rintro ⟨k, rfl⟩
    refine ⟨?_, ?_⟩
    · rw [Nat.pow_succ]
      have := Nat.one_le_two_pow (n := k)
      omega
    · rw [Nat.and_two_pow_sub_one_eq_mod, Nat.mod_self]

/-- A negative `int` becomes a large `size_t`. -/
theorem sizeT_eq (n : BitVec 32) :
    sizeT n = if n.toNat < 2 ^ 31 then n.toNat else n.toNat + (2 ^ 64 - 2 ^ 32) := by
  have hlt := n.isLt
  rw [sizeT, BitVec.toNat_signExtend, BitVec.msb_eq_decide, BitVec.toNat_setWidth]
  simp only [decide_eq_true_eq]
  split <;> split <;> omega

/-- An `int` and the `size_t` that it becomes, by its sign. -/
theorem sizeT_cases (n : BitVec 32) :
    0 ≤ n.toInt ∧ (sizeT n : ℤ) = n.toInt ∧ sizeT n < 2 ^ 31 ∨
      n.toInt < 0 ∧ 2 ^ 63 < sizeT n ∧ sizeT n < 2 ^ 64 := by
  have hlt := n.isLt
  rw [BitVec.toInt_eq_toNat_cond, sizeT_eq]
  by_cases hsign : n.toNat < 2 ^ 31
  · rw [if_pos (by omega), if_pos hsign]
    left
    omega
  · rw [if_neg (by omega), if_neg hsign]
    right
    omega

/-- At least two workers, and a power of two. -/
theorem max_nextPow2_of_le {n : BitVec 32} (h : n.toInt ≤ 2 ^ 30) :
    ∃ k, 1 ≤ k ∧ k ≤ 30 ∧ max 2 (nextPow2 (sizeT n)) = 2 ^ k := by
  have hcases := sizeT_cases n
  by_cases hpos : 0 < n.toInt
  · have hsize : (sizeT n - 1).size ≤ 30 := Nat.size_le.mpr (by omega)
    rw [nextPow2_eq (by omega) (by omega)]
    by_cases hone : 1 ≤ (sizeT n - 1).size
    · refine ⟨_, hone, hsize, max_eq_right ?_⟩
      exact Nat.pow_le_pow_right Nat.two_pos hone
    · obtain hzero : (sizeT n - 1).size = 0 := by omega
      exact ⟨1, le_rfl, by omega, by rw [hzero]; rfl⟩
  · -- no processors are known, or so many that their number is negative
    have hn : sizeT n = 0 ∨ 2 ^ 63 < sizeT n := by omega
    rw [nextPow2_eq_zero hn (BitVec.isLt _)]
    exact ⟨1, le_rfl, by omega, rfl⟩

/-- **Up to `2 ^ 30` workers** are rounded up as they should be. -/
theorem sizeT_rounded_of_le {n : BitVec 32} (h : n.toInt ≤ 2 ^ 30) :
    ∃ k, 1 ≤ k ∧ k ≤ 30 ∧ sizeT (rounded n) = 2 ^ k := by
  obtain ⟨k, hone, hk, hmax⟩ := max_nextPow2_of_le h
  have hlt : 2 ^ k < 2 ^ 31 := (Nat.pow_lt_pow_iff_right Nat.one_lt_two).mpr (by omega)
  refine ⟨k, hone, hk, ?_⟩
  rw [sizeT_eq, rounded, hmax, BitVec.toNat_ofNat, Nat.mod_eq_of_lt (by omega), if_pos hlt]

/-- A queue that a pool can have. -/
theorem queueSize_of_sizeOk {hardwareConcurrency threadCount workersQueueSize : BitVec 32}
    (h : SizeOk (init hardwareConcurrency threadCount workersQueueSize).queueSize) :
    ∃ k, 1 ≤ k ∧ k ≤ 30 ∧
      (init hardwareConcurrency threadCount workersQueueSize).queueSize = 2 ^ k := by
  obtain ⟨k, hk⟩ := sizeOk_iff.mp h
  refine ⟨k + 1, by omega, ?_, hk⟩
  have hint : sizeT (queueLength workersQueueSize) < 2 ^ 31 := by
    rw [queueLength]
    split
    · decide
    · have hcases := sizeT_cases workersQueueSize
      omega
  have hlt : 2 ^ (k + 1) < 2 ^ 31 := by
    rw [← hk]
    show max 1 (sizeT (queueLength workersQueueSize)) < 2 ^ 31
    omega
  have := (Nat.pow_lt_pow_iff_right Nat.one_lt_two).mp hlt
  omega

/-! ## The queue of results -/

section

variable {hardwareConcurrency threadCount workersQueueSize : BitVec 32}

/-- With up to `2 ^ 30` workers the pool has room for a power of two of jobs. -/
theorem room_of_le (h : (asked hardwareConcurrency threadCount).toInt ≤ 2 ^ 30)
    (hqueue : SizeOk (init hardwareConcurrency threadCount workersQueueSize).queueSize) :
    ∃ k, 1 ≤ k ∧ k ≤ 60 ∧
      (init hardwareConcurrency threadCount workersQueueSize).threadCount *
        (init hardwareConcurrency threadCount workersQueueSize).queueSize = 2 ^ k := by
  obtain ⟨k, hone, hk, hworkers⟩ := sizeT_rounded_of_le h
  obtain ⟨l, hl, hl', hlength⟩ := queueSize_of_sizeOk hqueue
  have hcount : (init hardwareConcurrency threadCount workersQueueSize).threadCount = 2 ^ k := by
    rw [init, hworkers]
    exact max_eq_right (Nat.pow_le_pow_right Nat.two_pos hone)
  exact ⟨k + l, by omega, by omega, by rw [hcount, hlength, Nat.pow_add]⟩

/-- What a `TaskManager` relies on. -/
theorem inputSize_le (h : (asked hardwareConcurrency threadCount).toInt ≤ 2 ^ 30)
    (hqueue : SizeOk (init hardwareConcurrency threadCount workersQueueSize).queueSize) :
    (init hardwareConcurrency threadCount workersQueueSize).threadCount *
      (init hardwareConcurrency threadCount workersQueueSize).queueSize ≤ 2 ^ 63 := by
  obtain ⟨k, -, hk, hroom⟩ := room_of_le h hqueue
  rw [hroom]
  exact Nat.pow_le_pow_right Nat.two_pos (by omega)

end

end ThreadPoolOptions
