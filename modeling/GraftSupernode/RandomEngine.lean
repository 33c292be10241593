/-
# Random engines

The engine `std::mt19937_64` and the seed sequence `std::seed_seq` of the C++ standard
library, as `FullSupernodeList` uses them: an engine is seeded again for every sample
and asked for one number after another.  `RandomEngine` is this interface, and
`SeedDetermines` says that nothing of an engine survives its seeding.  It is proved for
`mt19937_64`.
-/
import Mathlib.Data.Nat.Notation

/-- A random engine with states in `ρ`: `seed` from the bytes of a seed sequence, and `next`
for the next number. -/
structure RandomEngine (ρ : Type*) where
  seed : ρ → List UInt8 → ρ
  next : ρ → UInt64 × ρ

namespace RandomEngine

variable {ρ : Type*} {R : RandomEngine ρ} {r r' : ρ}

/-- The `n`-th number from a state. -/
def value (R : RandomEngine ρ) : ρ → ℕ → UInt64
  | r, 0 => (R.next r).1
  | r, n + 1 => R.value (R.next r).2 n

/-- Two states that nobody can tell apart by the numbers they give. -/
def SameOutputs (R : RandomEngine ρ) (r r' : ρ) : Prop := ∀ n, R.value r n = R.value r' n

/-- Seeding determines every later number. -/
def SeedDetermines (R : RandomEngine ρ) : Prop :=
  ∀ r r' bytes, R.SameOutputs (R.seed r bytes) (R.seed r' bytes)

/-- Two engines with the same outputs have the same first one. -/
theorem SameOutputs.fst (h : R.SameOutputs r r') : (R.next r).1 = (R.next r').1 := h 0

/-- They go on with the same outputs. -/
theorem SameOutputs.snd (h : R.SameOutputs r r') : R.SameOutputs (R.next r).2 (R.next r').2 :=
  fun n => h (n + 1)

end RandomEngine

/-! ## `std::seed_seq` -/

namespace SeedSeq

/-- `x ^ (x >> 27)` -/
def mix (x : UInt32) : UInt32 := x ^^^ (x >>> 27)

/-- The distance `t` of the positions that one round of `generate` changes. -/
def lag (n : ℕ) : ℕ :=
  if 623 ≤ n then 11 else if 68 ≤ n then 7 else if 39 ≤ n then 5 else if 7 ≤ n then 3
  else (n - 1) / 2

/-- `b[k % n]` -/
def word (b : Array UInt32) (k : ℕ) : UInt32 := b.getD (k % b.size) 0

/-- `b[k % n] = x` -/
def put (b : Array UInt32) (k : ℕ) (x : UInt32) : Array UInt32 := b.set! (k % b.size) x

/-- One round of the first loop. -/
def round₁ (v : Array UInt8) (b : Array UInt32) (k : ℕ) : Array UInt32 :=
  let n := b.size
  let p := (n - lag n) / 2
  let q := p + lag n
  let r₁ := 1664525 * mix (word b k ^^^ word b (k + p) ^^^ word b (k + n - 1))
  let r₂ := r₁ + (if k = 0 then v.size.toUInt32
    else if k ≤ v.size then (k % n).toUInt32 + (v.getD (k - 1) 0).toUInt32
    else (k % n).toUInt32)
  let b := put b (k + p) (word b (k + p) + r₁)
  let b := put b (k + q) (word b (k + q) + r₂)
  put b k r₂

/-- One round of the second loop. -/
def round₂ (b : Array UInt32) (k : ℕ) : Array UInt32 :=
  let n := b.size
  let p := (n - lag n) / 2
  let q := p + lag n
  let r₃ := 1566083941 * mix (word b k + word b (k + p) + word b (k + n - 1))
  let r₄ := r₃ - (k % n).toUInt32
  let b := put b (k + p) (word b (k + p) ^^^ r₃)
  let b := put b (k + q) (word b (k + q) ^^^ r₄)
  put b k r₄

/-- `seed_seq::generate` for `n` words. -/
def generate (v : Array UInt8) (n : ℕ) : Array UInt32 :=
  let m := max (v.size + 1) n
  let b := (List.range m).foldl (round₁ v) (Array.replicate n 0x8b8b8b8b)
  (List.range' m n).foldl round₂ b

end SeedSeq

/-! ## `std::mt19937_64` -/

/-- `std::mt19937_64`: the words of the state, and how many of them have been used. -/
structure Mt19937_64 where
  x : Array UInt64
  used : ℕ

namespace Mt19937_64

/-- The words of the state. -/
def wordCount : ℕ := 312

/-- The state words from a seed sequence. -/
def seedWords (bytes : List UInt8) : Array UInt64 :=
  let a := SeedSeq.generate bytes.toArray (2 * wordCount)
  let x := Array.ofFn fun i : Fin wordCount =>
    (a.getD (2 * i) 0).toUInt64 + ((a.getD (2 * i + 1) 0).toUInt64 <<< 32)
  -- a state without any bit set would give zeros for ever
  if (x.getD 0 0) >>> 31 = 0 && (x.extract 1 wordCount).all (· = 0) then x.set! 0 ((1 : UInt64) <<< 63)
  else x

/-- `mt19937_64::seed` -/
def seed (_ : Mt19937_64) (bytes : List UInt8) : Mt19937_64 := ⟨seedWords bytes, wordCount⟩

/-- One step of the recurrence. -/
def twist (x : Array UInt64) (i : ℕ) : Array UInt64 :=
  let y := (x.getD i 0 &&& 0xffffffff80000000)
    ||| (x.getD ((i + 1) % wordCount) 0 &&& 0x7fffffff)
  x.set! i (x.getD ((i + 156) % wordCount) 0 ^^^ (y >>> 1)
    ^^^ (if y &&& 1 = 0 then 0 else 0xb5026f5aa96619e9))

/-- The number that a word gives. -/
def temper (z : UInt64) : UInt64 :=
  let z := z ^^^ ((z >>> 29) &&& 0x5555555555555555)
  let z := z ^^^ ((z <<< 17) &&& 0x71d67fffeda60000)
  let z := z ^^^ ((z <<< 37) &&& 0xfff7eee000000000)
  z ^^^ (z >>> 43)

/-- `mt19937_64::operator()` -/
def next (r : Mt19937_64) : UInt64 × Mt19937_64 :=
  let r := if r.used < wordCount then r else ⟨(List.range wordCount).foldl twist r.x, 0⟩
  (temper (r.x.getD r.used 0), { r with used := r.used + 1 })

end Mt19937_64

/-- `std::mt19937_64` as a random engine. -/
def mt19937_64 : RandomEngine Mt19937_64 := ⟨Mt19937_64.seed, Mt19937_64.next⟩

/-- The seed of the engine in use determines its state. -/
theorem seedDetermines_mt19937_64 : mt19937_64.SeedDetermines := fun _ _ _ _ => rfl
