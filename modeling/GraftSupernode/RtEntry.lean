/-
# Prefixes of addresses

`BlackListImpl::RtEntry` (`blacklist.cpp`), the key of the radix tree: an address in host order,
with the length of a prefix of it.

* `bit`, `radixSubstr`, `radixJoin`: what the radix tree asks of a key;
* `word`: the bits of an address, `bits`: those of the prefix, both with the first one first;
* `Masked`: beyond its length, the address of the entry is zero.

`radixSubstr` takes the bits from the address, so it has zeros to offer beyond the length of the
entry; each function has a lemma that says which bits it gives.
-/
import Mathlib.Data.BitVec
import Mathlib.Data.List.Infix
import Mathlib.Data.List.Range

/-- `BlackListImpl::RtEntry` -/
structure RtEntry where
  addr : BitVec 32
  prefixLen : ℕ
  deriving DecidableEq

/-- The bits of an address. -/
def word (a : BitVec 32) : List Bool := (List.range 32).map a.getMsbD

/-- An address has 32 bits. -/
@[simp] theorem length_word (a : BitVec 32) : (word a).length = 32 := by simp [word]

/-- The bits of an address begin with the highest one. -/
theorem getElem_word {a : BitVec 32} {i : ℕ} (h : i < (word a).length) :
    (word a)[i] = a.getMsbD i := by
  simp [word]

/-- The bits determine the address. -/
theorem word_injective {a b : BitVec 32} (h : word a = word b) : a = b := by
  apply BitVec.eq_of_getMsbD_eq
  intro i hi
  have ha : i < (word a).length := by simpa using hi
  have hb : i < (word b).length := by simpa using hi
  rw [← getElem_word ha, ← getElem_word hb]
  simp only [h]

namespace RtEntry

variable {e e' : RtEntry}

/-- The key of the root and of a leaf. -/
def nul : RtEntry := ⟨0, 0⟩

/-- `RtEntry::operator[]` -/
def bit (e : RtEntry) (n : ℕ) : Bool := e.addr &&& (0x80000000#32 >>> n) ≠ 0

/-- `radix_substr`.  For no bits the source shifts a mask that is zero by 32. -/
def radixSubstr (e : RtEntry) (start num : ℕ) : RtEntry :=
  let mask := ((if num = 32 then 0#32 else 1#32 <<< num) - 1) <<< (32 - num - start)
  ⟨(e.addr &&& mask) <<< start, num⟩

/-- `radix_join` -/
def radixJoin (e₁ e₂ : RtEntry) : RtEntry :=
  ⟨e₁.addr ||| (e₂.addr >>> e₁.prefixLen), e₁.prefixLen + e₂.prefixLen⟩

/-- The bits of the prefix. -/
def bits (e : RtEntry) : List Bool := (word e.addr).take e.prefixLen

/-- The address is zero beyond the prefix. -/
structure Masked (e : RtEntry) : Prop where
  le : e.prefixLen ≤ 32
  zero : ∀ i, e.prefixLen ≤ i → e.addr.getMsbD i = false

/-- `radix_substr` has the length that is asked for. -/
@[simp] theorem radixSubstr_prefixLen (e : RtEntry) (start num : ℕ) :
    (e.radixSubstr start num).prefixLen = num := rfl

/-- `radix_join` has the lengths of both. -/
@[simp] theorem radixJoin_prefixLen (e e' : RtEntry) :
    (e.radixJoin e').prefixLen = e.prefixLen + e'.prefixLen := rfl

/-! ## The bits -/

/-- The shifted sign bit is one bit. -/
theorem shiftRight_signBit :
    ∀ n < 32, 0x80000000#32 >>> n = BitVec.twoPow 32 (31 - n) := by decide

/-- `[]` reads the bits from the highest one on. -/
theorem bit_eq (e : RtEntry) (n : ℕ) : e.bit n = e.addr.getMsbD n := by
  unfold bit
  by_cases hn : n < 32
  · have hpow : BitVec.twoPow 32 (31 - n) ≠ 0 := by
      rw [← shiftRight_signBit n hn]
      intro h
      have hbit := congrArg (fun x => x.getMsbD n) h
      simp [hn] at hbit
    rw [shiftRight_signBit n hn, BitVec.and_twoPow, BitVec.getMsbD_eq_getLsbD]
    cases h : e.addr.getLsbD (31 - n)
    · simp
    · simpa [hn] using hpow
  · rw [BitVec.ushiftRight_eq_zero (by omega), BitVec.getMsbD_of_ge _ _ (by omega)]
    simp

/-- The lowest `num` bits. -/
theorem getMsbD_lowBits : ∀ num < 33, ∀ i < 32,
    ((if num = 32 then 0#32 else 1#32 <<< num) - 1).getMsbD i = decide (32 - num ≤ i) := by
  decide +kernel

/-- The mask has ones where the bits are taken. -/
theorem getMsbD_mask {start num i : ℕ} (h : start + num ≤ 32) :
    (((if num = 32 then 0#32 else 1#32 <<< num) - 1) <<< (32 - num - start)).getMsbD i
      = decide (start ≤ i ∧ i < start + num) := by
  rw [BitVec.getMsbD_shiftLeft]
  by_cases hi : i + (32 - num - start) < 32
  · rw [getMsbD_lowBits num (by omega) _ hi]
    apply decide_eq_decide.mpr
    omega
  · rw [BitVec.getMsbD_of_ge _ _ (by omega)]
    symm
    apply decide_eq_false
    omega

/-- `radix_substr` has the bits from `start` on, and zeros behind them. -/
theorem getMsbD_radixSubstr (e : RtEntry) {start num : ℕ} (h : start + num ≤ 32) (i : ℕ) :
    (e.radixSubstr start num).addr.getMsbD i = (decide (i < num) && e.addr.getMsbD (start + i)) := by
  unfold radixSubstr
  dsimp only
  rw [BitVec.getMsbD_shiftLeft, BitVec.getMsbD_and, getMsbD_mask h, Nat.add_comm i start,
    Bool.and_comm]
  congr 1
  simp

/-- A prefix has as many bits as its length says. -/
theorem length_bits (h : e.prefixLen ≤ 32) : e.bits.length = e.prefixLen := by
  rw [bits, List.length_take, length_word]
  omega

/-- The bits of a prefix are the first bits of its address. -/
theorem bits_prefix_word (e : RtEntry) : e.bits <+: word e.addr := List.take_prefix _ _

/-- The bits of a prefix are those that `[]` reads. -/
theorem getElem_bits {i : ℕ} (h : i < e.bits.length) : e.bits[i] = e.bit i := by
  rw [bit_eq]
  simp [bits, word]

/-- What is beyond the prefix does not matter in a masked entry. -/
theorem Masked.ext (h : e.Masked) (h' : e'.Masked) (hbits : e.bits = e'.bits) : e = e' := by
  have hlen : e.prefixLen = e'.prefixLen := by
    rw [← length_bits h.le, ← length_bits h'.le, hbits]
  have haddr : e.addr = e'.addr := by
    apply BitVec.eq_of_getMsbD_eq
    intro i _
    by_cases hi : i < e.prefixLen
    · have hi₁ : i < e.bits.length := by rwa [length_bits h.le]
      have hi₂ : i < e'.bits.length := by rwa [← hbits]
      rw [← bit_eq, ← bit_eq, ← getElem_bits hi₁, ← getElem_bits hi₂]
      simp only [hbits]
    · rw [h.zero i (by omega), h'.zero i (by omega)]
  cases e
  cases e'
  cases hlen
  cases haddr
  rfl

/-- Only the bits that an address has are to be looked at. -/
theorem masked_of_forall_lt (hle : e.prefixLen ≤ 32)
    (h : ∀ i < 32, e.prefixLen ≤ i → e.addr.getMsbD i = false) : e.Masked := by
  refine ⟨hle, fun i hi => ?_⟩
  by_cases hlt : i < 32
  · exact h i hlt hi
  · exact BitVec.getMsbD_of_ge _ _ (not_lt.mp hlt)

/-- The entry of one address. -/
theorem masked_address (a : BitVec 32) : (⟨a, 32⟩ : RtEntry).Masked :=
  masked_of_forall_lt le_rfl fun _ hlt hi => absurd hlt (not_lt.mpr hi)

/-- A prefix of 32 bits is the whole address. -/
@[simp] theorem bits_address (a : BitVec 32) : (⟨a, 32⟩ : RtEntry).bits = word a := by
  rw [bits, List.take_of_length_le]
  rw [length_word]

/-- `radix_substr` has zeros behind its length. -/
theorem masked_radixSubstr (e : RtEntry) {start num : ℕ} (h : start + num ≤ 32) :
    (e.radixSubstr start num).Masked := by
  refine ⟨?_, fun i hi => ?_⟩
  · show num ≤ 32
    omega
  · have hi : num ≤ i := hi
    rw [getMsbD_radixSubstr e h, decide_eq_false (by omega), Bool.false_and]

/-- **The bits of a part** are those of the address. -/
theorem bits_radixSubstr (e : RtEntry) {start num : ℕ} (h : start + num ≤ 32) :
    (e.radixSubstr start num).bits = ((word e.addr).drop start).take num := by
  apply List.ext_getElem
  · rw [length_bits (masked_radixSubstr e h).le]
    simp
    omega
  · intro i hi hi'
    have hlt : i < num := by
      rw [length_bits (masked_radixSubstr e h).le] at hi
      exact hi
    rw [getElem_bits, bit_eq, getMsbD_radixSubstr e h, decide_eq_true hlt, Bool.true_and]
    simp [word]

/-- **A part is equal to a key** when the key's bits come next in the address. -/
theorem radixSubstr_eq_iff {start : ℕ} (h' : e'.Masked) (hle : start + e'.prefixLen ≤ 32) :
    e.radixSubstr start e'.prefixLen = e' ↔ e'.bits <+: (word e.addr).drop start := by
  rw [List.prefix_iff_eq_take, length_bits h'.le, ← bits_radixSubstr e hle]
  constructor
  · intro heq
    rw [heq]
  · intro hbits
    exact (masked_radixSubstr e hle).ext h' hbits.symm

/-- `radix_join` has the bits of the first prefix, and then those of the second one. -/
theorem getMsbD_radixJoin (e e' : RtEntry) {i : ℕ} (hi : i < 32) :
    (e.radixJoin e').addr.getMsbD i =
      (e.addr.getMsbD i || (!decide (i < e.prefixLen) && e'.addr.getMsbD (i - e.prefixLen))) := by
  unfold radixJoin
  dsimp only
  rw [BitVec.getMsbD_or, BitVec.getMsbD_ushiftRight, decide_eq_true hi, Bool.true_and]

/-- Joined prefixes have zeros behind their length. -/
theorem masked_radixJoin (h : e.Masked) (h' : e'.Masked) (hle : e.prefixLen + e'.prefixLen ≤ 32) :
    (e.radixJoin e').Masked := by
  refine ⟨hle, fun i hi => ?_⟩
  have hi : e.prefixLen + e'.prefixLen ≤ i := hi
  by_cases hlt : i < 32
  · rw [getMsbD_radixJoin e e' hlt, h.zero i (by omega), h'.zero _ (by omega)]
    simp
  · exact BitVec.getMsbD_of_ge _ _ (by omega)

/-- **The bits of two keys that are joined**. -/
theorem bits_radixJoin (h : e.Masked) (hle : e.prefixLen + e'.prefixLen ≤ 32) :
    (e.radixJoin e').bits = e.bits ++ e'.bits := by
  have hlen : e.bits.length = e.prefixLen := length_bits h.le
  apply List.ext_getElem
  · rw [length_bits hle, List.length_append, hlen, length_bits (by omega)]
    rfl
  · intro i hi hi'
    have hlt : i < 32 := by
      rw [length_bits hle, radixJoin_prefixLen] at hi
      omega
    rw [getElem_bits, bit_eq, getMsbD_radixJoin e e' hlt, List.getElem_append]
    split
    · rename_i hlt
      rw [getElem_bits, bit_eq, decide_eq_true (by omega)]
      simp
    · rename_i hge
      rw [getElem_bits, bit_eq, h.zero i (by omega), decide_eq_false (by omega), hlen]
      simp

end RtEntry
