/-
# The cleanup of a table

A cleanup goes through buckets, drops the expired nodes of each and calls their `onExpired`.
`cleanup_eq` says which buckets these are, `nodup_bucketsFrom` that the cursor passes every bucket
once in as many turns, and `cleanup_spec` what becomes of the node of a key.
-/
import GraftSupernode.TableNodes
import Mathlib.Data.List.Iterate
import Mathlib.Data.Nat.ModEq

namespace TSHashtable

variable {κ V F : Type*} [DecidableEq κ] {hasher : κ → ℕ} {n : ℕ} [NeZero n]
variable {t : TSHashtable hasher n V F} {now : ℤ} {key : κ}

/-! ## What a cleanup does for a key -/

/-- The callbacks and the values of the calls for a key. -/
def callsFor (key : κ) (calls : List (ExpiredCall (κ × V) F)) : List (F × V) :=
  calls.filterMap fun c => if c.data.1 = key then some (c.onExpired, c.data.2) else none

/-- What a cleanup calls for a node that it looks at. -/
def callOf (now : ℤ) (node : TSNode (κ × V) F) : Option (F × V) :=
  if node.expired now then node.onExpired.map (·, node.data.2) else none

/-- The calls for a key come one after the other. -/
theorem callsFor_append (key : κ) (calls calls' : List (ExpiredCall (κ × V) F)) :
    callsFor key (calls ++ calls') = callsFor key calls ++ callsFor key calls' :=
  List.filterMap_append

/-- Nothing is called for a key that is not there. -/
theorem callsFor_of_lookup_eq_none {l : TSList (κ × V) F} (h : l.lookup key = none) :
    callsFor key (l.filterMap (TSList.expiredCall now)) = [] := by
  rw [callsFor, List.filterMap_eq_nil_iff]
  intro c hc
  obtain ⟨node, hnode, hcall⟩ := List.mem_filterMap.mp hc
  unfold TSList.expiredCall at hcall
  split at hcall
  · obtain ⟨onExpired, -, rfl⟩ := Option.map_eq_some_iff.mp hcall
    exact if_neg (TSList.lookup_eq_none.mp h node hnode)
  · cases hcall

/-- A list makes the call of the node of a key, and no other for the key. -/
theorem callsFor_safeCleanup {l : TSList (κ × V) F} (hl : (l.map (·.data.1)).Nodup) :
    callsFor key (l.safeCleanup now).1 = ((l.lookup key).bind (callOf now)).toList := by
  rw [TSList.safeCleanup_fst]
  induction l with
  | nil => rfl
  | cons next rest ih =>
    rw [List.map_cons, List.nodup_cons] at hl
    have hcons : (next :: rest).filterMap (TSList.expiredCall now)
        = (TSList.expiredCall now next).toList ++ rest.filterMap (TSList.expiredCall now) := by
      rw [List.filterMap_cons]
      cases TSList.expiredCall now next <;> rfl
    rw [hcons, callsFor_append, TSList.lookup_cons]
    by_cases hk : next.data.1 = key
    · have hrest : TSList.lookup rest key = none := TSList.lookup_eq_none.mpr fun node hnode heq =>
        hl.1 (List.mem_map.mpr ⟨node, hnode, heq.trans hk.symm⟩)
      rw [callsFor_of_lookup_eq_none hrest, if_pos hk, List.append_nil, Option.bind_some]
      unfold TSList.expiredCall callOf
      split
      · cases next.onExpired <;> simp [callsFor, hk]
      · rfl
    · rw [if_neg hk, ← ih hl.2]
      unfold TSList.expiredCall
      split
      · cases next.onExpired <;> simp [callsFor, hk]
      · rfl

/-- A cleanup of its bucket drops the node of a key that has expired. -/
theorem nodeOf_cleanupBucket (h : t.Sound) (i : Fin n) :
    (t.cleanupBucket now i).2.nodeOf key = if getBucket hasher n key = i
      then (t.nodeOf key).filter fun node => !node.expired now else t.nodeOf key := by
  show (t.setBucket i _).nodeOf key = _
  rw [nodeOf_setBucket, TSList.safeCleanup_snd, TSList.lookup_filter (h.nodup_keys i)]
  by_cases hi : getBucket hasher n key = i
  · rw [if_pos hi, if_pos hi, ← hi]
    rfl
  · rw [if_neg hi, if_neg hi]

/-- A cleanup of its bucket calls the callback of a node that has expired. -/
theorem callsFor_cleanupBucket (h : t.Sound) (i : Fin n) :
    callsFor key (t.cleanupBucket now i).1 = if getBucket hasher n key = i
      then ((t.nodeOf key).bind (callOf now)).toList else [] := by
  show callsFor key ((t.buckets i).safeCleanup now).1 = _
  by_cases hi : getBucket hasher n key = i
  · rw [if_pos hi, callsFor_safeCleanup (h.nodup_keys i), ← hi]
    rfl
  · rw [if_neg hi, TSList.safeCleanup_fst]
    apply callsFor_of_lookup_eq_none
    refine TSList.lookup_eq_none.mpr fun node hnode hkey => hi ?_
    rw [← hkey]
    exact h.placed i _ (List.mem_map_of_mem hnode)

/-- The buckets `is`, cleaned up in this order. -/
def visit (clock : ℕ → ℤ) : ℕ → List (Fin n) → TSHashtable hasher n V F →
    List (ExpiredCall (κ × V) F) × TSHashtable hasher n V F
  | _, [], t => ([], t)
  | k, i :: is, t =>
    let cleaned := t.cleanupBucket (clock k) i
    let rest := visit clock (k + 1) is cleaned.2
    (cleaned.1 ++ rest.1, rest.2)

/-- When they are looked at. -/
def visitTime (clock : ℕ → ℤ) : ℕ → List (Fin n) → Fin n → Option ℤ
  | _, [], _ => none
  | k, i :: is, j => if j = i then some (clock k) else visitTime clock (k + 1) is j

omit [NeZero n] in
/-- A bucket that is not visited has no time. -/
theorem visitTime_eq_none {clock : ℕ → ℤ} {k : ℕ} {is : List (Fin n)} {j : Fin n} (h : j ∉ is) :
    visitTime clock k is j = none := by
  induction is generalizing k with
  | nil => rfl
  | cons i is ih =>
    rw [List.mem_cons, not_or] at h
    rw [visitTime, if_neg h.1, ih h.2]

/-- **What a cleanup of some buckets does for a key**: when it looks at the bucket of the key, it
drops the node and makes its call, if the node has expired. -/
theorem visit_spec (h : t.Sound) (key : κ) (clock : ℕ → ℤ) (k : ℕ) {is : List (Fin n)}
    (his : is.Nodup) :
    (visit clock k is t).2.Sound ∧
      (visit clock k is t).2.nodeOf key = (t.nodeOf key).filter (fun node =>
        !(visitTime clock k is (getBucket hasher n key)).any node.expired) ∧
      callsFor key (visit clock k is t).1
        = ((visitTime clock k is (getBucket hasher n key)).bind fun now =>
            (t.nodeOf key).bind (callOf now)).toList := by
  induction is generalizing t k with
  | nil =>
    refine ⟨h, ?_, rfl⟩
    cases hnode : t.nodeOf key with
    | none => exact hnode
    | some node => exact hnode
  | cons i is ih =>
    rw [List.nodup_cons] at his
    have hclean := h.thins (.cleanupBucket t (clock k) i)
    obtain ⟨hsound, hnode, hcalls⟩ := ih hclean (k + 1) his.2
    refine ⟨hsound, ?_, ?_⟩
    · rw [visit, hnode, nodeOf_cleanupBucket h, visitTime]
      by_cases hi : getBucket hasher n key = i
      · rw [if_pos hi, if_pos hi, hi, visitTime_eq_none his.1]
        simp
      · rw [if_neg hi, if_neg hi]
    · rw [visit, callsFor_append, hcalls, callsFor_cleanupBucket h, nodeOf_cleanupBucket h,
        visitTime]
      by_cases hi : getBucket hasher n key = i
      · rw [if_pos hi, if_pos hi, hi, visitTime_eq_none his.1]
        simp
      · rw [if_neg hi, if_neg hi, if_neg hi, List.nil_append]

/-! ## The buckets of a cleanup -/

/-- The buckets that the cursor passes in `m` turns. -/
def bucketsFrom (i : Fin n) (m : ℕ) : List (Fin n) := List.iterate nextBucket i m

/-- The bucket that comes some steps later. -/
theorem val_iterate_nextBucket (i : Fin n) (j : ℕ) :
    (nextBucket^[j] i).val = (i.val + j) % n := by
  induction j with
  | zero => exact (Nat.mod_eq_of_lt i.isLt).symm
  | succ j ih =>
    rw [Function.iterate_succ_apply', nextBucket_eq, Fin.val_add, ih, Fin.coe_ofNat_eq_mod,
      Nat.add_mod_mod, Nat.mod_add_mod, Nat.add_assoc]

/-- **In a turn for each bucket the cursor passes every bucket once**, wherever it begins. -/
theorem nodup_bucketsFrom (i : Fin n) :
    (bucketsFrom i n).Nodup ∧ ∀ j, j ∈ bucketsFrom i n := by
  constructor
  · rw [bucketsFrom, ← List.range_map_iterate]
    refine List.Nodup.map_on (fun a ha b hb hab => ?_) List.nodup_range
    have hval : (i.val + a) % n = (i.val + b) % n := by
      rw [← val_iterate_nextBucket, ← val_iterate_nextBucket, hab]
    have hmod : a ≡ b [MOD n] := Nat.ModEq.add_left_cancel' i.val hval
    exact hmod.eq_of_lt_of_lt (List.mem_range.mp ha) (List.mem_range.mp hb)
  · intro j
    have hj : nextBucket^[(j - i).val] i = j := by
      ext
      rw [val_iterate_nextBucket, ← Fin.val_add, add_sub_cancel]
    rw [← hj, bucketsFrom, List.mem_iterate]
    exact ⟨_, (j - i).isLt, rfl⟩

omit [DecidableEq κ] [NeZero n] in
/-- The cursor plays no part while buckets are cleaned up. -/
theorem visit_bit (clock : ℕ → ℤ) (k : ℕ) (is : List (Fin n)) (t : TSHashtable hasher n V F)
    (bit : Fin n) : visit clock k is (t.setBit bit)
      = ((visit clock k is t).1, (visit clock k is t).2.setBit bit) := by
  induction is generalizing t k with
  | nil => rfl
  | cons i is ih =>
    rw [visit, visit]
    exact congrArg (fun r => (((t.cleanupBucket (clock k) i).1 ++ r.1), r.2))
      (ih (k + 1) (t.cleanupBucket (clock k) i).2)

omit [DecidableEq κ] in
/-- **The loop of a full cleanup**: it goes on for as many buckets as the cursor needs to `b`. -/
theorem cleanupLoop_true (clock : ℕ → ℤ) (b : Fin n) (d k : ℕ) (i : Fin n)
    (t : TSHashtable hasher n V F) (hbit : t.bit = nextBucket i) (hd : (b - t.bit).val = d) :
    cleanupLoop clock true b k i t
      = ⟨bucketsFrom i (d + 1), (visit clock k (bucketsFrom i (d + 1)) t).1,
          (visit clock k (bucketsFrom i (d + 1)) t).2.setBit (nextBucket b)⟩ := by
  induction d generalizing i k t with
  | zero =>
    have hb : t.bit = b := (sub_eq_zero.mp (Fin.val_eq_zero_iff.mp hd)).symm
    rw [cleanupLoop]
    simp only [getNextBucket, bit_cleanupBucket, hb, if_true]
    simp [bucketsFrom, visit]
  | succ d ih =>
    have hb : t.bit ≠ b := by
      intro hb
      rw [hb, sub_self] at hd
      cases hd
    have hne : b - t.bit ≠ 0 := fun h => hb (sub_eq_zero.mp h).symm
    have hd' : (b - nextBucket t.bit).val = d := by
      rw [nextBucket_eq, sub_add_eq_sub_sub, Fin.val_sub_one_of_ne_zero hne, hd]
      rfl
    rw [cleanupLoop]
    simp only [getNextBucket, bit_cleanupBucket, hb, if_true, if_false]
    rw [ih (k + 1) t.bit _ rfl hd', visit_bit]
    have hfrom : bucketsFrom i (d + 1 + 1) = i :: bucketsFrom t.bit (d + 1) := by rw [hbit]; rfl
    rw [hfrom]
    rfl

omit [DecidableEq κ] in
/-- **Which buckets a cleanup visits**: the one at the cursor, or all of them from there on. -/
theorem cleanup_eq (t : TSHashtable hasher n V F) (clock : ℕ → ℤ) (all : Bool) :
    t.cleanup clock all
      = let is := bucketsFrom t.bit (if all then n else 1)
        ⟨is, (visit clock 0 is t).1, (visit clock 0 is t).2.setBit (nextBucket t.bit)⟩ := by
  cases all with
  | false =>
    rw [cleanup, getNextBucket]
    dsimp only
    rw [cleanupLoop]
    simp only [Bool.false_eq_true, if_false]
    simp only [bucketsFrom, List.iterate, visit, List.append_nil]
    rfl
  | true =>
    have hlast : (t.bit - (t.setBit (nextBucket t.bit)).bit).val + 1 = n := by
      obtain ⟨m, rfl⟩ := Nat.exists_eq_succ_of_ne_zero (NeZero.ne n)
      show (t.bit - nextBucket t.bit).val + 1 = m + 1
      rw [nextBucket_eq, sub_add_cancel_left, Fin.coe_neg_one]
    rw [cleanup, getNextBucket]
    dsimp only
    rw [cleanupLoop_true clock t.bit _ 0 t.bit (t.setBit (nextBucket t.bit)) rfl rfl, hlast,
      visit_bit]
    rfl

omit [DecidableEq κ] [NeZero n] in
/-- Visits only take nodes away. -/
theorem Thins.visit (clock : ℕ → ℤ) (k : ℕ) (is : List (Fin n)) (t : TSHashtable hasher n V F) :
    Thins t (visit clock k is t).2 := by
  induction is generalizing k t with
  | nil => exact refl t
  | cons i is ih => exact (Thins.cleanupBucket t (clock k) i).trans (ih _ _)

omit [DecidableEq κ] in
/-- A cleanup only takes nodes away. -/
theorem Thins.cleanup (t : TSHashtable hasher n V F) (clock : ℕ → ℤ) (all : Bool) :
    Thins t (t.cleanup clock all).table := by
  rw [cleanup_eq]
  exact (Thins.visit clock 0 _ t).trans ⟨le_rfl, fun i => List.Sublist.refl _⟩

omit [DecidableEq κ] in
/-- A cleanup visits no bucket twice. -/
theorem nodup_visited (t : TSHashtable hasher n V F) (clock : ℕ → ℤ) (all : Bool) :
    (t.cleanup clock all).visited.Nodup := by
  rw [cleanup_eq]
  cases all with
  | false => exact List.nodup_singleton _
  | true => exact (nodup_bucketsFrom t.bit).1

/-- **A cleanup**, for a key. -/
theorem cleanup_spec (h : t.Sound) (clock : ℕ → ℤ) (all : Bool) (key : κ) :
    let time := visitTime clock 0 (t.cleanup clock all).visited (getBucket hasher n key)
    (t.cleanup clock all).table.nodeOf key
        = (t.nodeOf key).filter (fun node => !time.any node.expired) ∧
      callsFor key (t.cleanup clock all).calls
        = (time.bind fun now => (t.nodeOf key).bind (callOf now)).toList := by
  have hnodup := nodup_visited t clock all
  rw [cleanup_eq] at hnodup ⊢
  obtain ⟨-, hnode, hcalls⟩ := visit_spec h key clock 0 hnodup
  exact ⟨hnode, hcalls⟩

end TSHashtable
