/-
# The radix tree as a table

The radix tree of the blacklist is a table of prefixes: `longestMatch` finds the value of the
longest prefix of an address, `erase` takes a prefix out, and `insert` puts one in when it fits.

A prefix does not fit when the search for it runs past its end: `radixSubstr` pads it with zeros,
and the padded bits can be those of a longer node.  Then the call is undefined.
-/
import GraftSupernode.RadixShape

namespace RadixTree

variable {T : Type*} {p q : List Bool} {b : Bool} {t : RadixTree T} {parents : List (Parent T)}
  {x : RtEntry × T} {e : RtEntry}

/-- The tree stands for the table. -/
structure Represents (t : RadixTree T) (table : PrefixTable Bool T) : Prop where
  ok : RootOk t
  iff : ∀ q v, table q = some v ↔ ∃ e, Mem (e, v) t ∧ e.bits = q

/-- The longest of some values whose prefix the word has, or that there is none. -/
def IsBest (P : RtEntry × T → Prop) (w : List Bool) : Option (RtEntry × T) → Prop
  | none => ∀ x, P x → ¬ x.1.bits <+: w
  | some x => P x ∧ x.1.bits <+: w ∧ ∀ y, P y → y.1.bits <+: w → y.1.bits.length ≤ x.1.bits.length

theorem IsBest.congr {P Q : RtEntry × T → Prop} {w : List Bool} {r : Option (RtEntry × T)}
    (h : IsBest P w r) (hPQ : ∀ x, x.1.bits <+: w → (Q x ↔ P x)) : IsBest Q w r := by
  cases r with
  | none => exact fun x hx hpre => h x ((hPQ x hpre).mp hx) hpre
  | some x =>
    obtain ⟨hx, hpre, hle⟩ := h
    exact ⟨(hPQ x hpre).mpr hx, hpre, fun y hy hpre' => hle y ((hPQ y hpre').mp hy) hpre'⟩

/-! ## The longest match -/

/-- What is stored around a place that the word goes through, and is a prefix of it, ends
before the place. -/
theorem Around.length_le (h : Around q b parents) {w : List Bool} (hw : q ++ [b] <+: w)
    (hx : MemAround x parents) (hpre : x.1.bits <+: w) : x.1.bits.length ≤ q.length := by
  by_contra hlt
  exact h.not_prefix hx (List.snoc_prefix_of_length_lt hw hpre (not_le.mp hlt))

/-- **The way up** finds the longest prefix that is stored around the place. -/
theorem Around.isBest (h : Around q b parents) {w : List Bool} (hw : q ++ [b] <+: w) :
    IsBest (MemAround · parents) w (parents.findSome? Parent.leaf) := by
  induction parents generalizing q b with
  | nil => exact absurd h id
  | cons f parents ih =>
    have hhere := h
    obtain ⟨hbit, hother, hcases⟩ := h
    rw [List.findSome?_cons]
    cases hleaf : f.leaf with
    | some x =>
      rcases hcases with ⟨-, -, -, -, hnone⟩ | ⟨p, b', rfl, hnode, -⟩
      · rw [hnone] at hleaf
        cases hleaf
      · have hbits := (hnode.leaf x hleaf).2
        refine ⟨.inl (.inl hleaf), ?_, fun y hy hpre => ?_⟩
        · rw [hbits]
          exact (List.prefix_append _ _).trans hw
        · rw [hbits]
          exact hhere.length_le hw hy hpre
    | none =>
      -- beside the way nothing is a prefix of the word
      have hiff (x : RtEntry × T) (hpre : x.1.bits <+: w) :
          MemAround x (f :: parents) ↔ MemAround x parents := by
        refine ⟨fun hx => ?_, .inr⟩
        rcases hx with (hx | ⟨b', hb', hx⟩) | hx
        · rw [hleaf] at hx
          cases hx
        · have hmem := ((hother b' (hbit ▸ hb')).mem hx).2
          exact absurd (List.eq_of_snoc_prefix (hmem.trans hpre) hw) (hbit ▸ hb')
        · exact hx
      refine IsBest.congr (P := (MemAround · parents)) ?_ hiff
      rcases hcases with ⟨-, rfl, -⟩ | ⟨p, b', rfl, hnode, -, haround⟩
      · exact fun x hx => absurd hx id
      · have hfirst := (List.prefix_append_right_inj p).mpr hnode.first
        exact ih haround (hfirst.trans ((List.prefix_append _ _).trans hw))

/-- The node where the search stops is on the way of the address. -/
theorem At.matchesNode (h : At q t parents) (hq : q <+: word e.addr) : matchesNode e t = true := by
  apply decide_eq_true
  cases h with
  | root h => exact (radixSubstr_eq_iff_append (p := []) (k := .nul) List.nil_prefix
      ⟨Nat.zero_le _, fun i _ => BitVec.getMsbD_zero⟩ (Nat.zero_le _)).mpr hq
  | inner h haround =>
    have hnode := h.1
    rw [key, depth, hnode.depth]
    exact (radixSubstr_eq_iff_append ((List.prefix_append _ _).trans hq) hnode.masked
      hnode.fits).mpr hq

/-- Below a node the values are longer; its leaf ends with it. -/
theorem At.mem (h : At q t parents) (hx : Mem x t) :
    t.leaf = some x ∧ x.1.bits = q ∨ ∃ b, q ++ [b] <+: x.1.bits := by
  cases h with
  | root h =>
    rcases hx with hleaf | ⟨b, hx⟩
    · cases hleaf
    · exact .inr ⟨b, ((h b).mem hx).2⟩
  | inner h haround =>
    rcases hx with hleaf | ⟨b, hx⟩
    · exact .inl ⟨hleaf, (h.1.leaf x hleaf).2⟩
    · exact .inr ⟨b, ((h.2.2 b).mem hx).2⟩

theorem At.leaf_bits (h : At q t parents) (hleaf : t.leaf = some x) :
    Mem x t ∧ x.1.bits = q := by
  cases h with
  | root => cases hleaf
  | inner h haround => exact ⟨.inl hleaf, (h.1.leaf x hleaf).2⟩

/-- The place of a node that is not the root. -/
theorem At.isBest_parents (h : At q t parents) {w : List Bool} (hq : q <+: w) :
    IsBest (MemAround · parents) w (parents.findSome? Parent.leaf) := by
  cases h with
  | root => exact fun x hx => absurd hx id
  | @inner p b k _ _ _ _ h haround =>
    have hfirst := (List.prefix_append_right_inj p).mpr h.1.first
    exact haround.isBest (hfirst.trans hq)

/-- **The longest match** is the longest stored prefix of the address. -/
theorem isBest_longestMatch (h : RootOk t) (a : BitVec 32) :
    IsBest (Mem · t) (word a) (longestMatch ⟨a, 32⟩ t) := by
  cases t with
  | nil =>
    have hnone : longestMatch ⟨a, 32⟩ (nil : RadixTree T) = none := by
      simp [longestMatch, findNode, leaf]
    rw [hnone]
    exact fun x hx => absurd hx id
  | node k d l child =>
    obtain ⟨rfl, rfl, rfl, hchild⟩ := h
    have hsearch := search_findNode (e := ⟨a, 32⟩) (.root hchild) List.nil_prefix (by simp)
    unfold longestMatch
    rw [List.length_nil] at hsearch
    generalize findNode _ _ 0 [] = found at hsearch
    show IsBest (Mem · (rebuild [] _)) _ _
    dsimp only
    cases hsearch with
    | stop q hq hat hroot hleaf hend _ =>
      -- no prefix of the address goes on from the node
      have hle (y : RtEntry × T) (hy : Mem y (rebuild [] (node .nul 0 none child)))
          (hpre : y.1.bits <+: word a) : y.1.bits.length ≤ q.length := by
        rcases hend with hend | hend
        · have hlen := hpre.length_le
          rw [length_word] at hlen
          exact hlen.trans hend.le
        · by_contra hlt
          have hq32 := hpre.length_le
          rw [length_word] at hq32
          have hnext := prefix_snoc_bit (e := ⟨a, 32⟩) hq (by omega)
          exact hend y hy (List.snoc_prefix_of_length_lt hnext hpre (not_le.mp hlt))
      have hbest : IsBest (Mem · (rebuild [] (node .nul 0 none child))) (word a)
          (found.node.leaf.or (found.parents.findSome? Parent.leaf)) := by
        cases hl : found.node.leaf with
        | some x =>
          obtain ⟨hx, hbits⟩ := hat.leaf_bits hl
          refine ⟨?_, hbits ▸ hq, fun y hy hpre => hbits ▸ hle y hy hpre⟩
          show Mem x _
          rw [← hroot, mem_rebuild]
          exact .inl hx
        | none =>
          refine (hat.isBest_parents hq).congr fun y hpre => ?_
          show Mem y _ ↔ _
          rw [← hroot, mem_rebuild]
          refine or_iff_right fun hy => ?_
          rcases hat.mem hy with ⟨hleaf', -⟩ | ⟨b, hb⟩
          · rw [hl] at hleaf'
            cases hleaf'
          · have hlt := hb.length_le
            have hle' := hle y (by rw [← hroot, mem_rebuild]; exact .inl hy) hpre
            rw [List.length_append, List.length_singleton] at hlt
            omega
      rw [hat.matchesNode hq, if_pos rfl]
      split
      · rename_i hyes
        rw [hleaf, Bool.and_eq_true] at hyes
        obtain ⟨x, hx⟩ := Option.isSome_iff_exists.mp hyes.2
        rw [hx] at hbest ⊢
        exact hbest
      · exact hbest
    | differ q hq hlen hbelow hnil haround hroot hleaf hdiffer _ =>
      have hq32 := hq.length_le
      rw [length_word] at hq32
      have hlen : (32 : ℕ) ≠ q.length := hlen
      have hnext := prefix_snoc_bit (e := ⟨a, 32⟩) hq (by omega)
      have hno : RadixTree.matchesNode ⟨a, 32⟩ found.node = false := by
        cases hn : found.node with
        | nil =>
          rw [hn] at hnil
          cases hnil
        | node k' d' l' child' =>
          rw [hn] at hbelow hdiffer
          apply decide_eq_false
          rw [key, depth, hbelow.1.depth]
          exact fun heq => hdiffer ((radixSubstr_eq_iff_append hq hbelow.1.masked
            hbelow.1.fits).mp heq)
      rw [hleaf, hno]
      refine (haround.isBest hnext).congr fun y hpre => ?_
      show Mem y _ ↔ _
      rw [← hroot, mem_rebuild]
      refine or_iff_right fun hy => hdiffer ?_
      cases hn : found.node with
      | nil =>
        rw [hn] at hnil
        cases hnil
      | node k' d' l' child' =>
        rw [hn] at hbelow hy
        exact (hbelow.mem_end hy).trans hpre

/-- **What an address is looked up to**. -/
theorem Represents.longestMatch {table : PrefixTable Bool T} (h : Represents t table)
    (a : BitVec 32) : (longestMatch ⟨a, 32⟩ t).map Prod.snd = table.longest (word a) := by
  have hbest := isBest_longestMatch h.ok a
  cases hr : RadixTree.longestMatch ⟨a, 32⟩ t with
  | none =>
    rw [hr] at hbest
    symm
    refine PrefixTable.longest_eq_none_iff.mpr fun q hq => ?_
    cases hv : table q with
    | none => rfl
    | some v =>
      obtain ⟨e, he, rfl⟩ := (h.iff q v).mp hv
      exact absurd hq (hbest (e, v) he)
  | some x =>
    rw [hr] at hbest
    obtain ⟨hx, hpre, hle⟩ := hbest
    symm
    refine PrefixTable.longest_eq_some_iff.mpr ⟨x.1.bits, hpre, (h.iff _ _).mpr ⟨x.1, hx, rfl⟩, ?_⟩
    intro q hq hsome
    obtain ⟨v, hv⟩ := Option.isSome_iff_exists.mp hsome
    obtain ⟨e, he, rfl⟩ := (h.iff q v).mp hv
    exact hle (e, v) he hq

end RadixTree
