/-
# Insertion into the radix tree

`append` adds a leaf or a child to a node, `prepend` splits a node.  `insert` is defined exactly
when the prefix fits the table, and then the table has the prefix too.
-/
import GraftSupernode.RadixTable

namespace RadixTree

variable {T : Type*} {p q : List Bool} {b : Bool} {t t' : RadixTree T} {parents : List (Parent T)}
  {x : RtEntry × T} {e : RtEntry} {v : T}

/-! ## New nodes -/

/-- The new node of `append` and `prepend`, with a leaf. -/
def leafNode (val : RtEntry × T) (depth : ℕ) : RadixTree T :=
  node (val.1.radixSubstr depth (val.1.prefixLen - depth)) depth (some val) noChild

theorem mem_node_noChild {k : RtEntry} {d : ℕ} {l : Option (RtEntry × T)} :
    Mem x (node k d l noChild) ↔ l = some x := by
  constructor
  · rintro (hleaf | ⟨b, hx⟩)
    · exact hleaf
    · exact absurd hx (not_mem_noChild b)
  · exact .inl

theorem mem_leafNode {val : RtEntry × T} {d : ℕ} : Mem x (leafNode val d) ↔ x = val := by
  rw [leafNode, mem_node_noChild, Option.some_inj, eq_comm]

theorem isNil_leafNode (val : RtEntry × T) (d : ℕ) : (leafNode val d).isNil = false := rfl

/-- The bits that are left of a key after the path. -/
theorem bits_rest (hq : q <+: word e.addr) (hlt : q.length ≤ e.prefixLen) (he : e.prefixLen ≤ 32) :
    q ++ (e.radixSubstr q.length (e.prefixLen - q.length)).bits = e.bits := by
  rw [RtEntry.bits_radixSubstr e (by omega)]
  obtain ⟨r, hr⟩ := hq
  have htake : e.bits = (q ++ r).take e.prefixLen := by rw [RtEntry.bits, ← hr]
  rw [htake, ← hr, List.drop_left, List.take_append, List.take_of_length_le hlt]

/-- The first bit of a part. -/
theorem first_radixSubstr {k : RtEntry} {start num : ℕ} (hle : start + num ≤ 32) (hpos : 0 < num) :
    [k.bit start] <+: (k.radixSubstr start num).bits ∧
      (k.radixSubstr start num).bit 0 = k.bit start := by
  have hbit : (k.radixSubstr start num).bit 0 = k.bit start := by
    rw [RtEntry.bit_eq, RtEntry.bit_eq, RtEntry.getMsbD_radixSubstr k hle, decide_eq_true hpos,
      Bool.true_and, Nat.add_zero]
  have hlen : 0 < (k.radixSubstr start num).bits.length := by
    rw [RtEntry.length_bits (RtEntry.masked_radixSubstr k hle).le]
    exact hpos
  refine ⟨?_, hbit⟩
  have hpre := List.prefix_snoc_of_prefix List.nil_prefix hlen
  rwa [List.nil_append, RtEntry.getElem_bits, List.length_nil, hbit] at hpre

theorem below_leafNode (hq : q <+: word e.addr) (hlt : q.length < e.prefixLen) (he : e.Masked) :
    Below q (e.bit q.length) (leafNode (e, v) q.length) := by
  have hle : q.length + (e.prefixLen - q.length) ≤ 32 := by
    have := he.le
    omega
  refine ⟨⟨rfl, RtEntry.masked_radixSubstr e hle, hle, ?_, fun x hx => ?_⟩, .inl rfl,
    fun _ => trivial⟩
  · exact (first_radixSubstr hle (by omega)).1
  · cases hx
    exact ⟨he, (bits_rest hq hlt.le he.le).symm⟩

/-! ## Append -/

/-- A child is put on the side where there is none. -/
theorem mem_update {k : RtEntry} {d : ℕ} {l : Option (RtEntry × T)} {child : Bool → RadixTree T}
    (hnil : (child b).isNil = true) :
    Mem x (node k d l (Function.update child b t)) ↔ Mem x (node k d l child) ∨ Mem x t := by
  have hplug := mem_plug (x := x) (t := t) (f := ⟨k, d, l, child, b⟩)
  have hself : Mem x (node k d l child) ↔ l = some x ∨ ∃ b', b' ≠ b ∧ Mem x (child b') := by
    refine or_congr_right ⟨?_, fun ⟨b', _, hx⟩ => ⟨b', hx⟩⟩
    rintro ⟨b', hx⟩
    refine ⟨b', ?_, hx⟩
    rintro rfl
    cases hc : child b' with
    | nil =>
      rw [hc] at hx
      exact hx
    | node =>
      rw [hc] at hnil
      cases hnil
  rw [hself]
  exact hplug.trans or_comm

/-- **`append`**, at the node where the search for the key stops. -/
theorem append_spec (hat : At q t parents) (hq : q <+: word e.addr) (he : e.Masked)
    (hpos : 0 < e.prefixLen)
    (hleaf : e.prefixLen = q.length → t.leaf = none)
    (hchild : e.prefixLen = q.length ∨
      ∀ x, Mem x (rebuild parents t) → ¬ q ++ [e.bit q.length] <+: x.1.bits) :
    if e.prefixLen < q.length then append (e, v) t = none
    else ∃ t', append (e, v) t = some t' ∧ At q t' parents ∧
      ∀ x, Mem x t' ↔ Mem x t ∨ x = (e, v) := by
  cases t with
  | nil => cases hat
  | node k d l child =>
    obtain ⟨haround, hbelow, hend⟩ := hat.around (e.bit q.length)
    have happend : append (e, v) (node k d l child) =
        if e.prefixLen = q.length then some (node k d (some (e, v)) child)
        else if e.prefixLen < q.length then none
        else some (node k d l (Function.update child
          ((e.radixSubstr q.length (e.prefixLen - q.length)).bit 0) (leafNode (e, v) q.length))) := by
      rw [append, ← hend]
      rfl
    rw [happend]
    split
    · rename_i hlt
      rw [if_neg hlt.ne]
    · rename_i hge
      by_cases hlen : e.prefixLen = q.length
      · -- the key ends with the node
        refine ⟨_, if_pos hlen, ?_, fun x => ?_⟩
        · have hbits : e.bits = q := by
            rw [RtEntry.bits, hlen]
            exact (List.prefix_iff_eq_take.mp hq).symm
          cases hat with
          | root => exact absurd hlen hpos.ne'
          | inner h haround =>
            obtain ⟨hnode, -, hchild⟩ := h
            refine .inner ⟨⟨hnode.depth, hnode.masked, hnode.fits, hnode.first, ?_⟩, .inl rfl,
              hchild⟩ haround
            rintro x ⟨⟩
            exact ⟨he, hbits⟩
        · have hnone : l = none := hleaf hlen
          constructor
          · rintro (hx | hx)
            · exact .inr (Option.some.inj hx).symm
            · exact .inl (.inr hx)
          · rintro ((hx | hx) | rfl)
            · rw [hnone] at hx
              cases hx
            · exact .inr hx
            · exact .inl rfl
      · -- no child goes on with the next bit
        have hlt : q.length < e.prefixLen := by omega
        have hle : q.length + (e.prefixLen - q.length) ≤ 32 := by
          have := he.le
          omega
        have hbit := (first_radixSubstr (k := e) hle (by omega)).2
        have hnil : (child (e.bit q.length)).isNil = true := by
          by_contra hne
          obtain ⟨y, hy⟩ := hbelow.exists_mem ((Bool.not_eq_true _).mp hne)
          refine (hchild.resolve_left hlen) y ?_ (hbelow.mem hy).2
          exact mem_rebuild.mpr (.inl (.inr ⟨_, hy⟩))
        rw [if_neg hlen, hbit]
        have hplug := haround.at_plug (below_leafNode (v := v) hq hlt he) (isNil_leafNode _ _)
        refine ⟨_, rfl, hplug, fun x => ?_⟩
        rw [mem_update hnil, mem_leafNode]

/-! ## Prepend -/

theorem takeWhile_range (f : ℕ → Bool) (n : ℕ) :
    let c := ((List.range n).takeWhile f).length
    c ≤ n ∧ (∀ i < c, f i = true) ∧ (c < n → f c = false) := by
  intro c
  have hc : c = (List.range n).findIdx fun i => !f i := by
    show ((List.range n).takeWhile f).length = _
    rw [List.takeWhile_eq_take_findIdx_not, List.length_take]
    exact Nat.min_eq_left List.findIdx_le_length
  have hle : c ≤ n := by
    rw [hc]
    exact List.findIdx_le_length.trans_eq List.length_range
  refine ⟨hle, fun i hi => ?_, fun hlt => ?_⟩
  · rw [hc] at hi
    have hnot := List.not_of_lt_findIdx hi
    simpa using hnot
  · have hlt' : ((List.range n).findIdx fun i => !f i) < (List.range n).length := by
      rw [← hc, List.length_range]
      exact hlt
    have hget := List.findIdx_getElem (w := hlt')
    simp only [List.getElem_range, Bool.not_eq_true'] at hget
    rwa [← hc] at hget

/-- The part of the node's key that is shared with the new key. -/
theorem countCommon_spec {k : RtEntry} (hk : k.Masked) (hq : q <+: word e.addr)
    (he : e.prefixLen ≤ 32) (hlt : q.length < e.prefixLen) (hfirst : [e.bit q.length] <+: k.bits)
    (hdiffer : ¬ q ++ k.bits <+: word e.addr) :
    let c := countCommon k e q.length (min k.prefixLen (e.prefixLen - q.length))
    0 < c ∧ c < k.prefixLen ∧ c ≤ e.prefixLen - q.length ∧
      q ++ k.bits.take c <+: word e.addr ∧
      (c < e.prefixLen - q.length → k.bit c ≠ e.bit (q.length + c)) := by
  intro c
  obtain ⟨hle, hsame, hnext⟩ := takeWhile_range (fun i => decide (k.bit i = e.bit (i + q.length)))
    (min k.prefixLen (e.prefixLen - q.length))
  have hlen : k.bits.length = k.prefixLen := RtEntry.length_bits hk.le
  have hc : c ≤ min k.prefixLen (e.prefixLen - q.length) := hle
  -- the bits that are counted go on from `q` as the address does
  have htake : q ++ k.bits.take c <+: word e.addr := by
    obtain ⟨r, hr⟩ := hq
    rw [← hr, List.prefix_append_right_inj]
    have hrlen : q.length + r.length = 32 := by
      rw [← List.length_append, hr, length_word]
    rw [List.prefix_iff_eq_take]
    apply List.ext_getElem
    · simp only [List.length_take]
      omega
    · intro i hi hi'
      have hic : i < c := by
        simp only [List.length_take] at hi
        omega
      have hbit : k.bit i = e.bit (i + q.length) := of_decide_eq_true (hsame i hic)
      have hir : i < r.length := by omega
      have hiw : i + q.length < (word e.addr).length := by
        rw [length_word]
        omega
      have hword : r[i] = e.bit (i + q.length) := by
        have hget : (word e.addr)[i + q.length] = r[i] := by
          simp only [← hr]
          rw [List.getElem_append_right (by omega)]
          simp
        rw [← hget, getElem_word, RtEntry.bit_eq]
      rw [List.getElem_take, List.getElem_take, RtEntry.getElem_bits, hbit, hword]
  have hlt' : c < k.prefixLen := by
    by_contra hge
    refine hdiffer ?_
    rwa [List.take_of_length_le (by omega)] at htake
  refine ⟨?_, hlt', by omega, htake, fun hltc => ?_⟩
  · -- the key has the first bit of the address
    by_contra hzero
    have hc0 : c = 0 := by omega
    have hklen : 0 < k.bits.length := hfirst.length_le
    have hbit : k.bit 0 = e.bit q.length := by
      have hget := hfirst.getElem (i := 0) (by simp)
      rw [RtEntry.getElem_bits] at hget
      exact hget.symm
    have hne := hnext (by show c < _; omega)
    have hne' : decide (k.bit c = e.bit (c + q.length)) = false := hne
    rw [hc0, Nat.zero_add, decide_eq_false_iff_not] at hne'
    exact hne' hbit
  · have hne : decide (k.bit c = e.bit (c + q.length)) = false := hnext (by show c < _; omega)
    rw [decide_eq_false_iff_not, Nat.add_comm] at hne
    exact hne

/-- The lower half of a node that is split after `c` bits. -/
theorem below_rest {k : RtEntry} {d c : ℕ} {l : Option (RtEntry × T)} {child : Bool → RadixTree T}
    (h : Below q b (node k d l child)) (hc : c < k.prefixLen) :
    Below (q ++ k.bits.take c) (k.bit c)
      (node (k.radixSubstr c (k.prefixLen - c)) (q.length + c) l child) := by
  obtain ⟨hnode, htwo, hchild⟩ := h
  have hk := hnode.masked
  have hklen : k.bits.length = k.prefixLen := RtEntry.length_bits hk.le
  have hle : c + (k.prefixLen - c) ≤ 32 := by
    have := hk.le
    omega
  have hrest : (k.radixSubstr c (k.prefixLen - c)).bits = k.bits.drop c := by
    rw [RtEntry.bits_radixSubstr k hle, RtEntry.bits, List.drop_take]
  have hpath : q ++ k.bits.take c ++ (k.radixSubstr c (k.prefixLen - c)).bits = q ++ k.bits := by
    rw [hrest, List.append_assoc, List.take_append_drop]
  have hlen : (q ++ k.bits.take c).length = q.length + c := by
    rw [List.length_append, List.length_take]
    omega
  refine ⟨⟨hlen.symm, RtEntry.masked_radixSubstr k hle, ?_, ?_, fun x hx => ?_⟩, htwo, fun b' => ?_⟩
  · have hfits := hnode.fits
    rw [hlen, RtEntry.radixSubstr_prefixLen]
    omega
  · exact (first_radixSubstr hle (by omega)).1
  · rw [hpath]
    exact hnode.leaf x hx
  · rw [hpath]
    exact hchild b'

theorem bits_upper {k : RtEntry} {c : ℕ} (hk : k.Masked) (hc : c ≤ k.prefixLen) :
    (k.radixSubstr 0 c).bits = k.bits.take c := by
  have hle := hk.le
  rw [RtEntry.bits_radixSubstr k (by omega), RtEntry.bits, List.drop_zero, List.take_take,
    Nat.min_eq_left hc]

/-- The upper half of a node that is split after `c` bits. -/
theorem below_upper {k : RtEntry} {d c : ℕ} {l l' : Option (RtEntry × T)}
    {child child' : Bool → RadixTree T} (h : Below q b (node k d l child)) (hpos : 0 < c)
    (hck : c < k.prefixLen) (hl' : ∀ x, l' = some x → x.1.Masked ∧ x.1.bits = q ++ k.bits.take c)
    (htwo : l'.isSome ∨ ∀ b', (child' b').isNil = false)
    (hchild : ∀ b', Below (q ++ k.bits.take c) b' (child' b')) :
    Below q b (node (k.radixSubstr 0 c) d l' child') := by
  obtain ⟨hnode, -, -⟩ := h
  have hle := hnode.masked.le
  have hfits := hnode.fits
  have hklen : k.bits.length = k.prefixLen := RtEntry.length_bits hle
  have hbits := bits_upper hnode.masked hck.le
  refine ⟨⟨hnode.depth, RtEntry.masked_radixSubstr k (by omega), ?_, ?_, ?_⟩, htwo, ?_⟩
  · rw [RtEntry.radixSubstr_prefixLen]
    omega
  · rw [hbits]
    have hlength : [b].length ≤ (k.bits.take c).length := by
      rw [List.length_singleton, List.length_take]
      omega
    exact List.prefix_of_prefix_length_le hnode.first (List.take_prefix _ _) hlength
  · rwa [hbits]
  · rwa [hbits]

/-- The node is split where the key ends: the upper half holds the new value. -/
theorem split_end {k : RtEntry} {c : ℕ} {l : Option (RtEntry × T)} {child : Bool → RadixTree T}
    (h : Below q b (node k q.length l child)) (hpos : 0 < c) (hck : c < k.prefixLen)
    (he : e.Masked) (hbits : e.bits = q ++ k.bits.take c) :
    let rest := node (k.radixSubstr c (k.prefixLen - c)) (q.length + c) l child
    let t' := node (k.radixSubstr 0 c) q.length (some (e, v))
      (Function.update noChild (k.bit c) rest)
    Below q b t' ∧ ∀ x, Mem x t' ↔ Mem x (node k q.length l child) ∨ x = (e, v) := by
  intro rest t'
  refine ⟨below_upper h hpos hck ?_ (.inl rfl) fun b' => ?_, fun x => ?_⟩
  · rintro x ⟨⟩
    exact ⟨he, hbits⟩
  · by_cases hb : b' = k.bit c
    · rw [hb, Function.update_self]
      exact below_rest h hck
    · rw [Function.update_of_ne hb]
      trivial
  · have hnew : Mem x t' ↔ some (e, v) = some x ∨ Mem x rest := by
      rw [mem_update rfl, mem_node_noChild]
    rw [hnew, Option.some_inj, eq_comm, or_comm]
    exact Iff.rfl

/-- The key goes on where the node is split: the new leaf is on the other side of what is left of
the node. -/
theorem split_more {k : RtEntry} {c : ℕ} {l : Option (RtEntry × T)} {child : Bool → RadixTree T}
    (h : Below q b (node k q.length l child)) (hpos : 0 < c) (hck : c < k.prefixLen)
    (he : e.Masked) (htake : q ++ k.bits.take c <+: word e.addr) (hlt : q.length + c < e.prefixLen)
    (hne : k.bit c ≠ e.bit (q.length + c)) :
    let rest := node (k.radixSubstr c (k.prefixLen - c)) (q.length + c) l child
    let t' := node (k.radixSubstr 0 c) q.length none (Function.update
      (Function.update noChild (k.bit c) rest) (e.bit (q.length + c))
      (leafNode (e, v) (q.length + c)))
    Below q b t' ∧ ∀ x, Mem x t' ↔ Mem x (node k q.length l child) ∨ x = (e, v) := by
  intro rest t'
  have hklen : k.bits.length = k.prefixLen := RtEntry.length_bits h.1.masked.le
  have hlen : (q ++ k.bits.take c).length = q.length + c := by
    rw [List.length_append, List.length_take]
    omega
  have hleaf := below_leafNode (v := v) htake (by omega) he
  rw [hlen] at hleaf
  -- one side has the new leaf, the other one what is left of the node
  have hside (b' : Bool) :
      b' = e.bit (q.length + c) ∨ b' ≠ e.bit (q.length + c) ∧ b' = k.bit c := by
    by_cases hb : b' = e.bit (q.length + c)
    · exact .inl hb
    · exact .inr ⟨hb, (Bool.eq_not.mpr hb).trans (Bool.eq_not.mpr hne).symm⟩
  refine ⟨below_upper h hpos hck (fun x hx => by cases hx) (.inr fun b' => ?_) fun b' => ?_,
    fun x => ?_⟩
  · obtain rfl | ⟨hb, rfl⟩ := hside b'
    · rw [Function.update_self]
      rfl
    · rw [Function.update_of_ne hb, Function.update_self]
      rfl
  · obtain rfl | ⟨hb, rfl⟩ := hside b'
    · rw [Function.update_self]
      exact hleaf
    · rw [Function.update_of_ne hb, Function.update_self]
      exact below_rest h hck
  · have hnil : (Function.update noChild (k.bit c) rest (e.bit (q.length + c))).isNil = true := by
      rw [Function.update_of_ne hne.symm]
      rfl
    have hnew : Mem x t' ↔ (none = some x ∨ Mem x rest) ∨ x = (e, v) := by
      rw [mem_update hnil, mem_update rfl, mem_node_noChild, mem_leafNode]
    rw [hnew, or_iff_right (Option.some_ne_none x).symm]
    exact Iff.rfl

/-- **`prepend`**, at the node that differs from the key. -/
theorem prepend_spec (hbelow : Below q (e.bit q.length) t) (hnil : t.isNil = false)
    (hq : q <+: word e.addr) (he : e.Masked) (hdiffer : ¬ q ++ t.key.bits <+: word e.addr)
    (hlen : e.prefixLen ≠ q.length) :
    if e.prefixLen < q.length then prepend (e, v) t = none
    else ∃ t', prepend (e, v) t = some t' ∧ Below q (e.bit q.length) t' ∧ t'.isNil = false ∧
      ∀ x, Mem x t' ↔ Mem x t ∨ x = (e, v) := by
  cases t with
  | nil => cases hnil
  | node k d l child =>
    have hnode := hbelow.1
    have hd : d = q.length := hnode.depth
    subst hd
    split
    · -- no bits of the key are left
      rename_i hlt
      unfold prepend
      dsimp only
      rw [Nat.sub_eq_zero_of_le hlt.le, Nat.min_zero]
      rfl
    · rename_i hge
      have hlt : q.length < e.prefixLen := by omega
      have hle := he.le
      have hkle := hnode.masked.le
      have hklen : k.bits.length = k.prefixLen := RtEntry.length_bits hkle
      obtain ⟨hpos, hck, hce, htake, hbit⟩ :=
        countCommon_spec hnode.masked hq hle hlt hnode.first hdiffer
      unfold prepend
      dsimp only
      generalize countCommon k e q.length (min k.prefixLen (e.prefixLen - q.length)) = c at *
      have hrestBit : (k.radixSubstr c (k.prefixLen - c)).bit 0 = k.bit c :=
        (first_radixSubstr (by omega) (by omega)).2
      rw [if_neg hpos.ne', hrestBit]
      split
      · rename_i hend
        have hbits : e.bits = q ++ k.bits.take c := by
          rw [RtEntry.bits, List.prefix_iff_eq_take.mp htake, List.length_append, List.length_take]
          congr 1
          omega
        obtain ⟨hsplit, hmem⟩ := split_end (v := v) hbelow hpos hck he hbits
        exact ⟨_, rfl, hsplit, rfl, hmem⟩
      · rename_i hmore
        have hleafBit : (e.radixSubstr (q.length + c) (e.prefixLen - q.length - c)).bit 0
            = e.bit (q.length + c) := (first_radixSubstr (by omega) (by omega)).2
        have hleaf : node (e.radixSubstr (q.length + c) (e.prefixLen - q.length - c))
            (q.length + c) (some (e, v)) noChild = leafNode (e, v) (q.length + c) := by
          rw [leafNode, Nat.sub_sub]
        rw [hleafBit, hleaf]
        obtain ⟨hsplit, hmem⟩ :=
          split_more (v := v) hbelow hpos hck he htake (by omega) (hbit (by omega))
        exact ⟨_, rfl, hsplit, rfl, hmem⟩

/-! ## The prefixes that fit -/

/-- The bits of something stored. -/
def Stored (t : RadixTree T) (q : List Bool) : Prop := ∃ x, Mem x t ∧ x.1.bits = q

/-- **A node that is not the root** is one for what is stored. -/
theorem At.isNode (h : At q t parents) (hq : q ≠ []) :
    PrefixTable.IsNode (Stored (rebuild parents t)) q := by
  cases h with
  | root => exact absurd rfl hq
  | @inner p b k d l child _ h haround =>
    obtain ⟨hnode, hleaf | htwo, hchild⟩ := h
    · obtain ⟨x, hx⟩ := Option.isSome_iff_exists.mp hleaf
      exact .inl ⟨x, mem_rebuild.mpr (.inl (.inl hx)), (hnode.leaf x hx).2⟩
    · have hside (b' : Bool) : ∃ s, Stored (rebuild parents (node k d l child)) s ∧
          (p ++ k.bits) ++ [b'] <+: s := by
        obtain ⟨x, hx⟩ := (hchild b').exists_mem (htwo b')
        exact ⟨x.1.bits, ⟨x, mem_rebuild.mpr (.inl (.inr ⟨b', hx⟩)), rfl⟩, ((hchild b').mem hx).2⟩
      exact .inr ⟨false, true, by decide, hside false, hside true⟩

/-- **Between two nodes on the way there is none**. -/
theorem Around.not_isNode (h : Around q b parents) (ht : ∀ x, Mem x t → q ++ [b] <+: x.1.bits)
    {r : List Bool} (hr : r <+: q) (hpos : 0 < r.length)
    (hskip : ∀ f ∈ parents, f.depth + f.key.prefixLen ≠ r.length) :
    ¬ PrefixTable.IsNode (Stored (rebuild parents t)) r := by
  induction parents generalizing q b t with
  | nil => exact absurd h id
  | cons f parents ih =>
    obtain ⟨hbit, hother, hcases⟩ := h
    rcases hcases with ⟨rfl, -⟩ | ⟨p, b', rfl, hnode, -, haround⟩
    · rw [List.prefix_nil.mp hr] at hpos
      exact absurd hpos (Nat.lt_irrefl 0)
    · have hklen := RtEntry.length_bits hnode.masked.le
      have hfirst := (List.prefix_append_right_inj p).mpr hnode.first
      have hplug (x : RtEntry × T) (hx : Mem x (f.plug t)) : p ++ f.key.bits <+: x.1.bits := by
        rcases mem_plug.mp hx with hx | hx | ⟨b'', hb'', hx⟩
        · exact (List.prefix_append _ _).trans (ht x hx)
        · rw [(hnode.leaf x hx).2]
        · exact (List.prefix_append _ _).trans ((hother b'' (hbit ▸ hb'')).mem hx).2
      show ¬ PrefixTable.IsNode (Stored (rebuild parents (f.plug t))) r
      by_cases hshort : r.length ≤ p.length
      · -- further up
        have hrp : r <+: p := List.prefix_of_prefix_length_le hr (List.prefix_append _ _) hshort
        exact ih haround (fun x hx => hfirst.trans (hplug x hx)) hrp
          fun f' hf' => hskip f' (List.mem_cons_of_mem _ hf')
      · -- all that goes on from `r` goes on from the node's end
        have hend : r.length < (p ++ f.key.bits).length := by
          have hne := hskip f List.mem_cons_self
          have hle := hr.length_le
          rw [hnode.depth] at hne
          rw [List.length_append] at hle ⊢
          omega
        refine PrefixTable.not_isNode_of_prefix hend ?_
        rintro s ⟨x, hx, rfl⟩ hrs
        refine (mem_rebuild.mp hx).elim (hplug x) fun hx => absurd ?_ (haround.not_prefix hx)
        exact (List.snoc_prefix_of_length_lt hfirst hr (by omega)).trans hrs

/-- A node lies behind the last one before it. -/
theorem At.not_isNode (h : At q t parents) {r : List Bool} (hr : r <+: q)
    (hlt : r.length < q.length) (hpos : 0 < r.length)
    (hskip : ∀ f ∈ parents, f.depth + f.key.prefixLen ≠ r.length) :
    ¬ PrefixTable.IsNode (Stored (rebuild parents t)) r := by
  cases t with
  | nil => cases h
  | node k d l child =>
    obtain ⟨haround, hbelow, hend⟩ := h.around false
    have hno := haround.not_isNode (fun x hx => (hbelow.mem hx).2) hr hpos fun f hf => by
      rcases List.mem_cons.mp hf with rfl | hf
      · rw [hend]
        exact hlt.ne'
      · exact hskip f hf
    have hplug : rebuild (⟨k, d, l, child, false⟩ :: parents) (child false)
        = rebuild parents (node k d l child) := by
      show rebuild parents (Parent.plug _ _) = _
      rw [plug_self]
    rwa [hplug] at hno

/-- A prefix fits when what goes on from `q` as it does leaves its address before it ends. -/
theorem fits_of_leaves {root : RadixTree T} (hq : q <+: word e.addr) (hlt : q.length < e.prefixLen)
    (he : e.prefixLen ≤ 32) (r : List Bool)
    (h : ∀ x, Mem x root → q ++ [e.bit q.length] <+: x.1.bits →
      r <+: x.1.bits ∧ ¬ r <+: word e.addr) :
    PrefixTable.Fits (Stored root) (word e.addr) e.prefixLen := by
  refine .inr fun m hm hm' => ?_
  have hnext := prefix_snoc_bit hq (by omega)
  have hu := List.take_prefix m (word e.addr)
  have hulen : ((word e.addr).take m).length = m := by
    rw [List.length_take]
    omega
  generalize (word e.addr).take m = u at hu hulen
  have hgo : q ++ [e.bit q.length] <+: u := List.snoc_prefix_of_length_lt hnext hu (by omega)
  intro hnode
  obtain ⟨s, ⟨x, hx, rfl⟩, hus⟩ := hnode.exists_prefix
  obtain ⟨hrx, hr⟩ := h x hx (hgo.trans hus)
  have hur : u.length < r.length := by
    by_contra hle
    exact hr ((List.prefix_of_prefix_length_le hrx hus (not_lt.mp hle)).trans hu)
  refine PrefixTable.not_isNode_of_prefix hur ?_ hnode
  rintro _ ⟨y, hy, rfl⟩ huy
  exact (h y hy (hgo.trans huy)).1

/-- What is not stored is put into the table. -/
theorem represents_insertNew {table : PrefixTable Bool T} {root t' : RadixTree T}
    (hiff : ∀ q v, table q = some v ↔ ∃ e, Mem (e, v) root ∧ e.bits = q) (hok : RootOk t')
    (hmem : ∀ x, Mem x t' ↔ Mem x root ∨ x = (e, v)) (hnew : ∀ x, Mem x root → x.1.bits ≠ e.bits) :
    Represents t' (table.insertNew e.bits v) := by
  refine ⟨hok, fun q u => ?_⟩
  have hnone : table e.bits = none := by
    cases hv : table e.bits with
    | none => rfl
    | some w =>
      obtain ⟨e', he', hbits⟩ := (hiff _ _).mp hv
      exact absurd hbits (hnew _ he')
  rw [PrefixTable.insertNew, hnone, if_neg (by simp)]
  by_cases hq : q = e.bits
  · subst hq
    rw [Function.update_self]
    constructor
    · rintro ⟨⟩
      exact ⟨e, (hmem _).mpr (.inr rfl), rfl⟩
    · rintro ⟨e', he', hbits⟩
      rcases (hmem _).mp he' with hold | heq
      · exact absurd hbits (hnew _ hold)
      · rw [(Prod.mk.inj heq).2]
  · rw [Function.update_of_ne hq, hiff]
    constructor
    · rintro ⟨e', he', hbits⟩
      exact ⟨e', (hmem _).mpr (.inl he'), hbits⟩
    · rintro ⟨e', he', hbits⟩
      rcases (hmem _).mp he' with hold | heq
      · exact ⟨e', hold, hbits⟩
      · rw [(Prod.mk.inj heq).1] at hbits
        exact absurd hbits.symm hq

/-- The search goes on past the end of the key: it does not fit. -/
theorem not_fits {root : RadixTree T} (hq : q <+: word e.addr) (hlt : e.prefixLen < q.length)
    (hnode : PrefixTable.IsNode (Stored root) q)
    (hno : ¬ PrefixTable.IsNode (Stored root) ((word e.addr).take e.prefixLen)) :
    ¬ PrefixTable.Fits (Stored root) (word e.addr) e.prefixLen := by
  rintro (hyes | hyes)
  · exact hno hyes
  · refine hyes q.length hlt hq.length_le ?_
    rwa [← List.prefix_iff_eq_take.mp hq]

/-- A prefix of the address that is no longer than another one. -/
theorem take_prefix_of_le {n : ℕ} (hq : q <+: word e.addr) (hle : n ≤ q.length) :
    (word e.addr).take n <+: q ∧ ((word e.addr).take n).length = n := by
  have hlen := hq.length_le
  have htake : ((word e.addr).take n).length = n := by
    rw [List.length_take]
    omega
  exact ⟨List.prefix_of_prefix_length_le (List.take_prefix _ _) hq (by omega), htake⟩

/-- What `insert` does with a key: it is stored already, it is put into the tree, or the call is
undefined. -/
inductive Inserted (val : RtEntry × T) (root : RadixTree T) (r : Option (RadixTree T)) : Prop
  | stored (x : RtEntry × T) (hx : Mem x root) (hbits : x.1.bits = val.1.bits)
      (hfits : PrefixTable.Fits (Stored root) (word val.1.addr) val.1.prefixLen)
      (hr : r = some root)
  | new (t' : RadixTree T) (hr : r = some t') (hok : RootOk t')
      (hmem : ∀ x, Mem x t' ↔ Mem x root ∨ x = val)
      (hnew : ∀ x, Mem x root → x.1.bits ≠ val.1.bits)
      (hfits : PrefixTable.Fits (Stored root) (word val.1.addr) val.1.prefixLen)
  | undefined (hr : r = none)
      (hfits : ¬ PrefixTable.Fits (Stored root) (word val.1.addr) val.1.prefixLen)

/-- Around a node nothing goes on from its end. -/
theorem At.not_memAround (h : At q t parents) (hx : MemAround x parents) : ¬ q <+: x.1.bits := by
  cases h with
  | root => exact absurd hx id
  | @inner p _ _ _ _ _ _ h haround =>
    have hfirst := (List.prefix_append_right_inj p).mpr h.1.first
    exact fun hpre => haround.not_prefix hx (hfirst.trans hpre)

/-- The key goes on from a path that it is longer than. -/
theorem snoc_bit_prefix_bits (hq : q <+: word e.addr) (hlt : q.length < e.prefixLen)
    (he : e.prefixLen ≤ 32) : q ++ [e.bit q.length] <+: e.bits := by
  refine List.snoc_prefix_of_length_lt (prefix_snoc_bit hq (by omega)) e.bits_prefix_word ?_
  rwa [RtEntry.length_bits he]

/-- What is stored at a node goes on with its key. -/
theorem Below.key_prefix (h : Below q b t) (hnil : t.isNil = false) (hx : Mem x t) :
    q ++ t.key.bits <+: x.1.bits := by
  cases t with
  | nil => cases hnil
  | node k d l child => exact h.mem_end hx

/-- **The search finds the leaf** of a key that is stored. -/
theorem Search.bits_ne {root : RadixTree T} {found : Found T} (h : Search e root found)
    (he : e.Masked) (hpos : 0 < e.prefixLen) (hleaf : found.isLeaf = false) (hx : Mem x root) :
    x.1.bits ≠ e.bits := by
  intro hxe
  have hstored : PrefixTable.IsNode (Stored root) ((word e.addr).take e.prefixLen) :=
    .inl ⟨x, hx, hxe⟩
  cases h with
  | stop q hq hat hroot hfound hchild hskip =>
    subst hroot
    -- the search went past the key, or ends at it, or has nothing below
    rcases Nat.lt_trichotomy e.prefixLen q.length with hlt | hlen | hlt
    · obtain ⟨hr, hrlen⟩ := take_prefix_of_le hq hlt.le
      refine hat.not_isNode hr (hrlen.trans_lt hlt) (hpos.trans_eq hrlen.symm) ?_ hstored
      rw [hrlen]
      exact hskip
    · have hxq : x.1.bits = q := by
        rw [hxe, RtEntry.bits, hlen]
        exact (List.prefix_iff_eq_take.mp hq).symm
      rcases mem_rebuild.mp hx with hx | hx
      · rcases hat.mem hx with ⟨hxleaf, -⟩ | ⟨b, hb⟩
        · rw [hfound, hxleaf, decide_eq_true hlen] at hleaf
          cases hleaf
        · have hle := hb.length_le
          rw [hxq, List.length_append, List.length_singleton] at hle
          omega
      · exact hat.not_memAround hx (hxq ▸ List.prefix_refl q)
    · refine hchild.resolve_left hlt.ne' x hx ?_
      rw [hxe]
      exact snoc_bit_prefix_bits hq hlt he.le
  | differ q hq hlen hbelow hnil haround hroot _ hdiffer hskip =>
    subst hroot
    rcases Nat.lt_or_ge e.prefixLen q.length with hlt | hge
    · obtain ⟨hr, hrlen⟩ := take_prefix_of_le hq hlt.le
      refine haround.not_isNode (fun x hx => (hbelow.mem hx).2) hr (hpos.trans_eq hrlen.symm) ?_
        hstored
      rw [hrlen]
      exact hskip
    · have hpre : q ++ [e.bit q.length] <+: x.1.bits := by
        rw [hxe]
        exact snoc_bit_prefix_bits hq (by omega) he.le
      have hx := (mem_rebuild.mp hx).resolve_right fun hx => haround.not_prefix hx hpre
      refine hdiffer ((hbelow.key_prefix hnil hx).trans ?_)
      rw [hxe]
      exact e.bits_prefix_word

/-- The node where the search stops. -/
theorem inserted_stop {root : RadixTree T} {found : Found T} (he : e.Masked) (hpos : 0 < e.prefixLen)
    (hq : q <+: word e.addr) (hat : At q found.node found.parents)
    (hroot : rebuild found.parents found.node = root)
    (hleaf : found.isLeaf = (decide (e.prefixLen = q.length) && found.node.leaf.isSome))
    (hchild : e.prefixLen = q.length ∨ ∀ x, Mem x root → ¬ q ++ [e.bit q.length] <+: x.1.bits)
    (hskip : ∀ f ∈ found.parents, f.depth + f.key.prefixLen ≠ e.prefixLen)
    (hnew : found.isLeaf = false → ∀ x, Mem x root → x.1.bits ≠ e.bits) :
    Inserted (e, v) root (if found.isLeaf then some root
      else (append (e, v) found.node).map (rebuild found.parents)) := by
  subst hroot
  have hbits (hlen : e.prefixLen = q.length) : e.bits = q := by
    rw [RtEntry.bits, hlen]
    exact (List.prefix_iff_eq_take.mp hq).symm
  have hnodeEnd (hlen : e.prefixLen = q.length) :
      PrefixTable.Fits (Stored (rebuild found.parents found.node)) (word e.addr) e.prefixLen := by
    refine .inl ?_
    show PrefixTable.IsNode _ e.bits
    rw [hbits hlen]
    refine hat.isNode fun hnil => ?_
    rw [hnil] at hlen
    exact hpos.ne' hlen
  by_cases hyes : found.isLeaf = true
  · -- the key is stored
    rw [if_pos hyes]
    rw [hleaf, Bool.and_eq_true, decide_eq_true_iff] at hyes
    obtain ⟨x, hx⟩ := Option.isSome_iff_exists.mp hyes.2
    obtain ⟨hmem, hxbits⟩ := hat.leaf_bits hx
    refine .stored x (mem_rebuild.mpr (.inl hmem)) ?_ (hnodeEnd hyes.1) rfl
    rw [hxbits]
    exact (hbits hyes.1).symm
  · rw [if_neg hyes]
    have hnone : e.prefixLen = q.length → found.node.leaf = none := by
      intro hlen
      rw [hleaf, decide_eq_true hlen, Bool.true_and] at hyes
      simpa using hyes
    have happend := append_spec (v := v) hat hq he hpos hnone hchild
    by_cases hlt : e.prefixLen < q.length
    · -- the node is longer than the key
      rw [if_pos hlt] at happend
      rw [happend]
      refine .undefined rfl (not_fits hq hlt (hat.isNode fun hnil => ?_) ?_)
      · rw [hnil] at hlt
        exact Nat.not_lt_zero _ hlt
      · obtain ⟨hr, hrlen⟩ := take_prefix_of_le hq hlt.le
        refine hat.not_isNode hr (hrlen.trans_lt hlt) (hpos.trans_eq hrlen.symm) ?_
        rw [hrlen]
        exact hskip
    · rw [if_neg hlt] at happend
      obtain ⟨t', ht', hat', hmem⟩ := happend
      rw [ht']
      refine .new _ rfl hat'.rootOk (fun x => ?_) (hnew ((Bool.not_eq_true _).mp hyes)) ?_
      · rw [mem_rebuild, mem_rebuild, hmem, or_right_comm]
      · by_cases hlen : e.prefixLen = q.length
        · exact hnodeEnd hlen
        · have hlt' : q.length < e.prefixLen := by omega
          exact fits_of_leaves hq hlt' he.le [] fun x hx hpre =>
            absurd hpre (hchild.resolve_left hlen x hx)

/-- The node that differs from the key. -/
theorem inserted_differ {root : RadixTree T} {found : Found T} (he : e.Masked)
    (hpos : 0 < e.prefixLen) (hq : q <+: word e.addr) (hlen : e.prefixLen ≠ q.length)
    (hbelow : Below q (e.bit q.length) found.node) (hnil : found.node.isNil = false)
    (haround : Around q (e.bit q.length) found.parents)
    (hroot : rebuild found.parents found.node = root)
    (hdiffer : ¬ q ++ found.node.key.bits <+: word e.addr)
    (hskip : ∀ f ∈ found.parents, f.depth + f.key.prefixLen ≠ e.prefixLen)
    (hnew : ∀ x, Mem x root → x.1.bits ≠ e.bits) :
    Inserted (e, v) root ((prepend (e, v) found.node).map (rebuild found.parents)) := by
  subst hroot
  have hprepend := prepend_spec (v := v) hbelow hnil hq he hdiffer hlen
  by_cases hlt : e.prefixLen < q.length
  · -- no bits of the key are left for the node
    rw [if_pos hlt] at hprepend
    rw [hprepend]
    refine .undefined rfl (not_fits hq hlt ?_ ?_)
    · cases hparents : found.parents with
      | nil =>
        rw [hparents] at haround
        exact absurd haround id
      | cons f parents =>
        rw [hparents] at haround
        refine (haround.at_plug hbelow hnil).isNode fun hq' => ?_
        rw [hq'] at hlt
        exact Nat.not_lt_zero _ hlt
    · obtain ⟨hr, hrlen⟩ := take_prefix_of_le hq hlt.le
      refine haround.not_isNode (fun x hx => (hbelow.mem hx).2) hr (hpos.trans_eq hrlen.symm) ?_
      rw [hrlen]
      exact hskip
  · rw [if_neg hlt] at hprepend
    obtain ⟨t', ht', hbelow', hnil', hmem⟩ := hprepend
    have hlt' : q.length < e.prefixLen := by omega
    rw [ht']
    refine .new _ rfl (haround.rootOk hbelow' hnil') (fun x => ?_) hnew ?_
    · rw [mem_rebuild, mem_rebuild, hmem, or_right_comm]
    · -- what goes on as the key does is below the node, and leaves the address with it
      refine fits_of_leaves hq hlt' he.le (q ++ found.node.key.bits) fun x hx hpre =>
        ⟨hbelow.key_prefix hnil ?_, hdiffer⟩
      exact (mem_rebuild.mp hx).resolve_right fun hx => haround.not_prefix hx hpre

/-- What `insert` begins with is a root that holds the same. -/
theorem RootOk.exists_root (h : RootOk t) : ∃ child, (∀ b, Below [] b (child b)) ∧
    (if t.isNil then node .nul 0 none noChild else t) = node .nul 0 none child ∧
    ∀ x, Mem x (node .nul 0 none child) ↔ Mem x t := by
  cases t with
  | nil =>
    refine ⟨noChild, fun _ => trivial, rfl, fun x => ?_⟩
    rw [mem_node_noChild]
    exact iff_of_false (Option.some_ne_none x).symm id
  | node k d l child =>
    obtain ⟨rfl, rfl, rfl, hchild⟩ := h
    exact ⟨child, hchild, rfl, fun _ => Iff.rfl⟩

theorem Around.isEmpty {parents : List (Parent T)} (h : Around q b parents) :
    parents.isEmpty = false := by
  cases parents with
  | nil => exact absurd h id
  | cons => rfl

/-- A node that differs from the key does not match it. -/
theorem Below.not_matchesNode (h : Below q b t) (hnil : t.isNil = false) (hq : q <+: word e.addr)
    (hdiffer : ¬ q ++ t.key.bits <+: word e.addr) : matchesNode e t = false := by
  cases t with
  | nil => cases hnil
  | node k d l child =>
    apply decide_eq_false
    rw [key, depth, h.1.depth]
    intro heq
    exact hdiffer ((radixSubstr_eq_iff_append hq h.1.masked h.1.fits).mp heq)

/-- What `insert` does, from the root it begins with. -/
theorem inserted_insert (h : RootOk t) (he : e.Masked) (hpos : 0 < e.prefixLen) (v : T) :
    ∃ root, RootOk root ∧ (∀ x, Mem x root ↔ Mem x t) ∧
      Inserted (e, v) root (insert (e, v) t) := by
  obtain ⟨child, hchild, hroot, hmem⟩ := h.exists_root
  refine ⟨node .nul 0 none child, ⟨rfl, rfl, rfl, hchild⟩, hmem, ?_⟩
  have hsearch := search_findNode (e := e) (.root hchild) List.nil_prefix (by simp)
  unfold insert
  rw [hroot]
  rw [List.length_nil] at hsearch
  have hself : rebuild [] (node .nul 0 none child) = node .nul 0 none child := rfl
  rw [hself] at hsearch
  dsimp only
  have hnew : (findNode e (node .nul 0 none child) 0 []).isLeaf = false →
      ∀ x, Mem x (node .nul 0 none child) → x.1.bits ≠ e.bits := fun hleaf _ hx =>
    hsearch.bits_ne he hpos hleaf hx
  generalize findNode e (node .nul 0 none child) 0 [] = found at hsearch hnew ⊢
  cases hsearch with
  | stop q hq hat hroot hleaf hend hskip =>
    have hinserted := inserted_stop (v := v) he hpos hq hat hroot hleaf hend hskip hnew
    rw [hat.matchesNode hq, if_pos rfl]
    cases hparents : found.parents with
    | nil =>
      have hid : (rebuild [] : RadixTree T → RadixTree T) = id := rfl
      rw [hparents, hid, Option.map_id, id] at hinserted
      exact hinserted
    | cons f parents =>
      rw [hparents] at hinserted
      exact hinserted
  | differ q hq hlen hbelow hnil haround hroot hleaf hdiffer hskip =>
    have hinserted := inserted_differ (v := v) he hpos hq hlen hbelow hnil haround hroot hdiffer
      hskip (hnew hleaf)
    rw [hleaf, haround.isEmpty, hbelow.not_matchesNode hnil hq hdiffer]
    exact hinserted

/-- **`insert`**: the prefix fits and is in the table afterwards, or the call is undefined. -/
theorem Represents.insert {table : PrefixTable Bool T} (h : Represents t table) (he : e.Masked)
    (hpos : 0 < e.prefixLen) (v : T) :
    (PrefixTable.Fits (Stored t) (word e.addr) e.prefixLen ∧
      ∃ t', insert (e, v) t = some t' ∧ Represents t' (table.insertNew e.bits v)) ∨
    (¬ PrefixTable.Fits (Stored t) (word e.addr) e.prefixLen ∧ RadixTree.insert (e, v) t = none) := by
  obtain ⟨root, hok, hmem, hinserted⟩ := inserted_insert h.ok he hpos v
  have hstored : Stored root = Stored t := by
    funext q
    simp only [Stored, hmem]
  have hiff (q : List Bool) (u : T) : table q = some u ↔ ∃ e, Mem (e, u) root ∧ e.bits = q := by
    rw [h.iff]
    simp only [hmem]
  rw [← hstored]
  cases hinserted with
  | stored x hx hbits hfits hr =>
    refine .inl ⟨hfits, root, hr, hok, ?_⟩
    have hsome : table e.bits = some x.2 := (hiff _ _).mpr ⟨x.1, hx, hbits⟩
    have hsame : table.insertNew e.bits v = table := by
      rw [PrefixTable.insertNew, hsome]
      rfl
    rwa [hsame]
  | new t' hr hok' hmem' hnew hfits =>
    exact .inl ⟨hfits, t', hr, represents_insertNew hiff hok' hmem' hnew⟩
  | undefined hr hfits => exact .inr ⟨hfits, hr⟩

end RadixTree
