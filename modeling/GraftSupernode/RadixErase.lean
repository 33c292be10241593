/-
# Erasing from the radix tree

`erase` takes a leaf away, and the node with it when it is left empty; a node that is left with one
child, which is a node too, is merged with it.
-/
import GraftSupernode.RadixInsert

namespace RadixTree

variable {T : Type*} {p q : List Bool} {b : Bool} {t : RadixTree T} {parents : List (Parent T)}
  {x : RtEntry × T} {e : RtEntry} {k : RtEntry} {d : ℕ} {l : Option (RtEntry × T)}
  {child : Bool → RadixTree T}

/-- A node and its only child make one node. -/
theorem below_join {k' : RtEntry} {d' : ℕ} {l' : Option (RtEntry × T)} {child' : Bool → RadixTree T}
    {b' : Bool} (h : NodeOk p b k d l) (h' : Below (p ++ k.bits) b' (node k' d' l' child')) :
    Below p b (node (k.radixJoin k') d l' child') := by
  obtain ⟨hnode, htwo, hchild⟩ := h'
  have hklen := RtEntry.length_bits h.masked.le
  have hfits := hnode.fits
  rw [List.length_append, hklen] at hfits
  have hbits : (k.radixJoin k').bits = k.bits ++ k'.bits :=
    RtEntry.bits_radixJoin h.masked (by omega)
  have hpath : p ++ (k.radixJoin k').bits = (p ++ k.bits) ++ k'.bits := by
    rw [hbits, List.append_assoc]
  refine ⟨⟨h.depth, RtEntry.masked_radixJoin h.masked hnode.masked (by omega), ?_, ?_, ?_⟩, htwo,
    fun b'' => ?_⟩
  · rw [RtEntry.radixJoin_prefixLen]
    omega
  · rw [hbits]
    exact h.first.trans (List.prefix_append _ _)
  · rw [hpath]
    exact hnode.leaf
  · rw [hpath]
    exact hchild b''

/-- **`merge`**: a node that has a leaf or a child is put back. -/
theorem merge_spec (h : NodeOk p b k d l) (hchild : ∀ b', Below (p ++ k.bits) b' (child b'))
    (hsome : l.isSome ∨ ∃ b', (child b').isNil = false) (haround : Around p b parents) :
    RootOk (merge parents (node k d l child)) ∧
      ∀ x, Mem x (merge parents (node k d l child)) ↔
        Mem x (node k d l child) ∨ MemAround x parents := by
  -- a tree in the place of the node, with the same values
  have put (t : RadixTree T) (ht : Below p b t) (hnil : t.isNil = false)
      (hmem : ∀ x, Mem x t ↔ Mem x (node k d l child)) :
      RootOk (rebuild parents t) ∧
        ∀ x, Mem x (rebuild parents t) ↔ Mem x (node k d l child) ∨ MemAround x parents := by
    refine ⟨haround.rootOk ht hnil, fun x => ?_⟩
    rw [mem_rebuild, hmem]
  have hparents : parents.isEmpty = false := by
    cases parents with
    | nil => exact absurd haround id
    | cons => rfl
  unfold merge
  dsimp only
  rw [hparents, if_neg Bool.false_ne_true]
  cases l with
  | some x => exact put _ ⟨h, .inl rfl, hchild⟩ rfl fun _ => Iff.rfl
  | none =>
    have h₀ := hchild false
    have h₁ := hchild true
    have hmem (x : RtEntry × T) : Mem x (node k d none child) ↔
        Mem x (child false) ∨ Mem x (child true) := by
      constructor
      · rintro (hx | ⟨b', hx⟩)
        · cases hx
        · cases b'
          · exact .inl hx
          · exact .inr hx
      · rintro (hx | hx)
        · exact .inr ⟨false, hx⟩
        · exact .inr ⟨true, hx⟩
    have hsome : (child false).isNil = false ∨ (child true).isNil = false := by
      rcases hsome with hsome | ⟨b', hb'⟩
      · cases hsome
      · cases b'
        · exact .inl hb'
        · exact .inr hb'
    cases hc₀ : child false with
    | nil =>
      rw [hc₀] at hsome hmem
      cases hc₁ : child true with
      | nil =>
        rw [hc₁] at hsome
        exact absurd hsome (by simp [isNil])
      | node k' d' l' child' =>
        rw [hc₁] at h₁ hmem
        refine put _ (below_join h h₁) rfl fun x => ?_
        rw [hmem]
        exact (or_iff_right id).symm
    | node k' d' l' child' =>
      rw [hc₀] at h₀ hmem
      cases hc₁ : child true with
      | nil =>
        rw [hc₁] at hmem
        refine put _ (below_join h h₀) rfl fun x => ?_
        rw [hmem]
        exact (or_iff_left id).symm
      | node =>
        refine put _ ⟨h, .inr fun b' => ?_, hchild⟩ rfl fun _ => Iff.rfl
        cases b'
        · rw [hc₀]
          rfl
        · rw [hc₁]
          rfl

/-- A leaf is taken away; what is below the node is longer. -/
theorem mem_removeLeaf (h : Below p b (node k d l child)) (x : RtEntry × T) :
    Mem x (node k d none child) ↔ Mem x (node k d l child) ∧ x.1.bits ≠ p ++ k.bits := by
  obtain ⟨hnode, -, hchild⟩ := h
  constructor
  · rintro (hx | ⟨b', hx⟩)
    · cases hx
    · refine ⟨.inr ⟨b', hx⟩, fun heq => ?_⟩
      have hle := ((hchild b').mem hx).2.length_le
      rw [heq, List.length_append, List.length_singleton] at hle
      omega
  · rintro ⟨hx | hx, hne⟩
    · exact absurd (hnode.leaf x hx).2 hne
    · exact .inr hx

theorem not_mem_of_isNil (h : t.isNil = true) : ¬ Mem x t := by
  cases t with
  | nil => exact id
  | node => cases h

/-- A node that is left empty is taken away. -/
theorem empty_node {g : Parent T} (h : Around p b (g :: parents)) :
    RootOk (merge parents (g.plug nil)) ∧
      ∀ x, Mem x (merge parents (g.plug nil)) ↔ MemAround x (g :: parents) := by
  have hmem (x : RtEntry × T) : Mem x (g.plug nil) ↔
      g.leaf = some x ∨ ∃ b', b' ≠ g.bit ∧ Mem x (g.child b') :=
    mem_plug.trans (or_iff_right id)
  obtain ⟨hbit, hother, hcases⟩ := h
  have hchild (b' : Bool) : Below p b' (Function.update g.child g.bit nil b') := by
    by_cases hb : b' = g.bit
    · subst hb
      rw [Function.update_self]
      trivial
    · rw [Function.update_of_ne hb]
      exact hother b' (hbit ▸ hb)
  rcases hcases with ⟨rfl, rfl, hkey, hdepth, hleaf⟩ | ⟨p, b', rfl, hnode, hsome, haround⟩
  · exact ⟨⟨hkey, hdepth, hleaf, hchild⟩, fun x => (hmem x).trans (or_iff_left id).symm⟩
  · have hleft : g.leaf.isSome ∨ ∃ b', (Function.update g.child g.bit nil b').isNil = false := by
      refine hsome.imp id fun hall => ⟨!g.bit, ?_⟩
      rw [Function.update_of_ne (by simp)]
      exact hall _ (by rw [hbit]; simp)
    obtain ⟨hok, hmerge⟩ := merge_spec hnode hchild hleft haround
    exact ⟨hok, fun x => (hmerge x).trans (or_congr_left (hmem x))⟩

/-- **`erase`**. -/
theorem erase_spec (h : RootOk t) (he : e.Masked) (hpos : 0 < e.prefixLen) :
    RootOk (erase e t) ∧ ∀ x, Mem x (erase e t) ↔ Mem x t ∧ x.1.bits ≠ e.bits := by
  cases t with
  | nil => exact ⟨trivial, fun x => ⟨fun hx => absurd hx id, fun hx => hx.1⟩⟩
  | node k d l child =>
    have hok := h
    obtain ⟨rfl, rfl, rfl, hchild⟩ := h
    have hsearch := search_findNode (e := e) (.root hchild) List.nil_prefix (by simp)
    rw [List.length_nil] at hsearch
    have hself : rebuild [] (node .nul 0 none child) = node .nul 0 none child := rfl
    rw [hself] at hsearch
    have hbits (x : RtEntry × T) := hsearch.bits_ne (x := x) he hpos
    unfold erase
    dsimp only
    generalize findNode e (node .nul 0 none child) 0 [] = found at hsearch hbits ⊢
    cases hl : found.isLeaf with
    | false => exact ⟨hok, fun x => ⟨fun hx => ⟨hx, hbits x hl hx⟩, And.left⟩⟩
    | true =>
      cases hsearch with
      | differ _ _ _ _ _ _ _ hleaf =>
        rw [hl] at hleaf
        cases hleaf
      | stop q hq hat hroot hleaf _ _ =>
        rw [hl, eq_comm, Bool.and_eq_true, decide_eq_true_iff] at hleaf
        obtain ⟨node', parents, isLeaf⟩ := found
        dsimp only at hat hroot hleaf ⊢
        have heq : e.bits = q := by
          rw [RtEntry.bits, hleaf.1]
          exact (List.prefix_iff_eq_take.mp hq).symm
        cases hat with
        | root => cases hleaf.2
        | @inner p b k d l child' _ hbelow haround =>
          have hmem (x : RtEntry × T) : Mem x (node .nul 0 none child) ∧ x.1.bits ≠ e.bits ↔
              Mem x (node k d none child') ∨ MemAround x parents := by
            rw [← hroot, mem_rebuild, heq, mem_removeLeaf hbelow, or_and_right]
            refine or_congr_right (and_iff_left_of_imp fun hx hxe => ?_)
            exact (At.inner hbelow haround).not_memAround hx (hxe ▸ List.prefix_refl _)
          obtain ⟨hnode, -, hbelow'⟩ := hbelow
          have hnode' : NodeOk p b k d (none : Option (RtEntry × T)) :=
            ⟨hnode.depth, hnode.masked, hnode.fits, hnode.first, fun x hx => by cases hx⟩
          -- what is left of the tree has its shape and its values
          have done (t' : RadixTree T) (ht' : RootOk t' ∧ ∀ x, Mem x t' ↔
              Mem x (node k d none child') ∨ MemAround x parents) :
              RootOk t' ∧ ∀ x, Mem x t' ↔ Mem x (node .nul 0 none child) ∧ x.1.bits ≠ e.bits :=
            ⟨ht'.1, fun x => (ht'.2 x).trans (hmem x).symm⟩
          cases parents with
          | nil => exact absurd haround id
          | cons g parents =>
            apply done
            have hempty := empty_node haround
            dsimp only
            by_cases h₀ : (child' false).isNil = true <;> by_cases h₁ : (child' true).isNil = true
            · rw [h₀, h₁]
              refine ⟨hempty.1, fun x => (hempty.2 x).trans (or_iff_right ?_).symm⟩
              rintro (hx | ⟨b', hx⟩)
              · cases hx
              · cases b'
                · exact not_mem_of_isNil h₀ hx
                · exact not_mem_of_isNil h₁ hx
            · rw [h₀, (Bool.not_eq_true _).mp h₁]
              exact merge_spec hnode' hbelow' (.inr ⟨true, (Bool.not_eq_true _).mp h₁⟩) haround
            · rw [(Bool.not_eq_true _).mp h₀, h₁]
              exact merge_spec hnode' hbelow' (.inr ⟨false, (Bool.not_eq_true _).mp h₀⟩) haround
            · rw [(Bool.not_eq_true _).mp h₀, (Bool.not_eq_true _).mp h₁]
              refine ⟨haround.rootOk ⟨hnode', .inr fun b' => ?_, hbelow'⟩ rfl, fun _ => mem_rebuild⟩
              cases b'
              · exact (Bool.not_eq_true _).mp h₀
              · exact (Bool.not_eq_true _).mp h₁

/-- **`erase`** takes the prefix out of the table. -/
theorem Represents.erase {table : PrefixTable Bool T} (h : Represents t table) (he : e.Masked)
    (hpos : 0 < e.prefixLen) : Represents (erase e t) (table.erase e.bits) := by
  obtain ⟨hok, hmem⟩ := erase_spec h.ok he hpos
  refine ⟨hok, fun q v => ?_⟩
  rw [PrefixTable.erase]
  by_cases hq : q = e.bits
  · subst hq
    rw [Function.update_self]
    simp only [reduceCtorEq, false_iff]
    rintro ⟨e', he', hbits⟩
    exact ((hmem _).mp he').2 hbits
  · rw [Function.update_of_ne hq, h.iff]
    constructor
    · rintro ⟨e', he', hbits⟩
      exact ⟨e', (hmem _).mpr ⟨he', fun heq => hq (hbits.symm.trans heq)⟩, hbits⟩
    · rintro ⟨e', he', hbits⟩
      exact ⟨e', ((hmem _).mp he').1, hbits⟩

end RadixTree
