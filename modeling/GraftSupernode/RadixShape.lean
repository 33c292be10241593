/-
# The shape of the radix tree

What is below a node and around it, and that the functions of the radix tree keep it so.

A node lies at a path: the bits on the way to it.  `Below p b t` is a tree at the path `p`, on the
side `b`; `Around q b parents` are the parents of a place on the side `b` of a node whose bits end
at `q`.  `At q t parents` is a node that ends at `q`, the root or another one, with its parents.
`Mem` and `MemAround` are the values in a tree and around a place.
-/
import GraftSupernode.PrefixTable
import GraftSupernode.RadixTree

namespace RadixTree

variable {T : Type*} {p q r : List Bool} {b : Bool} {t t' : RadixTree T} {parents : List (Parent T)}
  {x : RtEntry × T}

/-- A value that is stored in the tree. -/
def Mem (x : RtEntry × T) : RadixTree T → Prop
  | nil => False
  | node _ _ l child => l = some x ∨ ∃ b, Mem x (child b)

/-- A value that is stored around a place. -/
def MemAround (x : RtEntry × T) : List (Parent T) → Prop
  | [] => False
  | f :: parents => (f.leaf = some x ∨ ∃ b, b ≠ f.bit ∧ Mem x (f.child b)) ∨ MemAround x parents

/-- A node at the path `p`, on the side `b`, without its children. -/
structure NodeOk (p : List Bool) (b : Bool) (k : RtEntry) (d : ℕ) (l : Option (RtEntry × T)) :
    Prop where
  depth : d = p.length
  masked : k.Masked
  fits : p.length + k.prefixLen ≤ 32
  first : [b] <+: k.bits
  leaf : ∀ x, l = some x → x.1.Masked ∧ x.1.bits = p ++ k.bits

/-- A tree at the path `p`, on the side `b`: a node has a leaf or two children. -/
def Below (p : List Bool) (b : Bool) : RadixTree T → Prop
  | nil => True
  | node k d l child =>
    NodeOk p b k d l ∧ (l.isSome ∨ ∀ b, (child b).isNil = false) ∧
      ∀ b, Below (p ++ k.bits) b (child b)

/-- The parents of a place on the side `b` of a node that ends at `q`. -/
def Around (q : List Bool) (b : Bool) : List (Parent T) → Prop
  | [] => False
  | f :: parents =>
    f.bit = b ∧ (∀ b', b' ≠ b → Below q b' (f.child b')) ∧
      ((q = [] ∧ parents = [] ∧ f.key = .nul ∧ f.depth = 0 ∧ f.leaf = none) ∨
        ∃ p b', q = p ++ f.key.bits ∧ NodeOk p b' f.key f.depth f.leaf ∧
          (f.leaf.isSome ∨ ∀ b', b' ≠ b → (f.child b').isNil = false) ∧ Around p b' parents)

/-- A tree as the blacklist has it. -/
def RootOk : RadixTree T → Prop
  | nil => True
  | node k d l child => k = .nul ∧ d = 0 ∧ l = none ∧ ∀ b, Below [] b (child b)

/-- A node that ends at `q`: the root, or one with parents. -/
inductive At : List Bool → RadixTree T → List (Parent T) → Prop
  | root {child : Bool → RadixTree T} (h : ∀ b, Below [] b (child b)) :
      At [] (node .nul 0 none child) []
  | inner {p : List Bool} {b : Bool} {k : RtEntry} {d : ℕ} {l : Option (RtEntry × T)}
      {child : Bool → RadixTree T} {parents : List (Parent T)}
      (h : Below p b (node k d l child)) (haround : Around p b parents) :
      At (p ++ k.bits) (node k d l child) parents

/-! ## The values in a tree -/

@[simp] theorem not_mem_noChild (b : Bool) : ¬ Mem x (noChild b) := id

theorem mem_plug {f : Parent T} :
    Mem x (f.plug t) ↔ Mem x t ∨ f.leaf = some x ∨ ∃ b, b ≠ f.bit ∧ Mem x (f.child b) := by
  show (f.leaf = some x ∨ ∃ b, Mem x (Function.update f.child f.bit t b)) ↔ _
  constructor
  · rintro (hleaf | ⟨b, hb⟩)
    · exact .inr (.inl hleaf)
    · by_cases hbit : b = f.bit
      · subst hbit
        rw [Function.update_self] at hb
        exact .inl hb
      · rw [Function.update_of_ne hbit] at hb
        exact .inr (.inr ⟨b, hbit, hb⟩)
  · rintro (ht | hleaf | ⟨b, hbit, hb⟩)
    · refine .inr ⟨f.bit, ?_⟩
      rwa [Function.update_self]
    · exact .inl hleaf
    · refine .inr ⟨b, ?_⟩
      rwa [Function.update_of_ne hbit]

/-- **The values of a tree** are those below a place and those around it. -/
theorem mem_rebuild : Mem x (rebuild parents t) ↔ Mem x t ∨ MemAround x parents := by
  induction parents generalizing t with
  | nil => exact (or_iff_left id).symm
  | cons f parents ih =>
    show Mem x (rebuild parents (f.plug t)) ↔ _
    rw [ih, mem_plug, or_assoc]
    rfl

namespace Below

theorem mem_node {k : RtEntry} {d : ℕ} {l : Option (RtEntry × T)} {child : Bool → RadixTree T}
    (hchild : ∀ b x, Mem x (child b) → x.1.Masked ∧ (p ++ k.bits) ++ [b] <+: x.1.bits)
    (h : NodeOk p b k d l) (hx : Mem x (node k d l child)) :
    x.1.Masked ∧ p ++ k.bits <+: x.1.bits := by
  rcases hx with hleaf | ⟨b', hx⟩
  · obtain ⟨hmasked, hbits⟩ := h.leaf x hleaf
    exact ⟨hmasked, hbits ▸ List.prefix_refl _⟩
  · obtain ⟨hmasked, hbits⟩ := hchild b' x hx
    exact ⟨hmasked, (List.prefix_append _ _).trans hbits⟩

/-- **What is stored below a place** goes on from there. -/
theorem mem (h : Below p b t) (hx : Mem x t) : x.1.Masked ∧ p ++ [b] <+: x.1.bits := by
  induction t generalizing p b x with
  | nil => exact absurd hx id
  | node k d l child ih =>
    obtain ⟨hnode, -, hchild⟩ := h
    obtain ⟨hmasked, hbits⟩ := mem_node (fun b' x hx => ih b' (hchild b') hx) hnode hx
    exact ⟨hmasked, ((List.prefix_append_right_inj p).mpr hnode.first).trans hbits⟩

/-- What is stored at a node goes on from the end of its bits. -/
theorem mem_end {k : RtEntry} {d : ℕ} {l : Option (RtEntry × T)} {child : Bool → RadixTree T}
    (h : Below p b (node k d l child)) (hx : Mem x (node k d l child)) :
    p ++ k.bits <+: x.1.bits :=
  (mem_node (fun b' _ hx => (h.2.2 b').mem hx) h.1 hx).2

/-- Every node has something below it. -/
theorem exists_mem (h : Below p b t) (ht : t.isNil = false) : ∃ x, Mem x t := by
  induction t generalizing p b with
  | nil => cases ht
  | node k d l child ih =>
    obtain ⟨-, hleaf | htwo, hchild⟩ := h
    · obtain ⟨x, hx⟩ := Option.isSome_iff_exists.mp hleaf
      exact ⟨x, .inl hx⟩
    · obtain ⟨x, hx⟩ := ih false (hchild false) (htwo false)
      exact ⟨x, .inr ⟨false, hx⟩⟩

end Below

/-! ## What is around a place -/

namespace Around

/-- A place with something in it is a node of the tree around it. -/
theorem at_plug {f : Parent T} (h : Around q b (f :: parents)) (ht : Below q b t)
    (hnil : t.isNil = false) : At q (f.plug t) parents := by
  obtain ⟨hbit, hother, hroot | ⟨p, b', hq, hnode, hleaf, haround⟩⟩ := h
  · obtain ⟨rfl, rfl, hkey, hdepth, hl⟩ := hroot
    have hplug : f.plug t = node .nul 0 none (Function.update f.child f.bit t) := by
      rw [Parent.plug, hkey, hdepth, hl]
    rw [hplug]
    refine .root fun b' => ?_
    by_cases hb : b' = f.bit
    · subst hb
      rw [Function.update_self, hbit]
      exact ht
    · rw [Function.update_of_ne hb]
      exact hother b' (hbit ▸ hb)
  · subst hq
    refine .inner ⟨hnode, ?_, fun b'' => ?_⟩ haround
    · refine hleaf.imp id fun hall b'' => ?_
      by_cases hb : b'' = f.bit
      · subst hb
        rwa [Function.update_self]
      · rw [Function.update_of_ne hb]
        exact hall b'' (hbit ▸ hb)
    · by_cases hb : b'' = f.bit
      · subst hb
        rw [Function.update_self, hbit]
        exact ht
      · rw [Function.update_of_ne hb]
        exact hother b'' (hbit ▸ hb)

end Around

theorem At.isNil (h : At q t parents) : t.isNil = false := by
  cases h <;> rfl

/-- **A tree that is put back** has its shape. -/
theorem At.rootOk (h : At q t parents) : RootOk (rebuild parents t) := by
  induction parents generalizing q t with
  | nil =>
    cases h with
    | root h => exact ⟨rfl, rfl, rfl, h⟩
    | inner _ haround => exact absurd haround id
  | cons f parents ih =>
    cases h with
    | inner h haround => exact ih (haround.at_plug h rfl)

theorem Around.rootOk (h : Around q b parents) (ht : Below q b t) (hnil : t.isNil = false) :
    RootOk (rebuild parents t) := by
  cases parents with
  | nil => exact absurd h id
  | cons f parents => exact (h.at_plug ht hnil).rootOk

theorem RootOk.masked (h : RootOk t) (hx : Mem x t) : x.1.Masked := by
  cases t with
  | nil => exact absurd hx id
  | node k d l child =>
    obtain ⟨-, -, rfl, hchild⟩ := h
    rcases hx with hleaf | ⟨b, hx⟩
    · cases hleaf
    · exact ((hchild b).mem hx).1

/-- **What is stored around a place** does not go on from there. -/
theorem Around.not_prefix (h : Around q b parents) (hx : MemAround x parents) :
    ¬ q ++ [b] <+: x.1.bits := by
  induction parents generalizing q b with
  | nil => exact absurd hx id
  | cons f parents ih =>
    obtain ⟨hbit, hother, hcases⟩ := h
    intro hpre
    rcases hx with (hleaf | ⟨b', hb', hx⟩) | hx
    · rcases hcases with ⟨-, -, -, -, hnone⟩ | ⟨p, b', rfl, hnode, -⟩
      · rw [hnone] at hleaf
        cases hleaf
      · rw [(hnode.leaf x hleaf).2] at hpre
        have hle := hpre.length_le
        rw [List.length_append, List.length_singleton] at hle
        omega
    · have hpre' := ((hother b' (hbit ▸ hb')).mem hx).2
      exact hb' (hbit ▸ List.eq_of_snoc_prefix hpre' hpre)
    · rcases hcases with ⟨-, rfl, -⟩ | ⟨p, b', rfl, hnode, -, haround⟩
      · exact absurd hx id
      · refine ih haround hx ?_
        have hfirst := (List.prefix_append_right_inj p).mpr hnode.first
        exact hfirst.trans ((List.prefix_append _ _).trans hpre)

/-! ## The search -/

/-- The bit after `q` in the address, which starts with `q`. -/
theorem prefix_snoc_bit {e : RtEntry} (h : q <+: word e.addr) (hlt : q.length < 32) :
    q ++ [e.bit q.length] <+: word e.addr := by
  have hlt' : q.length < (word e.addr).length := by rwa [length_word]
  have hpre := List.prefix_snoc_of_prefix h hlt'
  rwa [getElem_word, ← RtEntry.bit_eq] at hpre

/-- A node's key is compared with the bits of the address after the path. -/
theorem radixSubstr_eq_iff_append {e k : RtEntry} (h : p <+: word e.addr) (hk : k.Masked)
    (hle : p.length + k.prefixLen ≤ 32) :
    e.radixSubstr p.length k.prefixLen = k ↔ p ++ k.bits <+: word e.addr := by
  rw [RtEntry.radixSubstr_eq_iff hk hle]
  obtain ⟨r, hr⟩ := h
  rw [← hr, List.drop_left, List.prefix_append_right_inj]

/-- What the search for a key comes to: a node that ends at a prefix of the key's address, where
the key ends too or no child goes on with its next bit, or a node that differs from the key. -/
inductive Search (e : RtEntry) (root : RadixTree T) (found : Found T) : Prop
  | stop (q : List Bool) (hq : q <+: word e.addr) (hat : At q found.node found.parents)
      (hroot : rebuild found.parents found.node = root)
      (hleaf : found.isLeaf = (decide (e.prefixLen = q.length) && found.node.leaf.isSome))
      (hchild : e.prefixLen = q.length ∨ ∀ x, Mem x root → ¬ q ++ [e.bit q.length] <+: x.1.bits)
      (hskip : ∀ f ∈ found.parents, f.depth + f.key.prefixLen ≠ e.prefixLen)
  | differ (q : List Bool) (hq : q <+: word e.addr) (hlen : e.prefixLen ≠ q.length)
      (hbelow : Below q (e.bit q.length) found.node) (hnil : found.node.isNil = false)
      (haround : Around q (e.bit q.length) found.parents)
      (hroot : rebuild found.parents found.node = root)
      (hleaf : found.isLeaf = false) (hdiffer : ¬ q ++ found.node.key.bits <+: word e.addr)
      (hskip : ∀ f ∈ found.parents, f.depth + f.key.prefixLen ≠ e.prefixLen)

/-- The place of a child of a node that ends at `q`. -/
theorem At.around {k : RtEntry} {d : ℕ} {l : Option (RtEntry × T)} {child : Bool → RadixTree T}
    (h : At q (node k d l child) parents) (b : Bool) :
    Around q b (⟨k, d, l, child, b⟩ :: parents) ∧ Below q b (child b) ∧
      d + k.prefixLen = q.length := by
  cases h with
  | root h => exact ⟨⟨rfl, fun b' _ => h b', .inl ⟨rfl, rfl, rfl, rfl, rfl⟩⟩, h b, rfl⟩
  | @inner p b' _ _ _ _ _ h haround =>
    obtain ⟨hnode, hleaf, hchild⟩ := h
    refine ⟨⟨rfl, fun b' _ => hchild b', .inr ⟨p, b', rfl, hnode, ?_, haround⟩⟩, hchild b, ?_⟩
    · exact hleaf.imp id fun hall b' _ => hall b'
    · rw [hnode.depth, List.length_append, RtEntry.length_bits hnode.masked.le]

theorem plug_self (k : RtEntry) (d : ℕ) (l : Option (RtEntry × T)) (child : Bool → RadixTree T)
    (b : Bool) : (⟨k, d, l, child, b⟩ : Parent T).plug (child b) = node k d l child := by
  rw [Parent.plug, Function.update_eq_self]

/-- **The search**. -/
theorem search_findNode {e : RtEntry} (hat : At q t parents) (hq : q <+: word e.addr)
    (hskip : ∀ f ∈ parents, f.depth + f.key.prefixLen ≠ e.prefixLen) :
    Search e (rebuild parents t) (findNode e t q.length parents) := by
  induction t generalizing q parents with
  | nil => cases hat
  | node k d l child ih =>
    unfold findNode
    by_cases hlen : e.prefixLen = q.length
    · rw [if_pos hlen]
      refine .stop q hq hat rfl ?_ (.inl hlen) hskip
      rw [decide_eq_true hlen, Bool.true_and]
      rfl
    · rw [if_neg hlen]
      dsimp only
      obtain ⟨haround, hbelow, hend⟩ := hat.around (e.bit q.length)
      generalize hb : e.bit q.length = b at *
      -- the node ends before the key does, so it becomes one of the parents
      have hskip' : ∀ f ∈ (⟨k, d, l, child, b⟩ : Parent T) :: parents,
          f.depth + f.key.prefixLen ≠ e.prefixLen := by
        intro f hf
        rcases List.mem_cons.mp hf with rfl | hf
        · rw [hend]
          exact Ne.symm hlen
        · exact hskip f hf
      have hroot : rebuild (⟨k, d, l, child, b⟩ :: parents) (child b)
          = rebuild parents (node k d l child) := by
        show rebuild parents (Parent.plug _ _) = _
        rw [plug_self]
      cases hchild : child b with
      | nil =>
        rw [hchild] at hroot
        -- nothing is stored on the side where the key goes on
        refine .stop q hq hat rfl ?_ (.inr fun x hx => ?_) hskip
        · rw [decide_eq_false hlen, Bool.false_and]
          rfl
        · rw [hb]
          rw [← hroot, mem_rebuild] at hx
          exact haround.not_prefix (hx.resolve_left id)
      | node k' d' l' child' =>
        rw [hchild] at hbelow hroot
        have hnode := hbelow.1
        rw [if_neg (by simp [isNil])]
        -- the search goes on when the whole key of the child is in the way of the key
        by_cases hsub : e.radixSubstr q.length (node k' d' l' child').key.prefixLen
            = (node k' d' l' child').key
        · rw [if_pos hsub]
          have hq' := (radixSubstr_eq_iff_append hq hnode.masked hnode.fits).mp hsub
          have hat' : At (q ++ k'.bits) (child b) (⟨k, d, l, child, b⟩ :: parents) := by
            rw [hchild]
            exact .inner hbelow haround
          have hrec := ih b hat' hq' hskip'
          rw [List.length_append, RtEntry.length_bits hnode.masked.le, hchild, hroot] at hrec
          exact hrec
        · rw [if_neg hsub]
          refine .differ q hq hlen ?_ rfl ?_ hroot rfl ?_ hskip'
          · rw [hb]
            exact hbelow
          · rw [hb]
            exact haround
          · exact fun hpre => hsub ((radixSubstr_eq_iff_append hq hnode.masked hnode.fits).mpr hpre)

end RadixTree
