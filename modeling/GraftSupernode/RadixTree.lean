/-
# The radix tree

`radix_tree` (`radix_tree.hpp`), with the keys of the blacklist.  A node has a part of a key and the
depth at which it begins; the keys that are stored are leaves.

The children of a node are in a map from keys.  A leaf is there under the key without bits, and the
other keys begin with different bits, since `find_node` goes to the child that begins with the next
bit, and `append` adds one only where it found none.  Hence `leaf` and `child`.  The pointers to
the parents are the list of parents that comes with a node (`Found`), the next one first.

* `findNode`, `longestMatch`, `append`, `prepend`, `insert`, `erase`: the functions of the source;
* `none` is a call that is undefined: an assertion fails, or `radix_substr` is asked for a
  negative number of bits.
-/
import GraftSupernode.RtEntry
import Mathlib.Logic.Function.Basic

/-- `radix_tree<RtEntry, T>`, or one of its nodes; `nil` is no node. -/
inductive RadixTree (T : Type*)
  | nil
  | node (key : RtEntry) (depth : ℕ) (leaf : Option (RtEntry × T)) (child : Bool → RadixTree T)

namespace RadixTree

variable {T : Type*}

/-- `m_key` -/
def key : RadixTree T → RtEntry
  | nil => .nul
  | node k _ _ _ => k

/-- `m_depth` -/
def depth : RadixTree T → ℕ
  | nil => 0
  | node _ d _ _ => d

/-- The leaf below the node. -/
def leaf : RadixTree T → Option (RtEntry × T)
  | nil => none
  | node _ _ l _ => l

/-- There is no node. -/
def isNil : RadixTree T → Bool
  | nil => true
  | node _ _ _ _ => false

/-- No child that is a node. -/
def noChild : Bool → RadixTree T := fun _ => nil

/-- A node, seen from its child for `bit`. -/
structure Parent (T : Type*) where
  key : RtEntry
  depth : ℕ
  leaf : Option (RtEntry × T)
  child : Bool → RadixTree T
  bit : Bool

/-- The node with this child. -/
def Parent.plug (p : Parent T) (t : RadixTree T) : RadixTree T :=
  node p.key p.depth p.leaf (Function.update p.child p.bit t)

/-- The tree that a node is part of. -/
def rebuild (parents : List (Parent T)) (t : RadixTree T) : RadixTree T :=
  parents.foldl (fun t p => p.plug t) t

/-- What `find_node` returns: a node, or the leaf below it. -/
structure Found (T : Type*) where
  node : RadixTree T
  parents : List (Parent T)
  isLeaf : Bool

/-- `radix_tree::find_node` -/
def findNode (key : RtEntry) : RadixTree T → ℕ → List (Parent T) → Found T
  | nil, _, parents => ⟨nil, parents, false⟩
  | node k d l child, depth, parents =>
    if key.prefixLen = depth then ⟨node k d l child, parents, l.isSome⟩
    else
      let b := key.bit depth
      let parents' := ⟨k, d, l, child, b⟩ :: parents
      if (child b).isNil then ⟨node k d l child, parents, false⟩
      else
        let lenNode := (child b).key.prefixLen
        if key.radixSubstr depth lenNode = (child b).key then
          findNode key (child b) (depth + lenNode) parents'
        else ⟨child b, parents', false⟩

/-- The key goes on as the node does. -/
def matchesNode (key : RtEntry) (t : RadixTree T) : Bool :=
  key.radixSubstr t.depth t.key.prefixLen = t.key

/-- `radix_tree::longest_match` -/
def longestMatch (key : RtEntry) (t : RadixTree T) : Option (RtEntry × T) :=
  let found := findNode key t 0 []
  if found.isLeaf then found.node.leaf
  else
    let fromParents := found.parents.findSome? Parent.leaf
    if matchesNode key found.node then found.node.leaf.or fromParents else fromParents

/-- `radix_tree::append` -/
def append (val : RtEntry × T) : RadixTree T → Option (RadixTree T)
  | nil => none
  | node k d l child =>
    let depth := d + k.prefixLen
    if val.1.prefixLen = depth then some (node k d (some val) child)
    else if val.1.prefixLen < depth then none
    else
      let keySub := val.1.radixSubstr depth (val.1.prefixLen - depth)
      some (node k d l
        (Function.update child (keySub.bit 0) (node keySub depth (some val) noChild)))

/-- The loop of `radix_tree::prepend`: how many bits of the node's key, of at most `n`, are those
of the new key. -/
def countCommon (k key : RtEntry) (depth n : ℕ) : ℕ :=
  ((List.range n).takeWhile fun i => k.bit i = key.bit (i + depth)).length

/-- `radix_tree::prepend` -/
def prepend (val : RtEntry × T) : RadixTree T → Option (RadixTree T)
  | nil => none
  | node k d l child =>
    let len₁ := k.prefixLen
    let len₂ := val.1.prefixLen - d
    let count := countCommon k val.1 d (min len₁ len₂)
    if count = 0 then none
    else
      let rest := k.radixSubstr count (len₁ - count)
      let children := Function.update noChild (rest.bit 0) (node rest (d + count) l child)
      if count = len₂ then some (node (k.radixSubstr 0 count) d (some val) children)
      else
        let keySub := val.1.radixSubstr (d + count) (len₂ - count)
        some (node (k.radixSubstr 0 count) d none
          (Function.update children (keySub.bit 0) (node keySub (d + count) (some val) noChild)))

/-- `radix_tree::insert`: a key that is stored keeps its value. -/
def insert (val : RtEntry × T) (t : RadixTree T) : Option (RadixTree T) :=
  let root := if t.isNil then node .nul 0 none noChild else t
  let found := findNode val.1 root 0 []
  if found.isLeaf then some root
  else if found.parents.isEmpty then append val found.node
  else
    ((if matchesNode val.1 found.node then append val found.node
      else prepend val found.node)).map (rebuild found.parents)

/-- The end of `radix_tree::erase`: a node that is not the root and has one child, which is a node
too, is merged with it. -/
def merge (parents : List (Parent T)) : RadixTree T → RadixTree T
  | nil => nil
  | node k d l child =>
    if parents.isEmpty then node k d l child
    else
      rebuild parents <|
        match l, child false, child true with
        | none, node k' _ l' child', nil => node (k.radixJoin k') d l' child'
        | none, nil, node k' _ l' child' => node (k.radixJoin k') d l' child'
        | _, _, _ => node k d l child

/-- `radix_tree::erase` -/
def erase (key : RtEntry) (t : RadixTree T) : RadixTree T :=
  let found := findNode key t 0 []
  match found.isLeaf, found.node, found.parents with
  | false, _, _ => t
  | true, nil, _ => t
  | true, node k d _ child, [] => node k d none child
  | true, node k d _ child, g :: parents =>
    if !(child false).isNil && !(child true).isNil then
      rebuild (g :: parents) (node k d none child)
    else if (child false).isNil && (child true).isNil then merge parents (g.plug nil)
    else merge (g :: parents) (node k d none child)

end RadixTree
