/-
# The search for dependency cycles

`findCycles` (`GraftletLoader.cpp`): a depth-first search in three colours.  A vertex is gray as
long as the search is below it; the stack holds the gray vertices but the one that the search is
at, and they are a way along dependencies (`Inner`).  A black vertex has black children only, and
lies on no cycle (`Explored`).

* A gray child closes a cycle, which is the end of that way (`cycle_of_gray`).
* A vertex whose children are all black lies on no cycle (`Explored.black`).

Each round of a loop makes a vertex darker, so that there are at most two for each vertex.
-/
import GraftSupernode.GraftletDependants
import Mathlib.Algebra.Order.BigOperators.Group.List
import Mathlib.Data.List.Chain
import Mathlib.Logic.Relation

namespace GraftletLoader

namespace DependencyGraph

open Relation

variable {g : DependencyGraph} {color : DllName → Color}

/-- A dependency. -/
def DependsOn (g : DependencyGraph) (a b : DllName) : Prop := ∃ ver, (b, ver) ∈ g.edges a

/-- A vertex that is not in the graph has no dependencies. -/
theorem mem_edges {a : DllName} {dep : DllName × Version} :
    dep ∈ g.edges a ↔ ∃ list, g.graph.find a = some list ∧ dep ∈ list := by
  rw [edges]
  cases g.graph.find a with
  | none => simp
  | some list => simp

/-- Every dependency is a vertex. -/
def Complete (g : DependencyGraph) : Prop := ∀ a b, g.DependsOn a b → b ∈ g.graph.keys

/-- It is one when the dependencies of each vertex are. -/
theorem complete_iff (g : DependencyGraph) :
    g.Complete ↔ ∀ v ∈ g.graph.entries, ∀ dep ∈ v.2, dep.1 ∈ g.graph.keys := by
  constructor
  · rintro h ⟨a, list⟩ hmem ⟨b, ver⟩ hdep
    exact h a b ⟨ver, mem_edges.mpr ⟨list, StdMap.find_eq_some_iff.mpr hmem, hdep⟩⟩
  · rintro h a b ⟨ver, hmem⟩
    obtain ⟨list, hfind, hdep⟩ := mem_edges.mp hmem
    exact h _ (StdMap.find_eq_some_iff.mp hfind) _ hdep

instance (g : DependencyGraph) : Decidable g.Complete := decidable_of_iff _ g.complete_iff.symm

theorem DependsOn.mem_keys {a b : DllName} (h : g.DependsOn a b) : a ∈ g.graph.keys := by
  obtain ⟨ver, hmem⟩ := h
  obtain ⟨list, hfind, -⟩ := mem_edges.mp hmem
  exact StdMap.mem_keys_of_find hfind

/-! ## The children of a vertex -/

/-- **The scan of some children** meets nothing when all are black, or the first that is not. -/
theorem scan_cases {list : Edges} (hkeys : ∀ dep ∈ list, dep.1 ∈ g.graph.keys) :
    (g.scan color list = .none ∧ ∀ dep ∈ list, color dep.1 = .black) ∨
    (∃ child ver, g.scan color list = .gray child ∧ (child, ver) ∈ list ∧ color child = .gray) ∨
    (∃ child ver, g.scan color list = .white child ∧ (child, ver) ∈ list ∧ color child = .white) := by
  induction list with
  | nil => exact .inl ⟨rfl, fun dep h => by cases h⟩
  | cons dep list ih =>
    obtain ⟨child, ver⟩ := dep
    have hvertex : ¬ (g.graph.find child).isNone = true := by
      have hsome := StdMap.isSome_find_iff.mpr (hkeys (child, ver) List.mem_cons_self)
      rw [Option.isNone_iff_eq_none]
      intro hnone
      rw [hnone] at hsome
      cases hsome
    rw [scan, if_neg hvertex]
    cases hcolor : color child with
    | gray => exact .inr (.inl ⟨child, ver, rfl, List.mem_cons_self, hcolor⟩)
    | white => exact .inr (.inr ⟨child, ver, rfl, List.mem_cons_self, hcolor⟩)
    | black =>
      rcases ih fun dep hdep => hkeys dep (List.mem_cons_of_mem _ hdep) with
        ⟨hscan, hall⟩ | ⟨c, v, hscan, hmem, hc⟩ | ⟨c, v, hscan, hmem, hc⟩
      · exact .inl ⟨hscan, List.forall_mem_cons.mpr ⟨hcolor, hall⟩⟩
      · exact .inr (.inl ⟨c, v, hscan, List.mem_cons_of_mem _ hmem, hc⟩)
      · exact .inr (.inr ⟨c, v, hscan, List.mem_cons_of_mem _ hmem, hc⟩)

/-! ## What has been explored -/

/-- What is black has been explored: there is no way out of it, and no cycle in it. -/
structure Explored (g : DependencyGraph) (color : DllName → Color) : Prop where
  children : ∀ a b, color a = .black → g.DependsOn a b → color b = .black
  acyclic : ∀ a, color a = .black → ¬ TransGen g.DependsOn a a

theorem explored_white (g : DependencyGraph) : g.Explored fun _ => .white where
  children := fun a b h => by cases h
  acyclic := fun a h => by cases h

namespace Explored

/-- What can be reached from a black vertex is black. -/
theorem reach (h : g.Explored color) {a b : DllName} (ha : color a = .black)
    (hreach : ReflTransGen g.DependsOn a b) : color b = .black := by
  induction hreach with
  | refl => exact ha
  | tail _ hdep ih => exact h.children _ _ ih hdep

/-- A vertex that is met becomes gray. -/
theorem gray (h : g.Explored color) {a : DllName} (ha : color a = .white) :
    g.Explored (Function.update color a .gray) := by
  have hblack : ∀ b, Function.update color a .gray b = .black ↔ color b = .black := by
    intro b
    by_cases hb : b = a
    · subst hb
      simp [ha]
    · rw [Function.update_of_ne hb]
  constructor
  · intro b c hb hdep
    rw [hblack] at hb ⊢
    exact h.children b c hb hdep
  · intro b hb
    rw [hblack] at hb
    exact h.acyclic b hb

/-- **A vertex whose children are all black** becomes black: a way from it back to it would go
through a child, and end in a black vertex. -/
theorem black (h : g.Explored color) {a : DllName} (ha : color a = .gray)
    (hchildren : ∀ b, g.DependsOn a b → color b = .black) :
    g.Explored (Function.update color a .black) := by
  have hblack : ∀ b, Function.update color a .black b = .black ↔ b = a ∨ color b = .black := by
    intro b
    by_cases hb : b = a
    · subst hb
      simp
    · rw [Function.update_of_ne hb, or_iff_right hb]
  constructor
  · intro b c hb hdep
    rw [hblack] at hb ⊢
    rcases hb with rfl | hb
    · exact .inr (hchildren c hdep)
    · exact .inr (h.children b c hb hdep)
  · intro b hb hcycle
    rcases (hblack b).mp hb with rfl | hb
    · obtain ⟨c, hdep, hreach⟩ := TransGen.head'_iff.mp hcycle
      have hself := h.reach (hchildren c hdep) hreach
      rw [ha] at hself
      cases hself
    · exact h.acyclic b hb hcycle

end Explored

/-! ## Cycles -/

/-- Names with arrows between them. -/
def arrows : List DllName → String
  | [] => ""
  | [a] => a
  | a :: b :: l => a ++ " -> " ++ arrows (b :: l)

/-- The error for the names of a cycle. -/
def cycleText (names : List DllName) : String :=
  "graftlet dependency cycle found: " ++ arrows names

/-- The names of a cycle: each one depends on the next, and the last one is the first. -/
structure IsCycle (g : DependencyGraph) (names : List DllName) : Prop where
  length : 2 ≤ names.length
  edges : names.IsChain g.DependsOn
  closed : names.getLast? = names.head?

theorem arrows_append_pair (l : List DllName) (a b : DllName) :
    arrows (l ++ [a, b])
      = String.join (l.map fun name => name ++ " -> ") ++ (a ++ (" -> " ++ b)) := by
  induction l with
  | nil =>
    rw [List.nil_append, arrows, arrows, List.map_nil, String.join_nil, String.empty_append]
    exact String.append_assoc
  | cons c l ih =>
    have hcons : arrows (c :: l ++ [a, b]) = c ++ " -> " ++ arrows (l ++ [a, b]) := by
      cases l <;> rfl
    rw [hcons, ih, List.map_cons, String.join_cons]
    exact String.append_assoc.symm

theorem cycleFound_eq (start : List DllName) (cur child : DllName) :
    cycleFound start cur child = cycleText (start ++ [cur, child]) := by
  unfold cycleFound cycleText
  generalize "graftlet dependency cycle found: " = h
  simp only [arrows_append_pair, String.append_assoc]

/-- A cycle is one of the relation. -/
theorem IsCycle.transGen {names : List DllName} (h : g.IsCycle names) :
    ∃ a, TransGen g.DependsOn a a := by
  obtain ⟨hlength, hedges, hclosed⟩ := h
  cases names with
  | nil => exact absurd hlength (by simp)
  | cons a names =>
    have hne : names ≠ [] := by
      rintro rfl
      exact absurd hlength (by simp)
    have hpairwise : (a :: names).Pairwise (TransGen g.DependsOn) :=
      (hedges.imp fun _ _ => TransGen.single).pairwise
    have hlast : names.getLast hne = a := by
      rw [List.getLast?_cons_of_ne_nil hne, List.getLast?_eq_some_getLast hne] at hclosed
      exact Option.some.inj hclosed
    refine ⟨a, ?_⟩
    have hmem := (List.pairwise_cons.mp hpairwise).1 _ (List.getLast_mem hne)
    rwa [hlast] at hmem

theorem cycleText_ne_empty (names : List DllName) : cycleText names ≠ "" := by
  unfold cycleText
  simp

/-! ## The search on its way -/

/-- The vertices from the one the search started at to the one it is at. -/
def Search.way (s : Search) : List DllName := s.path ++ [s.cur]

theorem Search.nodup_way {s : Search} : s.way.Nodup ↔ s.cur ∉ s.path ∧ s.path.Nodup := by
  rw [way, ← List.concat_eq_append, List.nodup_concat]

/-- **The invariant of the search**: the gray vertices are the ones on its way, which is one along
dependencies. -/
structure Inner (g : DependencyGraph) (s : Search) : Prop where
  explored : g.Explored s.color
  gray : ∀ a, s.color a = .gray ↔ a ∈ s.way
  nodup : s.way.Nodup
  dependencies : s.way.IsChain g.DependsOn
  vertices : ∀ a ∈ s.way, a ∈ g.graph.keys

namespace Inner

variable {s : Search} {child : DllName}

theorem cur_gray (h : g.Inner s) : s.color s.cur = .gray :=
  (h.gray s.cur).mpr (List.mem_append_right _ (List.mem_singleton_self _))

/-- The search starts at a vertex. -/
theorem start (hexplored : g.Explored color) (hgray : ∀ a, color a ≠ .gray) {cur : DllName}
    (hcur : cur ∈ g.graph.keys) (hwhite : color cur = .white) :
    g.Inner ⟨cur, [], Function.update color cur .gray⟩ where
  explored := hexplored.gray hwhite
  gray := by
    intro a
    by_cases ha : a = cur
    · simp [Search.way, ha]
    · simp [Search.way, ha, hgray]
  nodup := List.nodup_singleton cur
  dependencies := List.IsChain.singleton cur
  vertices := by
    intro a ha
    rwa [List.mem_singleton.mp ha]

/-- It goes on to a white child. -/
theorem push (h : g.Inner s) (hdep : g.DependsOn s.cur child) (hwhite : s.color child = .white)
    (hchild : child ∈ g.graph.keys) :
    g.Inner ⟨child, s.path ++ [s.cur], Function.update s.color child .gray⟩ := by
  have hnew : child ∉ s.way := by
    rw [← h.gray, hwhite]
    decide
  constructor
  · exact h.explored.gray hwhite
  · intro a
    rw [Search.way, List.mem_append, List.mem_singleton, ← Search.way, ← h.gray]
    by_cases ha : a = child
    · simp [ha]
    · simp [ha]
  · exact Search.nodup_way.mpr ⟨hnew, h.nodup⟩
  · refine h.dependencies.append (List.IsChain.singleton child) ?_
    intro x hx y hy
    rw [Search.way, List.getLast?_concat, Option.mem_some_iff] at hx
    rw [List.head?_cons, Option.mem_some_iff] at hy
    rwa [← hx, ← hy]
  · intro a ha
    rcases List.mem_append.mp ha with ha | ha
    · exact h.vertices a ha
    · rwa [List.mem_singleton.mp ha]

/-- What is gray when the search steps back. -/
theorem gray_of_black (h : g.Inner s) (a : DllName) :
    Function.update s.color s.cur .black a = .gray ↔ a ∈ s.path := by
  have hcur : s.cur ∉ s.path := (Search.nodup_way.mp h.nodup).1
  by_cases ha : a = s.cur
  · subst ha
    simp [hcur]
  · rw [Function.update_of_ne ha, h.gray, Search.way]
    simp [ha]

/-- It steps back to the last vertex of the path. -/
theorem pop (h : g.Inner s) (hblack : ∀ b, g.DependsOn s.cur b → s.color b = .black)
    {last : DllName} (hlast : s.path.getLast? = some last) :
    g.Inner ⟨last, s.path.dropLast, Function.update s.color s.cur .black⟩ := by
  have hway : s.path.dropLast ++ [last] = s.path := List.dropLast_append_getLast? last hlast
  constructor
  · exact h.explored.black h.cur_gray hblack
  · intro a
    rw [h.gray_of_black, Search.way, hway]
  · rw [Search.way, hway]
    exact (Search.nodup_way.mp h.nodup).2
  · rw [Search.way, hway]
    exact h.dependencies.left_of_append
  · rw [Search.way, hway]
    exact fun a ha => h.vertices a (List.mem_append_left _ ha)

/-- **A gray child closes a cycle**: it is the vertex itself or in the path, and from there the
search came along dependencies. -/
theorem isCycle (h : g.Inner s) (hdep : g.DependsOn s.cur child) (hgray : s.color child = .gray) :
    (s.path.dropWhile (fun name => name ≠ child) = [] → child = s.cur) ∧
      g.IsCycle (s.path.dropWhile (fun name => name ≠ child) ++ [s.cur, child]) := by
  have hmem : child ∈ s.path ∨ child = s.cur := by
    simpa [Search.way] using (h.gray child).mp hgray
  have hnil : s.path.dropWhile (fun name => name ≠ child) = [] → child = s.cur := by
    intro hempty
    refine hmem.resolve_left fun hin => ?_
    have hne := List.dropWhile_eq_nil_iff.mp hempty child hin
    simp at hne
  refine ⟨hnil, ?_, ?_, ?_⟩
  · simp
  · -- a suffix of the way, and one dependency more
    have hsuffix : s.path.dropWhile (fun name => name ≠ child) ++ [s.cur] <:+ s.way :=
      (List.suffix_append_inj_of_length_eq rfl).mpr ⟨List.dropWhile_suffix _, rfl⟩
    have hchain := h.dependencies.suffix hsuffix
    rw [List.append_cons]
    refine hchain.append (List.IsChain.singleton child) ?_
    intro x hx y hy
    rw [List.getLast?_concat, Option.mem_some_iff] at hx
    rw [List.head?_cons, Option.mem_some_iff] at hy
    rwa [← hx, ← hy]
  · rw [List.append_cons, List.getLast?_concat]
    cases hstart : s.path.dropWhile (fun name => name ≠ child) with
    | nil => rw [hnil hstart, List.nil_append, List.singleton_append, List.head?_cons]
    | cons first rest =>
      -- the first vertex that is not dropped is the child
      have hfirst := List.head?_dropWhile_not (fun name => decide (name ≠ child)) s.path
      rw [hstart] at hfirst
      have heq : first = child := by simpa using hfirst
      simp [heq]

end Inner

/-! ## The whole search -/

/-- How many rounds a vertex is still good for. -/
def Color.rounds : Color → ℕ
  | white => 2
  | gray => 1
  | black => 0

/-- The rounds that the vertices are still good for. -/
def rounds (g : DependencyGraph) (color : DllName → Color) : ℕ :=
  (g.graph.keys.map fun name => (color name).rounds).sum

/-- A vertex that becomes darker. -/
theorem rounds_update_lt {a : DllName} {c : Color} (ha : a ∈ g.graph.keys)
    (hlt : c.rounds < (color a).rounds) : g.rounds (Function.update color a c) < g.rounds color := by
  refine List.sum_lt_sum _ _ (fun b _ => ?_) ⟨a, ha, ?_⟩
  · by_cases hb : b = a
    · subst hb
      rw [Function.update_self]
      exact hlt.le
    · rw [Function.update_of_ne hb]
  · rwa [Function.update_self]

theorem rounds_white (g : DependencyGraph) :
    g.rounds (fun _ => .white) = 2 * g.graph.entries.length := by
  rw [rounds, List.map_const', List.sum_const_nat, StdMap.keys, List.length_map, Nat.mul_comm]
  rfl

/-- The rounds that are left at most. -/
def Phase.rounds (g : DependencyGraph) : Phase → ℕ
  | .outer color => g.rounds color
  | .inner s => g.rounds s.color

/-- The invariant of both loops. -/
def Searching (g : DependencyGraph) : Phase → Prop
  | .outer color => g.Explored color ∧ ∀ a, color a ≠ .gray
  | .inner s => g.Inner s

/-- What is returned: the names of a cycle, or nothing when there is none. -/
def Answer (g : DependencyGraph) (res : Option String) : Prop :=
  (res = some "" ∧ ¬ ∃ a, TransGen g.DependsOn a a) ∨
    ∃ names, res = some (cycleText names) ∧ g.IsCycle names

/-- A round that looks for a white vertex. -/
theorem outer_cases (hinv : g.Searching (.outer color)) :
    (∃ s', g.searchStep (.outer color) = .inl s' ∧ g.Searching s' ∧
      s'.rounds g < Phase.rounds g (.outer color)) ∨
    ∃ r, g.searchStep (.outer color) = .inr r ∧ g.Answer r := by
  obtain ⟨hexplored, hgray⟩ := hinv
  cases hfind : g.graph.keys.find? fun name => color name = .white with
  | some cur =>
    have hcur := List.mem_of_find?_eq_some hfind
    have hwhite : color cur = .white := by simpa using List.find?_some hfind
    refine .inl ⟨.inner ⟨cur, [], Function.update color cur .gray⟩, ?_, ?_, ?_⟩
    · rw [searchStep, hfind]
    · exact Inner.start hexplored hgray hcur hwhite
    · exact rounds_update_lt hcur (by rw [hwhite]; decide)
  | none =>
    refine .inr ⟨_, by rw [searchStep, hfind], .inl ⟨rfl, ?_⟩⟩
    rintro ⟨a, hcycle⟩
    -- a vertex that is neither white nor gray
    obtain ⟨b, hdep, -⟩ := TransGen.head'_iff.mp hcycle
    have hwhite : color a ≠ .white := by
      simpa using List.find?_eq_none.mp hfind a hdep.mem_keys
    cases hcolor : color a with
    | white => exact hwhite hcolor
    | gray => exact hgray a hcolor
    | black => exact hexplored.acyclic a hcolor hcycle

/-- A round of the search in depth. -/
theorem inner_cases (hcomplete : g.Complete) {s : Search} (hinv : g.Inner s) :
    (∃ s', g.searchStep (.inner s) = .inl s' ∧ g.Searching s' ∧
      s'.rounds g < Phase.rounds g (.inner s)) ∨
    ∃ r, g.searchStep (.inner s) = .inr r ∧ g.Answer r := by
  have hkeys : ∀ dep ∈ g.edges s.cur, dep.1 ∈ g.graph.keys :=
    fun dep hdep => hcomplete s.cur dep.1 ⟨dep.2, hdep⟩
  rcases @scan_cases g s.color _ hkeys with
    ⟨hscan, hblack⟩ | ⟨child, ver, hscan, hmem, hgray⟩ | ⟨child, ver, hscan, hmem, hwhite⟩
  · -- the vertex becomes black, and the search goes back on its path, or ends with it
    have hchildren : ∀ b, g.DependsOn s.cur b → s.color b = .black :=
      fun b ⟨ver, hmem⟩ => hblack _ hmem
    have hlt : g.rounds (Function.update s.color s.cur .black) < g.rounds s.color := by
      refine rounds_update_lt (hinv.vertices s.cur ?_) ?_
      · exact (hinv.gray s.cur).mp hinv.cur_gray
      · rw [hinv.cur_gray]
        decide
    left
    cases hlast : s.path.getLast? with
    | none =>
      refine ⟨.outer (Function.update s.color s.cur .black), ?_, ⟨?_, ?_⟩, hlt⟩
      · rw [searchStep, hscan]
        dsimp only
        rw [hlast]
      · exact hinv.explored.black hinv.cur_gray hchildren
      · intro a hgray
        have hmem := (hinv.gray_of_black a).mp hgray
        rw [List.getLast?_eq_none_iff.mp hlast] at hmem
        cases hmem
    | some last =>
      refine ⟨.inner ⟨last, s.path.dropLast, Function.update s.color s.cur .black⟩, ?_, ?_, hlt⟩
      · rw [searchStep, hscan]
        dsimp only
        rw [hlast]
      · exact hinv.pop hchildren hlast
  · -- a gray child closes a cycle
    obtain ⟨hself, hcycle⟩ := hinv.isCycle ⟨ver, hmem⟩ hgray
    refine .inr ⟨some (cycleText _), ?_, .inr ⟨_, rfl, hcycle⟩⟩
    rw [searchStep, hscan]
    dsimp only
    rw [if_neg, cycleFound_eq]
    simpa using hself
  · left
    refine ⟨.inner ⟨child, s.path ++ [s.cur], Function.update s.color child .gray⟩, ?_, ?_, ?_⟩
    · rw [searchStep, hscan]
    · exact hinv.push ⟨ver, hmem⟩ hwhite (hkeys _ hmem)
    · exact rounds_update_lt (hkeys _ hmem) (by rw [hwhite]; decide)

/-- **The whole search**: it ends with an answer. -/
theorem exists_findCycles (hcomplete : g.Complete) :
    ∃ text, g.findCycles = some text ∧ g.Answer (some text) := by
  have hstart : g.Searching (.outer fun _ => .white) :=
    ⟨g.explored_white, fun a h => by cases h⟩
  have hrounds : Phase.rounds g (.outer fun _ => .white) < 2 * g.graph.entries.length + 1 :=
    Nat.lt_succ_of_le g.rounds_white.le
  obtain ⟨res, hrun, hres⟩ := Loop.exists_run (Q := g.Answer)
    (fun s hs => match s with
      | .outer _ => outer_cases hs
      | .inner _ => inner_cases hcomplete hs) hstart hrounds
  rw [findCycles, hrun]
  rcases hres with ⟨rfl, hno⟩ | ⟨names, rfl, hcycle⟩
  · exact ⟨"", rfl, .inl ⟨rfl, hno⟩⟩
  · exact ⟨cycleText names, rfl, .inr ⟨names, rfl, hcycle⟩⟩

/-- **What `findCycles` does** when every dependency is a vertex: no assertion fails, and it
returns the names of a cycle when there is one, and nothing else. -/
theorem findCycles_spec (g : DependencyGraph) (hcomplete : g.Complete) :
    ∃ text, g.findCycles = some text ∧
      (text = "" ↔ ¬ ∃ a, TransGen g.DependsOn a a) ∧
      (text ≠ "" → ∃ names, text = cycleText names ∧ g.IsCycle names) := by
  obtain ⟨text, hrun, ⟨htext, hno⟩ | ⟨names, htext, hcycle⟩⟩ := exists_findCycles hcomplete
  · obtain rfl := Option.some.inj htext
    exact ⟨"", hrun, iff_of_true rfl hno, fun h => absurd rfl h⟩
  · obtain rfl := Option.some.inj htext
    refine ⟨cycleText names, hrun, ?_, fun _ => ⟨names, rfl, hcycle⟩⟩
    exact iff_of_false (cycleText_ne_empty names) fun h => h hcycle.transGen

/-- Two graftlets that depend on each other, and one that depends on them. -/
def sampleGraph : DependencyGraph where
  graph := ⟨[("chat", [("pay", 256)]), ("pay", [("wallet", 0)]), ("wallet", [("pay", 256)])],
    by decide⟩

theorem findCycles_spec_sampleGraph :
    sampleGraph.Complete ∧ ∃ text, sampleGraph.findCycles = some text ∧
      (text = "" ↔ ¬ ∃ a, TransGen sampleGraph.DependsOn a a) ∧
      (text ≠ "" → ∃ names, text = cycleText names ∧ sampleGraph.IsCycle names) := by
  have hcomplete : sampleGraph.Complete := by decide
  exact ⟨hcomplete, sampleGraph.findCycles_spec hcomplete⟩

example : sampleGraph.findCycles = some (cycleText ["pay", "wallet", "pay"]) := by decide +kernel

/-! ## After the removal -/

/-- **What is left when failed dependants are removed** is a graph with every dependency in it. -/
theorem complete_of_closed {res : List DllName} {kept : DependencyGraph} (hinv : g.Inv (res, kept))
    (hclosed : Peeling.Closed g.Satisfied kept.names) : kept.Complete := by
  rintro a b ⟨ver, hmem⟩
  obtain ⟨list, hfind, hdep⟩ := mem_edges.mp hmem
  obtain ⟨list', hlist, -, hdeps⟩ := hclosed a (StdMap.mem_keys_of_find hfind)
  obtain rfl := Option.some.inj (hlist.symm.trans (hinv.find_eq_some hfind).2)
  exact (hdeps _ hdep).1

/-- **`checkDependencies`**: for every graph, the removal ends, and the search after it ends
without an assertion that fails. -/
theorem exists_checkDependencies (g : DependencyGraph) :
    ∃ res kept text, g.removeFailedDependants = some (res, kept) ∧
      kept.findCycles = some text := by
  obtain ⟨⟨res, kept⟩, hremove, hinv, hclosed⟩ := g.exists_removeFailedDependants
  obtain ⟨text, hfind, -⟩ := exists_findCycles (complete_of_closed hinv hclosed)
  exact ⟨res, kept, text, hremove, hfind⟩

end DependencyGraph

end GraftletLoader
