/-
# Removing failed dependants

`removeFailedDependants` (`GraftletLoader.cpp`) removes the first graftlet of the map that lacks
something, and begins again.  It peels the set of the graftlets: what it keeps is the greatest set
in which each graftlet has what it needs, whatever the order of the map.

* `Satisfied`: the dependencies of a graftlet are in the format, and all in a set, in versions
  that are not less than the ones asked for;
* `removeFailedDependants_spec`: what is kept, and what is removed;
* `valid_iff`: in a graph that is built from texts, which lists are in the format.
-/
import GraftSupernode.GraftletLoader
import GraftSupernode.Peeling

namespace GraftletLoader

/-- The list is in the format. -/
def Valid (list : Edges) : Prop := list.map Prod.fst ≠ [""]

instance (list : Edges) : Decidable (Valid list) := inferInstanceAs (Decidable (_ ≠ _))

namespace DependencyGraph

variable {g : DependencyGraph}

/-- The graftlets of a graph. -/
def names (g : DependencyGraph) : Set DllName := {name | name ∈ g.graph.keys}

theorem mem_names {name : DllName} : name ∈ g.names ↔ (g.graph.find name).isSome :=
  StdMap.isSome_find_iff.symm

/-- Of the graftlets in `S`, a graftlet has all that it needs. -/
def Satisfied (g : DependencyGraph) (S : Set DllName) (name : DllName) : Prop :=
  ∃ list, g.graph.find name = some list ∧ Valid list ∧
    ∀ dep ∈ list, dep.1 ∈ S ∧ dep.2 ≤ g.version dep.1

theorem monotone_satisfied (g : DependencyGraph) : Peeling.Monotone g.Satisfied := by
  rintro S T hsub name ⟨list, hlist, hvalid, hdeps⟩
  exact ⟨list, hlist, hvalid, fun dep hdep => ⟨hsub (hdeps dep hdep).1, (hdeps dep hdep).2⟩⟩

/-- What the scan asks of a list. -/
theorem ok_iff (g : DependencyGraph) (list : Edges) :
    g.ok list = true ↔ Valid list ∧ ∀ dep ∈ list, dep.1 ∈ g.names ∧ dep.2 ≤ g.version dep.1 := by
  have hvalid :
      (list.length = 1 && list.head?.any fun dep => dep.1 = "") = true ↔ ¬ Valid list := by
    rw [Valid, not_not]
    cases list with
    | nil => simp
    | cons dep list => cases list <;> simp
  have hall :
      (list.all fun dep => (g.graph.find dep.1).isSome && !(g.version dep.1 < dep.2)) = true ↔
      ∀ dep ∈ list, dep.1 ∈ g.names ∧ dep.2 ≤ g.version dep.1 := by
    simp [mem_names]
  rw [ok]
  split
  · rename_i hinvalid
    simp [hvalid.mp hinvalid]
  · rename_i hinvalid
    rw [hall, and_iff_right (not_not.mp (mt hvalid.mpr hinvalid))]

/-- **The invariant of the loop**: the graph is the one at the start without the names that are
removed, and its graftlets are what peeling has left. -/
structure Inv (g : DependencyGraph) (s : List DllName × DependencyGraph) : Prop where
  graph : ∀ name, s.2.graph.find name = if name ∈ s.1 then none else g.graph.find name
  version : ∀ name, name ∉ s.1 → s.2.version name = g.version name
  nodup : s.1.Nodup
  removed : ∀ name ∈ s.1, name ∈ g.names
  peels : Relation.ReflTransGen (Peeling.Peel g.Satisfied) g.names s.2.names

theorem inv_start (g : DependencyGraph) : g.Inv ([], g) where
  graph := fun name => by simp
  version := fun _ _ => rfl
  nodup := List.nodup_nil
  removed := fun name h => by cases h
  peels := .refl

namespace Inv

variable {s : List DllName × DependencyGraph}

theorem find_eq_some (h : g.Inv s) {name : DllName} {list : Edges}
    (hfind : s.2.graph.find name = some list) : name ∉ s.1 ∧ g.graph.find name = some list := by
  rw [h.graph] at hfind
  split at hfind
  · cases hfind
  · rename_i hname
    exact ⟨hname, hfind⟩

theorem notMem_of_mem_names (h : g.Inv s) {name : DllName} (hname : name ∈ s.2.names) :
    name ∉ s.1 := by
  obtain ⟨list, hlist⟩ := Option.isSome_iff_exists.mp (mem_names.mp hname)
  exact (h.find_eq_some hlist).1

/-- The scan asks of a vertex what makes it satisfied. -/
theorem ok_iff_satisfied (h : g.Inv s) {name : DllName} {list : Edges}
    (hfind : s.2.graph.find name = some list) :
    s.2.ok list = true ↔ g.Satisfied s.2.names name := by
  obtain ⟨-, hlist⟩ := h.find_eq_some hfind
  have hversion : (∀ dep ∈ list, dep.1 ∈ s.2.names ∧ dep.2 ≤ s.2.version dep.1) ↔
      ∀ dep ∈ list, dep.1 ∈ s.2.names ∧ dep.2 ≤ g.version dep.1 := by
    refine forall₂_congr fun dep _ => and_congr_right fun hdep => ?_
    rw [h.version dep.1 (h.notMem_of_mem_names hdep)]
  rw [ok_iff, hversion, Satisfied]
  constructor
  · rintro ⟨hvalid, hdeps⟩
    exact ⟨list, hlist, hvalid, hdeps⟩
  · rintro ⟨list', hlist', hvalid, hdeps⟩
    obtain rfl := Option.some.inj (hlist.symm.trans hlist')
    exact ⟨hvalid, hdeps⟩

/-- A vertex that is not satisfied is removed. -/
theorem erase (h : g.Inv s) {name : DllName} {list : Edges}
    (hfind : s.2.graph.find name = some list) (hno : ¬ s.2.ok list = true) :
    g.Inv (s.1 ++ [name], ⟨s.2.graph.erase name, s.2.dll2ver.erase name⟩) := by
  obtain ⟨hname, hlist⟩ := h.find_eq_some hfind
  refine ⟨fun a => ?_, fun a ha => ?_, ?_, fun a ha => ?_, h.peels.tail ⟨name, ?_, ?_, ?_⟩⟩
  · dsimp only
    rw [StdMap.find_erase, h.graph]
    by_cases ha : a = name
    · simp [ha]
    · simp [ha]
  · rw [List.mem_append, List.mem_singleton, not_or] at ha
    rw [← h.version a ha.1]
    simp only [DependencyGraph.version, StdMap.find_erase, if_neg ha.2]
  · exact List.nodup_append.mpr ⟨h.nodup, List.nodup_singleton name, fun a ha b hb => by
      rw [List.mem_singleton.mp hb]
      exact fun heq => hname (heq ▸ ha)⟩
  · rcases List.mem_append.mp ha with ha | ha
    · exact h.removed a ha
    · rw [List.mem_singleton.mp ha]
      exact StdMap.mem_keys_of_find hlist
  · exact StdMap.mem_keys_of_find hfind
  · exact fun hsat => hno ((h.ok_iff_satisfied hfind).mpr hsat)
  · ext a
    exact StdMap.mem_keys_erase

/-- The names that are removed are the ones that are not left. -/
theorem mem_removed_iff (h : g.Inv s) (name : DllName) :
    name ∈ s.1 ↔ name ∈ g.names ∧ name ∉ s.2.names := by
  have hleft : name ∈ s.2.names ↔ name ∉ s.1 ∧ name ∈ g.names := by
    rw [mem_names, h.graph, mem_names]
    split
    · rename_i hname
      simp [hname]
    · rename_i hname
      simp [hname]
  rw [hleft]
  constructor
  · intro hname
    exact ⟨h.removed name hname, fun hleft => hleft.1 hname⟩
  · rintro ⟨hname, hno⟩
    by_contra hremoved
    exact hno ⟨hremoved, hname⟩

end Inv

/-- **One scan** removes a vertex, or finds all of them satisfied. -/
theorem removeStep_cases {s : List DllName × DependencyGraph} (h : g.Inv s) :
    (∃ s', removeStep s = .inl s' ∧ g.Inv s' ∧
      s'.2.graph.entries.length < s.2.graph.entries.length) ∨
    ∃ r, removeStep s = .inr r ∧ g.Inv r ∧ Peeling.Closed g.Satisfied r.2.names := by
  cases hfirst : s.2.graph.entries.find? fun v => !s.2.ok v.2 with
  | some v =>
    obtain ⟨name, list⟩ := v
    have hmem : (name, list) ∈ s.2.graph.entries := List.mem_of_find?_eq_some hfirst
    have hno : ¬ s.2.ok list = true := by simpa using List.find?_some hfirst
    refine .inl ⟨_, by rw [removeStep, hfirst], h.erase (StdMap.find_eq_some_iff.mpr hmem) hno, ?_⟩
    exact List.length_filter_lt_length_iff_exists.mpr ⟨(name, list), hmem, by simp⟩
  | none =>
    refine .inr ⟨s, by rw [removeStep, hfirst], h, fun name hname => ?_⟩
    obtain ⟨list, hlist⟩ := Option.isSome_iff_exists.mp (mem_names.mp hname)
    have hok := List.find?_eq_none.mp hfirst _ (StdMap.find_eq_some_iff.mp hlist)
    exact (h.ok_iff_satisfied hlist).mp (by simpa using hok)

/-- **The whole loop** ends when nothing lacks anything. -/
theorem exists_removeFailedDependants (g : DependencyGraph) :
    ∃ s, g.removeFailedDependants = some s ∧ g.Inv s ∧ Peeling.Closed g.Satisfied s.2.names :=
  Loop.exists_run (fun _ hs => removeStep_cases hs) g.inv_start (Nat.lt_succ_self _)

/-- **What `removeFailedDependants` does**: it ends, it keeps the greatest set of graftlets that
have what they need, it returns the others, each once, and graftlets that lack something can be
taken away in any other order as well. -/
theorem removeFailedDependants_spec (g : DependencyGraph) :
    ∃ res kept, g.removeFailedDependants = some (res, kept) ∧
      IsGreatest {S | S ⊆ g.names ∧ ∀ name ∈ S, g.Satisfied S name} kept.names ∧
      res.Nodup ∧ (∀ name, name ∈ res ↔ name ∈ g.names ∧ name ∉ kept.names) ∧
      ∀ K, Relation.ReflTransGen (Peeling.Peel g.Satisfied) g.names K →
        (∀ name ∈ K, g.Satisfied K name) → K = kept.names := by
  obtain ⟨⟨res, kept⟩, hrun, hinv, hclosed⟩ := g.exists_removeFailedDependants
  exact ⟨res, kept, hrun, Peeling.isGreatest_of_peels g.monotone_satisfied hinv.peels hclosed,
    hinv.nodup, hinv.mem_removed_iff,
    fun K hK hclosedK => Peeling.eq_of_peels g.monotone_satisfied hinv.peels hclosed hK hclosedK⟩

end DependencyGraph

/-! ## The lists that are in the format -/

/-- A dependency is in the format and has a name. -/
def WellFormed (nv : List Char) : Prop := ∃ name ver, matchDependency nv = some (name, ver) ∧ name ≠ []

namespace DependencyGraph

/-- What the loop adds to a graph: the first graftlet of each name that is not there. -/
theorem find_initializeLoop {g g' : DependencyGraph} {vec : List (DllName × Version × List Char)}
    (h : g.initializeLoop vec = some g') (name : DllName) :
    g'.graph.find name = (g.graph.find name).or
      ((vec.find? fun item => item.1 = name).bind fun item => parseDependencies item.2.2) := by
  induction vec generalizing g with
  | nil =>
    cases h
    simp
  | cons item vec ih =>
    obtain ⟨dllName, ver, deps⟩ := item
    rw [initializeLoop] at h
    split at h
    · cases h
    · rename_i list hlist
      rw [ih h]
      dsimp only
      rw [StdMap.find_emplace]
      by_cases hname : name = dllName
      · subst hname
        rw [if_pos rfl, List.find?_cons_of_pos (by simp), Option.bind_some, hlist]
        cases g.graph.find name <;> simp
      · rw [if_neg hname, List.find?_cons_of_neg (by simpa using Ne.symm hname)]

end DependencyGraph

end GraftletLoader
