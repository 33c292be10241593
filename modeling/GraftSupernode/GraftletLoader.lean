/-
# The dependencies of graftlets

`GraftletLoader::DependencyGraph` (`GraftletLoader.cpp`): the graphlets with their versions, and
for each the graftlets that it needs in at least some version.

* `initializeGraph`: the graph of the texts that the graftlets give for their dependencies;
* `removeFailedDependants`: graftlets are removed as long as there is one that lacks something;
* `findCycles`: a search in depth, which ends with the first cycle it meets.

Both loops scan the map from its beginning after each change.  They are steps of a `Loop`, run for
as many steps as there can be.

Two assertions are modelled here: that a dependency is a vertex, and that the child which closes a
cycle is on the path.  The others hold as the code stands: a row is new in a map that is filled from
the rows of another one, a group is there when the pattern has matched, and a vertex is black when
it is neither gray nor white.
-/
import GraftSupernode.Loop
import GraftSupernode.RuleFile
import GraftSupernode.StdMap
import Mathlib.Data.String.Basic

namespace GraftletLoader

abbrev DllName := String

/-- `Version`, an `int`. -/
abbrev Version := ℤ

/-- `list_t` -/
abbrev Edges := List (DllName × Version)

/-- `GraftletLoader::DependencyGraph`; `m_RemoveIfCmpMinverVer` is `std::less`. -/
structure DependencyGraph where
  graph : StdMap DllName Edges := .empty
  dll2ver : StdMap DllName Version := .empty

/-! ## The texts of the dependencies -/

/-- `GRAFTLET_MKVER` -/
def mkver (ma mi : ℕ) : Version := ((BitVec.ofNat 32 ma <<< 8) ||| BitVec.ofNat 32 mi).toInt

/-- `std::stoi`; `none` when it throws `std::out_of_range`. -/
def stoi (digits : List Char) : Option ℕ :=
  if RuleFile.ofDigits 10 digits < 2 ^ 31 then some (RuleFile.ofDigits 10 digits) else none

/-- `[0-9]+`, and what is behind it. -/
def matchDigits (s : List Char) : Option (List Char × List Char) :=
  if s.takeWhile Char.isDigit = [] then none
  else some (s.takeWhile Char.isDigit, s.dropWhile Char.isDigit)

/-- `\s*([0-9]+)\s*(\.\s*([0-9]+))?\s*$`: the digits of the numbers. -/
def matchVersion (s : List Char) : Option (List Char × Option (List Char)) :=
  match matchDigits (s.dropWhile RuleFile.isSpace) with
  | none => none
  | some (ma, s) =>
    match s.dropWhile RuleFile.isSpace with
    | [] => some (ma, none)
    | '.' :: s =>
      match matchDigits (s.dropWhile RuleFile.isSpace) with
      | none => none
      | some (mi, s) => if s.dropWhile RuleFile.isSpace = [] then some (ma, some mi) else none
    | _ => none

/-- `[^:\s]` -/
def isNameChar (c : Char) : Bool := c ≠ ':' && !RuleFile.isSpace c

/-- `^\s*([^:\s]*)\s*(:\s*([0-9]+)\s*(\.\s*([0-9]+))?)?\s*$`: the name and the numbers. -/
def matchDependency (nv : List Char) :
    Option (List Char × Option (List Char × Option (List Char))) :=
  let s := nv.dropWhile RuleFile.isSpace
  match (s.dropWhile isNameChar).dropWhile RuleFile.isSpace with
  | [] => some (s.takeWhile isNameChar, none)
  | ':' :: rest => (matchVersion rest).map fun ver => (s.takeWhile isNameChar, some ver)
  | _ => none

/-- The least version of a dependency. -/
def minver : Option (List Char × Option (List Char)) → Option Version
  | none => some 0
  | some (ma, mi) =>
    match stoi ma, (mi.map stoi).getD (some 0) with
    | some ma, some mi => some (mkver ma mi)
    | _, _ => none

/-- The list of a graftlet whose dependencies are not in the format. -/
def invalidFormat : Edges := [("", 0)]

/-- The loop over the dependencies, which are between commas; `none` when a number is out of
range. -/
def parseList : Edges → List (List Char) → Option Edges
  | list, [] => some list
  | list, nv :: rest =>
    match matchDependency nv with
    | none => some invalidFormat
    | some (name, ver) =>
      if name = [] then some invalidFormat
      else
        match minver ver with
        | none => none
        | some ver => parseList (list ++ [(String.ofList name, ver)]) rest

/-- The list of dependencies that a graftlet has. -/
def parseDependencies (deps : List Char) : Option Edges :=
  if deps = [] then some [] else parseList [] (deps.splitOn ',')

namespace DependencyGraph

/-- The loop of `initialize`.  Its assertions say that each name is new; the names are those of the
rows of a map. -/
def initializeLoop (g : DependencyGraph) :
    List (DllName × Version × List Char) → Option DependencyGraph
  | [] => some g
  | (dllName, ver, deps) :: vec =>
    match parseDependencies deps with
    | none => none
    | some list =>
      initializeLoop ⟨g.graph.emplace dllName list, g.dll2ver.emplace dllName ver⟩ vec

/-- `DependencyGraph::initialize` -/
def initializeGraph (vec : List (DllName × Version × List Char)) : Option DependencyGraph :=
  initializeLoop {} vec

/-! ## Removing what lacks something -/

/-- `m_dll2ver[name]`; the entry that this adds where there is none is never read differently. -/
def version (g : DependencyGraph) (name : DllName) : Version := (g.dll2ver.find name).getD 0

/-- The dependencies are in the format, and all there in versions that are not less. -/
def ok (g : DependencyGraph) (list : Edges) : Bool :=
  if list.length = 1 && list.head?.any (fun dep => dep.1 = "") then false
  else list.all fun dep => (g.graph.find dep.1).isSome && !(g.version dep.1 < dep.2)

/-- One scan: the first graftlet that is not `ok` is removed.  Its name is read once more after its
vertex is erased, and is taken to be still the same. -/
def removeStep (s : List DllName × DependencyGraph) :
    (List DllName × DependencyGraph) ⊕ (List DllName × DependencyGraph) :=
  match s.2.graph.entries.find? fun v => !s.2.ok v.2 with
  | some (name, _) => .inl (s.1 ++ [name], ⟨s.2.graph.erase name, s.2.dll2ver.erase name⟩)
  | none => .inr s

/-- `DependencyGraph::removeFailedDependants`: the names that are removed, and what is left. -/
def removeFailedDependants (g : DependencyGraph) : Option (List DllName × DependencyGraph) :=
  Loop.run removeStep (g.graph.entries.length + 1) ([], g)

/-! ## The search for cycles -/

/-- `Color` -/
inductive Color
  | white
  | gray
  | black
  deriving DecidableEq

/-- The depth-first search: the vertex it is at, and the ones on the way to it. -/
structure Search where
  cur : DllName
  path : List DllName
  color : DllName → Color

/-- What the scan of the children of a vertex meets first. -/
inductive Met
  | none
  | gray (child : DllName)
  | white (child : DllName)
  | failed

/-- The loop over the children; a child that is no vertex fails an assertion. -/
def scan (g : DependencyGraph) (color : DllName → Color) : Edges → Met
  | [] => .none
  | (child, _) :: list =>
    if (g.graph.find child).isNone then .failed
    else
      match color child with
      | .gray => .gray child
      | .white => .white child
      | .black => scan g color list

/-- The dependencies of a vertex. -/
def edges (g : DependencyGraph) (name : DllName) : Edges := (g.graph.find name).getD []

/-- The error of a cycle from `start` to the vertex the search is at, and back to `child`. -/
def cycleFound (start : List DllName) (cur child : DllName) : String :=
  "graftlet dependency cycle found: " ++ String.join (start.map fun name => name ++ " -> ")
    ++ cur ++ " -> " ++ child

/-- Where the search is: it looks for a white vertex to start from, or it is on its way. -/
inductive Phase
  | outer (color : DllName → Color)
  | inner (s : Search)

/-- One round of `while(true)` or of `for(;;)`.  The result is the error, empty when there is no
cycle; `none` when an assertion fails. -/
def searchStep (g : DependencyGraph) : Phase → Phase ⊕ Option String
  | .outer color =>
    match g.graph.keys.find? fun name => color name = .white with
    | none => .inr (some "")
    | some cur => .inl (.inner ⟨cur, [], Function.update color cur .gray⟩)
  | .inner s =>
    match g.scan s.color (g.edges s.cur) with
    | .failed => .inr none
    | .gray child =>
      let start := s.path.dropWhile fun name => name ≠ child
      if start = [] && child ≠ s.cur then .inr none
      else .inr (some (cycleFound start s.cur child))
    | .white child =>
      .inl (.inner ⟨child, s.path ++ [s.cur], Function.update s.color child .gray⟩)
    | .none =>
      -- step back
      let color := Function.update s.color s.cur .black
      match s.path.getLast? with
      | none => .inl (.outer color)
      | some last => .inl (.inner ⟨last, s.path.dropLast, color⟩)

/-- `DependencyGraph::findCycles(true)`; `none` when an assertion fails. -/
def findCycles (g : DependencyGraph) : Option String :=
  (Loop.run g.searchStep (2 * g.graph.entries.length + 1) (.outer fun _ => .white)).join

end DependencyGraph

end GraftletLoader
