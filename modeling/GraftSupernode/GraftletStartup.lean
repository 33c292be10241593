/-
# Which graftlets are loaded

`GraftServer::initGraftlets` (`server.cpp`) searches directories for graftlets and then checks what
they depend on (`GraftletLoader.cpp`).  A library in a directory is accepted or passed over; of the
accepted ones with one name the first counts; those that lack a dependency are unloaded, and a cycle
ends the start.

What boost::dll finds in a file is a parameter: the functions of the library, and what each of them
returns or throws.
-/
import GraftSupernode.DependencyDeclarations
import GraftSupernode.GraftletCycles

namespace GraftletLoader

/-! ## Libraries -/

/-- The call of a function of a library: what it returns, or the text of its exception. -/
abbrev Call := Except String

/-- `boost::dll::shared_library`: the functions that the library has. -/
structure SharedLibrary (R : Type) where
  getBuildSignature : Option (Call String)
  getGraftletName : Option (Call DllName)
  getGraftletVersion : Option (Call Version)
  getGraftletRegistry : Option (Call R)
  getGraftletDependencies : Option (Call (List Char))
  checkFwVersion : Option (Version → Call Bool)

/-- An entry of a directory; there is no library if it cannot be loaded. -/
structure DirectoryEntry (R : Type) where
  isDirectory : Bool
  extension : String
  path : String
  library : Option (SharedLibrary R)

/-- What graftlets have to fit: the build signature, `m_fwVersion` and `m_exceptionMap`. -/
structure Framework where
  buildSignature : String
  fwVersion : Version
  exceptionMap : StdMap DllName (List (Version × Version))

/-- `setGraftletsExceptionList`: a name that is there already is an exception, and the rows before
it stay. -/
def setGraftletsExceptionList (m : StdMap DllName (List (Version × Version))) :
    List (DllName × List (Version × Version)) →
      StdMap DllName (List (Version × Version)) × Call Unit
  | [] => (m, .ok ())
  | (dllName, vec) :: gel =>
    if (m.find dllName).isSome then
      (m, .error ("In the graftlet exception list, dll name '" ++ dllName ++ "' is duplicated."))
    else setGraftletsExceptionList (m.emplace dllName vec) gel

/-- `is_in_GEL` -/
def Framework.isInGEL (fw : Framework) (name : DllName) (ver : Version) : Bool :=
  match fw.exceptionMap.find name with
  | none => false
  | some vec => vec.any fun rng => rng.1 ≤ ver && ver ≤ rng.2

/-- The check of the version in the library: there is no exception and no refusal. -/
def SharedLibrary.compatible {R : Type} (lib : SharedLibrary R) (fw : Framework) : Bool :=
  match lib.checkFwVersion with
  | none => false
  | some check =>
    match check fw.fwVersion with
    | .ok ok => ok
    | .error _ => false

/-- What is known of a graftlet that is accepted. -/
structure Graftlet (R : Type) where
  version : Version
  path : String
  dependencies : List Char
  registry : R

variable {R : Type}

/-- One round of `findGraftletsInDirectory`: the graftlet of the entry, if it is accepted.  An
exception counts until `called` is set; after that the entry is passed over. -/
def accept (fw : Framework) (extension : String) (e : DirectoryEntry R) :
    Call (Option (DllName × Graftlet R)) :=
  if e.isDirectory then .ok none
  else if e.extension ≠ "." ++ extension then .ok none
  else
    match e.library with
    | none => .ok none
    | some lib =>
      match lib.getBuildSignature, lib.getGraftletName, lib.getGraftletVersion,
        lib.getGraftletRegistry with
      | some getABI, some getName, some getVersion, some getRegistry => do
        if (← getABI) ≠ fw.buildSignature then return none
        let registry ← getRegistry
        let version ← getVersion
        let name ← getName
        let dependencies ← lib.getGraftletDependencies.getD (Except.ok [])
        -- `called` is set
        if fw.isInGEL name version then return none
        if lib.compatible fw then return some (name, ⟨version, e.path, dependencies, registry⟩)
        return none
      | _, _, _, _ => .ok none

/-! ## The loader -/

/-- A row of `m_name2lib`. -/
structure Library where
  version : Version
  path : String
  dependencies : List Char

/-- `m_name2lib` and `m_name2registries` of a `GraftletLoader`, which have the same names. -/
structure Loaded (R : Type) where
  name2lib : StdMap DllName Library
  name2registries : StdMap DllName R
  sameNames : ∀ name, name ∈ name2lib.keys ↔ name ∈ name2registries.keys

/-- A new loader. -/
def Loaded.empty : Loaded R := ⟨.empty, .empty, fun _ => Iff.rfl⟩

/-- What the loader knows of a graftlet. -/
def Loaded.find (l : Loaded R) (name : DllName) : Option (Graftlet R) :=
  (l.name2lib.find name).bind fun lib =>
    (l.name2registries.find name).map fun registry =>
      ⟨lib.version, lib.path, lib.dependencies, registry⟩

/-- An accepted graftlet is added; a second one of its name is passed over. -/
def Loaded.add (l : Loaded R) (name : DllName) (gl : Graftlet R) : Loaded R :=
  if (l.name2lib.find name).isSome then l
  else
    { name2lib := l.name2lib.emplace name ⟨gl.version, gl.path, gl.dependencies⟩
      name2registries := l.name2registries.emplace name gl.registry
      sameNames := fun a => by
        rw [StdMap.mem_keys_emplace, StdMap.mem_keys_emplace, l.sameNames] }

/-- `findGraftletsInDirectory` -/
def findGraftletsInDirectory (fw : Framework) (extension : String) (l : Loaded R) :
    List (DirectoryEntry R) → Call (Loaded R)
  | [] => .ok l
  | e :: directory => do
    match ← accept fw extension e with
    | none => findGraftletsInDirectory fw extension l directory
    | some (name, gl) => findGraftletsInDirectory fw extension (l.add name gl) directory

/-- What ends the start: an exception of a library, `std::out_of_range` of `std::stoi`, or
`exit_error`. -/
inductive StartupError
  | thrown (what : String)
  | outOfRange
  | exitError (text : String)

/-- `DependencyGraph::initialize` of a loader. -/
def Loaded.vec (l : Loaded R) : List (DllName × Version × List Char) :=
  l.name2lib.entries.map fun row => (row.1, row.2.version, row.2.dependencies)

/-- `DependencyGraph::removeFailedDependants` of a loader: the graftlets of the list are erased. -/
def Loaded.eraseAll (l : Loaded R) (list : List DllName) : Loaded R where
  name2lib := list.foldl StdMap.erase l.name2lib
  name2registries := list.foldl StdMap.erase l.name2registries
  sameNames name := by
    rw [StdMap.mem_keys_foldl_erase, StdMap.mem_keys_foldl_erase, l.sameNames]

/-- `checkDependencies`; `none` when an assertion fails, which is that of `removeFailedDependants` on
the two maps or one of `findCycles`. -/
def checkDependencies (l : Loaded R) : Option (Except StartupError (Loaded R)) :=
  match DependencyGraph.initializeGraph l.vec with
  | none => some (.error .outOfRange)
  | some graph => do
    let (list, kept) ← graph.removeFailedDependants
    let l := l.eraseAll list
    if l.name2lib.entries.length ≠ l.name2registries.entries.length then none
    else
      let text ← kept.findCycles
      if text = "" then return .ok l else return .error (.exitError text)

/-- The search of the directories. -/
def findGraftlets (fw : Framework) (l : Loaded R) : List (List (DirectoryEntry R)) →
    Call (Loaded R)
  | [] => .ok l
  | directory :: dirs => do findGraftlets fw (← findGraftletsInDirectory fw "so" l directory) dirs

/-- `GraftServer::initGraftlets`, the first time. -/
def initGraftlets (fw : Framework) (dirs : List (List (DirectoryEntry R))) :
    Option (Except StartupError (Loaded R)) :=
  match findGraftlets fw .empty dirs with
  | .error what => some (.error (.thrown what))
  | .ok l => checkDependencies l

/-! ## The search -/

variable {fw : Framework}

/-- The first graftlet of a name that is accepted. -/
def firstAccepted (fw : Framework) (entries : List (DirectoryEntry R)) (name : DllName) :
    Option (Graftlet R) :=
  entries.findSome? fun e =>
    match accept fw "so" e with
    | .ok (some (n, gl)) => if n = name then some gl else none
    | _ => none

namespace Loaded

variable {l : Loaded R} {name a : DllName} {gl : Graftlet R}

theorem find_eq_none_iff : l.find name = none ↔ name ∉ l.name2lib.keys := by
  rw [find]
  cases hlib : l.name2lib.find name with
  | none => exact iff_of_true rfl (StdMap.find_eq_none_iff.mp hlib)
  | some lib =>
    have hmem : name ∈ l.name2lib.keys := StdMap.mem_keys_of_find hlib
    obtain ⟨registry, hregistry⟩ :=
      Option.isSome_iff_exists.mp (StdMap.isSome_find_iff.mpr ((l.sameNames name).mp hmem))
    rw [hregistry]
    exact iff_of_false (fun h => by cases h) fun h => h hmem

/-- A graftlet is added under its name, unless there is one already. -/
theorem find_add :
    (l.add name gl).find a = (l.find a).or (if name = a then some gl else none) := by
  by_cases hmem : (l.name2lib.find name).isSome
  · rw [add, if_pos hmem]
    split
    · rename_i hname
      have hfind : l.find a ≠ none := by
        rw [Ne, find_eq_none_iff, not_not, ← hname]
        exact StdMap.isSome_find_iff.mp hmem
      obtain ⟨other, hother⟩ := Option.ne_none_iff_exists'.mp hfind
      rw [hother, Option.some_or]
    · rw [Option.or_none]
  · have hlib : l.name2lib.find name = none := by simpa using hmem
    have hregistry : l.name2registries.find name = none := by
      rw [StdMap.find_eq_none_iff, ← l.sameNames name]
      exact StdMap.find_eq_none_iff.mp hlib
    rw [add, if_neg hmem, find, find, StdMap.find_emplace, StdMap.find_emplace]
    by_cases hname : a = name
    · subst hname
      rw [if_pos rfl, if_pos rfl, if_pos rfl, hlib, hregistry]
      rfl
    · rw [if_neg hname, if_neg hname, if_neg (Ne.symm hname), Option.or_none]

end Loaded

theorem firstAccepted_append (entries rest : List (DirectoryEntry R)) (name : DllName) :
    firstAccepted fw (entries ++ rest) name
      = (firstAccepted fw entries name).or (firstAccepted fw rest name) :=
  List.findSome?_append

/-- **One entry** is an exception that counts, or it adds its graftlet if that is accepted. -/
theorem findGraftletsInDirectory_cons (l : Loaded R) (e : DirectoryEntry R)
    (entries : List (DirectoryEntry R)) :
    (∃ what, accept fw "so" e = .error what
        ∧ findGraftletsInDirectory fw "so" l (e :: entries) = .error what)
      ∨ ∃ l' : Loaded R, findGraftletsInDirectory fw "so" l (e :: entries)
          = findGraftletsInDirectory fw "so" l' entries
        ∧ ∀ name, l'.find name = (l.find name).or (firstAccepted fw [e] name) := by
  rw [findGraftletsInDirectory]
  cases haccept : accept fw "so" e with
  | error what => exact .inl ⟨what, rfl, rfl⟩
  | ok accepted =>
    right
    cases accepted with
    | none => exact ⟨l, rfl, fun name => by simp [firstAccepted, haccept]⟩
    | some accepted =>
      obtain ⟨n, gl⟩ := accepted
      refine ⟨l.add n gl, rfl, fun name => ?_⟩
      rw [Loaded.find_add]
      simp [firstAccepted, haccept]

/-- **The search of a directory** ends with an exception that counts, or adds the first accepted
graftlet of each name that is not there. -/
theorem findGraftletsInDirectory_cases (l : Loaded R) (entries : List (DirectoryEntry R)) :
    (∃ e ∈ entries, ∃ what, accept fw "so" e = .error what
        ∧ findGraftletsInDirectory fw "so" l entries = .error what)
      ∨ ∃ l', findGraftletsInDirectory fw "so" l entries = .ok l'
        ∧ ∀ name, l'.find name = (l.find name).or (firstAccepted fw entries name) := by
  induction entries generalizing l with
  | nil => exact .inr ⟨l, rfl, fun name => by simp [firstAccepted]⟩
  | cons e entries ih =>
    rcases findGraftletsInDirectory_cons l e entries with
      ⟨what, hwhat, hrun⟩ | ⟨l₁, hstep, hfind⟩
    · exact .inl ⟨e, List.mem_cons_self, what, hwhat, hrun⟩
    · rw [hstep]
      rcases ih l₁ with ⟨e', he', what, hwhat, hrun⟩ | ⟨l', hrun, hfind'⟩
      · exact .inl ⟨e', List.mem_cons_of_mem _ he', what, hwhat, hrun⟩
      · refine .inr ⟨l', hrun, fun name => ?_⟩
        rw [hfind', hfind, Option.or_assoc, ← firstAccepted_append, List.singleton_append]

/-- The search of all directories. -/
theorem findGraftlets_cases (l : Loaded R) (dirs : List (List (DirectoryEntry R))) :
    (∃ e ∈ dirs.flatten, ∃ what, accept fw "so" e = .error what
        ∧ findGraftlets fw l dirs = .error what)
      ∨ ∃ l', findGraftlets fw l dirs = .ok l'
        ∧ ∀ name, l'.find name = (l.find name).or (firstAccepted fw dirs.flatten name) := by
  induction dirs generalizing l with
  | nil => exact .inr ⟨l, rfl, fun name => by simp [firstAccepted]⟩
  | cons directory dirs ih =>
    rw [findGraftlets, List.flatten_cons]
    rcases findGraftletsInDirectory_cases l directory with
      ⟨e, he, what, hwhat, hrun⟩ | ⟨l₁, hrun, hfind⟩
    · rw [hrun]
      exact .inl ⟨e, List.mem_append_left _ he, what, hwhat, rfl⟩
    · rw [hrun]
      rcases ih l₁ with ⟨e, he, what, hwhat, hrest⟩ | ⟨l', hrest, hfind'⟩
      · exact .inl ⟨e, List.mem_append_right _ he, what, hwhat, hrest⟩
      · refine .inr ⟨l', hrest, fun name => ?_⟩
        rw [hfind', hfind, Option.or_assoc, ← firstAccepted_append]

/-! ## The dependencies of what is found -/

/-- Of the graftlets in `S`, a graftlet that is found has all that it needs. -/
def Supported (found : DllName → Option (Graftlet R)) (S : Set DllName) (name : DllName) : Prop :=
  ∃ gl list, found name = some gl ∧ parseDependencies gl.dependencies = some list ∧ Valid list ∧
    ∀ dep ∈ list, dep.1 ∈ S ∧ ∃ other, found dep.1 = some other ∧ dep.2 ≤ other.version

/-- A graftlet that is found names another one as a dependency. -/
def Needs (found : DllName → Option (Graftlet R)) (a b : DllName) : Prop :=
  ∃ gl list ver, found a = some gl ∧ parseDependencies gl.dependencies = some list ∧
    (b, ver) ∈ list

/-- The part of a graftlet that is in `m_name2lib`. -/
def Graftlet.library (gl : Graftlet R) : Library := ⟨gl.version, gl.path, gl.dependencies⟩

namespace Loaded

variable {l : Loaded R} {g : DependencyGraph} {name : DllName}

theorem map_library_find (l : Loaded R) (name : DllName) :
    (l.find name).map Graftlet.library = l.name2lib.find name := by
  cases hfind : l.find name with
  | none =>
    exact (StdMap.find_eq_none_iff.mpr (find_eq_none_iff.mp hfind)).symm
  | some gl =>
    obtain ⟨lib, hlib, hgl⟩ := Option.bind_eq_some_iff.mp hfind
    obtain ⟨registry, -, rfl⟩ := Option.map_eq_some_iff.mp hgl
    exact hlib.symm

theorem find?_vec (name : DllName) :
    l.vec.find? (fun item => item.1 = name)
      = (l.find name).map fun gl => (name, gl.version, gl.dependencies) := by
  have hlib : l.name2lib.entries.find? (fun row => row.1 = name)
      = (l.find name).map fun gl => (name, gl.library) := by
    have hmap := map_library_find l name
    rw [StdMap.find] at hmap
    cases hrow : l.name2lib.entries.find? fun row => row.1 = name with
    | none =>
      rw [hrow, Option.map_none, Option.map_eq_none_iff] at hmap
      rw [hmap]
      rfl
    | some row =>
      have hname : row.1 = name := by simpa using List.find?_some hrow
      rw [hrow, Option.map_some] at hmap
      obtain ⟨gl, hgl, hrest⟩ := Option.map_eq_some_iff.mp hmap
      rw [hgl, Option.map_some, hrest, ← hname]
  rw [vec, List.find?_map]
  show (l.name2lib.entries.find? fun row => row.1 = name).map _ = _
  rw [hlib, Option.map_map]
  rfl

end Loaded

namespace DependencyGraph

/-- The version of a graftlet is the one in the list. -/
theorem find_dll2ver_initializeLoop {g g' : DependencyGraph}
    {vec : List (DllName × Version × List Char)} (h : g.initializeLoop vec = some g')
    (name : DllName) :
    g'.dll2ver.find name = (g.dll2ver.find name).or
      ((vec.find? fun item => item.1 = name).map fun item => item.2.1) := by
  induction vec generalizing g with
  | nil =>
    cases h
    simp
  | cons item vec ih =>
    obtain ⟨dllName, ver, deps⟩ := item
    rw [initializeLoop] at h
    split at h
    · cases h
    · rw [ih h]
      dsimp only
      rw [StdMap.find_emplace]
      by_cases hname : name = dllName
      · subst hname
        rw [if_pos rfl, List.find?_cons_of_pos (by simp)]
        cases g.dll2ver.find name <;> simp
      · rw [if_neg hname, List.find?_cons_of_neg (by simpa using Ne.symm hname)]

end DependencyGraph

namespace Loaded

open DependencyGraph Relation

variable {l : Loaded R} {g : DependencyGraph} {name : DllName}

theorem find_graph (hg : initializeGraph l.vec = some g) (name : DllName) :
    g.graph.find name = (l.find name).bind fun gl => parseDependencies gl.dependencies := by
  rw [find_initializeLoop hg, StdMap.find_empty, Option.none_or, find?_vec]
  cases l.find name <;> rfl

theorem version_graph (hg : initializeGraph l.vec = some g) {gl : Graftlet R}
    (hgl : l.find name = some gl) : g.version name = gl.version := by
  rw [version, find_dll2ver_initializeLoop hg, StdMap.find_empty, Option.none_or, find?_vec, hgl]
  rfl

/-- A graph is made just if all numbers can be read. -/
theorem isSome_initializeGraph_iff :
    (initializeGraph l.vec).isSome ↔
      ∀ name gl, l.find name = some gl → (parseDependencies gl.dependencies).isSome := by
  rw [initializeGraph, initializeLoop_isSome_iff]
  constructor
  · intro h name gl hgl
    refine h (name, gl.version, gl.dependencies) ?_
    refine List.mem_of_find?_eq_some (p := fun item => item.1 = name) ?_
    rw [find?_vec, hgl]
    rfl
  · intro h item hitem
    obtain ⟨⟨name, lib⟩, hrow, rfl⟩ := List.mem_map.mp hitem
    have hlib := map_library_find l name
    rw [StdMap.find_eq_some_iff.mpr hrow] at hlib
    obtain ⟨gl, hgl, rfl⟩ := Option.map_eq_some_iff.mp hlib
    exact h name gl hgl

/-- The graph has the graftlets that are found. -/
theorem mem_names_graph (hg : initializeGraph l.vec = some g) :
    name ∈ g.names ↔ (l.find name).isSome := by
  rw [mem_names, find_graph hg]
  cases hfind : l.find name with
  | none => exact Iff.rfl
  | some gl =>
    have hsome := (isSome_initializeGraph_iff).mp (by rw [hg]; rfl) name gl hfind
    exact iff_of_true hsome rfl

theorem satisfied_iff (hg : initializeGraph l.vec = some g) (S : Set DllName) :
    S ⊆ g.names → (g.Satisfied S name ↔ Supported l.find S name) := by
  intro hsub
  unfold Satisfied Supported
  rw [find_graph hg]
  constructor
  · rintro ⟨list, hlist, hvalid, hdeps⟩
    obtain ⟨gl, hgl, hparse⟩ := Option.bind_eq_some_iff.mp hlist
    refine ⟨gl, list, hgl, hparse, hvalid, fun dep hdep => ?_⟩
    obtain ⟨hmem, hver⟩ := hdeps dep hdep
    obtain ⟨other, hother⟩ :=
      Option.isSome_iff_exists.mp ((mem_names_graph hg).mp (hsub hmem))
    exact ⟨hmem, other, hother, by rwa [version_graph hg hother] at hver⟩
  · rintro ⟨gl, list, hgl, hparse, hvalid, hdeps⟩
    refine ⟨list, by rw [hgl]; exact hparse, hvalid, fun dep hdep => ?_⟩
    obtain ⟨hmem, other, hother, hver⟩ := hdeps dep hdep
    exact ⟨hmem, by rwa [version_graph hg hother]⟩

theorem dependsOn_iff (hg : initializeGraph l.vec = some g) {a b : DllName} :
    g.DependsOn a b ↔ Needs l.find a b := by
  unfold DependencyGraph.DependsOn Needs
  constructor
  · rintro ⟨ver, hmem⟩
    obtain ⟨list, hlist, hdep⟩ := mem_edges.mp hmem
    rw [find_graph hg] at hlist
    obtain ⟨gl, hgl, hparse⟩ := Option.bind_eq_some_iff.mp hlist
    exact ⟨gl, list, ver, hgl, hparse, hdep⟩
  · rintro ⟨gl, list, ver, hgl, hparse, hdep⟩
    refine ⟨ver, mem_edges.mpr ⟨list, ?_, hdep⟩⟩
    rw [find_graph hg, hgl]
    exact hparse

end Loaded

/-! ## The graftlets that stay -/

namespace Loaded

open DependencyGraph Relation

variable {l : Loaded R} {g kept : DependencyGraph} {res : List DllName} {name : DllName}

theorem find_eraseAll (list : List DllName) (name : DllName) :
    (l.eraseAll list).find name = if name ∈ list then none else l.find name := by
  rw [find, eraseAll, StdMap.find_foldl_erase, StdMap.find_foldl_erase, find]
  split <;> rfl

/-- The assertion after the removal: the two maps have as many rows. -/
theorem length_eq (l : Loaded R) :
    l.name2lib.entries.length = l.name2registries.entries.length := by
  have hperm := (List.perm_ext_iff_of_nodup l.name2lib.nodup_keys l.name2registries.nodup_keys).mpr
    l.sameNames
  simpa [StdMap.keys] using hperm.length_eq

/-- Of the graftlets that are found, the ones that stay in the graph are left. -/
theorem find_eraseAll_removed (hg : initializeGraph l.vec = some g)
    (hinv : g.Inv (res, kept)) (name : DllName) :
    (name ∈ kept.names → (l.eraseAll res).find name = l.find name) ∧
      (name ∉ kept.names → (l.eraseAll res).find name = none) := by
  rw [find_eraseAll]
  constructor
  · intro hname
    rw [if_neg (hinv.notMem_of_mem_names hname)]
  · intro hname
    split
    · rfl
    · rename_i hres
      have hno : name ∉ g.names := fun hmem => hres ((hinv.mem_removed_iff name).mpr ⟨hmem, hname⟩)
      rwa [mem_names_graph hg, Bool.not_eq_true, Option.isSome_eq_false_iff,
        Option.isNone_iff_eq_none] at hno

theorem dependsOn_kept_iff (hg : initializeGraph l.vec = some g)
    (hinv : g.Inv (res, kept)) {a b : DllName} :
    kept.DependsOn a b ↔ a ∈ kept.names ∧ Needs l.find a b := by
  rw [← dependsOn_iff hg]
  constructor
  · rintro ⟨ver, hmem⟩
    obtain ⟨list, hlist, hdep⟩ := mem_edges.mp hmem
    exact ⟨StdMap.mem_keys_of_find hlist, ver,
      mem_edges.mpr ⟨list, (hinv.find_eq_some hlist).2, hdep⟩⟩
  · rintro ⟨ha, ver, hmem⟩
    obtain ⟨list, hlist, hdep⟩ := mem_edges.mp hmem
    refine ⟨ver, mem_edges.mpr ⟨list, ?_, hdep⟩⟩
    have hfind := hinv.graph a
    rw [if_neg (hinv.notMem_of_mem_names ha)] at hfind
    rw [hfind, hlist]

/-- The set that stays is the greatest one with all that its graftlets need. -/
theorem isGreatest_kept (hg : initializeGraph l.vec = some g)
    (hinv : g.Inv (res, kept)) (hclosed : Peeling.Closed g.Satisfied kept.names) :
    IsGreatest {S | ∀ name ∈ S, Supported l.find S name} kept.names := by
  obtain ⟨⟨hsub, hsat⟩, hgreatest⟩ :=
    Peeling.isGreatest_of_peels g.monotone_satisfied hinv.peels hclosed
  refine ⟨fun name hname => (satisfied_iff hg _ hsub).mp (hsat name hname), fun S hS => ?_⟩
  have hfound : S ⊆ g.names := by
    intro name hname
    obtain ⟨gl, -, hgl, -⟩ := hS name hname
    exact (mem_names_graph hg).mpr (by rw [hgl]; rfl)
  exact hgreatest ⟨hfound, fun name hname => (satisfied_iff hg S hfound).mpr (hS name hname)⟩

/-- A way along dependencies does not leave the graftlets that stay. -/
theorem transGen_kept (hg : initializeGraph l.vec = some g)
    (hinv : g.Inv (res, kept)) (hclosed : Peeling.Closed g.Satisfied kept.names) {a b : DllName}
    (ha : a ∈ kept.names) (h : TransGen (Needs l.find) a b) : TransGen kept.DependsOn a b := by
  have hcomplete := complete_of_closed hinv hclosed
  induction h using TransGen.head_induction_on with
  | single hneeds => exact .single ((dependsOn_kept_iff hg hinv).mpr ⟨ha, hneeds⟩)
  | head hneeds _ ih =>
    have hdep := (dependsOn_kept_iff hg hinv).mpr ⟨ha, hneeds⟩
    exact .head hdep (ih (hcomplete _ _ hdep))

/-- The names of a cycle are graftlets that stay. -/
theorem mem_of_isCycle (hcomplete : kept.Complete) {names : List DllName} (h : kept.IsCycle names) :
    ∀ a ∈ names, a ∈ kept.names := by
  have hchain : ∀ (a : DllName) (names : List DllName), a ∈ kept.names →
      (a :: names).IsChain kept.DependsOn → ∀ b ∈ a :: names, b ∈ kept.names := by
    intro a names
    induction names generalizing a with
    | nil => simp
    | cons b names ih =>
      intro ha hchain
      obtain ⟨hdep, hrest⟩ := List.isChain_cons_cons.mp hchain
      rw [List.forall_mem_cons]
      exact ⟨ha, ih b (hcomplete a b hdep) hrest⟩
  obtain ⟨hlength, hedges, -⟩ := h
  cases names with
  | nil => simp
  | cons a names =>
    cases names with
    | nil => exact absurd hlength (by simp)
    | cons b names =>
      exact hchain a _ (List.isChain_cons_cons.mp hedges).1.mem_keys hedges

end Loaded

open DependencyGraph Relation

/-- The names of a cycle of dependencies, all in `S`: each one needs the next, and the last one is
the first. -/
structure CycleIn (found : DllName → Option (Graftlet R)) (S : Set DllName)
    (names : List DllName) : Prop where
  length : 2 ≤ names.length
  edges : names.IsChain (Needs found)
  closed : names.getLast? = names.head?
  inside : ∀ a ∈ names, a ∈ S

/-- **What `checkDependencies` makes of what is found.** -/
theorem checkDependencies_cases (l : Loaded R) :
    (initializeGraph l.vec = none ∧ checkDependencies l = some (.error .outOfRange))
      ∨ (initializeGraph l.vec).isSome ∧
        ∃ S, IsGreatest {S | ∀ name ∈ S, Supported l.find S name} S ∧
          ((∃ l', checkDependencies l = some (.ok l')
              ∧ (∀ name, (name ∈ S → l'.find name = l.find name) ∧ (name ∉ S → l'.find name = none))
              ∧ ¬ ∃ a ∈ S, TransGen (Needs l.find) a a)
            ∨ ∃ names, checkDependencies l = some (.error (.exitError (cycleText names)))
              ∧ CycleIn l.find S names) := by
  cases hg : initializeGraph l.vec with
  | none => exact .inl ⟨rfl, by rw [checkDependencies, hg]⟩
  | some g =>
    obtain ⟨⟨res, kept⟩, hremove, hinv, hclosed⟩ := g.exists_removeFailedDependants
    have hcomplete := complete_of_closed hinv hclosed
    obtain ⟨text, hfind, hanswer⟩ := exists_findCycles hcomplete
    have hlength := (l.eraseAll res).length_eq
    have hrun : checkDependencies l
        = some (if text = "" then .ok (l.eraseAll res) else .error (.exitError text)) := by
      rw [checkDependencies, hg]
      dsimp only
      rw [hremove]
      show (if _ ≠ _ then none else kept.findCycles >>= fun text => _) = _
      rw [if_neg (not_not.mpr hlength), hfind]
      show (if text = "" then _ else _) = _
      split <;> rfl
    refine .inr ⟨rfl, kept.names, Loaded.isGreatest_kept hg hinv hclosed, ?_⟩
    rcases hanswer with ⟨htext, hno⟩ | ⟨names, htext, hcycle⟩
    · obtain rfl := Option.some.inj htext
      refine .inl ⟨l.eraseAll res, hrun, Loaded.find_eraseAll_removed hg hinv, ?_⟩
      rintro ⟨a, ha, hcycle⟩
      exact hno ⟨a, Loaded.transGen_kept hg hinv hclosed ha hcycle⟩
    · obtain rfl := Option.some.inj htext
      refine .inr ⟨names, ?_, hcycle.length, ?_, hcycle.closed, ?_⟩
      · rw [hrun, if_neg (cycleText_ne_empty names)]
      · exact hcycle.edges.imp fun _ _ h => ((Loaded.dependsOn_kept_iff hg hinv).mp h).2
      · exact Loaded.mem_of_isCycle hcomplete hcycle

/-- **Which graftlets are loaded.**  The start ends with the exception of a library, before any
dependency is read; or with `std::out_of_range`, just if a number in the dependencies of a graftlet
that is found is too large; or with the names of a cycle among the graftlets that have what they
need.  Else the loader has these graftlets: the greatest set in which each has what it needs,
without a cycle, and each is the first accepted one of its name.  The assertions that the two maps
are as long as each other, that a dependency is a vertex and that a cycle starts on the path never
fail. -/
theorem initGraftlets_cases (fw : Framework) (dirs : List (List (DirectoryEntry R))) :
    let found := firstAccepted fw dirs.flatten
    (∃ e ∈ dirs.flatten, ∃ what, accept fw "so" e = .error what
        ∧ initGraftlets fw dirs = some (.error (.thrown what)))
      ∨ ((∃ name gl, found name = some gl ∧ parseDependencies gl.dependencies = none)
        ∧ initGraftlets fw dirs = some (.error .outOfRange))
      ∨ (∀ name gl, found name = some gl → (parseDependencies gl.dependencies).isSome) ∧
        ∃ S, IsGreatest {S | ∀ name ∈ S, Supported found S name} S ∧
          ((∃ l, initGraftlets fw dirs = some (.ok l)
              ∧ (∀ name, (name ∈ S → l.find name = found name) ∧ (name ∉ S → l.find name = none))
              ∧ ¬ ∃ a ∈ S, TransGen (Needs found) a a)
            ∨ ∃ names, initGraftlets fw dirs = some (.error (.exitError (cycleText names)))
              ∧ CycleIn found S names) := by
  intro found
  rcases findGraftlets_cases .empty dirs with
    ⟨e, he, what, hwhat, hrun⟩ | ⟨l, hrun, hfind⟩
  · refine .inl ⟨e, he, what, hwhat, ?_⟩
    rw [initGraftlets, hrun]
  · have hfound : l.find = found := by
      funext name
      rw [hfind]
      rfl
    have hinit : initGraftlets fw dirs = checkDependencies l := by rw [initGraftlets, hrun]
    rw [hinit, ← hfound, ← Loaded.isSome_initializeGraph_iff]
    right
    rcases checkDependencies_cases l with ⟨hnone, hcheck⟩ | hcheck
    · refine .inl ⟨?_, hcheck⟩
      have hno : ¬ (initializeGraph l.vec).isSome := by simp [hnone]
      rw [Loaded.isSome_initializeGraph_iff] at hno
      push Not at hno
      obtain ⟨name, gl, hgl, hparse⟩ := hno
      exact ⟨name, gl, hgl, by simpa using hparse⟩
    · exact .inr hcheck

end GraftletLoader
