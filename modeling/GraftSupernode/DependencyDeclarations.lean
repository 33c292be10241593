/-
# What graftlets declare

`DependencyGraph::initialize` (`GraftletLoader.cpp`) reads the dependencies that a graftlet
declares.  A number is read by `std::stoi`, which throws when it is no `int`, and
`GRAFTLET_MKVER` joins the two numbers of a version by an or, with eight bits for the second one.

* `parseList_cases`: what becomes of the dependencies, and when there is an exception;
* `meets_iff`: for which numbers a version is compared as it should be;
* `ok_iff_of_fits`: then a dependency is satisfied by the versions that are at least the declared one;
* `declarationsRead_iff`: all declarations are read as they should be exactly when no number that
  is out of range stands before the first dependency that is not in the format, and the numbers of
  the lists that are in the format fit.
-/
import GraftSupernode.GraftletDependants
import GraftSupernode.PackedPair

namespace GraftletLoader

/-! ## A dependency -/

/-- The numbers that are written in a dependency. -/
def numbers : Option (List Char × Option (List Char)) → ℕ × ℕ
  | none => (0, 0)
  | some (ma, mi) => (RuleFile.ofDigits 10 ma, (mi.map (RuleFile.ofDigits 10)).getD 0)

/-- The name and the numbers of a dependency that is in the format `name[:major[.minor]]`. -/
def declared (nv : List Char) : Option (List Char × ℕ × ℕ) :=
  match matchDependency nv with
  | none => none
  | some (name, ver) => if name = [] then none else some (name, numbers ver)

/-- The numbers are in the range of an `int`. -/
def InRange (n : ℕ × ℕ) : Prop := n.1 < 2 ^ 31 ∧ n.2 < 2 ^ 31

instance (n : ℕ × ℕ) : Decidable (InRange n) := inferInstanceAs (Decidable (_ ∧ _))

/-- A dependency is in the format, and its numbers have a property. -/
def DeclaredWith (p : ℕ × ℕ → Prop) (nv : List Char) : Prop :=
  ∃ name n, declared nv = some (name, n) ∧ p n

/-- The edge for a dependency that is in the format. -/
def edgeOf (nv : List Char) : DllName × Version :=
  match declared nv with
  | none => ("", 0)
  | some (name, n) => (String.ofList name, mkver n.1 n.2)

theorem declared_ne_nil {nv name : List Char} {n : ℕ × ℕ} (h : declared nv = some (name, n)) :
    name ≠ [] := by
  rw [declared] at h
  split at h
  · cases h
  · split at h
    · cases h
    · rename_i hname
      cases h
      exact hname

/-- A dependency is in the format in one way. -/
theorem eq_of_declared {nv name name' : List Char} {n n' : ℕ × ℕ}
    (h : declared nv = some (name, n)) (h' : declared nv = some (name', n')) :
    name = name' ∧ n = n' := by
  rw [h] at h'
  simpa using h'

/-- **The least version** is there when the numbers are in range. -/
theorem minver_eq (ver : Option (List Char × Option (List Char))) :
    minver ver = if InRange (numbers ver) then some (mkver (numbers ver).1 (numbers ver).2)
      else none := by
  cases ver with
  | none =>
    rw [if_pos (by decide)]
    rfl
  | some ver =>
    obtain ⟨ma, mi⟩ := ver
    have hma : stoi ma = if (numbers (some (ma, mi))).1 < 2 ^ 31
        then some (numbers (some (ma, mi))).1 else none := rfl
    have hmi : (mi.map stoi).getD (some 0) = if (numbers (some (ma, mi))).2 < 2 ^ 31
        then some (numbers (some (ma, mi))).2 else none := by
      cases mi with
      | none => rfl
      | some mi => rfl
    rw [minver, hma, hmi]
    generalize numbers (some (ma, mi)) = n
    by_cases hfirst : n.1 < 2 ^ 31
    · by_cases hsecond : n.2 < 2 ^ 31
      · rw [if_pos hfirst, if_pos hsecond, if_pos (show InRange n from ⟨hfirst, hsecond⟩)]
      · rw [if_pos hfirst, if_neg hsecond, if_neg (show ¬ InRange n from fun h => hsecond h.2)]
    · rw [if_neg hfirst, if_neg (show ¬ InRange n from fun h => hfirst h.1)]

/-! ## The list of a graftlet -/

/-- The dependencies in a text. -/
def entries (deps : List Char) : List (List Char) := if deps = [] then [] else deps.splitOn ','

/-- **No number is out of range** before the first dependency that is not in the format. -/
def NumbersOk : List (List Char) → Prop
  | [] => True
  | nv :: rest => ∀ name n, declared nv = some (name, n) → InRange n ∧ NumbersOk rest

/-- All the dependencies are in the format. -/
def AllDeclared (deps : List (List Char)) : Prop := ∀ nv ∈ deps, (declared nv).isSome

/-- One round of the loop. -/
theorem parseList_cons (list : Edges) (nv : List Char) (rest : List (List Char)) :
    parseList list (nv :: rest) =
      match declared nv with
      | none => some invalidFormat
      | some (_, n) => if InRange n then parseList (list ++ [edgeOf nv]) rest else none := by
  rw [parseList, edgeOf, declared]
  cases matchDependency nv with
  | none => rfl
  | some d =>
    obtain ⟨name, ver⟩ := d
    dsimp only
    by_cases hname : name = []
    · rw [if_pos hname, if_pos hname]
    · rw [if_neg hname, if_neg hname, minver_eq]
      dsimp only
      by_cases hrange : InRange (numbers ver)
      · rw [if_pos hrange, if_pos hrange]
      · rw [if_neg hrange, if_neg hrange]

/-- **The loop** throws when a number is out of range; otherwise it has an edge for each dependency,
or the list for those that are not in the format. -/
theorem parseList_cases (list : Edges) (deps : List (List Char)) :
    ¬ NumbersOk deps ∧ parseList list deps = none ∨
      NumbersOk deps ∧ (AllDeclared deps ∧ parseList list deps = some (list ++ deps.map edgeOf) ∨
        ¬ AllDeclared deps ∧ parseList list deps = some invalidFormat) := by
  induction deps generalizing list with
  | nil => exact Or.inr ⟨trivial, Or.inl ⟨fun _ h => (by cases h), by rw [parseList]; simp⟩⟩
  | cons nv rest ih =>
    rw [parseList_cons]
    cases hnv : declared nv with
    | none =>
      refine Or.inr ⟨fun name n h => ?_, Or.inr ⟨fun h => ?_, rfl⟩⟩
      · rw [hnv] at h
        cases h
      · have hsome := h nv List.mem_cons_self
        rw [hnv] at hsome
        cases hsome
    | some d =>
      obtain ⟨name, n⟩ := d
      have hok : NumbersOk (nv :: rest) ↔ InRange n ∧ NumbersOk rest := by
        rw [NumbersOk, hnv]
        simp
      have hall : AllDeclared (nv :: rest) ↔ AllDeclared rest := by
        simp [AllDeclared, hnv]
      dsimp only
      by_cases hrange : InRange n
      · rw [if_pos hrange, hok, hall, and_iff_right hrange, List.map_cons,
          List.append_cons list (edgeOf nv) (rest.map edgeOf)]
        exact ih (list ++ [edgeOf nv])
      · rw [if_neg hrange, hok]
        exact Or.inl ⟨fun h => hrange h.1, rfl⟩

/-- **What becomes of a text.** -/
theorem parseDependencies_cases (deps : List Char) :
    ¬ NumbersOk (entries deps) ∧ parseDependencies deps = none ∨
      NumbersOk (entries deps) ∧
        (AllDeclared (entries deps) ∧
            parseDependencies deps = some ((entries deps).map edgeOf) ∨
          ¬ AllDeclared (entries deps) ∧ parseDependencies deps = some invalidFormat) := by
  rw [parseDependencies, entries]
  by_cases hdeps : deps = []
  · rw [if_pos hdeps, if_pos hdeps]
    exact Or.inr ⟨trivial, Or.inl ⟨fun _ h => (by cases h), rfl⟩⟩
  · rw [if_neg hdeps, if_neg hdeps]
    exact parseList_cases [] (deps.splitOn ',')

/-- All numbers are in range if none is out of range before the first dependency that is not in the
format, and all are. -/
theorem NumbersOk.declaredWith {deps : List (List Char)} (h : NumbersOk deps)
    (hall : AllDeclared deps) : ∀ nv ∈ deps, DeclaredWith InRange nv := by
  induction deps with
  | nil =>
    intro nv hnv
    cases hnv
  | cons nv rest ih =>
    obtain ⟨⟨name, n⟩, hd⟩ := Option.isSome_iff_exists.mp (hall nv List.mem_cons_self)
    obtain ⟨hrange, hrest⟩ := h name n hd
    refine List.forall_mem_cons.mpr ⟨⟨name, n, hd, hrange⟩, ?_⟩
    exact ih hrest fun nv hnv => hall nv (List.mem_cons_of_mem _ hnv)

/-! ## The graph -/

namespace DependencyGraph

variable {g g' : DependencyGraph} {vec : List (DllName × Version × List Char)}

/-- **There is an exception** when there is one for one of the texts. -/
theorem initializeLoop_isSome_iff :
    (g.initializeLoop vec).isSome ↔ ∀ item ∈ vec, (parseDependencies item.2.2).isSome := by
  induction vec generalizing g with
  | nil => simp [initializeLoop]
  | cons item vec ih =>
    obtain ⟨dllName, ver, deps⟩ := item
    rw [initializeLoop, List.forall_mem_cons]
    cases parseDependencies deps with
    | none => simp
    | some list =>
      dsimp only
      rw [ih, Option.isSome_some, and_iff_right rfl]

/-- Each graftlet has the list of its own text. -/
theorem find_of_mem (hnames : (vec.map Prod.fst).Nodup) (h : initializeGraph vec = some g)
    {item : DllName × Version × List Char} (hitem : item ∈ vec) :
    g.graph.find item.1 = parseDependencies item.2.2 := by
  obtain ⟨other, hother⟩ : ∃ other, vec.find? (fun i => i.1 = item.1) = some other := by
    rw [← Option.isSome_iff_exists, List.find?_isSome]
    exact ⟨item, hitem, by simp⟩
  have hname : other.1 = item.1 := by simpa using List.find?_some hother
  obtain rfl : other = item :=
    List.inj_on_of_nodup_map hnames (List.mem_of_find?_eq_some hother) hitem hname
  rw [find_initializeLoop h, StdMap.find_empty, Option.none_or, hother, Option.bind_some]

/-! ## Which versions are taken -/

/-- **A dependency has its edge**: the edge names it, and in every graph in which there is a
graftlet of this name the check passes exactly if its version is not less than the one that is
declared, in the order of the pairs of numbers. -/
def Meets (nv : List Char) (dep : DllName × Version) : Prop :=
  ∃ name n, declared nv = some (name, n) ∧ dep.1 = String.ofList name ∧
    ∀ h : DependencyGraph, dep.1 ∈ h.names → PackedPair.IsWord (h.version dep.1) →
      (h.ok [dep] = true ↔ PackedPair.AtLeast n (h.version dep.1))

/-- **A version that is made of two numbers** is read as these. -/
theorem atLeast_mkver {n : ℕ × ℕ} {ma mi : ℕ} (hma : ma < 2 ^ 23) (hmi : mi < 256) :
    PackedPair.AtLeast n (mkver ma mi) ↔ n.1 < ma ∨ n.1 = ma ∧ n.2 ≤ mi := by
  obtain ⟨hfirst, hsecond⟩ := PackedPair.first_second_join hma hmi
  have hjoin : mkver ma mi = PackedPair.join ma mi := rfl
  rw [hjoin, PackedPair.AtLeast, hfirst, hsecond, Prod.Lex.toLex_le_toLex, Int.ofNat_lt,
    Int.ofNat_inj, Int.ofNat_le]

/-- The check of one edge. -/
theorem ok_singleton_iff {dep : DllName × Version} (hname : dep.1 ≠ "") (hmem : dep.1 ∈ g.names) :
    g.ok [dep] = true ↔ dep.2 ≤ g.version dep.1 := by
  have hvalid : Valid [dep] := by simpa [Valid] using hname
  rw [ok_iff, and_iff_right hvalid]
  simp [hmem]

/-- The graph of one graftlet. -/
def single (name : DllName) (ver : Version) : DependencyGraph :=
  ⟨StdMap.empty.emplace name [], StdMap.empty.emplace name ver⟩

theorem mem_names_single (name : DllName) (ver : Version) : name ∈ (single name ver).names := by
  rw [mem_names, single, StdMap.find_emplace, if_pos rfl]
  rfl

theorem version_single (name : DllName) (ver : Version) : (single name ver).version name = ver := by
  rw [version, single, StdMap.find_emplace, if_pos rfl]
  rfl

/-- **The edge is as it should be** exactly when the numbers fit. -/
theorem meets_iff {nv : List Char} (h : DeclaredWith InRange nv) :
    Meets nv (edgeOf nv) ↔ DeclaredWith PackedPair.Fits nv := by
  obtain ⟨name, n, hd, hrange⟩ := h
  have hedge : edgeOf nv = (String.ofList name, mkver n.1 n.2) := by rw [edgeOf, hd]
  have hname : (edgeOf nv).1 ≠ "" := by
    rw [hedge]
    simpa using declared_ne_nil hd
  have hver : (edgeOf nv).2 = PackedPair.join n.1 n.2 := by
    rw [hedge]
    rfl
  constructor
  · rintro ⟨name', n', hd', -, hmeets⟩
    obtain ⟨rfl, rfl⟩ := eq_of_declared hd hd'
    refine ⟨name, n, hd, PackedPair.fits_of_forall hrange.2 fun w hw => ?_⟩
    -- a graph with a graftlet of this version
    have hmem := mem_names_single (edgeOf nv).1 w
    have hcheck := hmeets (single (edgeOf nv).1 w) hmem (by rwa [version_single])
    rw [ok_singleton_iff hname hmem, version_single, hver] at hcheck
    exact hcheck
  · rintro ⟨name', n', hd', hfits⟩
    obtain ⟨rfl, rfl⟩ := eq_of_declared hd hd'
    refine ⟨name, n, hd, by rw [hedge], fun h hmem _ => ?_⟩
    rw [ok_singleton_iff hname hmem, hver]
    exact PackedPair.join_le_iff_of_fits hfits _

/-- **A dependency `name:M.m`** is satisfied by the version of two numbers if and only if these are
at least `(M, m)`. -/
theorem ok_iff_of_fits {nv : List Char} (h : DeclaredWith PackedPair.Fits nv)
    (hmem : (edgeOf nv).1 ∈ g.names) {ma mi : ℕ} (hma : ma < 2 ^ 23) (hmi : mi < 256)
    (hver : g.version (edgeOf nv).1 = mkver ma mi) :
    ∃ name n, declared nv = some (name, n) ∧
      (g.ok [edgeOf nv] = true ↔ n.1 < ma ∨ n.1 = ma ∧ n.2 ≤ mi) := by
  have hrange : DeclaredWith InRange nv := by
    obtain ⟨name, n, hd, hfits⟩ := h
    exact ⟨name, n, hd, hfits.1.trans (by decide), hfits.second_lt⟩
  obtain ⟨name, n, hd, -, hmeets⟩ := (meets_iff hrange).mpr h
  refine ⟨name, n, hd, ?_⟩
  have hword : PackedPair.IsWord (g.version (edgeOf nv).1) := by
    rw [hver]
    exact PackedPair.isWord_join ma mi
  rw [hmeets g hmem hword, hver, atLeast_mkver hma hmi]

/-! ## All declarations -/

/-- **The declarations are read as they should be**: there is no exception; a graftlet with a
dependency that is not in the format, or with a number that is out of range, has the list for those,
and is removed; any other one has an edge for each of its dependencies. -/
def DeclarationsRead (vec : List (DllName × Version × List Char)) : Prop :=
  ∃ g, initializeGraph vec = some g ∧ ∀ item ∈ vec,
    ((¬ ∀ nv ∈ entries item.2.2, DeclaredWith InRange nv) →
      g.graph.find item.1 = some invalidFormat ∧
        ∃ res kept, g.removeFailedDependants = some (res, kept) ∧ item.1 ∈ res) ∧
    ((∀ nv ∈ entries item.2.2, DeclaredWith InRange nv) →
      ∃ list, g.graph.find item.1 = some list ∧ List.Forall₂ Meets (entries item.2.2) list)

/-- The texts are such that the code reads them as it should. -/
def Readable (vec : List (DllName × Version × List Char)) : Prop :=
  ∀ item ∈ vec, NumbersOk (entries item.2.2) ∧
    (AllDeclared (entries item.2.2) →
      ∀ nv ∈ entries item.2.2, DeclaredWith PackedPair.Fits nv)

/-- **A graftlet with an invalid list** is removed. -/
theorem removed_of_invalid {name : DllName} (h : g.graph.find name = some invalidFormat) :
    ∃ res kept, g.removeFailedDependants = some (res, kept) ∧ name ∈ res := by
  obtain ⟨res, kept, hrun, hgreatest, -, hres, -⟩ := g.removeFailedDependants_spec
  refine ⟨res, kept, hrun, (hres name).mpr ⟨mem_names.mpr (by rw [h]; rfl), fun hkept => ?_⟩⟩
  obtain ⟨list, hlist, hvalid, -⟩ := hgreatest.1.2 name hkept
  rw [h] at hlist
  cases hlist
  exact hvalid rfl

theorem numbersOk_of_isSome {deps : List Char} (h : (parseDependencies deps).isSome) :
    NumbersOk (entries deps) := by
  rcases parseDependencies_cases deps with ⟨-, hnone⟩ | ⟨hok, -⟩
  · rw [hnone] at h
    cases h
  · exact hok

theorem parseDependencies_of_all {deps : List Char} (hok : NumbersOk (entries deps))
    (hall : AllDeclared (entries deps)) :
    parseDependencies deps = some ((entries deps).map edgeOf) := by
  rcases parseDependencies_cases deps with ⟨hno, -⟩ | ⟨-, ⟨-, hlist⟩ | ⟨hno, -⟩⟩
  · exact absurd hok hno
  · exact hlist
  · exact absurd hall hno

theorem parseDependencies_of_not_all {deps : List Char} (hok : NumbersOk (entries deps))
    (hno : ¬ AllDeclared (entries deps)) : parseDependencies deps = some invalidFormat := by
  rcases parseDependencies_cases deps with ⟨hnot, -⟩ | ⟨-, ⟨hall, -⟩ | ⟨-, hlist⟩⟩
  · exact absurd hok hnot
  · exact absurd hall hno
  · exact hlist

theorem allDeclared_of_declaredWith {deps : List (List Char)} {p : ℕ × ℕ → Prop}
    (h : ∀ nv ∈ deps, DeclaredWith p nv) : AllDeclared deps := by
  intro nv hnv
  obtain ⟨name, n, hd, -⟩ := h nv hnv
  rw [hd]
  rfl

/-- Each dependency meets its edge. -/
theorem forall₂_meets_iff {deps : List (List Char)} :
    List.Forall₂ Meets deps (deps.map edgeOf) ↔ ∀ nv ∈ deps, Meets nv (edgeOf nv) := by
  rw [List.forall₂_map_right_iff, List.forall₂_same]

/-- **All declarations are read as they should be** exactly when in each text no number is out of
range before the first dependency that is not in the format, and when all the dependencies are in
the format their numbers fit. -/
theorem declarationsRead_iff (hnames : (vec.map Prod.fst).Nodup) :
    DeclarationsRead vec ↔ Readable vec := by
  constructor
  · rintro ⟨g, hg, hread⟩ item hitem
    have hfind := find_of_mem hnames hg hitem
    have hsome := initializeLoop_isSome_iff.mp (by rw [← initializeGraph, hg]; rfl) item hitem
    have hok := numbersOk_of_isSome hsome
    refine ⟨hok, fun hall nv hnv => ?_⟩
    have hrange := hok.declaredWith hall
    obtain ⟨list, hlist, hmeets⟩ := (hread item hitem).2 hrange
    rw [hfind, parseDependencies_of_all hok hall] at hlist
    cases hlist
    exact (meets_iff (hrange nv hnv)).mp (forall₂_meets_iff.mp hmeets nv hnv)
  · intro h
    have hsome : (initializeGraph vec).isSome := by
      refine initializeLoop_isSome_iff.mpr fun item hitem => ?_
      rcases parseDependencies_cases item.2.2 with ⟨hno, -⟩ | ⟨-, ⟨-, hlist⟩ | ⟨-, hlist⟩⟩
      · exact absurd (h item hitem).1 hno
      · rw [hlist]
        rfl
      · rw [hlist]
        rfl
    obtain ⟨g, hg⟩ := Option.isSome_iff_exists.mp hsome
    refine ⟨g, hg, fun item hitem => ?_⟩
    obtain ⟨hok, hfits⟩ := h item hitem
    have hfind := find_of_mem hnames hg hitem
    constructor
    · intro hbad
      rw [parseDependencies_of_not_all hok fun hall => hbad (hok.declaredWith hall)] at hfind
      exact ⟨hfind, removed_of_invalid hfind⟩
    · intro hrange
      have hall := allDeclared_of_declaredWith hrange
      rw [parseDependencies_of_all hok hall] at hfind
      refine ⟨_, hfind, forall₂_meets_iff.mpr fun nv hnv => ?_⟩
      exact (meets_iff (hrange nv hnv)).mpr (hfits hall nv hnv)

theorem declarationsRead_two :
    DeclarationsRead [("A", mkver 1 0, " B : 1 . 2 ".toList), ("B", mkver 1 2, [])] := by
  refine (declarationsRead_iff (by decide)).mpr ?_
  intro item hitem
  have hentries : entries " B : 1 . 2 ".toList = [" B : 1 . 2 ".toList] := by decide +kernel
  have hd : declared " B : 1 . 2 ".toList = some (['B'], 1, 2) := by decide +kernel
  rcases List.mem_pair.mp hitem with rfl | rfl
  · dsimp only
    rw [hentries]
    refine ⟨fun name n h => ?_, fun _ nv hnv => ?_⟩
    · rw [hd] at h
      cases h
      exact ⟨by decide, trivial⟩
    · rw [List.mem_singleton.mp hnv]
      exact ⟨_, _, hd, by decide⟩
  · exact ⟨trivial, fun _ nv hnv => by cases hnv⟩

/-- A number that is no `int` is an exception. -/
theorem not_declarationsRead_large :
    ¬ DeclarationsRead [("A", mkver 1 0, "B:4294967296".toList)] := by
  rintro ⟨g, hg, -⟩
  have hnone : (initializeGraph [("A", mkver 1 0, "B:4294967296".toList)]).isNone = true := by
    decide +kernel
  rw [hg] at hnone
  cases hnone

end DependencyGraph

end GraftletLoader
