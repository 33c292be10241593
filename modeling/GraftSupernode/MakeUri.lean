/-
# What a uri is made of

`OutHttp::makeUri` (`inout.cpp`) takes a default uri apart, overrides the scheme, the host, the port
and the path with what the output has of them, and puts the uri together again.

* `makeUri_eq`: the uri is the text of the parts, whatever they are;
* `Splits`: what is asked of the parser: it takes uris apart as they are put together;
* `parse_makeUri`: the uri has the parts of the default uri, except those that the output overrides.
-/
import GraftSupernode.UriGrammar
import GraftSupernode.WebHookUrl

open UriGrammar

namespace MakeUri

/-! ## Parts as strings -/

/-- The number of a port. -/
def portNumber (digits : List Char) : ℕ := Nat.ofDigitChars 10 digits 0

/-- What the parser returns for the parts: a part that is not there is empty, or 0. -/
def mgUri (p : Parts) : MgUri where
  scheme := String.ofList (p.scheme.getD [])
  userInfo := String.ofList (p.user.getD [])
  host := String.ofList p.host
  port := portNumber (p.port.getD [])
  path := String.ofList p.path
  query := String.ofList (p.query.getD [])
  fragment := String.ofList (p.fragment.getD [])

/-- A part that is there if it is not empty. -/
def nonEmpty (s : List Char) : Option (List Char) := if s = [] then none else some s

/-- A part that may be missing has its characters. -/
@[simp] theorem getD_nonEmpty (s : List Char) : (nonEmpty s).getD [] = s := by
  rw [nonEmpty]
  split
  · rename_i h
    rw [h]
    rfl
  · rfl

/-- A part is there when it is not empty. -/
theorem mem_nonEmpty {s t : List Char} : s ∈ nonEmpty t ↔ t = s ∧ t ≠ [] := by
  rw [nonEmpty]
  split
  · rename_i h
    simp [h]
  · rename_i h
    simp [h]

/-- A part with its mark. -/
theorem toList_withMark {mark : String} {c : Char} (hmark : mark.toList = [c]) (s : String) :
    (withMark mark s).toList = marked c (nonEmpty s.toList) := by
  rw [withMark, nonEmpty]
  by_cases h : s = ""
  · simp [h, marked]
  · simp [h, hmark, marked]

/-! ## Putting the uri together -/

/-- The path with its slash. -/
def slashed (path : String) : String :=
  if path.toList.head? = some '/' then path else withMark "/" path

/-- The digits of the port: those of the output, or the number of the default uri. -/
def portDigits (out : Output) (d : MgUri) : String :=
  orElseEmpty out.port (if d.port ≠ 0 then toString d.port else "")

/-- The parts of the uri that is made of the default one and the output. -/
def resultParts (out : Output) (d : MgUri) : Parts where
  scheme := nonEmpty (orElseEmpty out.proto d.scheme).toList
  user := nonEmpty d.userInfo.toList
  host := (orElseEmpty out.host d.host).toList
  port := nonEmpty (portDigits out d).toList
  path := (slashed (orElseEmpty out.path d.path)).toList
  query := nonEmpty d.query.toList
  fragment := nonEmpty d.fragment.toList

/-- A user with its mark. -/
theorem toList_userText (s : String) :
    (if s ≠ "" then s ++ "@" else "").toList = userText (nonEmpty s.toList) := by
  rw [nonEmpty]
  by_cases h : s = ""
  · simp [h, userText]
  · simp [h, userText]

/-- **The uri that is made** is the text of its parts. -/
theorem makeUri_eq (parseUri : String → Option MgUri) (out : Output) (defaultUri : String) :
    out.makeUri parseUri defaultUri =
      String.ofList (resultParts out (WebHook.defaultParts parseUri defaultUri)).text := by
  rw [Output.makeUri, ← WebHook.defaultParts]
  generalize WebHook.defaultParts parseUri defaultUri = d
  rw [← String.toList_inj, String.toList_ofList]
  have hrest : (orElseEmpty out.host d.host ++ withMark ":" (portDigits out d) ++
      slashed (orElseEmpty out.path d.path) ++ withMark "?" d.query ++
      withMark "#" d.fragment).toList =
      (resultParts out d).host ++ (resultParts out d).portText := by
    simp only [String.toList_append, List.append_assoc]
    rw [toList_withMark (c := ':') rfl, toList_withMark (c := '?') rfl,
      toList_withMark (c := '#') rfl]
    rfl
  rw [← slashed, ← portDigits]
  by_cases h : orElseEmpty out.proto d.scheme = ""
  · have hscheme : (resultParts out d).scheme = none := by
      rw [resultParts, h]
      rfl
    rw [if_neg (not_not.mpr h), String.empty_append, hrest, Parts.text, hscheme]
  · have hscheme : (resultParts out d).scheme = some (orElseEmpty out.proto d.scheme).toList := by
      rw [resultParts, nonEmpty, if_neg (by simpa using h)]
    rw [if_pos h, String.append_assoc, String.append_assoc, String.append_assoc,
      String.append_assoc, String.append_assoc, String.append_assoc, String.toList_append,
      String.toList_append, String.toList_append, toList_userText]
    rw [String.append_assoc, String.append_assoc, String.append_assoc] at hrest
    rw [hrest, Parts.text, hscheme]
    rfl

/-! ## The parts of the uri -/

/-- **What is asked of the parser**: it takes each uri apart as it is put together, for the ports
that it can return. -/
def Splits (parseUri : String → Option MgUri) (ports : Set ℕ) : Prop :=
  ∀ u : Uri, (mgUri u.toParts).port ∈ ports →
    parseUri (String.ofList u.text) = some (mgUri u.toParts)

/-- **What the output overrides** is well-formed; what it leaves empty is not overridden. -/
structure Overrides (out : Output) (ports : Set ℕ) : Prop where
  proto : out.proto.toList.all isNameChar
  host : out.host.toList.all isNameChar
  port : out.port ≠ "" → out.port.toList.all Char.isDigit ∧ portNumber out.port.toList ≠ 0 ∧
    portNumber out.port.toList ∈ ports
  path : out.path.toList.all isPathChar

/-- The parts of the default uri, with the ones that the output overrides. -/
def overridden (out : Output) (d : MgUri) : MgUri where
  scheme := orElseEmpty out.proto d.scheme
  userInfo := d.userInfo
  host := orElseEmpty out.host d.host
  port := if out.port ≠ "" then portNumber out.port.toList else d.port
  path := if out.path ≠ "" then slashed out.path else d.path
  query := d.query
  fragment := d.fragment

/-- The number that is written as the port. -/
theorem portNumber_portDigits (out : Output) (d : MgUri) :
    portNumber (portDigits out d).toList =
      if out.port ≠ "" then portNumber out.port.toList else d.port := by
  rw [portDigits, orElseEmpty]
  split
  · rfl
  · split
    · show portNumber (Nat.repr d.port).toList = d.port
      rw [Nat.toList_repr, portNumber, Nat.ofDigitChars_ten_toDigits]
    · rename_i hzero
      rw [not_not.mp hzero]
      rfl

section

variable {out : Output} {ports : Set ℕ} (u : Uri)

/-- A path that begins with its slash stays as it is. -/
theorem slashed_eq {path : List Char} (h : path = [] ∨ path.head? = some '/') :
    slashed (String.ofList path) = String.ofList path := by
  rcases h with rfl | h
  · rfl
  · rw [slashed, String.toList_ofList, if_pos h]

/-- **The parts that are put together** are those of the default uri with the overrides. -/
theorem mgUri_resultParts (out : Output) :
    mgUri (resultParts out (mgUri u.toParts)) = overridden out (mgUri u.toParts) := by
  have hpath : slashed (orElseEmpty out.path (mgUri u.toParts).path) =
      if out.path ≠ "" then slashed out.path else (mgUri u.toParts).path := by
    rw [orElseEmpty]
    split
    · rfl
    · exact slashed_eq u.path_slash
  rw [mgUri]
  simp only [resultParts, getD_nonEmpty, String.ofList_toList, portNumber_portDigits, hpath]
  rfl

/-- A part has the characters that both choices have. -/
theorem all_orElseEmpty {p : Char → Bool} {s t : String} (hs : s.toList.all p)
    (ht : t.toList.all p) : (orElseEmpty s t).toList.all p := by
  rw [orElseEmpty]
  split
  · exact hs
  · exact ht

/-- A slash can stand in a path. -/
theorem all_slashed {path : String} (h : path.toList.all isPathChar) :
    (slashed path).toList.all isPathChar := by
  rw [slashed]
  split
  · exact h
  · rw [toList_withMark (c := '/') rfl, nonEmpty]
    split
    · rfl
    · simpa [marked] using ⟨by decide, by simpa using h⟩

/-- A path begins with `/` unless it is empty. -/
theorem slashed_head (path : String) :
    (slashed path).toList = [] ∨ (slashed path).toList.head? = some '/' := by
  rw [slashed]
  split
  · rename_i h
    exact Or.inr h
  · rw [toList_withMark (c := '/') rfl, nonEmpty]
    split
    · exact Or.inl rfl
    · exact Or.inr rfl

/-- A part that may be missing has the characters that it has. -/
theorem all_getD {p : Char → Bool} {part : Option (List Char)} (h : ∀ s ∈ part, s.all p) :
    (String.ofList (part.getD [])).toList.all p := by
  rw [String.toList_ofList]
  cases part with
  | none => rfl
  | some s => exact h s rfl

/-- A part that is there is not empty. -/
theorem all_of_mem_nonEmpty {p : Char → Bool} {s t : List Char} (ht : t.all p)
    (h : s ∈ nonEmpty t) : s ≠ [] ∧ s.all p := by
  obtain ⟨rfl, hne⟩ := mem_nonEmpty.mp h
  exact ⟨hne, ht⟩

/-- The digits of the port are digits. -/
theorem all_portDigits (ho : Overrides out ports) (d : MgUri) :
    (portDigits out d).toList.all Char.isDigit := by
  rw [portDigits, orElseEmpty]
  split
  · rename_i hport
    exact (ho.port hport).1
  · split
    · show (Nat.repr d.port).toList.all Char.isDigit
      rw [Nat.toList_repr]
      exact List.all_eq_true.mpr fun c hc =>
        Nat.isDigit_of_mem_toDigits (by decide) (by decide) hc
    · rfl

/-- A uri with a user has a scheme, whatever overrides it. -/
theorem scheme_isSome (h : (nonEmpty (mgUri u.toParts).userInfo.toList).isSome) :
    (nonEmpty (orElseEmpty out.proto (mgUri u.toParts).scheme).toList).isSome := by
  obtain ⟨user, huser⟩ := Option.isSome_iff_exists.mp h
  obtain ⟨-, hne⟩ := mem_nonEmpty.mp huser
  have hsome : u.scheme.isSome := by
    refine u.user_scheme ?_
    by_contra hnone
    rw [Bool.not_eq_true, Option.isSome_eq_false_iff, Option.isNone_iff_eq_none] at hnone
    rw [mgUri, hnone] at hne
    exact hne rfl
  obtain ⟨scheme, hscheme⟩ := Option.isSome_iff_exists.mp hsome
  have hname := (u.scheme_name scheme hscheme).1
  have hresult : (orElseEmpty out.proto (mgUri u.toParts).scheme).toList ≠ [] := by
    rw [orElseEmpty]
    split
    · rename_i hproto
      simpa using hproto
    · rw [mgUri, hscheme]
      simpa using hname
  rw [nonEmpty, if_neg hresult]
  rfl

/-- **The uri that is made** is well-formed. -/
def resultUri (ho : Overrides out ports) : Uri where
  toParts := resultParts out (mgUri u.toParts)
  scheme_name _ hs := all_of_mem_nonEmpty
    (all_orElseEmpty ho.proto (all_getD fun s h => (u.scheme_name s h).2)) hs
  user_scheme := scheme_isSome u
  user_chars _ hs := (all_of_mem_nonEmpty (all_getD u.user_chars) hs).2
  host_ok := by
    show IsHost (orElseEmpty out.host (mgUri u.toParts).host).toList
    rw [orElseEmpty]
    split
    · rename_i hhost
      exact Or.inl ⟨by simpa using hhost, ho.host⟩
    · rw [mgUri, String.toList_ofList]
      exact u.host_ok
  port_digits _ hs := all_of_mem_nonEmpty (all_portDigits ho _) hs
  path_slash := slashed_head _
  path_chars := by
    refine all_slashed (all_orElseEmpty ho.path ?_)
    rw [mgUri, String.toList_ofList]
    exact u.path_chars
  query_chars _ hs := (all_of_mem_nonEmpty (all_getD u.query_chars) hs).2

end

/-- **The uri that is made** has the parts of the default uri, except those that the output
overrides. -/
theorem parse_makeUri {parseUri : String → Option MgUri} {ports : Set ℕ}
    (hparse : Splits parseUri ports) (u : Uri) (hport : (mgUri u.toParts).port ∈ ports)
    {out : Output} (ho : Overrides out ports) :
    parseUri (out.makeUri parseUri (String.ofList u.text)) =
      some (overridden out (mgUri u.toParts)) := by
  have hne : String.ofList u.text ≠ "" := by simpa using u.text_ne_nil
  have hdefault : WebHook.defaultParts parseUri (String.ofList u.text) = mgUri u.toParts := by
    rw [WebHook.defaultParts, if_neg hne, hparse u hport, Option.getD_some]
  have hresult : (mgUri (resultUri u ho).toParts).port ∈ ports := by
    show (mgUri (resultParts out (mgUri u.toParts))).port ∈ ports
    rw [mgUri_resultParts]
    show (if out.port ≠ "" then portNumber out.port.toList else (mgUri u.toParts).port) ∈ ports
    split
    · rename_i hout
      exact (ho.port hout).2.2
    · exact hport
  rw [makeUri_eq, hdefault]
  show parseUri (String.ofList (resultUri u ho).text) = _
  rw [hparse _ hresult]
  show some (mgUri (resultParts out (mgUri u.toParts))) = _
  rw [mgUri_resultParts]

/-- A parser that does what is asked for. -/
def grammarParser (uri : String) : Option MgUri := some (mgUri (parse uri.toList))

/-- The parser of the grammar splits what the grammar makes. -/
theorem splits_grammarParser : Splits grammarParser Set.univ := by
  intro u _
  rw [grammarParser, String.toList_ofList, u.parse_text]

/-- `http://user@site.org:8080/a?q=1#top` -/
def sampleUri : Uri where
  scheme := some "http".toList
  user := some "user".toList
  host := "site.org".toList
  port := some "8080".toList
  path := "/a".toList
  query := some "q=1".toList
  fragment := some "top".toList
  scheme_name _ h := by
    obtain rfl := Option.some.inj h
    decide
  user_scheme _ := rfl
  user_chars _ h := by
    obtain rfl := Option.some.inj h
    decide
  host_ok := Or.inl (by decide)
  port_digits _ h := by
    obtain rfl := Option.some.inj h
    decide
  path_slash := Or.inr rfl
  path_chars := by decide
  query_chars _ h := by
    obtain rfl := Option.some.inj h
    decide

/-- The scheme, the port and the path are overridden. -/
theorem overrides_sample :
    Overrides { proto := "https", port := "443", path := "b" } Set.univ where
  proto := by decide
  host := by decide
  port _ := ⟨by decide, by decide, trivial⟩
  path := by decide

theorem parse_makeUri_sample :
    grammarParser (({ proto := "https", port := "443", path := "b" } : Output).makeUri grammarParser
      (String.ofList sampleUri.text)) =
      some (overridden { proto := "https", port := "443", path := "b" }
        (mgUri sampleUri.toParts)) :=
  parse_makeUri splits_grammarParser sampleUri trivial overrides_sample

end MakeUri
