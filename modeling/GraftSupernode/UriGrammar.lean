/-
# Uris and their parts

The uris `[scheme://[user_info@]]host[:port][/path][?query][#fragment]`.  A part that is optional
can be there and be empty, except the scheme and the port.

* `Uri`: the parts of a uri, with what makes them well-formed;
* `Parts.text`: the parts put together;
* `parse`: a text taken apart;
* `parse_text`: a uri has the parts that it is put together from.
-/
import Mathlib.Data.List.Basic
import Mathlib.Data.List.TakeWhile

namespace UriGrammar

/-! ## Characters -/

/-- The characters of a scheme and of a host: no separators. -/
def isNameChar (c : Char) : Bool := c ∉ [':', '/', '?', '#', '[', ']', '@']

/-- The characters of a user, and of what is between the brackets of a host. -/
def isUserChar (c : Char) : Bool := c ∉ ['/', '?', '#', '[', ']', '@']

/-- The characters of a path. -/
def isPathChar (c : Char) : Bool := c ∉ ['?', '#']

/-- The characters of a query. -/
def isQueryChar (c : Char) : Bool := c ≠ '#'

/-- A character of a name is one of a user. -/
theorem isUserChar_of_isNameChar {c : Char} (h : isNameChar c = true) : isUserChar c = true := by
  simp only [isNameChar, isUserChar, List.mem_cons, decide_eq_true_eq] at h ⊢
  tauto

/-- A digit is a character of a user. -/
theorem isUserChar_of_isDigit {c : Char} (h : c.isDigit = true) : isUserChar c = true := by
  rw [isUserChar, decide_eq_true_eq]
  intro hmem
  have hno : ['/', '?', '#', '[', ']', '@'].any Char.isDigit = false := by decide
  exact List.any_eq_false.mp hno c hmem h

/-! ## Parts -/

/-- The parts of a uri; the path is with its slash. -/
structure Parts where
  scheme : Option (List Char)
  user : Option (List Char)
  host : List Char
  port : Option (List Char)
  path : List Char
  query : Option (List Char)
  fragment : Option (List Char)
  deriving DecidableEq

/-- A part that may be there, behind its mark. -/
def marked (mark : Char) (part : Option (List Char)) : List Char :=
  (part.map fun s => mark :: s).getD []

/-- The user, with the mark behind it. -/
def userText (user : Option (List Char)) : List Char := (user.map fun s => s ++ ['@']).getD []

namespace Parts

/-- The query and the fragment. -/
def queryText (p : Parts) : List Char := marked '?' p.query ++ marked '#' p.fragment

/-- What is behind the port. -/
def pathText (p : Parts) : List Char := p.path ++ p.queryText

/-- What is behind the host. -/
def portText (p : Parts) : List Char := marked ':' p.port ++ p.pathText

/-- **The parts put together.** -/
def text (p : Parts) : List Char :=
  match p.scheme with
  | none => p.host ++ p.portText
  | some scheme => scheme ++ ':' :: '/' :: '/' :: (userText p.user ++ (p.host ++ p.portText))

end Parts

/-- A host without separators, or one between brackets. -/
def IsHost (host : List Char) : Prop :=
  (host ≠ [] ∧ host.all isNameChar) ∨
    ∃ inner : List Char, inner.all isUserChar ∧ host = '[' :: (inner ++ [']'])

/-- **A uri**: parts that are well-formed. -/
structure Uri extends Parts where
  scheme_name : ∀ s ∈ scheme, s ≠ [] ∧ s.all isNameChar
  user_scheme : user.isSome → scheme.isSome
  user_chars : ∀ s ∈ user, s.all isUserChar
  host_ok : IsHost host
  port_digits : ∀ s ∈ port, s ≠ [] ∧ s.all Char.isDigit
  path_slash : path = [] ∨ path.head? = some '/'
  path_chars : path.all isPathChar
  query_chars : ∀ s ∈ query, s.all isQueryChar

/-! ## Taking a text apart -/

/-- The scheme, and what is behind `://`. -/
def splitScheme (s : List Char) : Option (List Char) × List Char :=
  match s.dropWhile isNameChar with
  | ':' :: '/' :: '/' :: rest => (some (s.takeWhile isNameChar), rest)
  | _ => (none, s)

/-- The user, and what is behind the mark. -/
def splitUser (s : List Char) : Option (List Char) × List Char :=
  match s.dropWhile isUserChar with
  | '@' :: rest => (some (s.takeWhile isUserChar), rest)
  | _ => (none, s)

/-- The host. -/
def splitHost : List Char → List Char × List Char
  | '[' :: s => ('[' :: (s.takeWhile isUserChar ++ [']']), (s.dropWhile isUserChar).drop 1)
  | s => (s.takeWhile isNameChar, s.dropWhile isNameChar)

/-- A part that may be there, behind its mark. -/
def splitMarked (mark : Char) (p : Char → Bool) : List Char → Option (List Char) × List Char
  | [] => (none, [])
  | c :: s => if c = mark then (some (s.takeWhile p), s.dropWhile p) else (none, c :: s)

/-- What is behind the scheme and the user. -/
def parseHost (scheme user : Option (List Char)) (s : List Char) : Parts :=
  let host := splitHost s
  let port := splitMarked ':' Char.isDigit host.2
  let query := splitMarked '?' isQueryChar (port.2.dropWhile isPathChar)
  { scheme := scheme
    user := user
    host := host.1
    port := port.1
    path := port.2.takeWhile isPathChar
    query := query.1
    fragment := (splitMarked '#' (fun _ => true) query.2).1 }

/-- **A text taken apart.** -/
def parse (s : List Char) : Parts :=
  match splitScheme s with
  | (none, s) => parseHost none none s
  | (some scheme, s) => parseHost (some scheme) (splitUser s).1 (splitUser s).2

/-! ## The two are inverse -/

/-- The text is empty, or begins with one of the marks. -/
def HeadIn (marks : List Char) (t : List Char) : Prop := ∀ c ∈ t.head?, c ∈ marks

/-- The end of the text is a mark as well. -/
theorem headIn_nil (marks : List Char) : HeadIn marks [] := by
  intro c hc
  cases hc

/-- A text may begin with the mark. -/
theorem headIn_cons (mark : Char) (t : List Char) : HeadIn [mark] (mark :: t) := by
  intro c hc
  obtain rfl : mark = c := by simpa using hc
  exact List.mem_cons_self

/-- **A part ends** where a character comes that it cannot have. -/
theorem span_append {p : Char → Bool} {marks s t : List Char} (hs : s.all p) (ht : HeadIn marks t)
    (hmarks : marks.any p = false) :
    (s ++ t).takeWhile p = s ∧ (s ++ t).dropWhile p = t := by
  have hall : ∀ c ∈ s, p c = true := List.all_eq_true.mp hs
  rw [List.takeWhile_append_of_pos hall, List.dropWhile_append_of_pos hall]
  cases t with
  | nil => simp
  | cons c t =>
    have hc : p c = false := by simpa using List.any_eq_false.mp hmarks c (ht c rfl)
    simp [hc]

/-- A part with its mark, or nothing, and then what may come next. -/
theorem headIn_marked (mark : Char) (part : Option (List Char)) {marks t : List Char}
    (ht : HeadIn marks t) : HeadIn (mark :: marks) (marked mark part ++ t) := by
  cases part with
  | none =>
    intro c hc
    exact List.mem_cons_of_mem _ (ht c hc)
  | some s =>
    intro c hc
    obtain rfl : mark = c := by simpa [marked] using hc
    exact List.mem_cons_self

/-- A part that may be there is found. -/
theorem splitMarked_marked {mark : Char} {p : Char → Bool} {part : Option (List Char)}
    {marks t : List Char} (hpart : ∀ s ∈ part, s.all p) (ht : HeadIn marks t)
    (hmarks : marks.any p = false) (hmark : mark ∉ marks) :
    splitMarked mark p (marked mark part ++ t) = (part, t) := by
  cases part with
  | none =>
    cases t with
    | nil => rfl
    | cons c t =>
      have hc : c ≠ mark := fun heq => hmark (heq ▸ ht c rfl)
      show splitMarked mark p (c :: t) = _
      rw [splitMarked, if_neg hc]
  | some s =>
    obtain ⟨htake, hdrop⟩ := span_append (hpart s rfl) ht hmarks
    show splitMarked mark p (mark :: (s ++ t)) = _
    rw [splitMarked, if_pos rfl, htake, hdrop]

namespace Uri

variable (u : Uri)

/-- A uri has a host. -/
theorem text_ne_nil : u.text ≠ [] := by
  have hhost : u.host ≠ [] := by
    rcases u.host_ok with ⟨hne, -⟩ | ⟨inner, -, hhost⟩
    · exact hne
    · rw [hhost]
      exact List.cons_ne_nil _ _
  rw [Parts.text]
  split
  · simp [hhost]
  · simp

/-- The fragment begins with its mark. -/
theorem headIn_fragment : HeadIn ['#'] (marked '#' u.fragment) := by
  have h := headIn_marked '#' u.fragment (headIn_nil [])
  rwa [List.append_nil] at h

/-- The query begins with its mark, or the fragment comes. -/
theorem headIn_queryText : HeadIn ['?', '#'] u.queryText :=
  headIn_marked '?' u.query u.headIn_fragment

/-- The path begins with its mark, or what comes behind it. -/
theorem headIn_pathText : HeadIn ['/', '?', '#'] u.pathText := by
  intro c hc
  rw [Parts.pathText] at hc
  rcases u.path_slash with hnil | hslash
  · rw [hnil] at hc
    exact List.mem_cons_of_mem _ (u.headIn_queryText c hc)
  · rw [List.head?_append, hslash] at hc
    obtain rfl : '/' = c := by simpa using hc
    exact List.mem_cons_self

/-- The port begins with its mark, or what comes behind it. -/
theorem headIn_portText : HeadIn [':', '/', '?', '#'] u.portText :=
  headIn_marked ':' u.port u.headIn_pathText

/-- **The host** ends before its port. -/
theorem splitHost_text : splitHost (u.host ++ u.portText) = (u.host, u.portText) := by
  rcases u.host_ok with ⟨hne, hname⟩ | ⟨inner, hinner, hhost⟩
  · obtain ⟨htake, hdrop⟩ := span_append hname u.headIn_portText (by decide)
    rw [splitHost, htake, hdrop]
    rintro s heq
    obtain ⟨c, host, hhost⟩ := List.exists_cons_of_ne_nil hne
    rw [hhost] at hname heq
    obtain rfl : c = '[' := (List.cons.inj heq).1
    exact absurd (List.all_eq_true.mp hname '[' List.mem_cons_self) (by decide)
  · obtain ⟨htake, hdrop⟩ := span_append hinner (headIn_cons ']' u.portText) (by decide)
    rw [hhost]
    show splitHost ('[' :: (inner ++ [']'] ++ u.portText)) = _
    rw [List.append_assoc, List.singleton_append, splitHost, htake, hdrop]
    rfl

/-- **What is behind the scheme and the user** is taken apart into its parts. -/
theorem parseHost_text : parseHost u.scheme u.user (u.host ++ u.portText) = u.toParts := by
  have hport : splitMarked ':' Char.isDigit u.portText = (u.port, u.pathText) :=
    splitMarked_marked (fun s hs => (u.port_digits s hs).2) u.headIn_pathText (by decide)
      (by decide)
  obtain ⟨hpath, hrest⟩ := span_append u.path_chars u.headIn_queryText (by decide)
  have hlast :
      splitMarked '#' (fun _ => true) (marked '#' u.fragment ++ []) = (u.fragment, []) := by
    -- a fragment has any character, so it ends only where the uri does
    apply splitMarked_marked _ (headIn_nil []) rfl List.not_mem_nil
    intro s _
    simp
  rw [List.append_nil] at hlast
  have hquery : splitMarked '?' isQueryChar u.queryText = (u.query, marked '#' u.fragment) :=
    splitMarked_marked u.query_chars u.headIn_fragment (by decide) (by decide)
  rw [← Parts.pathText] at hpath hrest
  simp only [parseHost, splitHost_text, hport, hpath, hrest, hquery, hlast]

/-- A host does not begin with a colon, and no slashes are behind the colon of a port. -/
theorem splitScheme_text_of_none :
    splitScheme (u.host ++ u.portText) = (none, u.host ++ u.portText) := by
  have hno : ∀ rest, (u.host ++ u.portText).dropWhile isNameChar ≠ ':' :: '/' :: '/' :: rest := by
    intro rest heq
    rcases u.host_ok with ⟨-, hname⟩ | ⟨inner, hinner, hhost⟩
    · obtain ⟨-, hdrop⟩ := span_append hname u.headIn_portText (by decide)
      rw [hdrop, Parts.portText] at heq
      cases hport : u.port with
      | none =>
        -- the colon would begin the path
        rw [hport] at heq
        have hhead := u.headIn_pathText ':' (by
          rw [show u.pathText = ':' :: '/' :: '/' :: rest from heq]
          rfl)
        exact absurd hhead (by decide)
      | some digits =>
        obtain ⟨hne, hdigits⟩ := u.port_digits digits hport
        obtain ⟨d, ds, rfl⟩ := List.exists_cons_of_ne_nil hne
        rw [hport] at heq
        obtain rfl : d = '/' := (List.cons.inj (List.cons.inj heq).2).1
        exact absurd (List.all_eq_true.mp hdigits '/' List.mem_cons_self) (by decide)
    · rw [hhost, List.cons_append, List.dropWhile_cons_of_neg (by decide)] at heq
      exact absurd (List.cons.inj heq).1 (by decide)
  unfold splitScheme
  split
  · rename_i rest heq
    exact absurd heq (hno rest)
  · rfl

/-- A scheme is split off at `://`. -/
theorem splitScheme_text_of_some {scheme rest : List Char} (h : scheme.all isNameChar) :
    splitScheme (scheme ++ ':' :: '/' :: '/' :: rest) = (some scheme, rest) := by
  obtain ⟨htake, hdrop⟩ := span_append h (headIn_cons ':' ('/' :: '/' :: rest)) (by decide)
  rw [splitScheme, htake, hdrop]
  rfl

/-- **The user** is found, if there is one. -/
theorem splitUser_text :
    splitUser (userText u.user ++ (u.host ++ u.portText)) = (u.user, u.host ++ u.portText) := by
  cases huser : u.user with
  | some user =>
    have hat : HeadIn ['@'] ('@' :: (u.host ++ u.portText)) := headIn_cons '@' _
    obtain ⟨htake, hdrop⟩ := span_append (u.user_chars user huser) hat (by decide)
    show splitUser ((user ++ ['@']) ++ (u.host ++ u.portText)) = _
    rw [List.append_assoc, List.singleton_append, splitUser, htake, hdrop]
    rfl
  | none =>
    have hno : ∀ rest, (u.host ++ u.portText).dropWhile isUserChar ≠ '@' :: rest := by
      intro rest heq
      rcases u.host_ok with ⟨-, hname⟩ | ⟨inner, hinner, hhost⟩
      · -- the host and the port have no character that ends a user
        have hall : (u.host ++ marked ':' u.port).all isUserChar := by
          rw [List.all_append, Bool.and_eq_true]
          refine ⟨List.all_eq_true.mpr fun c hc =>
            isUserChar_of_isNameChar (List.all_eq_true.mp hname c hc), ?_⟩
          cases hport : u.port with
          | none => rfl
          | some digits =>
            refine List.all_eq_true.mpr fun c hc => ?_
            rcases List.mem_cons.mp hc with rfl | hc
            · decide
            · exact isUserChar_of_isDigit
                (List.all_eq_true.mp (u.port_digits digits hport).2 c hc)
        obtain ⟨-, hdrop⟩ := span_append hall u.headIn_pathText (by decide)
        rw [Parts.portText, ← List.append_assoc, hdrop] at heq
        have hhead := u.headIn_pathText '@' (by rw [heq]; rfl)
        exact absurd hhead (by decide)
      · rw [hhost, List.cons_append, List.dropWhile_cons_of_neg (by decide)] at heq
        exact absurd (List.cons.inj heq).1 (by decide)
    show splitUser (u.host ++ u.portText) = _
    unfold splitUser
    split
    · rename_i rest heq
      exact absurd heq (hno rest)
    · rfl

/-- **A uri has the parts** that it is put together from. -/
theorem parse_text : parse u.text = u.toParts := by
  have hparts := u.parseHost_text
  cases hscheme : u.scheme with
  | none =>
    have huser : u.user = none := by
      have hno := u.user_scheme
      rw [hscheme] at hno
      simpa using hno
    rw [parse, Parts.text, hscheme]
    dsimp only
    rw [splitScheme_text_of_none]
    rw [hscheme, huser] at hparts
    exact hparts
  | some scheme =>
    rw [parse, Parts.text, hscheme]
    dsimp only
    rw [splitScheme_text_of_some (u.scheme_name scheme hscheme).2]
    dsimp only
    rw [splitUser_text]
    rw [hscheme] at hparts
    exact hparts

end Uri

end UriGrammar
