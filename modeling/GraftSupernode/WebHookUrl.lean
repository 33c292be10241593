/-
# The target of a webhook

A callback url is taken apart by `URL` (`wallet_manager.cpp`), `WebHookCallback` copies the parts
into an output, and `OutHttp::makeUri` (`inout.cpp`) puts them together again, over the address of
the default node.

* `URL.parse`: the iterators as distances; a string that is built from a reversed range is `none`;
* `CallbackUrl`: the urls `scheme://host[:port]/path[?query]`;
* `sentRight_iff`: the webhook is sent to its url exactly when the url has a port, or needs none but
  80 and has no colon behind its host, and the default address adds nothing.
-/
import GraftSupernode.UpstreamRequest
import Mathlib.Data.List.Basic

namespace WebHook

/-- `tolower` -/
def lower (s : List Char) : List Char := s.map Char.toLower

/-- `search` for `://`: what is before it, and what is behind. -/
def searchProtEnd : List Char → Option (List Char × List Char)
  | ':' :: '/' :: '/' :: rest => some ([], rest)
  | c :: s => (searchProtEnd s).map fun x => (c :: x.1, x.2)
  | [] => none

/-- `URL` -/
structure URL where
  protocol : List Char
  host : List Char := []
  port : List Char := []
  path : List Char := []
  query : List Char := []
  deriving DecidableEq

/-- The constructor of `URL`; `none`: the port would be built from a reversed range. -/
def URL.parse (url : List Char) : Option URL :=
  match searchProtEnd url with
  | none => some { protocol := lower url }
  | some (prot, rest) =>
    let portI := rest.idxOf ':'
    let pathI := rest.idxOf '/'
    let tail := rest.drop pathI
    let path := tail.takeWhile (· ≠ '?')
    let query := (tail.dropWhile (· ≠ '?')).drop 1
    if portI = rest.length then
      -- the port of every protocol
      some ⟨lower prot, lower (rest.take pathI), "80".toList, path, query⟩
    else if portI + 1 ≤ pathI then
      some ⟨lower prot, lower (rest.take portI), (rest.take pathI).drop (portI + 1), path, query⟩
    else none

/-- `WebHookCallback::result`, before it has a body. -/
def URL.result (url : URL) : Output where
  proto := String.ofList url.protocol
  host := String.ofList url.host
  port := String.ofList url.port
  path := String.ofList url.path
  queryString := String.ofList url.query

/-- The uri that a webhook is sent to. -/
def target (parseUri : String → Option MgUri) (url : List Char) (defaultUri : String) :
    Option String :=
  (URL.parse url).map fun url => url.result.makeUri parseUri defaultUri

/-! ## Callback urls -/

/-- `scheme://host[:port]/path[?query]` -/
structure CallbackUrl where
  scheme : List Char
  host : List Char
  port : Option (List Char)
  /-- What is behind the first `/`. -/
  path : List Char
  query : Option (List Char)
  scheme_ne : scheme ≠ []
  scheme_colon : ':' ∉ scheme
  host_ne : host ≠ []
  host_colon : ':' ∉ host
  host_slash : '/' ∉ host
  host_mark : '?' ∉ host
  port_digits : ∀ digits, port = some digits → digits ≠ [] ∧ digits.all Char.isDigit
  path_mark : '?' ∉ path

namespace CallbackUrl

variable (u : CallbackUrl)

/-- The path and the query, as they are written. -/
def rest : List Char := '/' :: u.path ++ (u.query.map fun q => '?' :: q).getD []

/-- The text of the url. -/
def text : List Char :=
  u.scheme ++ ':' :: '/' :: '/' :: (u.host ++ (u.port.map fun p => ':' :: p).getD [] ++ u.rest)

/-- The port of a protocol. -/
def schemePort (scheme : List Char) : Option (List Char) :=
  if scheme = "http".toList then some "80".toList
  else if scheme = "https".toList then some "443".toList
  else none

/-- The port is the one given, or else the one of the protocol, if that has one. -/
def HasPort (port : List Char) : Prop :=
  port ≠ [] ∧ port.all Char.isDigit ∧
    match u.port with
    | some given => port = given
    | none => ∀ p, schemePort (lower u.scheme) = some p → port = p

/-- The uri of the callback with a port. -/
def uri (port : List Char) : List Char :=
  lower u.scheme ++ "://".toList ++ lower u.host ++ ':' :: port ++ '/' :: u.path ++
    (withMark "?" (String.ofList (u.query.getD []))).toList

/-- **The webhook is sent to its url.** -/
def SentRight (parseUri : String → Option MgUri) (defaultUri : String) : Prop :=
  ∃ uri, target parseUri u.text defaultUri = some uri ∧
    ∃ port, u.HasPort port ∧ uri.toList = u.uri port

end CallbackUrl

/-! ## Parsing -/

/-- The scheme ends at the first `://`. -/
theorem searchProtEnd_append {scheme : List Char} (h : ':' ∉ scheme) (rest : List Char) :
    searchProtEnd (scheme ++ ':' :: '/' :: '/' :: rest) = some (scheme, rest) := by
  induction scheme with
  | nil => rfl
  | cons c scheme ih =>
    have hc : c ≠ ':' := fun heq => h (heq ▸ List.mem_cons_self)
    rw [List.cons_append, searchProtEnd, ih fun hmem => h (List.mem_cons_of_mem c hmem)]
    · rfl
    · exact fun rest' heq => absurd heq hc

/-! A mark that is not in what comes before it. -/

section mark

variable {c : Char} {s : List Char}

/-- No character of a text is one that it does not have. -/
theorem forall_ne_of_not_mem (h : c ∉ s) : ∀ a ∈ s, decide (a ≠ c) = true :=
  fun _ ha => decide_eq_true fun heq => h (heq ▸ ha)

/-- A text up to the first mark. -/
theorem takeWhile_mark (h : c ∉ s) (t : List Char) : (s ++ c :: t).takeWhile (· ≠ c) = s := by
  rw [List.takeWhile_append_of_pos (forall_ne_of_not_mem h)]
  simp

/-- The rest of a text from the first mark on. -/
theorem dropWhile_mark (h : c ∉ s) (t : List Char) : (s ++ c :: t).dropWhile (· ≠ c) = c :: t := by
  rw [List.dropWhile_append_of_pos (forall_ne_of_not_mem h)]
  simp

/-- The place of the first mark in a text. -/
theorem idxOf_mark (h : c ∉ s) (t : List Char) : (s ++ c :: t).idxOf c = s.length := by
  rw [List.idxOf_append_of_notMem h, List.idxOf_cons_self, Nat.add_zero]

/-- Two texts with the mark after parts without it. -/
theorem append_mark_inj {s' t t' : List Char} (h : c ∉ s) (h' : c ∉ s') :
    s ++ c :: t = s' ++ c :: t' ↔ s = s' ∧ t = t' := by
  constructor
  · intro heq
    have hs := congrArg (List.takeWhile (· ≠ c)) heq
    have ht := congrArg (List.dropWhile (· ≠ c)) heq
    rw [takeWhile_mark h, takeWhile_mark h'] at hs
    rw [dropWhile_mark h, dropWhile_mark h'] at ht
    exact ⟨hs, (List.cons.inj ht).2⟩
  · rintro ⟨rfl, rfl⟩
    rfl

/-- Two texts with the mark before parts without it. -/
theorem mark_append_inj {s' t t' : List Char} (h : c ∉ t) (h' : c ∉ t') :
    s ++ c :: t = s' ++ c :: t' ↔ s = s' ∧ t = t' := by
  rw [← List.reverse_inj, List.reverse_append, List.reverse_append, List.reverse_cons,
    List.reverse_cons, List.append_assoc, List.append_assoc, List.singleton_append,
    List.singleton_append, append_mark_inj (by simpa using h) (by simpa using h'),
    List.reverse_inj, List.reverse_inj, and_comm]

end mark

/-- A port of digits has no other character. -/
theorem notMem_of_digits {port : List Char} (h : port.all Char.isDigit) {c : Char}
    (hc : c.isDigit = false) : c ∉ port := by
  intro hmem
  have hdigit := List.all_eq_true.mp h c hmem
  rw [hc] at hdigit
  cases hdigit

/-- Only a `/` is a `/` in lower case. -/
theorem eq_slash_of_toLower {c : Char} (h : c.toLower = '/') : c = '/' := by
  delta Char.toLower at h
  split at h
  · rename_i hupper
    have hval := congrArg Char.val h
    exfalso
    grind [UInt32.toNat_add]
  · exact h

/-- A text without a `/` has none in lower case. -/
theorem slash_notMem_lower {s : List Char} (h : '/' ∉ s) : '/' ∉ lower s := by
  intro hmem
  obtain ⟨c, hc, hlower⟩ := List.mem_map.mp hmem
  exact h (eq_slash_of_toLower hlower ▸ hc)

namespace CallbackUrl

variable (u : CallbackUrl)

/-- What is behind the port up to the `?` is the path with its `/`. -/
theorem takeWhile_rest : u.rest.takeWhile (· ≠ '?') = '/' :: u.path := by
  have hmark : '?' ∉ '/' :: u.path := by simpa using u.path_mark
  rw [rest]
  cases u.query with
  | none =>
    rw [List.takeWhile_append_of_pos (forall_ne_of_not_mem hmark)]
    exact List.append_nil _
  | some q => exact takeWhile_mark hmark q

/-- What is behind the `?` is the query. -/
theorem dropWhile_rest : (u.rest.dropWhile (· ≠ '?')).drop 1 = u.query.getD [] := by
  have hmark : '?' ∉ '/' :: u.path := by simpa using u.path_mark
  rw [rest]
  cases u.query with
  | none =>
    rw [List.dropWhile_append_of_pos (forall_ne_of_not_mem hmark)]
    rfl
  | some q =>
    rw [Option.map_some, Option.getD_some, dropWhile_mark hmark]
    rfl

/-- What is behind the port begins with a `/`. -/
theorem rest_eq : ∃ tail, u.rest = '/' :: tail := ⟨_, rfl⟩

/-- **A url with a port** is taken apart as it is put together. -/
theorem parse_text_of_port {port : List Char} (h : u.port = some port) :
    URL.parse u.text =
      some ⟨lower u.scheme, lower u.host, port, '/' :: u.path, u.query.getD []⟩ := by
  obtain ⟨tail, htail⟩ := u.rest_eq
  have hpath : u.rest.takeWhile (· ≠ '?') = '/' :: u.path := u.takeWhile_rest
  have hquery := u.dropWhile_rest
  have hslash : '/' ∉ u.host ++ ':' :: port := by
    simpa [u.host_slash] using notMem_of_digits (u.port_digits port h).2 (c := '/') (by decide)
  have hport : (u.host ++ ':' :: port ++ u.rest).idxOf ':' = u.host.length := by
    rw [List.append_assoc, List.cons_append]
    exact idxOf_mark u.host_colon _
  have hrest : (u.host ++ ':' :: port ++ u.rest).idxOf '/' = (u.host ++ ':' :: port).length := by
    rw [htail]
    exact idxOf_mark hslash _
  rw [URL.parse, text, searchProtEnd_append u.scheme_colon, h]
  dsimp only [Option.map_some, Option.getD_some]
  rw [hport, hrest, List.drop_left, List.take_left, hpath, hquery, if_neg, if_pos]
  · rw [List.append_assoc, List.take_left]
    simp
  · simp
  · simp

/-- **A url without a port** is one for port 80, if there is no colon behind its host. -/
theorem parse_text_of_none (h : u.port = none) :
    URL.parse u.text = if ':' ∈ u.rest then none else
      some ⟨lower u.scheme, lower u.host, "80".toList, '/' :: u.path, u.query.getD []⟩ := by
  obtain ⟨tail, htail⟩ := u.rest_eq
  have hpath : u.rest.takeWhile (· ≠ '?') = '/' :: u.path := u.takeWhile_rest
  have hquery := u.dropWhile_rest
  have hrest : (u.host ++ u.rest).idxOf '/' = u.host.length := by
    rw [htail]
    exact idxOf_mark u.host_slash _
  rw [URL.parse, text, searchProtEnd_append u.scheme_colon, h]
  dsimp only [Option.map_none, Option.getD_none]
  rw [List.append_nil, hrest, List.drop_left, List.take_left, hpath, hquery]
  by_cases hcolon : ':' ∈ u.rest
  · -- the colon is not the one before a port, and the range ends before it begins
    have hlt : (u.host ++ u.rest).idxOf ':' < (u.host ++ u.rest).length :=
      List.idxOf_lt_length_of_mem (List.mem_append_right _ hcolon)
    have hle : u.host.length ≤ (u.host ++ u.rest).idxOf ':' := by
      rw [List.idxOf_append_of_notMem u.host_colon]
      omega
    rw [if_pos hcolon, if_neg hlt.ne, if_neg (by omega)]
  · have hnone : (u.host ++ u.rest).idxOf ':' = (u.host ++ u.rest).length :=
      List.idxOf_eq_length (by simp [u.host_colon, hcolon])
    rw [if_neg hcolon, if_pos hnone]

end CallbackUrl

/-! ## Putting the uri together -/

section makeUri

variable (parseUri : String → Option MgUri) (defaultUri : String)

/-- What `makeUri` has of the default uri. -/
def defaultParts : MgUri := if defaultUri = "" then {} else (parseUri defaultUri).getD {}

/-- The user of the default uri, with the mark behind it. -/
def userPart (d : MgUri) : List Char :=
  (if d.userInfo ≠ "" then d.userInfo ++ "@" else "").toList

/-- The query and the fragment of the default uri, with their marks. -/
def tailPart (d : MgUri) : List Char := (withMark "?" d.query ++ withMark "#" d.fragment).toList

/-- A part that is not empty is not replaced. -/
theorem orElseEmpty_ofList {s : List Char} (h : s ≠ []) (t : String) :
    orElseEmpty (String.ofList s) t = String.ofList s := by
  have hne : String.ofList s ≠ "" := by simpa using h
  rw [orElseEmpty, if_pos hne]

/-- **The uri** has the protocol, the host, the port and the path of the callback, and nothing of
its query. -/
theorem makeUri_result {url : URL} {path : List Char} (hprotocol : url.protocol ≠ [])
    (hhost : url.host ≠ []) (hport : url.port ≠ []) (hpath : url.path = '/' :: path) :
    (url.result.makeUri parseUri defaultUri).toList =
      url.protocol ++ "://".toList ++ (userPart (defaultParts parseUri defaultUri) ++ url.host ++
        ':' :: url.port ++ '/' :: (path ++ tailPart (defaultParts parseUri defaultUri))) := by
  have hpath_ne : url.path ≠ [] := by
    rw [hpath]
    exact List.cons_ne_nil _ _
  rw [Output.makeUri, ← defaultParts]
  simp only [URL.result, orElseEmpty_ofList hprotocol, orElseEmpty_ofList hhost,
    orElseEmpty_ofList hport, orElseEmpty_ofList hpath_ne]
  have hp : String.ofList url.protocol ≠ "" := by simpa using hprotocol
  have hq : String.ofList url.port ≠ "" := by simpa using hport
  have hslash : (String.ofList ('/' :: path)).toList.head? = some '/' := by simp
  rw [if_pos hp, withMark, if_pos hq, hpath, if_pos hslash]
  simp [userPart, tailPart]

end makeUri

/-- The default uri has no user, and puts behind the path what the callback has there. -/
def NothingElse (d : MgUri) (u : CallbackUrl) : Prop :=
  d.userInfo = "" ∧
    withMark "?" d.query ++ withMark "#" d.fragment = withMark "?" (String.ofList (u.query.getD []))

/-- There is no part for the user when there is no user. -/
theorem userPart_eq_nil_iff (d : MgUri) : userPart d = [] ↔ d.userInfo = "" := by
  rw [userPart]
  by_cases h : d.userInfo = ""
  · simp [h]
  · simp [h]

/-- The part for the user has no `/` when the user has none. -/
theorem slash_notMem_userPart {d : MgUri} (h : '/' ∉ d.userInfo.toList) : '/' ∉ userPart d := by
  rw [userPart]
  split
  · simpa using h
  · simp

/-- **When the uri is the one of the callback**: where there is nothing before the host, the port is
the right one, and the end is. -/
theorem uri_eq_iff (u : CallbackUrl) {user port port' tail : List Char} (huser : '/' ∉ user)
    (hport : port.all Char.isDigit) (hport' : port'.all Char.isDigit) :
    lower u.scheme ++ "://".toList ++
        (user ++ lower u.host ++ ':' :: port ++ '/' :: (u.path ++ tail)) = u.uri port' ↔
      user = [] ∧ port = port' ∧
        tail = (withMark "?" (String.ofList (u.query.getD []))).toList := by
  have hhost : '/' ∉ lower u.host := slash_notMem_lower u.host_slash
  have hbefore : '/' ∉ user ++ lower u.host ++ ':' :: port := by
    simp [huser, hhost, notMem_of_digits hport]
  have hbefore' : '/' ∉ lower u.host ++ ':' :: port' := by
    simp [hhost, notMem_of_digits hport']
  have hassoc : u.uri port' = lower u.scheme ++ "://".toList ++ (lower u.host ++ ':' :: port' ++
      '/' :: (u.path ++ (withMark "?" (String.ofList (u.query.getD []))).toList)) := by
    simp [CallbackUrl.uri]
  rw [hassoc, List.append_cancel_left_eq, append_mark_inj hbefore hbefore',
    mark_append_inj (notMem_of_digits hport (by decide)) (notMem_of_digits hport' (by decide)),
    List.append_cancel_left_eq, List.append_left_eq_self, and_assoc]

/-- The tails are equal when the query and the fragment of the default make the query of the
callback. -/
theorem tailPart_eq_iff (d : MgUri) (u : CallbackUrl) :
    tailPart d = (withMark "?" (String.ofList (u.query.getD []))).toList ↔
      withMark "?" d.query ++ withMark "#" d.fragment
        = withMark "?" (String.ofList (u.query.getD [])) := by
  rw [tailPart, String.toList_inj]

/-- The port 80 is right for every protocol but one. -/
theorem schemePort_eq_80_iff (scheme : List Char) :
    (∀ p, CallbackUrl.schemePort scheme = some p → "80".toList = p) ↔ scheme ≠ "https".toList := by
  rw [CallbackUrl.schemePort]
  split
  · rename_i hhttp
    rw [hhttp]
    simp
  · split
    · rename_i hhttps
      simp [hhttps]
    · rename_i hhttps
      simpa using hhttps

/-- **The target of a webhook** is its callback exactly when the callback names a port, or needs
none but 80 and has no colon behind its host, and the default address adds nothing. -/
theorem sentRight_iff (parseUri : String → Option MgUri)
    (hmg : ∀ uri parts, parseUri uri = some parts → '/' ∉ parts.userInfo.toList) (u : CallbackUrl)
    (defaultUri : String) :
    u.SentRight parseUri defaultUri ↔
      (u.port.isSome ∨ ':' ∉ u.rest ∧ lower u.scheme ≠ "https".toList) ∧
        NothingElse (defaultParts parseUri defaultUri) u := by
  have hscheme : lower u.scheme ≠ [] := by simpa [lower] using u.scheme_ne
  have hhost : lower u.host ≠ [] := by simpa [lower] using u.host_ne
  have huser : '/' ∉ userPart (defaultParts parseUri defaultUri) := by
    refine slash_notMem_userPart ?_
    rw [defaultParts]
    split
    · simp
    · cases hparse : parseUri defaultUri with
      | none => simp
      | some parts => exact hmg _ _ hparse
  generalize hd : defaultParts parseUri defaultUri = d at huser ⊢
  -- what is sent for a url that is taken apart with a port
  have hsent : ∀ port : List Char, port ≠ [] → port.all Char.isDigit →
      URL.parse u.text = some ⟨lower u.scheme, lower u.host, port, '/' :: u.path, u.query.getD []⟩ →
      (u.SentRight parseUri defaultUri ↔ u.HasPort port ∧ NothingElse d u) := by
    intro port hne hdigits hparse
    have huri := @makeUri_result parseUri defaultUri
      ⟨lower u.scheme, lower u.host, port, '/' :: u.path, u.query.getD []⟩ u.path
      hscheme hhost hne rfl
    rw [hd] at huri
    dsimp only at huri
    rw [CallbackUrl.SentRight, target, hparse, Option.map_some]
    constructor
    · rintro ⟨uri, hsome, port', hport', heq⟩
      rw [← Option.some.inj hsome, huri, uri_eq_iff u huser hdigits hport'.2.1,
        userPart_eq_nil_iff, tailPart_eq_iff] at heq
      obtain ⟨huserInfo, rfl, htail⟩ := heq
      exact ⟨hport', huserInfo, htail⟩
    · rintro ⟨hport, huserInfo, htail⟩
      refine ⟨_, rfl, port, hport, ?_⟩
      rw [huri, uri_eq_iff u huser hdigits hdigits, userPart_eq_nil_iff, tailPart_eq_iff]
      exact ⟨huserInfo, rfl, htail⟩
  cases hport : u.port with
  | some port =>
    obtain ⟨hne, hdigits⟩ := u.port_digits port hport
    rw [hsent port hne hdigits (u.parse_text_of_port hport), CallbackUrl.HasPort, hport]
    simp [hne, hdigits]
  | none =>
    have hisSome : (none : Option (List Char)).isSome = true ↔ False := by simp
    rw [hisSome, false_or]
    by_cases hcolon : ':' ∈ u.rest
    · refine iff_of_false ?_ fun h => h.1.1 hcolon
      rintro ⟨uri, huri, -⟩
      rw [target, u.parse_text_of_none hport, if_pos hcolon] at huri
      cases huri
    · have hparse := u.parse_text_of_none hport
      rw [if_neg hcolon] at hparse
      rw [hsent "80".toList (by decide) (by decide) hparse, CallbackUrl.HasPort, hport]
      dsimp only
      rw [schemePort_eq_80_iff]
      simp [hcolon]

/-- The parts of one address, which is all that is asked of the parser here. -/
def sampleParseUri (uri : String) : Option MgUri :=
  if uri = "http://127.0.0.1:28690/" then
    some { scheme := "http", host := "127.0.0.1", port := 28690, path := "/" }
  else none

/-- The parser of the sample reads no `/` in a user. -/
theorem sampleParseUri_user {uri : String} {parts : MgUri} (h : sampleParseUri uri = some parts) :
    '/' ∉ parts.userInfo.toList := by
  rw [sampleParseUri] at h
  split at h
  · cases h
    decide
  · cases h

/-- `http://shop.org:8080/paid` -/
def sampleCallback : CallbackUrl where
  scheme := "http".toList
  host := "shop.org".toList
  port := some "8080".toList
  path := "paid".toList
  query := none
  scheme_ne := by decide
  scheme_colon := by decide
  host_ne := by decide
  host_colon := by decide
  host_slash := by decide
  host_mark := by decide
  port_digits := by
    rintro digits h
    cases h
    decide
  path_mark := by decide

theorem sentRight_iff_sampleCallback :
    sampleCallback.SentRight sampleParseUri "http://127.0.0.1:28690/" ↔
      (sampleCallback.port.isSome ∨
        ':' ∉ sampleCallback.rest ∧ lower sampleCallback.scheme ≠ "https".toList) ∧
        NothingElse (defaultParts sampleParseUri "http://127.0.0.1:28690/") sampleCallback :=
  sentRight_iff sampleParseUri (fun _ _ => sampleParseUri_user) sampleCallback
    "http://127.0.0.1:28690/"

/-- `http://shop.org:8080/paid?id=7` -/
def sampleWithQuery : CallbackUrl := { sampleCallback with query := some "id=7".toList }

/-- `https://shop.org/paid` -/
def sampleSecure : CallbackUrl :=
  { sampleCallback with
    scheme := "https".toList
    port := none
    scheme_ne := by decide
    scheme_colon := by decide
    port_digits := fun _ h => nomatch h }

/-- `http://shop.org/a:b` -/
def sampleWithColon : CallbackUrl :=
  { sampleCallback with
    port := none
    path := "a:b".toList
    port_digits := fun _ h => nomatch h
    path_mark := by decide }

/-- The query is not sent, the port of a secure callback is not its own, and the url with a colon in
its path is not taken apart. -/
theorem not_sentRight_samples :
    ¬ sampleWithQuery.SentRight sampleParseUri "http://127.0.0.1:28690/" ∧
      ¬ sampleSecure.SentRight sampleParseUri "http://127.0.0.1:28690/" ∧
      target sampleParseUri sampleWithColon.text "http://127.0.0.1:28690/" = none := by
  refine ⟨?_, ?_, ?_⟩
  · rintro ⟨uri, htarget, port, ⟨-, -, hport⟩, heq⟩
    have hport : port = "8080".toList := hport
    subst hport
    have huri : target sampleParseUri sampleWithQuery.text "http://127.0.0.1:28690/"
        = some "http://shop.org:8080/paid" := by
      decide +kernel
    rw [huri] at htarget
    cases htarget
    exact absurd heq (by decide +kernel)
  · rintro ⟨uri, htarget, port, ⟨-, -, hport⟩, heq⟩
    have hport : "443".toList = port := (hport _ rfl).symm
    subst hport
    have huri : target sampleParseUri sampleSecure.text "http://127.0.0.1:28690/"
        = some "https://shop.org:80/paid" := by
      decide +kernel
    rw [huri] at htarget
    cases htarget
    exact absurd heq (by decide +kernel)
  · decide +kernel

end WebHook
