/-
# Structures in requests and responses

`OutHttp::load` writes a structure into the body of a response and `InHttp::get` reads one from the
body of a request (`inout.h`), with the serializers `JSON` and `JSON_B64`.  Between the two is the
text of rapidjson, which is not part of the repository, and epee's base64; both are parameters.

`fromJson` reads into a local variable `Type res;`, so a member that the text does not have keeps
what was in the memory; `res` is that memory.  No request is read with errors to report to, so a
`std::set` with a duplicate makes the program dereference a null pointer.
-/
import GraftSupernode.InOut
import GraftSupernode.ReflectorRoundTrip

namespace Reflector

variable {F : Floats}

/-! ## Text -/

/-- `rapidjson::ParseResult` of a text that is no JSON: the code of the error and where it is. -/
structure ParseResult where
  code : ℕ
  offset : ℕ

/-- How `fromJson` fails: it throws, or what happens is undefined because a null pointer is
dereferenced. -/
inductive Thrown
  | parseResult (pr : ParseResult)
  | deserializationError (err : JsonDeserializationError)
  | nullDereference

/-- How `fromJson` fails when `pull` stops. -/
def Thrown.ofStop : Stop → Thrown
  | .thrown err => .deserializationError err
  | .nullDereference => .nullDereference

/-- `rapidjson::Writer` and `Document::Parse`. -/
structure TextFormat (F : Floats) where
  write : Json F → String
  parse : String → Except ParseResult (Json F)

variable (P : Platform F) (R : TextFormat F)

/-- `parseJsonDocFromString` -/
def parseJsonDocFromString (json : String) : Except Thrown (Json F) :=
  (R.parse json).mapError .parseResult

/-- `JsonSerializable::toJson`, as `GetString` of the buffer gives it. -/
def toJson (name : String) (ms : Members) (x : ms.Val F) : String :=
  cStr (R.write ((Ty.struct name ms).push x))

/-- `JsonSerializable::fromJson`; a document that is no object makes a `Type()`. -/
def fromJson (name : String) (ms : Members) (res : ms.Val F) (json : String)
    (errors : Option Errors) : Except Thrown (ms.Val F × Option Errors) := do
  let doc ← parseJsonDocFromString R json
  let reader : Reader (ms.Val F) :=
    match doc with
    | .obj members => ms.pull P res members
    | _ => do
      reportTypeMismatch (.struct name ms) doc
      return P.fresh (.struct name ms)
  (reader errors).mapError .ofStop

/-! ## Serializers -/

/-- A serializer of a type. -/
structure Serializer (α : Type) where
  serialize : α → String
  deserialize : String → Except Thrown α

/-- `serializer::JSON` -/
def JSON (name : String) (ms : Members) (res : ms.Val F) : Serializer (ms.Val F) where
  serialize x := toJson R name ms x
  deserialize s := (fromJson P R name ms res s none).map Prod.fst

/-- `serializer::JSON_B64` -/
def JSON_B64 (base64Encode base64Decode : String → String) (name : String) (ms : Members)
    (res : ms.Val F) : Serializer (ms.Val F) where
  serialize x := base64Encode (toJson R name ms x)
  deserialize s := (fromJson P R name ms res (base64Decode s) none).map Prod.fst

/-- `JsonParseError` -/
structure JsonParseError where
  what : String

/-- `JsonParseError::JsonParseError` -/
def JsonParseError.ofParseResult (pr : ParseResult) : JsonParseError :=
  ⟨"Json parse error, code: " ++ toString pr.code ++ ", offset: " ++ toString pr.offset⟩

/-- How `InHttp::get` fails. -/
inductive GetThrown
  | jsonParseError (err : JsonParseError)
  | deserializationError (err : JsonDeserializationError)
  | nullDereference

/-! ## Bodies -/

section

variable {α : Type}

/-- `OutHttp::load` and `OutHttp::loadT` -/
def OutHttp.load (S : Serializer α) (out : Output) (t : α) : Output :=
  { out with body := S.serialize t }

/-- `InHttp::load`: the port is the input's own. -/
def InHttp.load (input : Input) (data : String) : Input :=
  { input with toInOutHttpBase := { body := data } }

/-- `T InHttp::getT() const` -/
def InHttp.getT (S : Serializer α) (input : Input) : Except Thrown α := S.deserialize input.body

/-- `bool InHttp::getT(T&) const`: whatever is thrown is caught. -/
def InHttp.getTInto (S : Serializer α) (input : Input) (result : α) : Except Thrown (Bool × α) :=
  match InHttp.getT S input with
  | .ok t => .ok (true, t)
  | .error .nullDereference => .error .nullDereference
  | .error _ => .ok (false, result)

/-- `T InHttp::get() const`, whose serializer is `JSON`. -/
def InHttp.get (S : Serializer α) (input : Input) : Except GetThrown α :=
  (InHttp.getT S input).mapError fun
    | .parseResult pr => .jsonParseError (.ofParseResult pr)
    | .deserializationError err => .deserializationError err
    | .nullDereference => .nullDereference

/-- `bool InHttp::get(T&) const`: a `JsonParseError` is caught. -/
def InHttp.getInto (S : Serializer α) (input : Input) (result : α) : Except GetThrown (Bool × α) :=
  match InHttp.get S input with
  | .ok t => .ok (true, t)
  | .error (.jsonParseError _) => .ok (false, result)
  | .error err => .error err

variable {S : Serializer α} {input : Input} {t : α}

/-- `get` gives what `getT` does. -/
theorem InHttp.get_of_ok (h : InHttp.getT S input = .ok t) : InHttp.get S input = .ok t := by
  rw [InHttp.get, h]
  rfl

/-- `get` into a value gives what `getT` does. -/
theorem InHttp.getInto_of_ok (h : InHttp.getT S input = .ok t) (old : α) :
    InHttp.getInto S input old = .ok (true, t) := by
  rw [InHttp.getInto, InHttp.get_of_ok h]

/-- `getT` into a value gives it. -/
theorem InHttp.getTInto_of_ok (h : InHttp.getT S input = .ok t) (old : α) :
    InHttp.getTInto S input old = .ok (true, t) := by
  rw [InHttp.getTInto, h]

end

/-! ## Round trips -/

variable {P R} {name : String} {ms : Members} {res x : ms.Val F}

/-- The text of a structure is read back as that structure. -/
theorem fromJson_toJson (hP : P.Blank) (hwf : (Ty.struct name ms).WellFormed) (hres : ms.Blank res)
    (hx : ms.Readable P x)
    (htext : R.parse (toJson R name ms x) = .ok ((Ty.struct name ms).push x)) :
    fromJson P R name ms res (toJson R name ms x) none = .ok (x, none) := by
  obtain ⟨a, errs, _, hm, -, -, hok, ha⟩ :=
    (Ty.struct name ms).reads_pull (P := P) res ((Ty.struct name ms).push x)
  have hax : a = x := ha hP hwf hres x hx rfl
  have hnone : errs Errors.init.place = [] :=
    (hok _).mpr ((Ty.struct name ms).conforms_push hP x hwf hx)
  unfold fromJson parseJsonDocFromString
  rw [htext]
  show ((Ty.struct name ms).pull P res ((Ty.struct name ms).push x) none).mapError _ = _
  rw [hm.silent Errors.init.place, hnone, hax]
  rfl

/-- What is serialized and read again is the same. -/
theorem deserialize_serialize (hP : P.Blank) (hwf : (Ty.struct name ms).WellFormed)
    (hres : ms.Blank res) (hx : ms.Readable P x)
    (htext : R.parse (toJson R name ms x) = .ok ((Ty.struct name ms).push x)) :
    (JSON P R name ms res).deserialize ((JSON P R name ms res).serialize x) = .ok x := by
  show (fromJson P R name ms res (toJson R name ms x) none).map Prod.fst = _
  rw [fromJson_toJson hP hwf hres hx htext]
  rfl

/-- What is read of a body that a serializer has written, by an input that is made of the output. -/
theorem get_of_deserialize {S : Serializer (ms.Val F)}
    (hread : S.deserialize (S.serialize x) = .ok x) (out : Output) (input : Input)
    (old : ms.Val F) {input' : Input}
    (hinput : input' = input.assign (OutHttp.load S out x)
      ∨ input' = InHttp.load input (OutHttp.load S out x).data) :
    (InHttp.getT S input' = .ok x ∧ InHttp.getTInto S input' old = .ok (true, x))
      ∧ InHttp.get S input' = .ok x ∧ InHttp.getInto S input' old = .ok (true, x) := by
  have hget : InHttp.getT S input' = .ok x := by
    rcases hinput with rfl | rfl <;> exact hread
  exact ⟨⟨hget, InHttp.getTInto_of_ok hget old⟩, InHttp.get_of_ok hget,
    InHttp.getInto_of_ok hget old⟩

/-- **A structure that is sent arrives.**  What `load` writes into an output, plain or in base64, is
what both `getT` read from the input that is made of it, by `assign` or by `load`, and both `get` if
it is plain; the memory that it is read into and the value that the caller had do not matter. -/
theorem get_assign_load (hP : P.Blank) (hwf : (Ty.struct name ms).WellFormed) (hres : ms.Blank res)
    (hx : ms.Readable P x)
    (htext : R.parse (toJson R name ms x) = .ok ((Ty.struct name ms).push x))
    (base64Encode base64Decode : String → String)
    (hbase64 : base64Decode (base64Encode (toJson R name ms x)) = toJson R name ms x)
    (out : Output) (input : Input) (old : ms.Val F) :
    let J := JSON P R name ms res
    let B := JSON_B64 P R base64Encode base64Decode name ms res
    ∀ S, S = J ∨ S = B → ∀ input', input' = input.assign (OutHttp.load S out x)
        ∨ input' = InHttp.load input (OutHttp.load S out x).data →
      (InHttp.getT S input' = .ok x ∧ InHttp.getTInto S input' old = .ok (true, x))
        ∧ (S = J → InHttp.get J input' = .ok x ∧ InHttp.getInto J input' old = .ok (true, x)) := by
  intro J B S hS input' hinput
  have hread : S.deserialize (S.serialize x) = .ok x := by
    rcases hS with rfl | rfl
    · exact deserialize_serialize hP hwf hres hx htext
    · show (fromJson P R name ms res (base64Decode (base64Encode (toJson R name ms x))) none).map _
        = _
      rw [hbase64]
      exact deserialize_serialize hP hwf hres hx htext
  have hget := get_of_deserialize hread out input old hinput
  refine ⟨hget.1, fun hJ => ?_⟩
  subst hJ
  exact hget.2

/-- Floating-point numbers that are integers. -/
def wholeFloats : Floats := ⟨ℤ, ℤ, id⟩

/-- What is less among texts and numbers; other values are not compared. -/
def wholeLess : (t : Ty) → t.Val wholeFloats → t.Val wholeFloats → Bool
  | .string, (a : String), (b : String) => decide (a < b)
  | .integer _, a, b => decide (a.1 < b.1)
  | _, _, _ => false

/-- A platform with these numbers. -/
def wholePlatform : Platform wholeFloats where
  getDouble
    | .int z => z
    | .real d => d
  getDouble_real _ := rfl
  castInt k (d : ℤ) := if h : k.Fits d then ⟨d, h⟩ else ⟨0, by cases k <;> decide⟩
  castFloat d := d
  castFloat_widen _ := rfl
  fresh t := t.zero (0 : ℤ) (0 : ℤ)
  localVar t := t.zero (0 : ℤ) (0 : ℤ)
  less := wholeLess

/-- A request with an id, a list of heights, a set of keys and a status. -/
def heightsRequest : Members :=
  .cons "PaymentID" .string (.cons "Heights" (.vector (.integer .int64))
    (.cons "Keys" (.set .string) (.cons "Status" (.enum ⟨false, .bits8⟩) .nil)))

def heightsText : String :=
  "\x7b\"PaymentID\":\"a\",\"Heights\":[5],\"Keys\":[\"k\",\"l\"],\"Status\":2\x7d"

/-- The text in base64. -/
def heightsBase64 : String :=
  "eyJQYXltZW50SUQiOiJhIiwiSGVpZ2h0cyI6WzVdLCJLZXlzIjpbImsiLCJsIl0sIlN0YXR1cyI6Mn0="

/-- A value of the request. -/
def heights : heightsRequest.Val wholeFloats :=
  ("a", [⟨5, by decide⟩], ["k", "l"], ⟨2, by decide⟩, ())

/-- The text of that value. -/
def heightsFormat : TextFormat wholeFloats where
  write _ := heightsText
  parse s :=
    if s = heightsText then .ok ((Ty.struct "Request" heightsRequest).push heights)
    else .error ⟨1, 0⟩

/-- The text of the sample. -/
theorem toJson_heights : toJson heightsFormat "Request" heightsRequest heights = heightsText := by
  decide +kernel

/-- The request is read of the base64 text of an input that is loaded. -/
theorem get_assign_load_heights :
    let B := JSON_B64 wholePlatform heightsFormat (fun _ => heightsBase64) (fun _ => heightsText)
      "Request" heightsRequest (heightsRequest.zero (0 : ℤ) (0 : ℤ))
    InHttp.getT B (InHttp.load {} (OutHttp.load B {} heights).data) = .ok heights := by
  intro B
  have htext : heightsFormat.parse (toJson heightsFormat "Request" heightsRequest heights)
      = .ok ((Ty.struct "Request" heightsRequest).push heights) := by
    rw [toJson_heights]
    simp [heightsFormat]
  refine (get_assign_load (P := wholePlatform)
    (fun t => ⟨t.blank_zero _ _, t.blank_zero _ _⟩) ?_ (heightsRequest.blank_zero _ _)
    ?_ htext (fun _ => heightsBase64) (fun _ => heightsText) ?_ {} {} heights B (.inr rfl) _
    (.inr rfl)).1.1
  · exact ⟨by decide, trivial, trivial, trivial, trivial, trivial⟩
  · have hid : ∀ s ∈ ["a", "k", "l"], cStr s = s := by decide +kernel
    refine ⟨hid "a" (by decide), trivial, ⟨⟨hid "k" (by decide), hid "l" (by decide)⟩, ?_⟩, trivial,
      trivial⟩
    exact List.pairwise_pair.mpr (by decide)
  · rw [toJson_heights]

/-! ## Any body -/

/-- A duplicate in a set was reported. -/
def Errors.hasDuplicate (e : Errors) : Bool := e.list.any JsonDeserializationError.isDuplicate

variable (P res) in
/-- What is read of a document, with errors that collect what is reported and without. -/
theorem fromJson_of_parse {json : String} {doc : Json F} (hdoc : R.parse json = .ok doc) :
    ∃ (t : ms.Val F) (e : Errors), fromJson P R name ms res json (some .init) = .ok (t, some e)
      ∧ fromJson P R name ms res json none
        = (if e.hasDuplicate then .error .nullDereference else .ok (t, none))
      ∧ (e.hasDuplicate → ms.HasSet)
      ∧ (doc.jsonType ≠ .object → e.hasDuplicate = false ∧ t = P.fresh (.struct name ms))
      ∧ ∀ members, doc = .obj members → ms.KeepsMissing members res t := by
  unfold fromJson parseJsonDocFromString
  rw [hdoc]
  cases doc with
  | obj members =>
    obtain ⟨t, errs, next, hm, -, hrecord, -, hmissing, -⟩ := ms.reads_pull (P := P) res members
    have hfind : (errs Errors.init.place).find? (fun err => Errors.init.throwOn err.kind) = none :=
      List.find?_eq_none.mpr fun _ _ => Bool.false_ne_true
    let e : Errors := ⟨errs Errors.init.place, next Errors.init.place, Errors.init.throwOn⟩
    refine ⟨t, e, ?_, ?_, ?_, fun h => absurd rfl h, ?_⟩
    · show (ms.pull P res members (some .init)).mapError _ = _
      rw [hm.outcome, outcome, hfind]
      rfl
    · show (ms.pull P res members none).mapError _ = _
      rw [hm.silent Errors.init.place, silentOutcome, Errors.hasDuplicate]
      cases (errs Errors.init.place).any JsonDeserializationError.isDuplicate <;> rfl
    · intro hdup
      obtain ⟨err, herr, hdup⟩ := List.any_eq_true.mp hdup
      exact (hrecord _ err herr).2 hdup
    · rintro _ ⟨⟩
      exact hmissing
  | _ =>
    refine ⟨_, _, rfl, rfl, fun hdup => ?_, fun _ => ⟨rfl, rfl⟩, fun members h => ?_⟩
    · cases hdup
    · cases h

/-- **What `get` makes of a body.**  It is false just for a text that is no JSON, and then the value
of the caller stays and the other `get` throws a `JsonParseError` with the code and the offset.
JSON is a success unless a `std::set` in it has a duplicate, which `fromJson` with errors reports:
then a null pointer is dereferenced.  A document that is no object makes a `Type()`, and each member
that an object does not have is what was in the memory. -/
theorem getInto_of_body (input : Input) (old : ms.Val F) :
    let S := JSON P R name ms res
    (∀ pr, R.parse input.body = .error pr →
        InHttp.getInto S input old = .ok (false, old)
          ∧ InHttp.get S input = .error (.jsonParseError (.ofParseResult pr)))
      ∧ ∀ doc, R.parse input.body = .ok doc →
        ∃ (t : ms.Val F) (e : Errors),
          fromJson P R name ms res input.body (some .init) = .ok (t, some e)
          ∧ InHttp.getInto S input old
            = (if e.hasDuplicate then .error .nullDereference else .ok (true, t))
          ∧ (e.hasDuplicate → ms.HasSet)
          ∧ (doc.jsonType ≠ .object → e.hasDuplicate = false ∧ t = P.fresh (.struct name ms))
          ∧ ∀ members, doc = .obj members → ms.KeepsMissing members res t := by
  intro S
  refine ⟨fun pr hpr => ?_, fun doc hdoc => ?_⟩
  · have hget : InHttp.get S input = .error (.jsonParseError (.ofParseResult pr)) := by
      show (((parseJsonDocFromString R input.body >>= fun doc => _).map _).mapError _) = _
      unfold parseJsonDocFromString
      rw [hpr]
      rfl
    refine ⟨?_, hget⟩
    rw [InHttp.getInto, hget]
  · obtain ⟨t, e, hcollect, hread, hsets, hrest⟩ := fromJson_of_parse P res hdoc
    refine ⟨t, e, hcollect, ?_, hsets, hrest⟩
    cases hdup : e.hasDuplicate with
    | false =>
      refine InHttp.getInto_of_ok ?_ old
      show (fromJson P R name ms res input.body none).map _ = _
      rw [hread, hdup]
      rfl
    | true =>
      have hget : InHttp.getT S input = .error .nullDereference := by
        show (fromJson P R name ms res input.body none).map _ = _
        rw [hread, hdup]
        rfl
      rw [InHttp.getInto, InHttp.get, hget]
      rfl

example : (Ty.set .string).pull wholePlatform [] (.arr [.str "k", .str "k"]) none
    = .error .nullDereference := rfl

end Reflector
