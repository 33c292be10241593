/-
# Requests and responses

`InHttp` and `OutHttp` (`inout.h`): what a handler reads, and what it writes.  Both have the
fields of an HTTP message; `assign` makes an input of an output.
-/
import Mathlib.Data.Int.Notation
import Mathlib.Data.Nat.Notation

/-- `InOutHttpBase`: the fields of an HTTP message. -/
structure InOutHttpBase where
  host : String := ""
  body : String := ""
  method : String := ""
  uri : String := ""
  proto : String := ""
  respCode : ℤ := 0
  respStatusMsg : String := ""
  queryString : String := ""
  headers : List (String × String) := []
  extraHeaders : String := ""

/-- `InHttp` -/
structure Input extends InOutHttpBase where
  port : ℕ := 0

/-- `OutHttp` -/
structure Output extends InOutHttpBase where
  port : String := ""
  path : String := ""

/-- `InHttp::assign`: the port is the input's own. -/
def Input.assign (input : Input) (out : Output) : Input :=
  { input with toInOutHttpBase := out.toInOutHttpBase }

/-- `OutHttp::data` -/
def Output.data (out : Output) : String := out.body
