/-
# The rule file

`BlackListImpl::readRules` (`blacklist.cpp`): the lines of a file, with their comments, become
entries of the table.  The regular expressions of the source are functions here, on lists of
characters:

* `removeComment`, `trim`: the text that is left of a line, where `.` stands for no `\r`;
* `matchRule`: the groups of a rule, `allow` or `deny`, and `all` or an address with a mask length.

A line that is not a rule ends the reading with an error, and a rule after the one for all addresses
ends it with a warning.  A rule whose address already has an entry is dropped.
-/
import GraftSupernode.BlackList
import Mathlib.Data.List.DropRight

namespace RuleFile

/-- `\s` -/
def isSpace (c : Char) : Bool := c = ' ' || ('\t' ≤ c && c ≤ '\r')

/-- `.*`, on a line. -/
def isDots (s : List Char) : Bool := !s.contains '\r'

/-- The line without the end that `(\r)?$` matches. -/
def dropReturn (s : List Char) : List Char :=
  if s.getLast? = some '\r' then s.dropLast else s

/-- What is before the first `;;`, and what is after it. -/
def splitComment : List Char → Option (List Char × List Char)
  | ';' :: ';' :: rest => some ([], rest)
  | c :: s => (splitComment s).map fun x => (c :: x.1, x.2)
  | [] => none

/-- `^\s*(.*?);;.*(\r)?$`, replaced by its group. -/
def removeComment (s : List Char) : List Char :=
  match splitComment (s.dropWhile isSpace) with
  | none => s
  | some (group, comment) => if isDots group && isDots (dropReturn comment) then group else s

/-- `^\s*(.*?)\s*(\r)?$`, replaced by its group. -/
def trim (s : List Char) : List Char :=
  let group := (s.dropWhile isSpace).rdropWhile isSpace
  if isDots group then group else s

/-- `\d{1,n}` -/
def isNumber (n : ℕ) (s : List Char) : Bool :=
  1 ≤ s.length && s.length ≤ n && s.all Char.isDigit

/-- `\d{1,3}\.\d{1,3}\.\d{1,3}\.\d{1,3}` -/
def isQuad (s : List Char) : Bool :=
  (s.splitOn '.').length = 4 && (s.splitOn '.').all (isNumber 3)

/-- `allow|deny` -/
def matchKeyword (s : List Char) : Option (Bool × List Char) :=
  if "allow".toList.isPrefixOf s then some (true, s.drop 5)
  else if "deny".toList.isPrefixOf s then some (false, s.drop 4)
  else none

/-- The groups of a rule: whether it allows, and for a rule that is not for `all`, the address and
the mask length. -/
def matchRule (s : List Char) : Option (Bool × Option (List Char × Option (List Char))) :=
  match matchKeyword s with
  | none => none
  | some (allow, s) =>
    if !(s.head?.any isSpace) then none
    else
      let s := s.dropWhile isSpace
      if s = "all".toList then some (allow, none)
      else
        let ip := s.takeWhile (· ≠ '/')
        if !isQuad ip then none
        else
          match s.dropWhile (· ≠ '/') with
          | [] => some (allow, some (ip, none))
          | _ :: mask => if isNumber 2 mask then some (allow, some (ip, some mask)) else none

/-- The number that some digits stand for. -/
def ofDigits (base : ℕ) (s : List Char) : ℕ :=
  s.foldl (fun n c => n * base + (c.toNat - '0'.toNat)) 0

/-- A part of an address: `strtoul`, which takes the digits after a zero for octal ones. -/
def octet (s : List Char) : Option ℕ :=
  let n := match s with
    | '0' :: c :: s => if (c :: s).all (· < '8') then some (ofDigits 8 (c :: s)) else none
    | s => some (ofDigits 10 s)
  n.filter (· ≤ 255)

/-- `inet_aton` of an address with four parts, in the byte order of the network. -/
def inetAton (ip : List Char) : Option (BitVec 32) :=
  ((ip.splitOn '.').mapM octet).map fun parts =>
    ntohl (parts.foldl (fun a n => a <<< 8 ||| BitVec.ofNat 32 n) 0#32)

/-- The mask of a prefix; `1 << 31` wraps around. -/
def mask (len : ℕ) : BitVec 32 :=
  if len < 32 then ~~~((1#32 <<< (32 - len)) - 1#32) else -1#32

/-- The mask length of a rule. -/
def maskLength (digits : Option (List Char)) : ℕ :=
  match digits with
  | none => 32
  | some digits => ofDigits 10 digits

end RuleFile

namespace BlackList

open RuleFile

def warn (bl : BlackList) (text : String) : BlackList := { bl with warns := bl.warns ++ text }

/-- `BlackListImpl::addRule` -/
def addRule (bl : BlackList) (allow : Bool) (ip : List Char) (len line : ℕ) :
    Option (Except String Unit × BlackList) :=
  match inetAton ip with
  | none => some (.error "invalid address error; addRule", bl.warn
      ("error: invalid address " ++ String.ofList ip ++ " at line " ++ toString line ++ "\n"))
  | some addr =>
    let addr := ntohl addr &&& mask len
    if (bl.find addr false).1 then some (.ok (), bl.warn
      ("warning: the rule at line " ++ toString line ++ " is superceded by one of previous rule\n"))
    else (bl.table.insert (⟨addr, len⟩, allow)).map fun t => (.ok (), { bl with table := t })

/-- The loop of `BlackListImpl::readRules`: how it ends, or that it is undefined.  The text is all
there, so that reading a line does not fail. -/
def readLines (bl : BlackList) (terminatorFound : Bool) (line : ℕ) :
    List (List Char) → Option (Except String Unit × BlackList)
  | [] => some (.ok (), bl)
  | s :: lines =>
    let s := trim (removeComment s)
    if s.isEmpty then readLines bl terminatorFound (line + 1) lines
    else if terminatorFound then some (.ok (), bl.warn
      ("warning: all rules are superseded starting from line " ++ toString line ++ "\n"))
    else
      match matchRule s with
      | none => some (.error "invalid rule", bl.warn
          ("error: invalid rule format '" ++ String.ofList s ++ "' at line " ++ toString line ++ "\n"))
      | some (allow, none) => readLines { bl with defaultAllow := allow } true (line + 1) lines
      | some (allow, some (ip, digits)) =>
        let prefixLen := maskLength digits
        if prefixLen = 0 || 32 < prefixLen then some (.error "invalid mask", bl.warn
          ("error: invalid mask length " ++ toString prefixLen ++ " at line " ++ toString line
            ++ "\n"))
        else
          match bl.addRule allow ip prefixLen line with
          | some (.ok (), bl) => readLines bl false (line + 1) lines
          | r => r

/-- `BlackListImpl::readRules`; the warnings of an earlier file stay. -/
def readRules (bl : BlackList) (text : List Char) : Option (Except String Unit × BlackList) :=
  readLines { bl with table := .nil } false 1 (text.splitOn '\n')

end BlackList
