/-
# The blacklist

`BlackListImpl` (`blacklist.cpp`): the radix table of the rules and of the running bans, and the
windows in which the requests of an address are counted.

* `IpMap.inc`: a request of an address, and whether there were too many in its window;
* `find`, `addEntry`, `removeEntry`: the table; a call that the radix tree leaves undefined is
  `none`;
* `processIp`: what is done for each connection.

Times are nanoseconds of `steady_clock`; a function that reads the clock is given the time.  The
counts of `IpMap` are of type `int`.
-/
import GraftSupernode.RadixTree
import Mathlib.Data.Int.Order.Basic
import Mathlib.Order.Basic

/-- The byte order of the network, on a machine with the lowest byte first; `ntohl` and `htonl`. -/
def ntohl (a : BitVec 32) : BitVec 32 :=
  (a.extractLsb' 0 8 ++ a.extractLsb' 8 8 ++ a.extractLsb' 16 8 ++ a.extractLsb' 24 8).setWidth 32

/-- `std::chrono::seconds` -/
def seconds (n : ℤ) : ℤ := n * 1000000000

/-- What an `int` holds of a value: it wraps around, as compiled.  Where it is the result of `int`
arithmetic that does not fit, the language leaves it undefined (`IpMap.Overflows`). -/
def narrow (x : ℤ) : ℤ := x.bmod (2 ^ 32)

/-- `Window` -/
structure Window where
  tpStart : ℤ
  count : ℤ := 1

/-- `IpMap`; the map is a list in the order of the addresses. -/
structure IpMap where
  requestsPerSec : ℤ
  wndSizeSec : ℤ
  ipwnd : List (BitVec 32 × Window) := []

namespace IpMap

/-- `std::map::emplace` of an address that is not there, or a new window for one that is. -/
def set (addr : BitVec 32) (wnd : Window) : List (BitVec 32 × Window) → List (BitVec 32 × Window)
  | [] => [(addr, wnd)]
  | e :: l =>
    if addr < e.1 then (addr, wnd) :: e :: l
    else if addr = e.1 then (addr, wnd) :: l
    else e :: set addr wnd l

/-- `IpMap::removeItAndNeighbor` -/
def removeItAndNeighbor (m : IpMap) (addr : BitVec 32) (triggered : Bool) (now : ℤ) : IpMap :=
  let ipwnd := if triggered then m.ipwnd.filter fun e => e.1 ≠ addr else m.ipwnd
  match (ipwnd.find? fun e => addr < e.1).or ipwnd.head? with
  | none => { m with ipwnd := ipwnd }
  | some neighbor =>
    if neighbor.2.tpStart + seconds m.wndSizeSec + seconds m.wndSizeSec ≤ now then
      { m with ipwnd := ipwnd.filter fun e => e.1 ≠ neighbor.1 }
    else { m with ipwnd := ipwnd }

/-- One more request in the window, and whether there are too many. -/
def countRequest (m : IpMap) (wnd : Window) : Window × Bool :=
  ({ wnd with count := narrow (wnd.count + 1) },
    narrow (m.wndSizeSec * m.requestsPerSec) < narrow (wnd.count + 1))

/-- The window of an address that has one, after a request. -/
def nextWindow (m : IpMap) (wnd : Window) (now : ℤ) : Window × Bool :=
  let tpEnd := wnd.tpStart + seconds m.wndSizeSec
  if tpEnd + seconds m.wndSizeSec < now then (⟨now, 1⟩, false)
  else if tpEnd + seconds 1 < now then
    let secs := (now - tpEnd) / seconds 1
    -- a product of 64 bits, and the difference is stored in the `int` again
    let count := narrow (wnd.count - secs * m.requestsPerSec)
    if count ≤ 0 then (⟨now, 1⟩, false)
    else m.countRequest ⟨wnd.tpStart + seconds secs, count⟩
  else m.countRequest wnd

/-- `IpMap::inc`; `true` if triggered. -/
def inc (m : IpMap) (addr : BitVec 32) (now : ℤ) : Bool × IpMap :=
  let (wnd, triggered) := match m.ipwnd.find? fun e => e.1 = addr with
    | some (_, wnd) => m.nextWindow wnd now
    | none => (⟨now, 1⟩, false)
  (triggered, { m with ipwnd := set addr wnd m.ipwnd }.removeItAndNeighbor addr triggered now)

end IpMap

/-- `BlackListImpl` -/
structure BlackList where
  table : RadixTree Bool
  defaultAllow : Bool
  warns : String
  banEnabled : Bool
  ipmap : IpMap
  banTimeout : ℤ
  bannedIPs : List (ℤ × BitVec 32)

namespace BlackList

/-- `BlackList::Create` -/
def create (requestsPerSec windowSizeSec banIpSec : ℤ) : BlackList where
  table := .nil
  defaultAllow := true
  warns := ""
  banEnabled := requestsPerSec ≠ 0
  ipmap := { requestsPerSec, wndSizeSec := windowSizeSec }
  banTimeout := seconds banIpSec
  bannedIPs := []

/-- An address in host order. -/
def hostOrder (addr : BitVec 32) (networkOrder : Bool) : BitVec 32 :=
  if networkOrder then ntohl addr else addr

/-- `BlackListImpl::find`: whether there is an entry, and whether the address is allowed. -/
def find (bl : BlackList) (addr : BitVec 32) (networkOrder : Bool) : Bool × Bool :=
  match bl.table.longestMatch ⟨hostOrder addr networkOrder, 32⟩ with
  | none => (false, bl.defaultAllow)
  | some x => (true, x.2)

/-- `BlackListImpl::addEntry` -/
def addEntry (bl : BlackList) (addr : BitVec 32) (networkOrder allow : Bool) (len : ℕ) :
    Option BlackList :=
  (bl.table.insert (⟨hostOrder addr networkOrder, len⟩, allow)).map fun t => { bl with table := t }

/-- `BlackListImpl::removeEntry` -/
def removeEntry (bl : BlackList) (addr : BitVec 32) (networkOrder : Bool) : BlackList :=
  { bl with table := bl.table.erase ⟨hostOrder addr networkOrder, 32⟩ }

/-- The loop of `BlackListImpl::unban`. -/
def unbanLoop (now : ℤ) : List (ℤ × BitVec 32) → BlackList → BlackList
  | [], bl => { bl with bannedIPs := [] }
  | item :: items, bl =>
    if now < item.1 then { bl with bannedIPs := item :: items }
    else unbanLoop now items (bl.removeEntry item.2 false)

/-- `BlackListImpl::unban` -/
def unban (bl : BlackList) (now : ℤ) : BlackList := unbanLoop now bl.bannedIPs bl

/-- `BlackListImpl::ban` -/
def ban (bl : BlackList) (addr : BitVec 32) (now : ℤ) : Option BlackList :=
  (bl.addEntry addr false false 32).map fun bl =>
    if bl.banTimeout = 0 then bl
    else { bl with bannedIPs := bl.bannedIPs ++ [(now + bl.banTimeout, addr)] }

/-- The three times that a call of `processIp` reads the clock, in `unban`, `inc` and `ban`. -/
structure Clock where
  unban : ℤ
  inc : ℤ
  ban : ℤ

/-- `BlackListImpl::processIp`: whether the address may connect. -/
def processIp (bl : BlackList) (addr : BitVec 32) (networkOrder : Bool) (clock : Clock) :
    Option (Bool × BlackList) :=
  let bl := if bl.banEnabled && bl.banTimeout ≠ 0 then bl.unban clock.unban else bl
  let addr := hostOrder addr networkOrder
  if !(bl.find addr false).2 then some (false, bl)
  else if !bl.banEnabled then some (true, bl)
  else
    let (triggered, ipmap) := bl.ipmap.inc addr clock.inc
    let bl := { bl with ipmap := ipmap }
    if triggered then (bl.ban addr clock.ban).map fun bl => (false, bl)
    else some (true, bl)

/-- `BlackListTest::active` -/
def active (bl : BlackList) (addr : BitVec 32) (now : ℤ) : Bool × BlackList :=
  let (triggered, ipmap) := bl.ipmap.inc addr now
  (triggered, { bl with ipmap := ipmap })

end BlackList
