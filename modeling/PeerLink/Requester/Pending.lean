import PeerLink.Message
import PeerLink.Table

/-! # Open requests

* `Stub`: a request that has been sent and whose stream is open. Removing it from the table closes
  the stream, so whoever removes it tells the handler, and nobody else does.
* `PendingTable`: the open requests by number, and the number of the next one.
-/

namespace PeerLink
set_option autoImplicit false

/-- Who hears of what becomes of a request, by name; a request without a name is sent for its
effect. -/
abbrev Handler := Option String

structure Stub where
  rid : Nat
  method : Method
  path : Option String
  handler : Handler
deriving DecidableEq

structure PendingTable where
  nextRid : Nat := 1
  stubs : Table Nat Stub := {}

namespace PendingTable

/-- A number for a new request, which no open one has. -/
def allocate (t : PendingTable) : Nat × PendingTable :=
  let rid := t.stubs.firstFree (t.stubs.size + 1) t.nextRid
  (rid, { t with nextRid := rid + 1 })

def insert (t : PendingTable) (s : Stub) : PendingTable :=
  { t with stubs := t.stubs.insert s.rid s }

def get? (t : PendingTable) (rid : Nat) : Option Stub := t.stubs.get? rid

def remove (t : PendingTable) (rid : Nat) : Option Stub × PendingTable :=
  (t.get? rid, { t with stubs := t.stubs.erase rid })

/-- All open requests in order of their numbers; none is left. -/
def drain (t : PendingTable) : List Stub × PendingTable :=
  ((t.stubs.toSorted (· ≤ ·)).map (·.2), { t with stubs := {} })

def size (t : PendingTable) : Nat := t.stubs.size

end PendingTable
end PeerLink
