import PeerLink.Message

/-! # Outlets

* `Outlet`: the way to the writer of one connection.
* `Outlet.send`, `sendTo`: a message is sent only to a writer that is there.
-/

namespace PeerLink
set_option autoImplicit false

/-- The number of a connection, and whether its writer still takes messages. -/
structure Outlet where
  link : Nat
  isOpen : Bool := true
deriving DecidableEq

structure Outgoing where
  link : Nat
  message : Message

namespace Outlet

/-- A message for the writer; there is none when the writer is gone. -/
def send (o : Outlet) (m : Message) : List Outgoing := if o.isOpen then [⟨o.link, m⟩] else []

def lose (o : Outlet) (link : Nat) : Outlet :=
  if o.link = link then { o with isOpen := false } else o

end Outlet

/-- A message for a connection, if one is bound and its writer is there. -/
def sendTo (o : Option Outlet) (m : Message) : List Outgoing :=
  match o with
  | some o => o.send m
  | none => []

end PeerLink
