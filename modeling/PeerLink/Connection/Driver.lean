import PeerLink.Reconnect
import PeerLink.Session

/-! # Drivers

* `ConnectionState`: what is published about a connection.
* `Driver`: the one that keeps a connection up: how far it has come, and how many setbacks there
  have been since the last session.
* `Connector`: the answers to attempts to connect.
-/

namespace PeerLink
set_option autoImplicit false

inductive ConnectionState
  | disconnected
  | connecting
  | connected
  | stopping
deriving DecidableEq

inductive ConnectOutcome
  | ok
  | refuse
  | hang
deriving DecidableEq

/-- The outcomes to come, and how many attempts there have been. When no outcome is left, attempts
succeed. -/
structure Connector where
  outcomes : List ConnectOutcome := []
  attempts : Nat := 0

namespace Connector

def connect (c : Connector) : ConnectOutcome × Connector :=
  (c.outcomes.head?.getD .ok, { outcomes := c.outcomes.tail, attempts := c.attempts + 1 })

end Connector

inductive Phase
  | ready
  | connecting (o : ConnectOutcome)
  /-- A session runs, with a timer that keeps it alive. -/
  | running (keepalive : Option Nat)
  /-- The session is about to be closed. -/
  | closing (why : DisconnectReason)
  /-- Nothing happens before a time. -/
  | waiting (time : Nat)
deriving DecidableEq

structure Driver where
  phase : Phase := .ready
  /-- Setbacks since the last session began, the end of that session included. -/
  setbacks : Nat := 0
deriving DecidableEq

namespace Driver

/-- The most setbacks that are counted. -/
def maxSetbacks : Nat := 2 ^ 32 - 1

/-- One more setback. -/
def countSetback (d : Driver) : Nat := min (d.setbacks + 1) maxSetbacks

end Driver
end PeerLink
