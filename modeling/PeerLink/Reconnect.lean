import PeerLink.Number.Power

/-! # Trying again

* `Backoff`: how long to wait before the next attempt; the delay doubles from one to the next, up to
  a bound.
* `ReconnectPolicy`: a back-off, or never to try again.
-/

namespace PeerLink
set_option autoImplicit false

/-- Delays are in milliseconds; zero attempts means any number. -/
structure Backoff where
  initial : Nat
  max : Nat
  maxAttempts : Nat
deriving DecidableEq

namespace Backoff

/-- The greatest delay: the bound, or the first delay if that is greater. -/
def limit (b : Backoff) : Nat := Nat.max b.max b.initial

/-- How often the delay may double. -/
def maxDoublings : Nat := 31

def doublings (attempt : Nat) : Nat := min (attempt - 1) maxDoublings

/-- The delay before an attempt, counted from one, or nothing to give up. -/
def delay? (b : Backoff) (attempt : Nat) : Option Nat :=
  if b.maxAttempts ≠ 0 ∧ b.maxAttempts < attempt then none
  else some (min (b.initial * 2 ^ doublings attempt) b.limit)

end Backoff

inductive ReconnectPolicy
  | never
  | backoff (b : Backoff)
deriving DecidableEq

def ReconnectPolicy.delay? : ReconnectPolicy → Nat → Option Nat
  | never, _ => none
  | backoff b, attempt => b.delay? attempt

end PeerLink
