import PeerLink.Framing

/-! # Joined framers

* `Joined`: two ends of a link, and the bytes that each has written and the other has not been
  given.
* `Joined.write`, `Joined.deliver`: bytes enter and leave the pipes in order, any number at a time.
-/

namespace PeerLink
set_option autoImplicit false

inductive Side
  | a
  | b
deriving DecidableEq

def Side.other : Side → Side
  | a => b
  | b => a

structure Joined where
  a : Framer
  b : Framer
  /-- Bytes on their way to `b`. -/
  fromA : Bytes := []
  /-- Bytes on their way to `a`. -/
  fromB : Bytes := []

namespace Joined

def get (j : Joined) : Side → Framer
  | .a => j.a
  | .b => j.b

def set (j : Joined) (f : Framer) : Side → Joined
  | .a => { j with a := f }
  | .b => { j with b := f }

/-- Bytes that a side has written and the other has not been given. -/
def sentBy (j : Joined) : Side → Bytes
  | .a => j.fromA
  | .b => j.fromB

def setSent (j : Joined) (bs : Bytes) : Side → Joined
  | .a => { j with fromA := bs }
  | .b => { j with fromB := bs }

/-- One side acts and writes bytes into its pipe. -/
def act (j : Joined) (s : Side) (r : Bytes × Framer) : Bytes × Joined :=
  (r.1, (j.set r.2 s).setSent (j.sentBy s ++ r.1) s)

def pump (j : Joined) (s : Side) : Bytes × Joined := j.act s (j.get s).pump

/-- A message waits behind the others, and the side writes all that it can. -/
def write (j : Joined) (s : Side) (m : Message) : Bytes × Joined :=
  j.act s ((j.get s).push m).pump

def pendingAck (j : Joined) (s : Side) : Bytes × Joined := j.act s (j.get s).pendingAck

/-- At most `n` bytes of the other side reach a decoder; answers with their number. -/
def deliver (j : Joined) (s : Side) (n : Nat) : Nat × Joined :=
  let there := j.sentBy s.other
  let moved := there.take n
  (moved.length, (j.set ((j.get s).feed moved) s).setSent (there.drop n) s.other)

end Joined
end PeerLink
