/-! # Bells

* `Bell`: tells one listener that something happened. Without a listener it keeps one ring, however
  often it is rung.
* `Bell.ring`, `Bell.listen`, `Bell.leave`: what the two sides do.
-/

namespace PeerLink
set_option autoImplicit false

/-- Whether somebody waits at a bell, and whether the bell has called them. -/
inductive Listener
  | absent
  | waiting
  | called
deriving DecidableEq

structure Bell where
  kept : Bool := false
  listener : Listener := .absent
deriving DecidableEq

namespace Bell

/-- Calls the one who waits; without one the ring is kept. -/
def ring (b : Bell) : Bell :=
  match b.listener with
  | .waiting => { b with listener := .called }
  | _ => { b with kept := true }

/-- Whether the listener may go on; they take a call or a kept ring with them, or begin to wait. -/
def listen (b : Bell) : Bool × Bell :=
  match b.listener with
  | .called => (true, { b with listener := .absent })
  | .waiting => (false, b)
  | .absent => if b.kept then (true, { b with kept := false }) else (false, ⟨false, .waiting⟩)

/-- Goes away; a call that was not answered is kept. -/
def leave (b : Bell) : Bell :=
  match b.listener with
  | .called => ⟨true, .absent⟩
  | _ => { b with listener := .absent }

def take (b : Bell) : Bool × Bell := (b.kept, { b with kept := false })

/-- Whether a listener who stands here may go on. -/
def isCalled (b : Bell) : Bool := b.listener == .called

end Bell
end PeerLink
