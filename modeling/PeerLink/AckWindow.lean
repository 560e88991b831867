import PeerLink.Bell
import PeerLink.Fault

/-! # Credit

Each peer numbers its frames from one, and may run a window ahead of what the other has
acknowledged.

* `AckWindow`: the counters of one peer, and the two bells that its writer listens to.
* `AckWindow.next`: takes the number of the next frame, as long as there is credit.
* `AckWindow.acceptAck`, `AckWindow.acceptFrame`: what the other peer says and sends.
-/

namespace PeerLink
set_option autoImplicit false

/-- What to do with a frame that the other peer had no credit for. -/
inductive ViolationPolicy
  | disconnect
  | ignore
deriving DecidableEq

structure AckWindow where
  window : Nat
  policy : ViolationPolicy := .disconnect
  /-- The number of the next frame to send. -/
  nextSeq : Nat := 1
  peerAck : Nat := 0
  /-- The number of the last frame that came. -/
  received : Nat := 0
  /-- The highest number that was acknowledged to the other peer. -/
  acked : Nat := 0
  /-- Rings when credit comes. -/
  credit : Bell := {}
  /-- Rings when enough frames have come that an acknowledgement is due. -/
  ackDue : Bell := {}
deriving DecidableEq

namespace AckWindow

/-- A window of at least one frame. -/
def ofSize (window : Nat) (policy : ViolationPolicy) : AckWindow :=
  { window := max window 1, policy }

def maxSeq : Nat := 2 ^ 32 - 1

/-- The highest number that may be sent now. -/
def sendLimit (w : AckWindow) : Nat := min (w.peerAck + w.window) maxSeq

def receiveLimit (w : AckWindow) : Nat := min (w.acked + w.window) maxSeq

def lastSent (w : AckWindow) : Nat := w.nextSeq - 1

/-- Frames sent that are not yet acknowledged. -/
def inFlight (w : AckWindow) : Nat := w.lastSent - w.peerAck

/-- Whether frames have come since the last acknowledgement. -/
def ackPending (w : AckWindow) : Bool := w.acked < w.received

/-- Frames that came and are not yet acknowledged, as a number of 32 bits. -/
def unacked (w : AckWindow) : Nat := (w.received + 2 ^ 32 - w.acked) % 2 ^ 32

/-- How many such frames make an acknowledgement due. -/
def dueAfter (w : AckWindow) : Nat := max (w.window / 2) 1

/-- The number of the next frame, if there is credit for it. -/
def next (w : AckWindow) : Option Nat × AckWindow :=
  if w.sendLimit < w.nextSeq then (none, w)
  else (some w.nextSeq, { w with nextSeq := w.nextSeq + 1 })

/-- At most `fuel` numbers, as long as there is credit. -/
def takeFor : Nat → AckWindow → List Nat × AckWindow
  | 0, w => ([], w)
  | fuel + 1, w =>
    match w.next with
    | (none, _) => ([], w)
    | (some n, w) =>
      let (ns, w) := takeFor fuel w
      (n :: ns, w)

def takeAll (w : AckWindow) : List Nat × AckWindow := takeFor (w.sendLimit + 1 - w.nextSeq) w

/-- One attempt of a waiting taker: a kept ring of the credit bell is used up in any case. -/
def acquire (w : AckWindow) : Option Nat × AckWindow :=
  { w with credit := w.credit.take.2 }.next

def acceptAck (w : AckWindow) (ack : Nat) : Except FrameError Unit × AckWindow :=
  if ack < w.peerAck then (.error (.ackViolation (.backwards w.peerAck ack)), w)
  else if w.lastSent < ack then (.error (.ackViolation (.unsent ack w.lastSent)), w)
  else if w.peerAck < ack then (.ok (), { w with peerAck := ack, credit := w.credit.ring })
  else (.ok (), w)

def acceptFrame (w : AckWindow) (seq : Nat) : Except FrameError Unit × AckWindow :=
  if seq ≠ w.received + 1 then (.error (.sequenceGap (w.received + 1) seq), w)
  else if w.receiveLimit < seq ∧ w.policy = .disconnect then
    (.error (.windowViolation seq w.receiveLimit), w)
  else
    let w := { w with received := seq }
    (.ok (), if w.dueAfter ≤ w.unacked then { w with ackDue := w.ackDue.ring } else w)

def noteAck (w : AckWindow) (ack : Nat) : AckWindow := { w with acked := max w.acked ack }

end AckWindow
end PeerLink
