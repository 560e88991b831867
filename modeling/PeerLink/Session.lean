import PeerLink.Framing

/-! # Sessions

* `Session`: a reader and a writer on one pipe. Each of them ends on its own and says why.
* `Session.next`: what the reader decodes next; `Session.write`: what the writer can write now.
* `Session.expire`: a reader that has waited too long ends.
-/

namespace PeerLink
set_option autoImplicit false

inductive DisconnectReason
  | peerClosed
  | readTimeout
  | transport (e : SessionError)
  | protocol (e : FrameError)
  | stopped
deriving DecidableEq

def DisconnectReason.message : DisconnectReason → String
  | peerClosed => "peer closed the connection"
  | readTimeout => "no data received within the read timeout"
  | transport e => "transport error: " ++ e.message
  | protocol e => "protocol error: " ++ e.message
  | stopped => "stopped locally"

structure Session where
  link : Nat
  framer : Framer
  /-- How long the reader waits for bytes, in milliseconds. -/
  patience : Option Nat := none
  /-- When the reader will have waited too long. -/
  deadline : Option Nat := none
  reads : Bool := true
  writes : Bool := true
  /-- Whether there is somebody at the other end of the pipe. -/
  hasPeer : Bool := true
  reasons : List DisconnectReason := []

namespace Session

def millis (seconds : Nat) : Nat := 1000 * seconds

/-- A session that begins at a time. -/
def begin (link : Nat) (c : LinkConfig) (now : Nat) : Session :=
  let patience := c.readTimeout?.map millis
  { link, framer := .ofConfig c, patience, deadline := patience.map (now + ·) }

/-! ## The reader -/

def chunkSize : Nat := 8192

/-- Takes bytes that came; the reader waits anew for those after them. -/
def feed (s : Session) (now : Nat) (bs : Bytes) : Session :=
  { s with framer := s.framer.feed bs, deadline := s.patience.map (now + ·) }

def next (s : Session) : Decoding × Session :=
  let (r, framer) := s.framer.next
  (r, { s with framer })

def endReader (s : Session) (why : DisconnectReason) : Session :=
  if s.reads then { s with reads := false, reasons := s.reasons ++ [why] } else s

/-- The other end of the pipe is closed. -/
def hangUp (s : Session) : Session := { s with hasPeer := false }.endReader .peerClosed

/-- Ends a reader whose time is over. -/
def expire (s : Session) (now : Nat) : Session :=
  if s.deadline.any (· ≤ now) then s.endReader .readTimeout else s

/-! ## The writer -/

/-- Puts a message behind those that wait to be written. -/
def push (s : Session) (m : Message) : Session :=
  if s.writes then { s with framer := s.framer.push m } else s

/-- The bytes of all that can be written: messages first, and an acknowledgement that is due when
none is left. -/
def produce (f : Framer) : Bytes × Framer :=
  let (written, f) := f.pump
  if f.isIdle then
    let (due, f) := f.takeAckDue
    if due then
      let (ack, f) := f.pendingAck
      (written ++ ack, f)
    else (written, f)
  else (written, f)

def endWriter (s : Session) : Session :=
  { s with writes := false, reasons := s.reasons ++ [.transport (.transport .brokenPipe)] }

def write (s : Session) : Bytes × Session :=
  if s.writes then
    let (bytes, framer) := produce s.framer
    if bytes.isEmpty then ([], { s with framer })
    else if s.hasPeer then (bytes, { s with framer })
    else ([], s.endWriter)
  else ([], s)

/-- The reasons that have not been taken, and the session without them. -/
def takeReasons (s : Session) : List DisconnectReason × Session :=
  (s.reasons, { s with reasons := [] })

end Session
end PeerLink
