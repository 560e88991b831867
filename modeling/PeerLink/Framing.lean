import PeerLink.Config
import PeerLink.Framing.Writer

/-! # Framing

* `Framer`: one end of a link, with its messages as lines or as binary frames.
* `Framer.next`: the next message that came.
* `Framer.pump`: the bytes of all messages that can be written now.
-/

namespace PeerLink
set_option autoImplicit false

/-- How the bytes of a link are read. -/
inductive Wire
  | text (d : LineDecoder)
  | binary (b : BinaryEnd)

structure Framer where
  wire : Wire
  writer : Writer := {}

namespace Framer

def ofConfig (c : LinkConfig) (codec : BodyCodec := .json) : Framer :=
  match c.protocol with
  | .v1 => { wire := .text { maxLine := c.maxLine } }
  | .v2 =>
    { wire := .binary
        { codec, maxBody := c.maxFrameSize
          window := AckWindow.ofSize c.ackWindow c.windowViolation } }

def feed (f : Framer) (bs : Bytes) : Framer :=
  match f.wire with
  | .text d => { f with wire := .text (d.feed bs) }
  | .binary b => { f with wire := .binary (b.feed bs) }

def next (f : Framer) : Decoding × Framer :=
  match f.wire with
  | .text d =>
    let (r, d) := d.next
    (r, { f with wire := .text d })
  | .binary b =>
    let (r, b) := b.next
    (r, { f with wire := .binary b })

/-- How many bytes have come and not been read. -/
def buffered (f : Framer) : Nat :=
  match f.wire with
  | .text d => d.buffer.length
  | .binary b => b.buffer.length

/-- Decodes all that can be had; each message takes at least one byte. -/
def drain (f : Framer) : List Decoding × Framer := Decoding.drainFor next (f.buffered + 1) f

/-- Puts a message behind those that wait to be written. -/
def push (f : Framer) (m : Message) : Framer := { f with writer := f.writer.push m }

/-- Writes all that can be written; lines need no credit. -/
def pump (f : Framer) : Bytes × Framer :=
  match f.wire with
  | .text _ => (f.writer.queue.flatMap Message.line, { f with writer := {} })
  | .binary b =>
    let (bytes, writer, b) := f.writer.pump b
    (bytes, { wire := .binary b, writer })

def isIdle (f : Framer) : Bool := f.writer.isIdle

/-- The other end of binary frames; lines have none. -/
def binary? (f : Framer) : Option BinaryEnd :=
  match f.wire with
  | .text _ => none
  | .binary b => some b

def onBinary (f : Framer) (act : BinaryEnd → Bytes × BinaryEnd) : Bytes × Framer :=
  match f.wire with
  | .text _ => ([], f)
  | .binary b =>
    let (bytes, b) := act b
    (bytes, { f with wire := .binary b })

/-- The bytes of an acknowledgement, if frames have come since the last one. -/
def pendingAck (f : Framer) : Bytes × Framer := f.onBinary BinaryEnd.pendingAck

/-- Takes the kept ring of the bell for acknowledgements. -/
def takeAckDue (f : Framer) : Bool × Framer :=
  match f.wire with
  | .text _ => (false, f)
  | .binary b =>
    let (due, ackDue) := b.window.ackDue.take
    (due, { f with wire := .binary { b with window := { b.window with ackDue } } })

end Framer
end PeerLink
