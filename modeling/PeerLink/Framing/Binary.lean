import PeerLink.AckWindow
import PeerLink.Frame.Layout
import PeerLink.Framing.Body
import PeerLink.Line

/-! # The binary end of a link

* `BinaryEnd`: one end of a link of binary frames. The reading and the writing side share the
  window: what comes grants credit, and what goes carries the acknowledgement.
* `BinaryEnd.next`: the next message that came.
* `BinaryEnd.stamp`: numbers a frame and turns it into bytes.
* `BinaryEnd.begin`: the frames of a message. A stream that is closed here is noted, and what is
  still on the way of its response is dropped.
-/

namespace PeerLink
set_option autoImplicit false

structure BinaryEnd where
  codec : BodyCodec := .json
  maxBody : Nat
  window : AckWindow
  buffer : Bytes := []
  reassembler : Reassembler := {}
  /-- Streams closed here since the last frame came. -/
  closed : List Nat := []

namespace BinaryEnd

def feed (b : BinaryEnd) (bs : Bytes) : BinaryEnd := { b with buffer := b.buffer ++ bs }

/-! ## Reading -/

/-- Takes the acknowledgement and the number of a frame. -/
def account (b : BinaryEnd) (f : Frame) : Except FrameError Unit × BinaryEnd :=
  match b.window.acceptAck f.ack with
  | (.error e, w) => (.error e, { b with window := w })
  | (.ok (), w) =>
    let b := { b with window := w }
    if f.type.consumesCredit then
      match f.headers.seq with
      | none => (.error (.codec .noSequence), b)
      | some seq =>
        let (r, w) := b.window.acceptFrame seq
        (r, { b with window := w })
    else (.ok (), b)

/-- Abandons the responses of all streams that were closed here. -/
def abandonClosed (b : BinaryEnd) : BinaryEnd :=
  { b with
    reassembler := b.closed.foldl (fun r rid => r.abandon ⟨false, rid⟩) b.reassembler
    closed := [] }

/-- What a frame that was accounted for brings, if it brings anything by itself. -/
def deliver (b : BinaryEnd) (f : Frame) : Option (Except FrameError Inbound) × BinaryEnd :=
  let b := b.abandonClosed
  match f.type with
  | .ack => (none, b)
  | .ping => (some (.ok (.message .ping)), b)
  | .unknown code => (some (.error (.unknownType code)), b)
  | type =>
    let r :=
      if type = .request .close then b.reassembler.discard ⟨true, f.rid⟩ else b.reassembler
    match r.push f with
    | (.error e, r) => (some (.error e), { b with reassembler := r })
    | (.ok none, r) => (none, { b with reassembler := r })
    | (.ok (some whole), r) => (some (Inbound.ofFrame b.codec whole), { b with reassembler := r })

def accept (b : BinaryEnd) (f : Frame) : Option (Except FrameError Inbound) × BinaryEnd :=
  match b.account f with
  | (.error e, b) => (some (.error e), b)
  | (.ok (), b) => b.deliver f

/-- Reads frames until one brings something, at most `fuel` of them. -/
def nextFrom : Nat → BinaryEnd → Decoding × BinaryEnd
  | 0, b => (.ok none, b)
  | fuel + 1, b =>
    match Frame.decode b.maxBody b.buffer with
    | .error e => (.error e, b)
    | .ok none => (.ok none, b)
    | .ok (some (f, rest)) =>
      match { b with buffer := rest }.accept f with
      | (none, b) => nextFrom fuel b
      | (some r, b) => (r.map some, b)

def next (b : BinaryEnd) : Decoding × BinaryEnd := nextFrom (b.buffer.length + 1) b

/-! ## Writing -/

/-- The bytes of a frame with its number and the acknowledgement of all that came. -/
def stamp (b : BinaryEnd) (f : Frame) (seq : Option Nat) : Bytes × BinaryEnd :=
  let ack := b.window.received
  ({ f with ack, headers := { f.headers with seq } }.encode,
    { b with window := b.window.noteAck ack })

def ackFrame (b : BinaryEnd) : Bytes × BinaryEnd := b.stamp { type := .ack, rid := 0 } none

/-- An acknowledgement, if frames have come since the last one. -/
def pendingAck (b : BinaryEnd) : Bytes × BinaryEnd :=
  if b.window.ackPending then b.ackFrame else ([], b)

/-- The frames of a message that is about to be written. -/
def begin (b : BinaryEnd) (m : Message) : List Frame × BinaryEnd :=
  let b :=
    match m with
    | .request r => if r.method = .close then { b with closed := b.closed ++ [r.rid] } else b
    | _ => b
  (m.frames b.codec b.maxBody, b)

end BinaryEnd
end PeerLink
