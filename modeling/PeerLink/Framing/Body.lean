import PeerLink.Envelope
import PeerLink.Multipart

/-! # Messages in frames

Number, method, path, permission and stream state of a message stand in the headers of its frame,
the rest in its body.

* `BodyCodec`: how a body is laid out in bytes; `BodyCodec.json` is the common one.
* `Message.frames`: the frames of a message, not yet numbered.
* `Inbound.ofFrame`: the message of a whole frame.
-/

namespace PeerLink
set_option autoImplicit false

open Json (Value)

structure BodyCodec where
  encode : Value → Bytes
  decode : Bytes → Except FrameError Value

/-- JSON without blanks. -/
def BodyCodec.json : BodyCodec where
  encode v := v.bytes
  decode bs :=
    match Value.parse? bs with
    | some v => .ok v
    | none => .error .malformed

/-! ## Writing -/

/-- The quality that all entries of a batch ask for, unless it is zero. -/
def sharedQos (paths : List SubscribePath) : Option Nat :=
  match paths with
  | [] => none
  | p :: _ => if p.qos = 0 ∨ paths.any (·.qos ≠ p.qos) then none else some p.qos

namespace Envelope

/-- What is left for the body: a quality that all entries share stands in the headers. -/
def body (e : Envelope) : Envelope :=
  let paths := e.paths.map fun ps =>
    if (sharedQos ps).isSome then ps.map fun p => { p with qos := 0 } else ps
  { e with rid := none, method := none, path := none, permit := none, stream := none, paths }

def headers (e : Envelope) : Headers :=
  { path := e.path
    permit := e.permit
    status := e.stream
    qos := (e.paths.bind sharedQos).map UInt8.ofNat }

def bodyBytes (codec : BodyCodec) (e : Envelope) : Bytes :=
  if e.body.isEmpty then [] else codec.encode e.body.toJson.sorted

def frames (codec : BodyCodec) (maxBody : Nat) (type : FrameType) (rid : Nat) (e : Envelope) :
    List Frame :=
  Frame.split { type, rid, headers := e.headers } (e.bodyBytes codec) maxBody

end Envelope

def Message.frames (codec : BodyCodec) (maxBody : Nat) (m : Message) : List Frame :=
  match m with
  | .ping => [{ type := .ping, rid := 0 }]
  | .request r => (Envelope.ofMessage m).frames codec maxBody (.request r.method) r.rid
  | .response r => (Envelope.ofMessage m).frames codec maxBody .response r.rid

/-! ## Reading -/

def Envelope.ofBody (codec : BodyCodec) (body : Bytes) : Except FrameError Envelope :=
  if body.isEmpty then .ok {}
  else
    match codec.decode body with
    | .error e => .error e
    | .ok v =>
      match Envelope.ofJson? v with
      | some e => .ok e
      | none => .error .malformed

/-- The envelope with what the frame around it says; the method of a request is that of its frame,
and a quality in the headers holds for all entries. -/
def Envelope.inFrame (e : Envelope) (f : Frame) : Envelope :=
  { e with
    rid := some f.rid
    method :=
      match f.type with
      | .request m => some m.name
      | _ => e.method
    path := f.headers.path
    permit := f.headers.permit
    stream := f.headers.status
    paths :=
      match f.headers.qos with
      | some qos => e.paths.map fun ps => ps.map fun p => { p with qos := qos.toNat }
      | none => e.paths }

def Inbound.ofFrame (codec : BodyCodec) (f : Frame) : Except FrameError Inbound :=
  match Envelope.ofBody codec f.body with
  | .error e => .error e
  | .ok e => (e.inFrame f).toInbound

end PeerLink
