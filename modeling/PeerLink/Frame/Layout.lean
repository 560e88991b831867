import PeerLink.Frame
import PeerLink.Varint

/-! # The layout of frames

`[type][varint rid][varint ack][varint length][headers][32-bit length][body]`, where a header is
`[tag][varint length][value]`.

* `Frame.encode`: the bytes of a frame.
* `Frame.decode`: the frame in front of a byte string, and what follows it. Headers with an unknown
  tag are passed over, and of two with one tag the later counts.
-/

namespace PeerLink
set_option autoImplicit false

/-! ## Headers -/

namespace Headers

def pathTag : UInt8 := 1
def qosTag : UInt8 := 2
def statusTag : UInt8 := 3
def permitTag : UInt8 := 4
def seqTag : UInt8 := 5
def totalTag : UInt8 := 6
def continuationTag : UInt8 := 7

def field (tag : UInt8) (value : Bytes) : Bytes := tag :: Varint.encode value.length ++ value

def optionalField {α : Type} (tag : UInt8) (a : Option α) (write : α → Bytes) : Bytes :=
  match a with
  | some a => field tag (write a)
  | none => []

def statusByte : StreamState → UInt8
  | .opened => 0
  | .closed => 1

def encode (h : Headers) : Bytes :=
  optionalField pathTag h.path Bytes.ofString ++ optionalField qosTag h.qos (fun q => [q]) ++
    optionalField statusTag h.status (fun s => [statusByte s]) ++
    optionalField permitTag h.permit (fun p => [UInt8.ofNat p.code]) ++
    optionalField seqTag h.seq Varint.encode ++ optionalField totalTag h.total Varint.encode ++
    if h.continuation then field continuationTag [] else []

/-- A number of at most 32 bits from the front of a value. -/
def number (value : Bytes) : Except FrameError Nat :=
  match Varint.decode value with
  | .long => .error (.codec .varintTooLong)
  | .short => .error (.codec .varintCut)
  | .done n _ => if n < 2 ^ 32 then .ok n else .error (.codec .varintOutOfRange)

def put (h : Headers) (tag : UInt8) (value : Bytes) : Except FrameError Headers :=
  if tag = pathTag then
    match Bytes.toString? value with
    | some path => .ok { h with path := some path }
    | none => .error (.codec .pathNotUtf8)
  else if tag = qosTag then .ok { h with qos := value.head? }
  else if tag = statusTag then
    match value.head? with
    | some 0 => .ok { h with status := some .opened }
    | some 1 => .ok { h with status := some .closed }
    | _ => .error (.codec .badStatus)
  else if tag = permitTag then
    .ok { h with permit := value.head?.bind fun b => Permission.ofCode? b.toNat }
  else if tag = seqTag then (number value).map fun n => { h with seq := some n }
  else if tag = totalTag then (number value).map fun n => { h with total := some n }
  else if tag = continuationTag then .ok { h with continuation := true }
  else .ok h

/-- Reads headers up to the end of their block, at most `fuel` of them. -/
def decodeFrom : Nat → Headers → Bytes → Except FrameError Headers
  | _, h, [] => .ok h
  | 0, h, _ :: _ => .ok h
  | fuel + 1, h, tag :: bs =>
    match Varint.decode bs with
    | .long => .error (.codec .varintTooLong)
    | .short => .error (.codec .headerLengthCut)
    | .done n bs =>
      match Bytes.splitAt? n bs with
      | none => .error (.codec .headerValueCut)
      | some (value, bs) =>
        match h.put tag value with
        | .error e => .error e
        | .ok h => decodeFrom fuel h bs

def decode (block : Bytes) : Except FrameError Headers := decodeFrom block.length {} block

end Headers

/-! ## Frames -/

namespace Frame

def maxHeaders : Nat := 2 ^ 16

def encode (f : Frame) : Bytes :=
  let headers := f.headers.encode
  f.type.code :: Varint.encode f.rid ++ Varint.encode f.ack ++ Varint.encode headers.length ++
    headers ++ Bytes.ofNat32 f.body.length ++ f.body

def number? (bs : Bytes) : Except FrameError (Option (Nat × Bytes)) :=
  match Varint.decode bs with
  | .done n rest => .ok (some (n, rest))
  | .short => .ok none
  | .long => .error (.codec .varintTooLong)

structure Parts where
  code : UInt8
  rid : Nat
  ack : Nat
  headers : Bytes
  body : Bytes

/-- Cuts out the body and what follows it. -/
def cutBody (maxBody : Nat) (code : UInt8) (rid ack : Nat) (headers bs : Bytes) :
    Except FrameError (Option (Parts × Bytes)) :=
  match Bytes.splitAt? 4 bs with
  | none => .ok none
  | some (len, bs) =>
    let n := Bytes.toNat len
    if maxBody < n then .error (.tooLarge n maxBody)
    else
      match Bytes.splitAt? n bs with
      | none => .ok none
      | some (body, rest) => .ok (some (⟨code, rid, ack, headers, body⟩, rest))

/-- Cuts a frame out of the front of a byte string, when all of it is there. -/
def cut (maxBody : Nat) : Bytes → Except FrameError (Option (Parts × Bytes))
  | [] => .ok none
  | code :: bs =>
    match number? bs with
    | .error e => .error e
    | .ok none => .ok none
    | .ok (some (rid, bs)) =>
      match number? bs with
      | .error e => .error e
      | .ok none => .ok none
      | .ok (some (ack, bs)) =>
        match number? bs with
        | .error e => .error e
        | .ok none => .ok none
        | .ok (some (len, bs)) =>
          if maxHeaders < len then .error (.tooLarge len maxHeaders)
          else
            match Bytes.splitAt? len bs with
            | none => .ok none
            | some (headers, bs) => cutBody maxBody code rid ack headers bs

def ofParts (p : Parts) : Except FrameError Frame :=
  if 2 ^ 32 ≤ p.rid then .error (.codec .ridOutOfRange)
  else if 2 ^ 32 ≤ p.ack then .error (.codec .ackOutOfRange)
  else
    match Headers.decode p.headers with
    | .error e => .error e
    | .ok headers =>
      .ok { type := FrameType.ofCode p.code, rid := p.rid, ack := p.ack, headers, body := p.body }

/-- The frame in front and what follows it, or nothing while bytes of it are missing. -/
def decode (maxBody : Nat) (bs : Bytes) : Except FrameError (Option (Frame × Bytes)) :=
  match cut maxBody bs with
  | .error e => .error e
  | .ok none => .ok none
  | .ok (some (parts, rest)) =>
    match ofParts parts with
    | .error e => .error e
    | .ok f => .ok (some (f, rest))

end Frame
end PeerLink
