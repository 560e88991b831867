import PeerLink.Envelope

/-! # Lines

Messages as JSON objects, one to a line.

* `LineDecoder`: the bytes that have come and not been read.
* `LineDecoder.next`: the next message. A line that is no message is used up before its error is
  told, so the line after it can be read.
* `Message.line`: the line of a message.
-/

namespace PeerLink
set_option autoImplicit false

/-- What a decoder answers: a message, an error, or nothing while bytes are missing. -/
abbrev Decoding := Except FrameError (Option Inbound)

namespace Decoding

/-- Whether nothing more can be had: bytes are missing, or what follows cannot be read. -/
def isLast : Decoding → Bool
  | .ok none => true
  | .ok (some _) => false
  | .error e => e.isFatal

/-- Decodes until nothing more can be had, at most `fuel` times. A last error is listed, a last
nothing is not. -/
def drainFor {δ : Type} (next : δ → Decoding × δ) : Nat → δ → List Decoding × δ
  | 0, d => ([], d)
  | fuel + 1, d =>
    match next d with
    | (.ok none, d) => ([], d)
    | (r, d) =>
      if r.isLast then ([r], d)
      else
        let (rs, d) := drainFor next fuel d
        (r :: rs, d)

end Decoding

/-! ## Lines -/

def newline : UInt8 := 10

/-- The bytes before the first line end, and those after it. -/
def Bytes.cutLine? (bs : Bytes) : Option (Bytes × Bytes) :=
  match bs.dropWhile (· != newline) with
  | [] => none
  | _ :: rest => some (bs.takeWhile (· != newline), rest)

def isBlankByte (b : UInt8) : Bool := b == 32 || b == 9 || b == 10 || b == 12 || b == 13

/-- Without the blanks at both ends. -/
def Bytes.trim (bs : Bytes) : Bytes :=
  ((bs.dropWhile isBlankByte).reverse.dropWhile isBlankByte).reverse

def Inbound.ofLine (line : Bytes) : Except FrameError Inbound := ofEnvelope (Envelope.read? line)

def Message.line (m : Message) : Bytes := (Envelope.ofMessage m).toJson.bytes ++ [newline]

/-! ## Decoding -/

structure LineDecoder where
  maxLine : Nat
  buffer : Bytes := []

namespace LineDecoder

def feed (d : LineDecoder) (bs : Bytes) : LineDecoder := { d with buffer := d.buffer ++ bs }

/-- What to do with a line: pass over a blank one, read any other that is not too long. -/
def readLine? (maxLine : Nat) (line : Bytes) : Option (Except FrameError Inbound) :=
  let line := line.trim
  if line.isEmpty then none
  else if maxLine < line.length then some (.error (.tooLarge line.length maxLine))
  else some (Inbound.ofLine line)

/-- Passes over blank lines, at most `fuel` of them. -/
def nextFrom (maxLine : Nat) : Nat → Bytes → Decoding × Bytes
  | 0, bs => (.ok none, bs)
  | fuel + 1, bs =>
    match bs.cutLine? with
    | none => (if maxLine < bs.length then .error (.tooLarge bs.length maxLine) else .ok none, bs)
    | some (line, rest) =>
      match readLine? maxLine line with
      | none => nextFrom maxLine fuel rest
      | some r => (r.map some, rest)

/-- The next message, and the decoder behind it. -/
def next (d : LineDecoder) : Decoding × LineDecoder :=
  let (r, bs) := nextFrom d.maxLine (d.buffer.length + 1) d.buffer
  (r, { d with buffer := bs })

/-- Decodes all that can be had; each line takes at least one byte. -/
def drain (d : LineDecoder) : List Decoding × LineDecoder :=
  Decoding.drainFor next (d.buffer.length + 1) d

end LineDecoder
end PeerLink
