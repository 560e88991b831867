import PeerLink.Bytes
import PeerLink.Message

/-! # Binary frames

* `FrameType`: the byte in front of a frame.
* `Headers`: the parts of a frame that may be missing.
* `Frame`: one frame; `Frame.isMultipart` holds of the members of a split payload.
-/

namespace PeerLink
set_option autoImplicit false

inductive FrameType
  | request (m : Method)
  | response
  | ack
  | ping
  | unknown (code : UInt8)
deriving DecidableEq

namespace FrameType

def code : FrameType → UInt8
  | request .list => 0x01
  | request .invoke => 0x02
  | request .set => 0x03
  | request .remove => 0x04
  | request .subscribe => 0x05
  | request .unsubscribe => 0x06
  | request .close => 0x07
  | response => 0x80
  | ack => 0xF0
  | ping => 0xF1
  | unknown code => code

/-- The types that have a code of their own. -/
def known : List FrameType :=
  [request .list, request .invoke, request .set, request .remove, request .subscribe,
    request .unsubscribe, request .close, response, ack, ping]

def ofCode (c : UInt8) : FrameType := (known.find? (·.code = c)).getD (unknown c)

/-- Frames of all types but acks are numbered, and may be sent only with credit. -/
def consumesCredit (t : FrameType) : Bool := t != ack

def isRequest : FrameType → Bool
  | request _ => true
  | _ => false

theorem code_ofCode (c : UInt8) : (ofCode c).code = c := by
  unfold ofCode
  cases h : known.find? (·.code = c) with
  | none => rfl
  | some t => simpa using List.find?_some h

end FrameType

structure Headers where
  path : Option String := none
  qos : Option UInt8 := none
  status : Option StreamState := none
  permit : Option Permission := none
  seq : Option Nat := none
  /-- The length of the whole payload, in members of a split one. -/
  total : Option Nat := none
  continuation : Bool := false
deriving DecidableEq

structure Frame where
  type : FrameType
  rid : Nat
  ack : Nat := 0
  headers : Headers := {}
  body : Bytes := []
deriving DecidableEq

namespace Frame

def isMultipart (f : Frame) : Bool := f.headers.continuation || f.headers.total.isSome

end Frame
end PeerLink
