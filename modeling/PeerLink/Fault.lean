import PeerLink.Number.Power

/-! # Errors

* `ErrorType` and `LinkError`: an error as it travels inside a response.
* `FrameError`: why bytes were no message, and whether the bytes after them can still be read.
* `SessionError`: why a call could not be carried out.
-/

namespace PeerLink
set_option autoImplicit false

/-! ## Errors on the wire -/

/-- The kinds of error both peers know. -/
inductive ErrorType
  | permissionDenied
  | invalidMethod
  | notImplemented
  | invalidPath
  | invalidParameter
  | invalidValue
  | disconnected
  | failed
deriving DecidableEq

/-- Broad groups of error kinds. -/
inductive ErrorCategory
  | protocol
  | permission
  | badRequest
  | notSupported
  | internal
deriving DecidableEq

namespace ErrorType

def all : List ErrorType :=
  [permissionDenied, invalidMethod, notImplemented, invalidPath, invalidParameter, invalidValue,
    disconnected, failed]

def name : ErrorType → String
  | permissionDenied => "permissionDenied"
  | invalidMethod => "invalidMethod"
  | notImplemented => "notImplemented"
  | invalidPath => "invalidPath"
  | invalidParameter => "invalidParameter"
  | invalidValue => "invalidValue"
  | disconnected => "disconnected"
  | failed => "failed"

def ofName? (s : String) : Option ErrorType := all.find? (·.name = s)

theorem ofName?_name (t : ErrorType) : ofName? t.name = some t := by cases t <;> decide

def category : ErrorType → ErrorCategory
  | invalidMethod => .protocol
  | permissionDenied => .permission
  | invalidPath | invalidParameter | invalidValue => .badRequest
  | notImplemented => .notSupported
  | disconnected | failed => .internal

end ErrorType

/-- An error carried by a response. -/
structure LinkError where
  kind : ErrorType
  text : String
  detail : Option String := none
deriving DecidableEq

namespace LinkError

def message (e : LinkError) : String := e.kind.name ++ ": " ++ e.text

def badPath (path : String) : LinkError := ⟨.invalidPath, "invalid path: " ++ path, none⟩

def unknownMethod (name : String) : LinkError :=
  ⟨.invalidMethod, "unknown method `" ++ name ++ "`", none⟩

def connectionLost : LinkError := ⟨.disconnected, "connection lost", none⟩

end LinkError

/-! ## Errors in framing -/

/-- Why the members of a split payload do not fit together. -/
inductive MultipartFault
  | primaryWhileOpen
  | primaryTooLong
  | orphan
  | totalChanged
  | overrun
deriving DecidableEq

def MultipartFault.message : MultipartFault → String
  | primaryWhileOpen => "primary frame while an assembly is open"
  | primaryTooLong => "primary frame exceeds declared length"
  | orphan => "continuation without a primary frame"
  | totalChanged => "declared length changed mid-assembly"
  | overrun => "payload overruns declared length"

inductive AckFault
  | backwards (held ack : Nat)
  | unsent (ack last : Nat)
deriving DecidableEq

def AckFault.message : AckFault → String
  | backwards held ack => s!"ack went backwards from {held} to {ack}"
  | unsent ack last => s!"ack {ack} is beyond the last frame sent ({last})"

inductive CodecFault
  | varintTooLong
  | ridOutOfRange
  | ackOutOfRange
  | headerLengthCut
  | headerValueCut
  | pathNotUtf8
  | badStatus
  | varintCut
  | varintOutOfRange
  | noSequence
deriving DecidableEq

def CodecFault.message : CodecFault → String
  | varintTooLong => "varint too long"
  | ridOutOfRange => "rid out of range"
  | ackOutOfRange => "ack out of range"
  | headerLengthCut => "truncated header length"
  | headerValueCut => "truncated header value"
  | pathNotUtf8 => "path header is not utf-8"
  | badStatus => "bad status header"
  | varintCut => "truncated varint header"
  | varintOutOfRange => "varint header out of range"
  | noSequence => "frame without sequence header"

def hexByte (b : UInt8) : String :=
  String.ofList [Nat.digitChar (b.toNat / 16), Nat.digitChar (b.toNat % 16)]

inductive FrameError
  | malformed
  | missingField (name : String)
  | unknownType (code : UInt8)
  | tooLarge (size limit : Nat)
  | badMultipart (rid : Nat) (fault : MultipartFault)
  | ackViolation (fault : AckFault)
  | sequenceGap (expected got : Nat)
  | windowViolation (seq allowed : Nat)
  | codec (fault : CodecFault)
deriving DecidableEq

namespace FrameError

/-- Whether the bytes that follow can no longer be read. -/
def isFatal : FrameError → Bool
  | malformed | missingField _ | unknownType _ => false
  | _ => true

def message : FrameError → String
  | malformed => "malformed frame"
  | missingField name => "missing required field `" ++ name ++ "`"
  | unknownType code => "unknown message type 0x" ++ hexByte code
  | tooLarge size limit => s!"frame of {size} bytes exceeds the limit of {limit}"
  | badMultipart rid fault => s!"bad multipart header for rid {rid}: " ++ fault.message
  | ackViolation fault => "ack violation: " ++ fault.message
  | sequenceGap expected got => s!"sequence gap: expected {expected}, got {got}"
  | windowViolation seq allowed =>
    s!"peer exceeded the ack window: seq {seq}, allowed up to {allowed}"
  | codec fault => "codec error: " ++ fault.message

end FrameError

/-! ## Errors of calls -/

inductive TransportFault
  | brokenPipe
deriving DecidableEq

def TransportFault.message : TransportFault → String
  | brokenPipe => "broken pipe"

inductive SessionError
  | notConnected
  | transport (fault : TransportFault)
  | frame (error : FrameError)
deriving DecidableEq

def SessionError.message : SessionError → String
  | notConnected => "not connected"
  | transport fault => "transport error: " ++ fault.message
  | frame error => error.message

end PeerLink
