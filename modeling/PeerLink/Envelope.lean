import PeerLink.Json.Text
import PeerLink.Json.Reading
import PeerLink.Message

/-! # Envelopes

* `Envelope`: the fields of a message, each of which may be missing.
* `Envelope.ofMessage`, `Envelope.toInbound`: from and to messages; an envelope without fields is a
  ping.
* `Envelope.toJson`, `Envelope.ofJson?`: as a JSON object, its members in the order of the fields.
* `SubscriptionUpdate.toJson`, `SubscriptionUpdate.ofJson?`: one entry of a batch of values.
-/

namespace PeerLink
set_option autoImplicit false

open Json (Value Shape)

/-- All numbers on the wire lie below this. -/
def wordBound : Nat := 2 ^ 32

/-- A member that is written only if it is there. -/
def optionalMember {α : Type} (name : String) (a : Option α) (write : α → Value) :
    List (String × Value) :=
  match a with
  | some a => [(name, write a)]
  | none => []

/-! ## Errors -/

namespace LinkError

def shape : Shape := .record false [("type", .word), ("msg", .any), ("detail", .any)]

def toJson (e : LinkError) : Value :=
  .obj ([("type", .str e.kind.name), ("msg", .str e.text)] ++
    optionalMember "detail" e.detail .str)

def ofJson? (v : Value) : Option LinkError :=
  match v.fields? ["type", "msg", "detail"] with
  | some [some kind, text, detail] => do
    let kind ← kind.word?.bind ErrorType.ofName?
    let text ← Value.default? "" Value.asString? text
    let detail ← Value.optional? Value.asString? detail
    pure ⟨kind, text, detail⟩
  | _ => none

def read? (s : Bytes) : Option LinkError := (shape.read? s).bind ofJson?

end LinkError

/-! ## Subscriptions -/

namespace SubscribePath

def shape : Shape := .record false [("path", .any), ("sid", .any), ("qos", .any)]

def toJson (p : SubscribePath) : Value :=
  .obj ([("path", .str p.path), ("sid", .ofNat p.sid)] ++
    if p.qos = 0 then [] else [("qos", .ofNat p.qos)])

def ofJson? (v : Value) : Option SubscribePath :=
  match v.fields? ["path", "sid", "qos"] with
  | some [some path, some sid, qos] => do
    let path ← path.asString?
    let sid ← sid.asNatBelow? wordBound
    let qos ← Value.default? 0 (Value.asNatBelow? 256) qos
    pure ⟨path, sid, qos⟩
  | _ => none

end SubscribePath

namespace SubscriptionUpdate

/-- Fields that are not named are kept too, so they have to be sound. -/
def shape : Shape := .record true [("sid", .any), ("value", .any), ("status", .word), ("ts", .any)]

def toJson (u : SubscriptionUpdate) : Value :=
  .obj [("sid", .ofNat u.sid), ("value", u.update.value), ("status", .str u.update.status.name),
    ("ts", .str u.update.time.text)]

/-- Reads objects only. Next to a status written as a key an empty object is as good as null. -/
def ofJson? : Value → Option SubscriptionUpdate
  | .obj ms => do
    let sid ← (Value.member? "sid" ms).bind (Value.asNatBelow? wordBound)
    let value ← Value.member? "value" ms
    let status ← Value.default? .ok (fun v => (v.wordOver? Value.isVoid).bind ValueStatus.ofName?)
      (Value.member? "status" ms)
    let time ← ((Value.member? "ts" ms).bind Value.asString?).bind Timestamp.parse?
    pure ⟨sid, value, status, time⟩
  | _ => none

def read? (s : Bytes) : Option SubscriptionUpdate := (shape.read? s).bind ofJson?

end SubscriptionUpdate

/-! ## Envelopes -/

structure Envelope where
  rid : Option Nat := none
  method : Option String := none
  path : Option String := none
  params : Option Value := none
  value : Option Value := none
  permit : Option Permission := none
  stream : Option StreamState := none
  updates : Option (List Value) := none
  paths : Option (List SubscribePath) := none
  sids : Option (List Nat) := none
  error : Option LinkError := none

namespace Envelope

def isEmpty (e : Envelope) : Bool :=
  e.rid.isNone && e.method.isNone && e.path.isNone && e.params.isNone && e.value.isNone &&
    e.permit.isNone && e.stream.isNone && e.updates.isNone && e.paths.isNone && e.sids.isNone &&
    e.error.isNone

/-! ### Messages -/

/-- A list that is left out when it is empty. -/
def listed {α : Type} (xs : List α) : Option (List α) := if xs.isEmpty then none else some xs

def ofMessage : Message → Envelope
  | .ping => {}
  | .request r =>
    { rid := some r.rid, method := some r.method.name, path := r.path, params := r.params,
      value := r.value, permit := r.permit, paths := listed r.paths, sids := listed r.sids }
  | .response r =>
    { rid := some r.rid, stream := r.stream, updates := listed r.updates, error := r.error }

/-- The message of an envelope. One with a method is a request, refused if the method is not
known; one without a method is a response. -/
def toInbound (e : Envelope) : Except FrameError Inbound :=
  if e.isEmpty then .ok (.message .ping)
  else
    match e.rid with
    | none => .error (.missingField "rid")
    | some rid =>
      match e.method with
      | none =>
        .ok (.message (.response
          { rid, stream := e.stream, updates := e.updates.getD [], error := e.error }))
      | some name =>
        match Method.parse name with
        | .error err => .ok (.rejected rid err)
        | .ok method =>
          .ok (.message (.request
            { rid, method, path := e.path, params := e.params, value := e.value,
              permit := e.permit, paths := e.paths.getD [], sids := e.sids.getD [] }))

/-! ### JSON -/

def fieldShapes : List (String × Shape) :=
  [("rid", .any), ("method", .any), ("path", .any), ("params", .any), ("value", .any),
    ("permit", .word), ("stream", .word), ("updates", .list .any),
    ("paths", .list SubscribePath.shape), ("sids", .list .any), ("error", LinkError.shape)]

def shape : Shape := .record false fieldShapes

def toJson (e : Envelope) : Value :=
  .obj (optionalMember "rid" e.rid .ofNat ++ optionalMember "method" e.method .str ++
    optionalMember "path" e.path .str ++ optionalMember "params" e.params id ++
    optionalMember "value" e.value id ++ optionalMember "permit" e.permit (.str ·.name) ++
    optionalMember "stream" e.stream (.str ·.name) ++ optionalMember "updates" e.updates .arr ++
    optionalMember "paths" e.paths (fun ps => .arr (ps.map SubscribePath.toJson)) ++
    optionalMember "sids" e.sids (fun ss => .arr (ss.map Value.ofNat)) ++
    optionalMember "error" e.error LinkError.toJson)

def readList? {α : Type} (read : Value → Option α) (v : Value) : Option (List α) :=
  v.asArray?.bind (List.mapM read)

def ofJson? (v : Value) : Option Envelope :=
  match v.fields? (fieldShapes.map (·.1)) with
  | some [rid, method, path, params, value, permit, stream, updates, paths, sids, error] => do
    let rid ← Value.optional? (Value.asNatBelow? wordBound) rid
    let method ← Value.optional? Value.asString? method
    let path ← Value.optional? Value.asString? path
    let params ← Value.optional? some params
    let value ← Value.optional? some value
    let permit ← Value.optional? (fun v => v.word?.bind Permission.ofName?) permit
    let stream ← Value.optional? (fun v => v.word?.bind StreamState.ofName?) stream
    let updates ← Value.optional? Value.asArray? updates
    let paths ← Value.optional? (readList? SubscribePath.ofJson?) paths
    let sids ← Value.optional? (readList? (Value.asNatBelow? wordBound)) sids
    let error ← Value.optional? LinkError.ofJson? error
    pure { rid, method, path, params, value, permit, stream, updates, paths, sids, error }
  | _ => none

def read? (s : Bytes) : Option Envelope := (shape.read? s).bind ofJson?

end Envelope

/-- The message of an envelope that has been read, if it has. -/
def Inbound.ofEnvelope : Option Envelope → Except FrameError Inbound
  | none => .error .malformed
  | some e => e.toInbound
end PeerLink
