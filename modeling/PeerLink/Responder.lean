import PeerLink.Responder.Registry

/-! # The responder

* `Responder`: serves a tree to the other peer. A request to list, invoke or set opens a stream; the
  work is a task, and its answer is sent only while the stream it was made for is open.
* `InboundContext`: an open stream. Its token tells it from later streams of the same number.
* `Responder.handle`: takes a request; `Responder.run`: runs a task.
-/

namespace PeerLink
set_option autoImplicit false

open Json (Value)

structure InboundContext where
  token : Nat
  method : Method
  path : String
deriving DecidableEq

/-- The stream a task works for. -/
structure StreamKey where
  rid : Nat
  token : Nat
deriving DecidableEq

inductive ResponderTask
  | list (stream : StreamKey) (path : String)
  | invoke (stream : StreamKey) (path : String) (params : Option Value)
  | set (stream : StreamKey) (path : String) (value : Option Value) (permit : Option Permission)
  | reportClosed (path : String) (method : Method)
  | registry (t : RegistryTask)

inductive ResponderEffect
  | send (o : Outgoing)
  | schedule (t : ResponderTask)

structure Responder where
  outlet : Option Outlet := none
  inbound : Table Nat InboundContext := {}
  nextToken : Nat := 0
  registry : Registry := {}

namespace Responder
variable {σ : Type} [ValueTree σ]

abbrev Effects := List ResponderEffect

def ofRegistry (es : Registry.Effects) : Effects :=
  es.map fun
    | .send o => .send o
    | .schedule t => .schedule (.registry t)

def sends (os : List Outgoing) : Effects := os.map .send

def reply (r : Responder) (resp : Response) : Effects := sends (sendTo r.outlet (.response resp))

/-! ## Connections -/

def connect (r : Responder) (link : Nat) : Responder :=
  { r with outlet := some ⟨link, true⟩, registry := r.registry.connect link }

def loseWriter (r : Responder) (link : Nat) : Responder :=
  { r with outlet := r.outlet.map (·.lose link), registry := r.registry.loseWriter link }

/-- Closes all streams and ends all subscriptions. -/
def disconnect (r : Responder) (t : σ) : Responder × σ :=
  let t := r.inbound.values.foldl (fun t c => ValueTree.streamClosed t c.path c.method) t
  let (registry, t) := r.registry.closeAll t
  ({ r with outlet := none, inbound := {}, registry }, t)

/-! ## Requests -/

/-- Answers a request that cannot be accepted. -/
def reject (r : Responder) (rid : Nat) (e : LinkError) : Effects := r.reply (.failed rid e)

def missingPath : LinkError := ⟨.invalidPath, "missing path", none⟩

def alreadyOpen (rid : Nat) : LinkError :=
  ⟨.invalidParameter, s!"request {rid} is already open", none⟩

def noRemove : LinkError := ⟨.notImplemented, "remove is not supported by this responder", none⟩

def noValue : LinkError := ⟨.invalidValue, "set without a value", none⟩

/-- The task of a request that opens a stream. -/
def taskOf? (stream : StreamKey) (path : String) (req : Request) : Option ResponderTask :=
  match req.method with
  | .list => some (.list stream path)
  | .invoke => some (.invoke stream path req.params)
  | .set => some (.set stream path req.value req.permit)
  | _ => none

/-- The path of a request that may open a stream. -/
def checkOpen (r : Responder) (req : Request) : Except LinkError String :=
  match req.path with
  | none => .error missingPath
  | some path =>
    match Path.check path with
    | .error e => .error e
    | .ok () => if r.inbound.contains req.rid then .error (alreadyOpen req.rid) else .ok path

def openStream (r : Responder) (req : Request) : Effects × Responder :=
  match r.checkOpen req with
  | .error e => (r.reject req.rid e, r)
  | .ok path =>
    let token := r.nextToken + 1
    ((taskOf? ⟨req.rid, token⟩ path req).toList.map .schedule,
      { r with
        nextToken := token
        inbound := r.inbound.insert req.rid ⟨token, req.method, path⟩ })

/-- Closes a stream that the other peer has closed. -/
def closeInbound (r : Responder) (rid : Nat) : Effects × Responder :=
  match r.inbound.get? rid with
  | none => ([], r)
  | some c =>
    ([.schedule (.reportClosed c.path c.method)], { r with inbound := r.inbound.erase rid })

/-- Passes a batch on to the registry and acknowledges it. -/
def applyBatch (r : Responder) (rid : Nat) (op : RegistryOp) : Effects × Responder :=
  let (effects, registry) := r.registry.enqueue op
  (ofRegistry effects ++ r.reply (.closed rid), { r with registry })

def handle (r : Responder) (req : Request) : Effects × Responder :=
  match req.method with
  | .close => r.closeInbound req.rid
  | .list | .invoke | .set => r.openStream req
  | .subscribe => r.applyBatch req.rid (.subscribe req.paths)
  | .unsubscribe => r.applyBatch req.rid (.unsubscribe req.sids)
  | .remove => (r.reject req.rid noRemove, r)

/-! ## Answers -/

/-- The open stream that a task works for, if it is still the one of its number. -/
def current? (r : Responder) (s : StreamKey) : Option InboundContext :=
  (r.inbound.get? s.rid).filter (·.token = s.token)

/-- Answers on a stream that stays open. -/
def sendOpen (r : Responder) (s : StreamKey) (resp : Response) : Effects :=
  if (r.current? s).isSome then r.reply resp else []

/-- Sends the last response of a stream and closes it; the stream is reported to the tree. -/
def finish (r : Responder) (t : σ) (s : StreamKey) (resp : Response) : Effects × Responder × σ :=
  match r.current? s with
  | none => ([], r, t)
  | some c =>
    (r.reply resp, { r with inbound := r.inbound.erase s.rid },
      ValueTree.streamClosed t c.path c.method)

/-- Passes news of the tree on to the registry. -/
def onChanges (r : Responder) (ns : List (Notice Binding)) : Effects × Responder :=
  let (effects, registry) := r.registry.onChanges ns
  (ofRegistry effects, { r with registry })

/-! ## Tasks -/

def rowJson (row : Row) : Value := .arr [.str row.name, row.info]

def runList (r : Responder) (t : σ) (s : StreamKey) (path : String) : Effects × Responder × σ :=
  match ValueTree.listChildren t path with
  | .answered rows => (r.sendOpen s (.opened s.rid (rows.map rowJson)), r, t)
  | .refused e => r.finish t s (.failed s.rid e)
  | .died => ([], r, t)

/-- Ends a stream with what came of a call, after those who watch have been told. -/
def finishCall {α : Type} (r : Responder) (s : StreamKey) (answer : α → Response)
    (call : Outcome α × List (Notice Binding) × σ) : Effects × Responder × σ :=
  let (outcome, notices, t) := call
  let (a, r) := r.onChanges notices
  match outcome with
  | .died => (a, r, t)
  | .answered x =>
    let (b, r, t) := r.finish t s (answer x)
    (a ++ b, r, t)
  | .refused e =>
    let (b, r, t) := r.finish t s (.failed s.rid e)
    (a ++ b, r, t)

def runInvoke (now : Timestamp) (r : Responder) (t : σ) (s : StreamKey) (path : String)
    (params : Option Value) : Effects × Responder × σ :=
  r.finishCall s (fun rows => .closed s.rid rows) (ValueTree.invoke now t path params)

def runSet (now : Timestamp) (r : Responder) (t : σ) (s : StreamKey) (path : String)
    (value : Option Value) (permit : Option Permission) : Effects × Responder × σ :=
  match value with
  | none => r.finish t s (.failed s.rid noValue)
  | some value =>
    r.finishCall s (fun () => .closed s.rid)
      (ValueTree.writeValue now t path value (permit.getD .write))

def run (now : Timestamp) (r : Responder) (t : σ) : ResponderTask → Effects × Responder × σ
  | .list s path => r.runList t s path
  | .invoke s path params => r.runInvoke now t s path params
  | .set s path value permit => r.runSet now t s path value permit
  | .reportClosed path method => ([], r, ValueTree.streamClosed t path method)
  | .registry task =>
    let (effects, registry, t) := r.registry.run now t task
    (ofRegistry effects, { r with registry }, t)

def openStreams (r : Responder) : Nat := r.inbound.size

def subscriptionCount (r : Responder) : Nat := r.registry.size

end Responder
end PeerLink
