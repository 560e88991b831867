import PeerLink.Outlet
import PeerLink.Requester.Subscriptions

/-! # The requester

* `Requester`: what a peer asks of the other. It outlives connections: without one nothing can be
  asked, and when one is lost everything that was open is closed.
* `HandlerEvent`: what handlers are told.
* `Requester.handleResponse`: a response goes to the request with its number; those with number zero
  carry values for subscriptions.
* `Requester.flush`: sends what subscriptions have gathered.
-/

namespace PeerLink
set_option autoImplicit false

open Json (Value)

/-- What the handler of a request or a subscription is told. -/
inductive HandlerEvent
  | response (handler : Handler) (r : Response)
  | failed (handler : Handler) (rid : Nat) (e : LinkError)
  | closed (handler : Handler) (rid : Nat)
  | update (handler : Handler) (u : SubscriptionUpdate)
  | ended (handler : Handler) (sid : Nat)

inductive RequesterEffect
  | send (o : Outgoing)
  | tell (e : HandlerEvent)
  | scheduleFlush

structure Requester where
  outlet : Option Outlet := none
  pending : PendingTable := {}
  subscriptions : SubscriptionTable := {}

namespace Requester

abbrev Effects := List RequesterEffect

def sends (os : List Outgoing) : Effects := os.map .send

def isConnected (r : Requester) : Bool := r.outlet.isSome

/-! ## Connections -/

def connect (r : Requester) (link : Nat) : Requester :=
  { r with outlet := some ⟨link, true⟩, subscriptions := { r.subscriptions with isOpen := true } }

def loseWriter (r : Requester) (link : Nat) : Requester :=
  { r with outlet := r.outlet.map (·.lose link) }

def closeLost (s : Stub) : Effects :=
  [.tell (.failed s.handler s.rid .connectionLost), .tell (.closed s.handler s.rid)]

def disconnect (r : Requester) : Effects × Requester :=
  let (stubs, pending) := r.pending.drain
  let (ended, subscriptions) := r.subscriptions.drain
  (stubs.flatMap closeLost ++ ended.map fun e => .tell (.ended e.2 e.1),
    { r with outlet := none, pending, subscriptions })

/-! ## Requests -/

def send (r : Requester) (req : Request) (handler : Handler) :
    Except SessionError Nat × Effects × Requester :=
  match r.outlet with
  | none => (.error .notConnected, [], r)
  | some outlet =>
    let (rid, pending) := r.pending.allocate
    if outlet.isOpen then
      let stub : Stub := { rid, method := req.method, path := req.path, handler }
      (.ok rid, sends (outlet.send (.request { req with rid })),
        { r with pending := pending.insert stub })
    else (.error .notConnected, [], { r with pending })

def list (r : Requester) (path : String) (handler : Handler) :=
  r.send { rid := 0, method := .list, path := some path } handler

def invoke (r : Requester) (path : String) (params : Option Value) (handler : Handler) :=
  r.send { rid := 0, method := .invoke, path := some path, params } handler

def set (r : Requester) (path : String) (value : Value) (permit : Permission) (handler : Handler) :=
  r.send
    { rid := 0, method := .set, path := some path, value := some value, permit := some permit }
    handler

def remove (r : Requester) (path : String) (handler : Handler) :=
  r.send { rid := 0, method := .remove, path := some path } handler

/-- Closes a stream from this side: whether it was open. -/
def close (r : Requester) (rid : Nat) : Bool × Effects × Requester :=
  match r.pending.remove rid with
  | (none, _) => (false, [], r)
  | (some stub, pending) =>
    (true,
      sends (sendTo r.outlet (.request (.close rid))) ++ [.tell (.closed stub.handler rid)],
      { r with pending })

/-! ## Subscriptions -/

def flushIf (schedule : Bool) : Effects := if schedule then [.scheduleFlush] else []

def subscribe (r : Requester) (path : String) (qos : Nat) (handler : Handler) :
    Except SessionError Nat × Effects × Requester :=
  if r.subscriptions.isOpen then
    let (sid, schedule, subscriptions) := r.subscriptions.add path qos handler
    (.ok sid, flushIf schedule, { r with subscriptions })
  else (.error .notConnected, [], r)

def unsubscribe (r : Requester) (sid : Nat) : Bool × Effects × Requester :=
  match r.subscriptions.remove sid with
  | (none, _) => (false, [], r)
  | (some (handler, schedule), subscriptions) =>
    (true, flushIf schedule ++ [.tell (.ended handler sid)], { r with subscriptions })

/-- Sends a request that nobody waits for; without a connection it is lost. -/
def sendBatch (r : Requester) (isEmpty : Bool) (req : Request) : Effects × Requester :=
  if isEmpty then ([], r) else (r.send req none).2

/-- Sends what subscriptions have gathered: one request for those that begin, one for those that
end. -/
def flush (r : Requester) : Effects × Requester :=
  let (batch, subscriptions) := r.subscriptions.takeBatch
  let r := { r with subscriptions }
  let (a, r) := r.sendBatch batch.subscribe.isEmpty
    { rid := 0, method := .subscribe, paths := batch.subscribe }
  let (b, r) := r.sendBatch batch.unsubscribe.isEmpty
    { rid := 0, method := .unsubscribe, sids := batch.unsubscribe }
  (a ++ b, r)

/-! ## Responses -/

/-- Hands on one entry of a batch of values. -/
def handleUpdate (now : Timestamp) (r : Requester) (v : Value) : Effects × Requester :=
  match SubscriptionUpdate.ofEntry? now v with
  | none => ([], r)
  | some u =>
    match r.subscriptions.record u with
    | (none, _) => ([], r)
    | (some handler, subscriptions) => ([.tell (.update handler u)], { r with subscriptions })

def handleUpdates (now : Timestamp) : Requester → List Value → Effects × Requester
  | r, [] => ([], r)
  | r, v :: vs =>
    let (a, r) := r.handleUpdate now v
    let (b, r) := handleUpdates now r vs
    (a ++ b, r)

/-- What the handler of a request is told about a response to it. -/
def responseEvents (handler : Handler) (resp : Response) : List HandlerEvent :=
  match resp.error with
  | some e => [.failed handler resp.rid e, .closed handler resp.rid]
  | none =>
    .response handler resp :: if resp.isClosing then [.closed handler resp.rid] else []

/-- Takes a response. One that would keep a stream open that is not known is answered with a
close. -/
def handleResponse (now : Timestamp) (r : Requester) (resp : Response) : Effects × Requester :=
  if resp.rid = Response.updateRid then r.handleUpdates now resp.updates
  else
    match r.pending.get? resp.rid with
    | none =>
      if resp.isClosing then ([], r)
      else (sends (sendTo r.outlet (.request (.close resp.rid))), r)
    | some stub =>
      ((responseEvents stub.handler resp).map .tell,
        if resp.isClosing then { r with pending := (r.pending.remove resp.rid).2 } else r)

end Requester
end PeerLink
