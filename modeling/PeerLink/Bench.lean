import PeerLink.Pair

/-! # Benches

* `Bench`: a peer alone, with a session, kept up by a connection, or joined to a server; all four
  are driven by the same events.
* `Bench.step?`: what an event brings; nothing if the bench has no such event.
* `Report`: what is seen of it. Where several subscriptions watch one value their order means
  nothing, and `Report.ordered` puts them in order.
-/

namespace PeerLink
set_option autoImplicit false

/-! ## Reports -/

structure Report where
  told : List HandlerEvent := []
  sent : List Message := []
  wrote : List Parcel := []
  /-- Setbacks, and what the policy said about them. -/
  asked : List (Nat × Option Nat) := []
  reasons : List DisconnectReason := []

namespace Report

def ofPeer (es : Peer.Effects) : Report :=
  { told := es.filterMap fun | .tell e => some e | .send _ => none
    sent := es.filterMap fun | .send o => some o.message | .tell _ => none }

def ofEndpoint (es : Endpoint.Effects) : Report :=
  { told := es.filterMap fun | .told e => some e | .wrote _ _ => none
    wrote := es.filterMap Pair.parcel? }

def ofConnection (es : Connection.Effects) : Report :=
  { told := es.filterMap fun | .endpoint (.told e) => some e | _ => none
    wrote := es.filterMap Pair.clientParcel?
    asked := es.filterMap fun | .asked n d => some (n, d) | _ => none }

def ofPair (es : Pair.Effects) : Report :=
  { told := es.filterMap fun | .told e => some e | _ => none
    asked := es.filterMap fun | .asked n d => some (n, d) | _ => none
    reasons := es.filterMap fun | .stopped why => some why | _ => none }

def updatedSid? : HandlerEvent → Option Nat
  | .update _ u => some u.sid
  | _ => none

/-- Puts an element that has a key in front of a list, behind neighbours with lesser keys. -/
def insertInRun {α : Type} (key? : α → Option Nat) (a : α) : List α → List α
  | [] => [a]
  | b :: bs =>
    match key? a, key? b with
    | some x, some y => if y < x then b :: insertInRun key? a bs else a :: b :: bs
    | _, _ => a :: b :: bs

/-- Sorts each run of neighbours that have a key. -/
def sortRuns {α : Type} (key? : α → Option Nat) (as : List α) : List α :=
  as.foldr (insertInRun key?) []

def entrySid? (v : Json.Value) : Option Nat :=
  (SubscriptionUpdate.ofJson? v).map (·.sid)

/-- A batch of values by the numbers of their subscriptions. -/
def orderBatch : Message → Message
  | .response r =>
    if r.rid = Response.updateRid then
      .response { r with updates := sortRuns entrySid? r.updates }
    else .response r
  | m => m

def ordered (r : Report) : Report :=
  { r with told := sortRuns updatedSid? r.told, sent := r.sent.map orderBatch }

end Report

/-! ## Benches -/

inductive Engine (σ : Type)
  | peer (p : Peer σ) (links : Nat)
  | endpoint (e : Endpoint σ)
  | connection (c : Connection σ)
  | pair (p : Pair σ)

structure Bench (σ : Type) where
  engine : Engine σ
  held : Bool := false

inductive BenchEvent
  | connect
  | disconnect
  | loseWriter
  | dispatch (i : Inbound)
  | receive (bs : Bytes)
  | hangUp
  | start
  | stop
  | cut
  | settle
  | advance (ms : Nat)

namespace Engine
variable {σ : Type} [ValueTree σ]

/-- The peer that asks. -/
def client : Engine σ → Peer σ
  | peer p _ => p
  | endpoint e => e.peer
  | connection c => c.endpoint.peer
  | pair p => p.client.endpoint.peer

/-- The peer that answers. -/
def server : Engine σ → Peer σ
  | pair p => p.server.peer
  | e => e.client

/-- The endpoint whose bytes go to whoever holds the other end of the pipe. -/
def endpoint? : Engine σ → Option (Endpoint σ)
  | endpoint e => some e
  | connection c => some c.endpoint
  | _ => none

def connection? : Engine σ → Option (Connection σ)
  | connection c => some c
  | pair p => some p.client
  | _ => none

def links (e : Engine σ) : Nat := (e.endpoint?.map (·.links)).getD 0

abbrev Step (σ : Type) := Report × Engine σ

def ofPeer (links : Nat) (r : Peer.Effects × Peer σ) : Step σ := (.ofPeer r.1, .peer r.2 links)

/-- Why the session of an endpoint has ended is told at once. -/
def ofEndpoint (r : Endpoint.Effects × Endpoint σ) : Step σ :=
  let (reasons, e) := r.2.takeReasons
  ({ Report.ofEndpoint r.1 with reasons }, .endpoint e)

def ofConnection (r : Connection.Effects × Connection σ) : Step σ :=
  (.ofConnection r.1, .connection r.2)

def ofPair (r : Pair.Effects × Pair σ) : Step σ := (.ofPair r.1, .pair r.2)

/-! ### Calls -/

def ask? {α : Type} (now : Timestamp) (e : Engine σ)
    (call : Requester → α × Requester.Effects × Requester) : Option (α × Step σ) :=
  match e with
  | peer p links => (p.ask call).map fun (a, r) => (a, ofPeer links r)
  | endpoint e => (e.ask call).map fun (a, r) => (a, ofEndpoint r)
  | connection c => (c.ask call).map fun (a, r) => (a, ofConnection r)
  | pair p => (p.ask now call).map fun (a, r) => (a, ofPair r)

def change (now : Timestamp) (e : Engine σ) (call : σ → List (Notice Binding) × σ) : Step σ :=
  match e with
  | peer p links => ofPeer links (p.change call)
  | endpoint e => ofEndpoint (e.change call)
  | connection c => ofConnection (c.change call)
  | pair p => ofPair (p.change now call)

/-! ### Events -/

/-- A peer alone hands on what one of its sides is for. -/
def serves (p : Peer σ) : Inbound → Bool
  | .message (.request _) => p.responder.isSome
  | .rejected _ _ => p.responder.isSome
  | .message _ => true

def stepPeer? (now : Timestamp) (p : Peer σ) (links : Nat) : BenchEvent → Option (Step σ)
  | .connect => some ({}, .peer (p.connect (links + 1)) (links + 1))
  | .disconnect => some (ofPeer links p.disconnect)
  | .loseWriter => some ({}, .peer (p.loseWriter links) links)
  | .dispatch i =>
    some (if serves p i then ofPeer links (p.dispatch now i) else ({}, .peer p links))
  | .settle => some (ofPeer links (p.settle now))
  | .advance ms => some ({}, .peer { p with worker := p.worker.advance ms } links)
  | _ => none

def stepEndpoint? (now : Timestamp) (e : Endpoint σ) : BenchEvent → Option (Step σ)
  | .connect => some (ofEndpoint ([], e.connect))
  | .disconnect => some (ofEndpoint e.disconnect)
  | .receive bs => some (ofEndpoint (e.receive now bs))
  | .hangUp => some (ofEndpoint ([], e.hangUp))
  | .settle => some (ofEndpoint (e.settle now))
  | .advance ms => some (ofEndpoint ([], e.advance ms))
  | _ => none

def stepConnection? (now : Timestamp) (c : Connection σ) : BenchEvent → Option (Step σ)
  | .start => some (ofConnection c.start.2.rest)
  | .stop => some (ofConnection c.stop)
  | .receive bs => some (ofConnection (c.receive now bs))
  | .hangUp => some (ofConnection c.hangUp)
  | .settle => some (ofConnection (c.settle now))
  | .advance ms => some (ofConnection (c.advance ms))
  | _ => none

def stepPair? (now : Timestamp) (p : Pair σ) : BenchEvent → Option (Step σ)
  | .start => some (ofPair (p.start now).2)
  | .stop => some (ofPair (p.stop now))
  | .cut => some (ofPair (p.cut now))
  | .settle => some (ofPair (p.settle now))
  | .advance ms => some (ofPair (p.advance now ms))
  | _ => none

def step? (now : Timestamp) (e : Engine σ) (event : BenchEvent) : Option (Step σ) :=
  match e with
  | peer p links => stepPeer? now p links event
  | endpoint e => stepEndpoint? now e event
  | connection c => stepConnection? now c event
  | pair p => stepPair? now p event

def canStart (e : Engine σ) : Bool := e.connection?.any (·.start.1)

end Engine

namespace Bench
variable {σ : Type} [ValueTree σ]

/-- The bench after a step: a new pipe is held at its other end. -/
def after (b : Bench σ) (e : Engine σ) : Bench σ :=
  { engine := e, held := b.held || decide (b.engine.links < e.links) }

def step? (now : Timestamp) (b : Bench σ) (event : BenchEvent) : Option (Report × Bench σ) :=
  (b.engine.step? now event).map fun (report, e) =>
    let b :=
      match event with
      | .hangUp => { b with held := false }
      | _ => b
    (report, b.after e)

/-- What is read at the other end of the newest pipe, and whether it ends there. -/
def pipe (b : Bench σ) (r : Report) : Bytes × Bool :=
  match b.engine.endpoint? with
  | none => ([], false)
  | some e =>
    if b.held then
      ((r.wrote.filter (·.link = e.links)).flatMap (·.bytes), e.session.isNone)
    else ([], false)

end Bench
end PeerLink
