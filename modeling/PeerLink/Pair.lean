import PeerLink.Connection

/-! # Pairs

* `Pair`: a connection and the endpoint that serves it, joined by a pipe for each session.
* `Pair.rest`: bytes, closed pipes and new sessions reach the other side until all is at rest.
* `Pair.settle`: the server's worker runs until it has nothing to do, then the client's, and so on.
-/

namespace PeerLink
set_option autoImplicit false

/-- Bytes in the pipe of a connection. -/
structure Parcel where
  link : Nat
  bytes : Bytes

inductive PairEffect
  | told (e : HandlerEvent)
  | asked (setback : Nat) (delay : Option Nat)
  /-- The server's session has stopped. -/
  | stopped (why : DisconnectReason)

structure Pair (σ : Type) where
  client : Connection σ
  server : Endpoint σ
  toServer : List Parcel := []
  toClient : List Parcel := []

namespace Pair
variable {σ : Type} [ValueTree σ]

abbrev Effects := List PairEffect

/-! ## Pipes -/

def parcel? : EndpointEffect → Option Parcel
  | .wrote link bytes => some ⟨link, bytes⟩
  | .told _ => none

def clientParcel? : ConnectionEffect → Option Parcel
  | .endpoint e => parcel? e
  | _ => none

/-- What the client does that is no matter of pipes. -/
def seen? : ConnectionEffect → Option PairEffect
  | .endpoint (.told e) => some (.told e)
  | .asked setback delay => some (.asked setback delay)
  | _ => none

def afterClient (p : Pair σ) (es : Connection.Effects) (client : Connection σ) :
    Effects × Pair σ :=
  (es.filterMap seen?, { p with client, toServer := p.toServer ++ es.filterMap clientParcel? })

def afterServer (p : Pair σ) (es : Endpoint.Effects) (server : Endpoint σ) : Pair σ :=
  { p with server, toClient := p.toClient ++ es.filterMap parcel? }

/-- The connection that an endpoint is bound to. -/
def linkOf? (e : Endpoint σ) : Option Nat := e.session.map (·.link)

/-- Whether an endpoint is bound to a connection and does not know that it stands alone. -/
def expects (e : Endpoint σ) : Bool := e.session.any (·.hasPeer)

/-! ## At rest -/

/-- The oldest bytes reach the server. -/
def deliverToServer (now : Timestamp) (p : Pair σ) (parcel : Parcel) (rest : List Parcel) :
    Pair σ :=
  let p := { p with toServer := rest }
  if linkOf? p.server = some parcel.link then
    let (es, server) := p.server.receive now parcel.bytes
    p.afterServer es server
  else p

/-- The oldest bytes reach the client. -/
def deliverToClient (now : Timestamp) (p : Pair σ) (parcel : Parcel) (rest : List Parcel) :
    Effects × Pair σ :=
  let p := { p with toClient := rest }
  if linkOf? p.client.endpoint = some parcel.link then
    let (es, client) := p.client.receive now parcel.bytes
    p.afterClient es client
  else ([], p)

/-- The server's session ends. -/
def closeServer (p : Pair σ) : Pair σ :=
  let (es, server) := p.server.disconnect
  p.afterServer es server

/-- One side takes notice of what the other has done; nothing when both know all. -/
def notice? (p : Pair σ) : Option (Effects × Pair σ) :=
  match p.server.reason? with
  | some why => some ([.stopped why], p.closeServer)
  | none =>
    if expects p.server && linkOf? p.server ≠ linkOf? p.client.endpoint then
      some ([], { p with server := p.server.hangUp })
    else if p.server.links < p.client.endpoint.links then
      some ([], { p with server := p.server.connect })
    else if expects p.client.endpoint && linkOf? p.server ≠ linkOf? p.client.endpoint then
      let (es, client) := p.client.hangUp
      some (p.afterClient es client)
    else none

/-- One move of the pipes; nothing at rest. -/
def move? (now : Timestamp) (p : Pair σ) : Option (Effects × Pair σ) :=
  match p.toServer, p.toClient with
  | x :: rest, _ =>
    if p.server.links < x.link then p.notice? else some ([], p.deliverToServer now x rest)
  | [], x :: rest => some (p.deliverToClient now x rest)
  | [], [] => p.notice?

/-- More moves than any exchange takes. -/
def maxMoves : Nat := 2 ^ 20

def restFor (now : Timestamp) : Nat → Pair σ → Effects × Pair σ
  | 0, p => ([], p)
  | fuel + 1, p =>
    match p.move? now with
    | none => ([], p)
    | some (a, p) =>
      let (b, p) := restFor now fuel p
      (a ++ b, p)

def rest (now : Timestamp) (p : Pair σ) : Effects × Pair σ := restFor now maxMoves p

/-! ## Events -/

/-- The client has acted; the pipes come to rest. -/
def actClient (now : Timestamp) (p : Pair σ) (es : Connection.Effects) (client : Connection σ) :
    Effects × Pair σ :=
  let (a, p) := p.afterClient es client
  let (b, p) := p.rest now
  (a ++ b, p)

/-- The server has acted; the pipes come to rest. -/
def actServer (now : Timestamp) (p : Pair σ) (es : Endpoint.Effects) (server : Endpoint σ) :
    Effects × Pair σ :=
  (p.afterServer es server).rest now

def start (now : Timestamp) (p : Pair σ) : Bool × Effects × Pair σ :=
  let (begun, client) := p.client.start
  let (es, client) := client.rest
  (begun, p.actClient now es client)

def stop (now : Timestamp) (p : Pair σ) : Effects × Pair σ :=
  let (es, client) := p.client.stop
  p.actClient now es client

def ask {α : Type} (now : Timestamp) (p : Pair σ)
    (call : Requester → α × Requester.Effects × Requester) : Option (α × Effects × Pair σ) :=
  (p.client.ask call).map fun (a, es, client) => (a, p.actClient now es client)

def change (now : Timestamp) (p : Pair σ) (call : σ → List (Notice Binding) × σ) :
    Effects × Pair σ :=
  let (es, server) := p.server.change call
  p.actServer now es server

/-- The server's session ends, whatever the client is doing. -/
def cut (now : Timestamp) (p : Pair σ) : Effects × Pair σ := p.closeServer.rest now

def advance (now : Timestamp) (p : Pair σ) (ms : Nat) : Effects × Pair σ :=
  let p := { p with server := p.server.advance ms }
  let (es, client) := p.client.advance ms
  p.actClient now es client

/-! ## Work -/

def workServer? (now : Timestamp) (p : Pair σ) : Option (Effects × Pair σ) :=
  (p.server.work? now).map fun (es, server) => p.actServer now es server

def workClient? (now : Timestamp) (p : Pair σ) : Option (Effects × Pair σ) :=
  (p.client.work? now).map fun (es, client) => p.actClient now es client

/-- Runs one side's tasks until none waits, at most `fuel` of them. -/
def runFor (work? : Pair σ → Option (Effects × Pair σ)) : Nat → Pair σ → Effects × Pair σ
  | 0, p => ([], p)
  | fuel + 1, p =>
    match work? p with
    | none => ([], p)
    | some (a, p) =>
      let (b, p) := runFor work? fuel p
      (a ++ b, p)

/-- Whether no task waits on either side. -/
def isIdle (p : Pair σ) : Bool :=
  p.server.peer.worker.size = 0 && p.client.endpoint.peer.worker.size = 0

/-- Lets the two workers take turns, at most `fuel` times. -/
def settleFor (now : Timestamp) : Nat → Pair σ → Effects × Pair σ
  | 0, p => ([], p)
  | fuel + 1, p =>
    if p.isIdle then ([], p)
    else
      let (a, p) := p.runFor (workServer? now) maxMoves
      let (b, p) := p.runFor (workClient? now) maxMoves
      let (c, p) := settleFor now fuel p
      (a ++ b ++ c, p)

def settle (now : Timestamp) (p : Pair σ) : Effects × Pair σ := settleFor now maxMoves p

end Pair
end PeerLink
