import PeerLink.Peer
import PeerLink.Session

/-! # Endpoints

* `Endpoint`: a peer and the session that it is bound to. What the peer sends goes to the writer of
  the session, and what its reader decodes goes to the peer.
* `Endpoint.receive`: bytes from the other side; `Endpoint.work?`: a task of the peer.
-/

namespace PeerLink
set_option autoImplicit false

inductive EndpointEffect
  /-- Bytes for the pipe of a connection. -/
  | wrote (link : Nat) (bs : Bytes)
  | told (e : HandlerEvent)

structure Endpoint (σ : Type) where
  config : LinkConfig
  peer : Peer σ
  session : Option Session := none
  /-- How many sessions there have been. -/
  links : Nat := 0

namespace Endpoint
variable {σ : Type} [ValueTree σ]

abbrev Effects := List EndpointEffect

def clock (e : Endpoint σ) : Nat := e.peer.worker.now

/-! ## The writer -/

def told? : PeerEffect → Option EndpointEffect
  | .tell e => some (.told e)
  | .send _ => none

/-- Hands a message to the writer of its connection. -/
def deliver (s : Session) : PeerEffect → Session
  | .send o => if o.link = s.link then s.push o.message else s
  | .tell _ => s

/-- The endpoint after its peer has acted: messages wait for the writer. -/
def after (e : Endpoint σ) (es : Peer.Effects) (peer : Peer σ) : Effects × Endpoint σ :=
  (es.filterMap told?,
    { e with peer, session := e.session.map fun s => es.foldl deliver s })

/-- The writer writes all it can. When it has ended, nothing more can be sent to it. -/
def write (e : Endpoint σ) : Effects × Endpoint σ :=
  match e.session with
  | none => ([], e)
  | some s =>
    let (bytes, s) := s.write
    (if bytes.isEmpty then [] else [.wrote s.link bytes],
      { e with
        session := some s
        peer := if s.writes then e.peer else e.peer.loseWriter s.link })

def act (e : Endpoint σ) (es : Peer.Effects) (peer : Peer σ) : Effects × Endpoint σ :=
  let (a, e) := e.after es peer
  let (b, e) := e.write
  (a ++ b, e)

/-! ## The reader -/

/-- Decodes and hands on at most `fuel` messages. What cannot be decoded is passed over if the bytes
after it can be read; otherwise the reader ends. -/
def readFor (now : Timestamp) : Nat → Endpoint σ → Effects × Endpoint σ
  | 0, e => ([], e)
  | fuel + 1, e =>
    match e.session with
    | none => ([], e)
    | some s =>
      match s.next with
      | (.ok none, s) => ([], { e with session := some s })
      | (.error err, s) =>
        if err.isFatal then ([], { e with session := some (s.endReader (.protocol err)) })
        else readFor now fuel { e with session := some s }
      | (.ok (some i), s) =>
        let (es, peer) := e.peer.dispatch now i
        let (a, e) := { e with session := some s }.after es peer
        let (b, e) := readFor now fuel e
        (a ++ b, e)

/-- One read of the reader. -/
def read (now : Timestamp) (e : Endpoint σ) (chunk : Bytes) : Effects × Endpoint σ :=
  match e.session with
  | none => ([], e)
  | some s =>
    if s.reads then
      let s := s.feed e.clock chunk
      { e with session := some s }.readFor now (s.framer.buffered + 1)
    else ([], e)

def readAll (now : Timestamp) : Endpoint σ → List Bytes → Effects × Endpoint σ
  | e, [] => ([], e)
  | e, c :: cs =>
    let (a, e) := e.read now c
    let (b, e) := readAll now e cs
    (a ++ b, e)

/-- Bytes come through the pipe; the writer goes on when all are read. -/
def receive (now : Timestamp) (e : Endpoint σ) (bs : Bytes) : Effects × Endpoint σ :=
  let (a, e) := e.readAll now (bs.chunks Session.chunkSize)
  let (b, e) := e.write
  (a ++ b, e)

/-! ## Sessions -/

/-- Binds the peer to a session on a new pipe. -/
def connect (e : Endpoint σ) : Endpoint σ :=
  let link := e.links + 1
  { e with
    peer := e.peer.connect link
    session := some (.begin link e.config e.clock)
    links := link }

/-- Ends the session, and closes everything that was open. -/
def disconnect (e : Endpoint σ) : Effects × Endpoint σ :=
  let (es, peer) := e.peer.disconnect
  { e with session := none }.after es peer

def hangUp (e : Endpoint σ) : Endpoint σ := { e with session := e.session.map (·.hangUp) }

def advance (e : Endpoint σ) (ms : Nat) : Endpoint σ :=
  let peer := { e.peer with worker := e.peer.worker.advance ms }
  { e with peer, session := e.session.map fun s => s.expire peer.worker.now }

def reason? (e : Endpoint σ) : Option DisconnectReason := e.session.bind (·.reasons.head?)

/-- Takes the reasons why reader and writer have ended. -/
def takeReasons (e : Endpoint σ) : List DisconnectReason × Endpoint σ :=
  match e.session with
  | none => ([], e)
  | some s =>
    let (reasons, s) := s.takeReasons
    (reasons, { e with session := some s })

/-! ## Work -/

def ask {α : Type} (e : Endpoint σ) (call : Requester → α × Requester.Effects × Requester) :
    Option (α × Effects × Endpoint σ) :=
  (e.peer.ask call).map fun (a, es, peer) => (a, e.act es peer)

def change (e : Endpoint σ) (call : σ → List (Notice Binding) × σ) : Effects × Endpoint σ :=
  let (es, peer) := e.peer.change call
  e.act es peer

/-- Runs the task that has waited longest. -/
def work? (now : Timestamp) (e : Endpoint σ) : Option (Effects × Endpoint σ) :=
  (e.peer.work? now).map fun (es, peer) => e.act es peer

/-- Runs tasks until none waits, at most `fuel` of them. -/
def settleFor (now : Timestamp) : Nat → Endpoint σ → Effects × Endpoint σ
  | 0, e => ([], e)
  | fuel + 1, e =>
    match e.work? now with
    | none => ([], e)
    | some (a, e) =>
      let (b, e) := settleFor now fuel e
      (a ++ b, e)

def settle (now : Timestamp) (e : Endpoint σ) : Effects × Endpoint σ :=
  settleFor now e.peer.backlog e

end Endpoint
end PeerLink
