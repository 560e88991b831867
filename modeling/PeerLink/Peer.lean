import PeerLink.Requester
import PeerLink.Responder
import PeerLink.Timer.Worker

/-! # Peers

* `Peer`: a requester, a responder with its tree, or both, and the worker that runs their tasks. A
  peer outlives its connections.
* `Peer.dispatch`: hands a message to the side that it is for. What neither side serves is refused.
* `Peer.work?`: runs the task that has waited longest.
-/

namespace PeerLink
set_option autoImplicit false

inductive PeerTask
  | flush
  | respond (t : ResponderTask)
  /-- A sign of life on a connection. -/
  | ping (link : Nat)

inductive PeerEffect
  | send (o : Outgoing)
  | tell (e : HandlerEvent)

structure Peer (σ : Type) where
  requester : Option Requester := none
  responder : Option Responder := none
  tree : σ
  /-- The way to the writer of the connection it is bound to. -/
  outlet : Option Outlet := none
  worker : Worker PeerTask := {}

namespace Peer
variable {σ : Type} [ValueTree σ]

abbrev Effects := List PeerEffect

def sends (os : List Outgoing) : Effects := os.map .send

/-! ## The two sides -/

def asked? : RequesterEffect → Option PeerEffect
  | .send o => some (.send o)
  | .tell e => some (.tell e)
  | .scheduleFlush => none

def askedTask? : RequesterEffect → Option PeerTask
  | .scheduleFlush => some .flush
  | _ => none

def answered? : ResponderEffect → Option PeerEffect
  | .send o => some (.send o)
  | .schedule _ => none

def answeredTask? : ResponderEffect → Option PeerTask
  | .send _ => none
  | .schedule t => some (.respond t)

/-- The peer after its requester has acted. -/
def afterAsking (p : Peer σ) (es : Requester.Effects) (r : Requester) : Effects × Peer σ :=
  (es.filterMap asked?,
    { p with requester := some r, worker := p.worker.submit (es.filterMap askedTask?) })

/-- The peer after its responder has acted. -/
def afterAnswering (p : Peer σ) (es : Responder.Effects) (r : Responder) : Effects × Peer σ :=
  (es.filterMap answered?,
    { p with responder := some r, worker := p.worker.submit (es.filterMap answeredTask?) })

/-- Lets the requester act, if there is one. -/
def ask {α : Type} (p : Peer σ) (act : Requester → α × Requester.Effects × Requester) :
    Option (α × Effects × Peer σ) :=
  p.requester.map fun r =>
    let (a, es, r) := act r
    (a, p.afterAsking es r)

/-- Lets the tree change, and tells those who watch it. -/
def change (p : Peer σ) (act : σ → List (Notice Binding) × σ) : Effects × Peer σ :=
  let (notices, tree) := act p.tree
  let p := { p with tree }
  match p.responder with
  | none => ([], p)
  | some r =>
    let (es, r) := r.onChanges notices
    p.afterAnswering es r

/-! ## Connections -/

def connect (p : Peer σ) (link : Nat) : Peer σ :=
  { p with
    requester := p.requester.map (·.connect link)
    responder := p.responder.map (·.connect link)
    outlet := some ⟨link, true⟩ }

def loseWriter (p : Peer σ) (link : Nat) : Peer σ :=
  { p with
    requester := p.requester.map (·.loseWriter link)
    responder := p.responder.map (·.loseWriter link)
    outlet := p.outlet.map (·.lose link) }

def disconnectRequester (p : Peer σ) : Effects × Peer σ :=
  match p.requester with
  | none => ([], p)
  | some r =>
    let (es, r) := r.disconnect
    p.afterAsking es r

def disconnectResponder (p : Peer σ) : Peer σ :=
  match p.responder with
  | none => p
  | some r =>
    let (r, tree) := r.disconnect p.tree
    { p with responder := some r, tree }

def disconnect (p : Peer σ) : Effects × Peer σ :=
  let (es, p) := p.disconnectRequester
  (es, { p.disconnectResponder with outlet := none })

/-! ## Messages -/

def noResponder : LinkError := ⟨.notImplemented, "this link does not serve requests", none⟩

/-- Refuses a request that no responder sees. -/
def refuse (p : Peer σ) (rid : Nat) (e : LinkError) : Effects :=
  sends (sendTo p.outlet (.response (.failed rid e)))

def dispatchRequest (p : Peer σ) (req : Request) : Effects × Peer σ :=
  match p.responder with
  | some r =>
    let (es, r) := r.handle req
    p.afterAnswering es r
  | none => (if req.method = .close then [] else p.refuse req.rid noResponder, p)

def dispatchResponse (now : Timestamp) (p : Peer σ) (resp : Response) : Effects × Peer σ :=
  match p.requester with
  | some r =>
    let (es, r) := r.handleResponse now resp
    p.afterAsking es r
  | none => ([], p)

def dispatchRejected (p : Peer σ) (rid : Nat) (e : LinkError) : Effects × Peer σ :=
  match p.responder with
  | some r => p.afterAnswering (r.reject rid e) r
  | none => (p.refuse rid e, p)

/-- Hands on what a decoder found. -/
def dispatch (now : Timestamp) (p : Peer σ) : Inbound → Effects × Peer σ
  | .message .ping => ([], p)
  | .message (.request r) => p.dispatchRequest r
  | .message (.response r) => p.dispatchResponse now r
  | .rejected rid e => p.dispatchRejected rid e

/-! ## Tasks -/

/-- A ping for the connection that asked for it. -/
def ping (p : Peer σ) (link : Nat) : Effects :=
  sends (sendTo (p.outlet.filter (·.link = link)) .ping)

def runTask (now : Timestamp) (p : Peer σ) : PeerTask → Effects × Peer σ
  | .flush =>
    match p.requester with
    | none => ([], p)
    | some r =>
      let (es, r) := r.flush
      p.afterAsking es r
  | .respond t =>
    match p.responder with
    | none => ([], p)
    | some r =>
      let (es, r, tree) := r.run now p.tree t
      { p with tree }.afterAnswering es r
  | .ping link => (p.ping link, p)

/-- Runs the task that has waited longest; nothing if none waits. -/
def work? (now : Timestamp) (p : Peer σ) : Option (Effects × Peer σ) :=
  p.worker.take?.map fun (work, worker) =>
    let (task, worker) := worker.start work
    let p := { p with worker }
    let (es, p) :=
      match task with
      | none => ([], p)
      | some t => p.runTask now t
    (es, { p with worker := p.worker.finish work })

/-- Runs tasks until none waits, at most `fuel` of them. -/
def settleFor (now : Timestamp) : Nat → Peer σ → Effects × Peer σ
  | 0, p => ([], p)
  | fuel + 1, p =>
    match p.work? now with
    | none => ([], p)
    | some (a, p) =>
      let (b, p) := settleFor now fuel p
      (a ++ b, p)

/-- More tasks than can run before none waits: one that runs brings at most one flush of values. -/
def backlog (p : Peer σ) : Nat := 2 * p.worker.size + 2

def settle (now : Timestamp) (p : Peer σ) : Effects × Peer σ := settleFor now p.backlog p

end Peer
end PeerLink
