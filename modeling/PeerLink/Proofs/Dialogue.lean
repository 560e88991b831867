import PeerLink.Proofs.Feed
import PeerLink.Proofs.Lanes

/-! # Dialogues

A peer that asks and a peer that serves a tree, joined by a link.

* `Peer.workAt?`: runs any of the tasks that wait, not only the one that has waited longest.
* `Dialogue`: both peers, and the messages on their way between them.
* `Dialogue.Move`, `Dialogue.after`: what can happen, and what comes of it. Each peer loses the
  connection on its own, and all that is on its way is lost with it.
* `Dialogue.lanes`: the streams of both ends.
-/

namespace PeerLink
set_option autoImplicit false

open Json (Value)

variable {σ : Type}

/-! ## Tasks in any order -/

/-- The work at a place among that which waits, and the rest. -/
def Worker.takeAt? {τ : Type} (w : Worker τ) (place : Nat) : Option (Work τ × Worker τ) :=
  w.queue[place]?.map fun x => (x, { w with queue := w.queue.eraseIdx place })

theorem Worker.takeAt?_zero {τ : Type} (w : Worker τ) : w.takeAt? 0 = w.take? := by
  unfold takeAt? take?
  cases w.queue <;> rfl

namespace Peer
variable [ValueTree σ]

/-- Runs a piece of work that has been taken from the queue. -/
def runWork (now : Timestamp) (p : Peer σ) (work : Work PeerTask) (worker : Worker PeerTask) :
    Effects × Peer σ :=
  let (task, worker) := worker.start work
  let p := { p with worker }
  let (es, p) :=
    match task with
    | none => ([], p)
    | some t => p.runTask now t
  (es, { p with worker := p.worker.finish work })

def workAt? (now : Timestamp) (place : Nat) (p : Peer σ) : Option (Effects × Peer σ) :=
  (p.worker.takeAt? place).map fun x => p.runWork now x.1 x.2

theorem workAt?_zero (now : Timestamp) (p : Peer σ) : p.workAt? now 0 = p.work? now := by
  rw [workAt?, Worker.takeAt?_zero]
  rfl

end Peer

/-! ## Dialogues -/

structure Dialogue (σ : Type) where
  client : Peer σ
  server : Peer σ
  /-- Requests on their way to the server. -/
  up : List Message := []
  /-- Responses on their way to the client. -/
  down : List Message := []

namespace Dialogue

/-- Nothing has been asked for, and there is no connection. -/
def start (t t' : σ) : Dialogue σ where
  client := { requester := some {}, tree := t }
  server := { responder := some {}, tree := t' }

inductive Move (σ : Type)
  | list (path : String) (handler : Handler)
  | invoke (path : String) (params : Option Value) (handler : Handler)
  | set (path : String) (value : Value) (permit : Permission) (handler : Handler)
  | remove (path : String) (handler : Handler)
  | subscribe (path : String) (qos : Nat) (handler : Handler)
  | unsubscribe (sid : Nat)
  | close (rid : Nat)
  /-- The tree changes by itself. -/
  | change (act : σ → List (Notice Binding) × σ)
  | runClient (now : Timestamp) (place : Nat)
  | runServer (now : Timestamp) (place : Nat)
  | deliverUp (now : Timestamp)
  | deliverDown (now : Timestamp)
  | hangUpClient
  | hangUpServer
  | connect (link : Nat)

/-- Whether both peers have the connection; only then do messages arrive. -/
def isWhole (d : Dialogue σ) : Bool := d.client.outlet.isSome && d.server.outlet.isSome

def sent? : PeerEffect → Option Message
  | .send o => some o.message
  | .tell _ => none

def afterClient (d : Dialogue σ) (act : Peer.Effects × Peer σ) : Dialogue σ :=
  { d with client := act.2, up := if d.isWhole then d.up ++ act.1.filterMap sent? else [] }

def afterServer (d : Dialogue σ) (act : Peer.Effects × Peer σ) : Dialogue σ :=
  { d with server := act.2, down := if d.isWhole then d.down ++ act.1.filterMap sent? else [] }

def ask {α : Type} (d : Dialogue σ) (act : Requester → α × Requester.Effects × Requester) :
    Dialogue σ :=
  match d.client.ask act with
  | none => d
  | some (_, act) => d.afterClient act

/-- The oldest request is decoded, and handed on if it is sound. -/
def takeUp (c : Encoding) (now : Timestamp) (d : Dialogue σ) : Dialogue σ :=
  match d.up with
  | [] => d
  | m :: up =>
    match c.carry m with
    | .error _ => { d with up }
    | .ok x => { d with up }.afterServer (d.server.dispatch now x)

def takeDown (c : Encoding) (now : Timestamp) (d : Dialogue σ) : Dialogue σ :=
  match d.down with
  | [] => d
  | m :: down =>
    match c.carry m with
    | .error _ => { d with down }
    | .ok x => { d with down }.afterClient (d.client.dispatch now x)

/-- All messages on their way are read as they were written. -/
def Legible (c : Encoding) (d : Dialogue σ) : Prop :=
  ∀ m ∈ d.up ++ d.down, c.carry m = .ok (.message m.read)

/-- Documents that read back make messages that do. -/
theorem legible_of_reads {c : Encoding} {d : Dialogue σ}
    (h : ∀ m ∈ d.up ++ d.down, c.Reads m ∧ m ≠ .ping) : d.Legible c :=
  fun m hm => Encoding.carry_of_reads (h m hm).1 (h m hm).2

variable [ValueTree σ]

def after (c : Encoding) (d : Dialogue σ) : Move σ → Dialogue σ
  | .list path handler => d.ask (·.list path handler)
  | .invoke path params handler => d.ask (·.invoke path params handler)
  | .set path value permit handler => d.ask (·.set path value permit handler)
  | .remove path handler => d.ask (·.remove path handler)
  | .subscribe path qos handler => d.ask (·.subscribe path qos handler)
  | .unsubscribe sid => d.ask (·.unsubscribe sid)
  | .close rid => d.ask (·.close rid)
  | .change act => d.afterServer (d.server.change act)
  | .runClient now place =>
    match d.client.workAt? now place with
    | none => d
    | some act => d.afterClient act
  | .runServer now place =>
    match d.server.workAt? now place with
    | none => d
    | some act => d.afterServer act
  | .deliverUp now => d.takeUp c now
  | .deliverDown now => d.takeDown c now
  | .hangUpClient => { d with client := d.client.disconnect.2, up := [], down := [] }
  | .hangUpServer => { d with server := d.server.disconnect.2, up := [], down := [] }
  | .connect link =>
    if d.client.outlet.isSome || d.server.outlet.isSome then d
    else { d with client := d.client.connect link, server := d.server.connect link }

inductive Reachable (c : Encoding) (t t' : σ) : Dialogue σ → Prop
  | start : Reachable c t t' (start t t')
  | move {d : Dialogue σ} (h : Reachable c t t' d) (m : Move σ)
      (legible : (d.after c m).Legible c) : Reachable c t t' (d.after c m)

theorem Reachable.legible {c : Encoding} {t t' : σ} {d : Dialogue σ}
    (h : Reachable c t t' d) : d.Legible c := by
  cases h with
  | start => exact fun m hm => absurd hm List.not_mem_nil
  | move _ _ legible => exact legible

end Dialogue

/-! ## Streams of a dialogue -/

/-- What the request of a number was sent for, while it is open. -/
def Requester.awaits (q : Requester) (rid : Nat) : Option Purpose :=
  (q.pending.get? rid).map fun s => (s.method, s.path)

/-- What the stream of a number was opened for, while it is served. -/
def Responder.serves (r : Responder) (rid : Nat) : Option Purpose :=
  (r.inbound.get? rid).map fun c => (c.method, some c.path)

namespace Message

/-- What a message means for the stream of a number when it reaches the responder. -/
def signal? (rid : Nat) : Message → Option Signal
  | .request req =>
    if req.rid = rid then
      some (if req.method = .close then .closes else .opens (req.method, req.path))
    else none
  | _ => none

/-- Whether a message closes the stream of a number when it reaches the requester. Values for
subscriptions belong to no stream. -/
def ending? (rid : Nat) : Message → Option Bool
  | .response resp =>
    if resp.rid = rid ∧ rid ≠ Response.updateRid then some resp.isClosing else none
  | _ => none

theorem signal?_read (rid : Nat) (m : Message) : m.read.signal? rid = m.signal? rid := by
  cases m <;> rfl

theorem ending?_read (rid : Nat) (m : Message) : m.read.ending? rid = m.ending? rid := by
  cases m <;> rfl

theorem signal?_other {rid : Nat} {req : Request} (h : rid ≠ req.rid) :
    (Message.request req).signal? rid = none := if_neg (Ne.symm h)

theorem ending?_other {rid : Nat} {resp : Response} (h : rid ≠ resp.rid) :
    (Message.response resp).ending? rid = none := if_neg fun he => h he.1.symm

end Message

namespace Dialogue

/-- The streams of a requester and a responder with messages on their way between them. -/
def lanes (q : Requester) (r : Responder) (up down : List Message) : Lanes where
  next := q.pending.nextRid
  lane rid :=
    { asked := q.awaits rid
      served := r.serves rid
      up := up.filterMap (Message.signal? rid)
      down := down.filterMap (Message.ending? rid) }

end Dialogue
end PeerLink
