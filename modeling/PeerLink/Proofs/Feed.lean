import PeerLink.Line
import PeerLink.Peer
import PeerLink.Proofs.Coherence
import PeerLink.Proofs.MessageFrames

/-! # Feeds

A requester and a responder that serves a tree in memory, joined by a link.

* `Encoding.carry`: a message as the other side decodes it.
* `Feed`: both of them, their tasks that wait, and the messages on their way.
* `Feed.Move`, `Feed.after`: what can happen, and what comes of it. A task is run whole, and of
  those that wait any may be next. Messages are encoded, and decoded when they arrive.
* `Feed.Reachable`: the feeds that moves lead to while there are numbers left and all that is sent
  can be read back.
-/

namespace PeerLink
set_option autoImplicit false

open Json (Value)

/-! ## Encodings -/

/-- Messages as lines, or in frames with bodies of a codec. -/
inductive Encoding
  | lines
  | frames (codec : BodyCodec)

/-- What a decoder has of a message once all of it has come. -/
def Encoding.carry (c : Encoding) (m : Message) : Except FrameError Inbound :=
  match c with
  | .lines => Inbound.ofLine m.line.trim
  | .frames codec => Inbound.ofFrame codec { m.template with body := m.bodyBytes codec }

/-- The document of a message reads back, and its numbers fit into their words. -/
def Encoding.Reads (c : Encoding) (m : Message) : Prop :=
  match c with
  | .lines => (Envelope.ofMessage m).InWords ∧
    Envelope.shape.read? m.line.trim = some (Envelope.ofMessage m).toJson.sorted
  | .frames codec => m.Sound codec

theorem Envelope.toInbound_read (m : Message) :
    (Envelope.ofMessage m).read.toInbound = .ok (.message m.read) := by
  cases m with
  | ping => rfl
  | request r =>
    simp [Envelope.toInbound, Envelope.isEmpty, Envelope.read, Envelope.ofMessage,
      Method.parse_name, getD_listed, Message.read, Request.read]
  | response r =>
    simp [Envelope.toInbound, Envelope.isEmpty, Envelope.read, Envelope.ofMessage,
      getD_map_listed, Message.read, Response.read]

theorem Encoding.carry_lines {m : Message} (h : Encoding.lines.Reads m) :
    Encoding.lines.carry m = .ok (.message m.read) := by
  obtain ⟨hwords, hread⟩ := h
  have henvelope : Envelope.read? m.line.trim = some (Envelope.ofMessage m).read := by
    rw [Envelope.read?, hread, Option.bind_some, Envelope.ofJson?_toJson hwords]
  rw [carry, Inbound.ofLine, henvelope]
  exact Envelope.toInbound_read m

theorem Encoding.carry_of_reads {c : Encoding} {m : Message} (h : c.Reads m)
    (hping : m ≠ .ping) : c.carry m = .ok (.message m.read) := by
  cases c with
  | lines => exact carry_lines h
  | frames codec =>
    exact Inbound.ofFrame_headed h.words h.codec hping ⟨rfl, rfl, rfl, rfl, rfl, rfl⟩ rfl

/-! ## Feeds -/

structure Feed where
  requester : Requester := {}
  responder : Responder := {}
  tree : MemoryTree Binding
  tasks : List PeerTask := []
  /-- Messages on their way to the responder. -/
  up : List Message := []
  /-- Messages on their way to the requester. -/
  down : List Message := []

namespace Feed

/-- Nothing has been asked for. -/
def start (tree : MemoryTree Binding) : Feed := { tree }

/-- What can happen. Tasks are chosen by their place among those that wait. -/
inductive Move
  | subscribe (path : String) (qos : Nat) (handler : Handler)
  | unsubscribe (sid : Nat)
  | setValue (now : Timestamp) (path : String) (v : Value)
  | writeValue (now : Timestamp) (path : String) (v : Value) (permit : Permission)
  | run (now : Timestamp) (place : Nat)
  | deliverUp
  | deliverDown (now : Timestamp)
  | disconnect
  | connect (link : Nat)

def asked? : RequesterEffect → Option Message
  | .send o => some o.message
  | .tell _ | .scheduleFlush => none

def answered? : ResponderEffect → Option Message
  | .send o => some o.message
  | .schedule _ => none

def afterAsking (f : Feed) (es : Requester.Effects) (requester : Requester) : Feed :=
  { f with
    requester
    tasks := f.tasks ++ es.filterMap Peer.askedTask?
    up := f.up ++ es.filterMap asked? }

def afterAnswering (f : Feed) (es : Responder.Effects) (responder : Responder)
    (tree : MemoryTree Binding) : Feed :=
  { f with
    responder, tree
    tasks := f.tasks ++ es.filterMap Peer.answeredTask?
    down := f.down ++ es.filterMap answered? }

/-- The tree has changed, and those who watch it are told. -/
def change (f : Feed) (notices : List (Notice Binding)) (tree : MemoryTree Binding) : Feed :=
  let (es, r) := f.responder.onChanges notices
  f.afterAnswering es r tree

def perform (now : Timestamp) (f : Feed) : PeerTask → Feed
  | .flush =>
    let (es, q) := f.requester.flush
    f.afterAsking es q
  | .respond task =>
    let (es, r, tree) := f.responder.run now f.tree task
    f.afterAnswering es r tree
  | .ping _ => f

/-- A message has come to the responder. -/
def takeUp (f : Feed) : Except FrameError Inbound → Feed
  | .ok (.message (.request req)) =>
    let (es, r) := f.responder.handle req
    f.afterAnswering es r f.tree
  | .ok (.rejected rid e) => f.afterAnswering (f.responder.reject rid e) f.responder f.tree
  | .ok (.message _) | .error _ => f

/-- A message has come to the requester. -/
def takeDown (now : Timestamp) (f : Feed) : Except FrameError Inbound → Feed
  | .ok (.message (.response resp)) =>
    let (es, q) := f.requester.handleResponse now resp
    f.afterAsking es q
  | .ok _ | .error _ => f

/-- Both sides lose the connection, and with it all that was on its way. -/
def cut (f : Feed) : Feed :=
  let (es, q) := f.requester.disconnect
  let (responder, tree) := f.responder.disconnect f.tree
  { f.afterAsking es q with responder, tree, up := [], down := [] }

def after (carry : Message → Except FrameError Inbound) (f : Feed) : Move → Feed
  | .subscribe path qos handler =>
    let (_, es, q) := f.requester.subscribe path qos handler
    f.afterAsking es q
  | .unsubscribe sid =>
    let (_, es, q) := f.requester.unsubscribe sid
    f.afterAsking es q
  | .setValue now path v =>
    let (notices, tree) := f.tree.setValue now path v
    f.change notices tree
  | .writeValue now path v permit =>
    let (_, notices, tree) := f.tree.writeValue now path v permit
    f.change notices tree
  | .run now place =>
    match f.tasks[place]? with
    | none => f
    | some task => { f with tasks := f.tasks.eraseIdx place }.perform now task
  | .deliverUp =>
    match f.up with
    | [] => f
    | m :: up => { f with up }.takeUp (carry m)
  | .deliverDown now =>
    match f.down with
    | [] => f
    | m :: down => { f with down }.takeDown now (carry m)
  | .disconnect => f.cut
  | .connect link =>
    if f.requester.isConnected then f
    else
      { f with requester := f.requester.connect link, responder := f.responder.connect link }

/-- There is a number for a new subscription, and a new value reads back. -/
def Move.Fits (f : Feed) : Move → Prop
  | .subscribe .. => f.requester.subscriptions.nextSid < wordBound
  | .setValue now _ v | .writeValue now _ v _ => ValueUpdate.Travels { value := v, time := now }
  | _ => True

/-- All messages on their way can be read back. -/
def Legible (c : Encoding) (f : Feed) : Prop := ∀ m ∈ f.up ++ f.down, c.Reads m

inductive Reachable (c : Encoding) (tree : MemoryTree Binding) : Feed → Prop
  | start : Reachable c tree (start tree)
  | move {f : Feed} (h : Reachable c tree f) (m : Move) (fits : m.Fits f)
      (legible : (f.after c.carry m).Legible c) : Reachable c tree (f.after c.carry m)

/-- No task waits, and no message is on its way. -/
structure Quiet (f : Feed) : Prop where
  tasks : f.tasks = []
  up : f.up = []
  down : f.down = []

theorem Reachable.legible {c : Encoding} {tree : MemoryTree Binding} {f : Feed}
    (h : Reachable c tree f) : f.Legible c := by
  cases h with
  | start => exact fun m hm => absurd hm List.not_mem_nil
  | move _ _ _ legible => exact legible

/-! ## Messages on their way -/

end Feed

/-- A batch as a request. -/
def RegistryOp.request (rid : Nat) : RegistryOp → Request
  | .subscribe paths => { rid, method := .subscribe, paths }
  | .unsubscribe sids => { rid, method := .unsubscribe, sids }

theorem RegistryOp.read_request (rid : Nat) (op : RegistryOp) :
    (op.request rid).read = op.request rid := by
  cases op <;> rfl

theorem RegistryOp.handle_request (r : Responder) (rid : Nat) (op : RegistryOp) :
    r.handle (op.request rid) = r.applyBatch rid op := by
  cases op <;> rfl

namespace Feed

/-- Requests that ask for batches. -/
inductive Asks : List Message → List RegistryOp → Prop
  | nil : Asks [] []
  | cons {ms : List Message} {ops : List RegistryOp} (rid : Nat) (op : RegistryOp)
      (h : Asks ms ops) : Asks (.request (op.request rid) :: ms) (op :: ops)

/-- Responses that bring values, or only say that a batch has come. -/
inductive Brings : List Message → List SubscriptionUpdate → Prop
  | nil : Brings [] []
  | closed {ms : List Message} {us : List SubscriptionUpdate} (rid : Nat) (h : Brings ms us) :
      Brings (.response (.closed rid) :: ms) us
  | values {ms : List Message} {us : List SubscriptionUpdate} (vs : List SubscriptionUpdate)
      (h : Brings ms us) :
      Brings (.response (.opened Response.updateRid (vs.map fun u => u.toJson.sorted)) :: ms)
        (vs ++ us)

variable {ms ms' : List Message} {ops ops' : List RegistryOp} {us us' : List SubscriptionUpdate}

theorem Asks.append (h : Asks ms ops) (h' : Asks ms' ops') : Asks (ms ++ ms') (ops ++ ops') := by
  induction h with
  | nil => exact h'
  | cons rid op _ ih => exact .cons rid op ih

theorem Asks.of_nil (h : Asks [] ops) : ops = [] := by cases h; rfl

theorem Brings.append (h : Brings ms us) (h' : Brings ms' us') :
    Brings (ms ++ ms') (us ++ us') := by
  induction h with
  | nil => exact h'
  | closed rid _ ih => exact .closed rid ih
  | values vs _ ih =>
    rw [List.append_assoc]
    exact .values vs ih

theorem Brings.of_nil (h : Brings [] us) : us = [] := by cases h; rfl

end Feed
end PeerLink
