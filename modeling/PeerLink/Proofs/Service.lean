import PeerLink.Proofs.StreamBook

/-! # Services

A responder that serves a tree of any kind. Workers take tasks in any order, and each of them may
take its time between its call to the tree and its answer.

* `Service`: the responder, the tree, what workers have to do, and what has been accepted and sent.
* `Service.Move`, `Service.after`: what can happen, and what comes of it. Requests are handed on
  only while a connection is bound; each connection has a number of its own.
* `Service.book`: the book of accepted streams.
* `Service.Fair`: what a responder owes to the requests it has accepted, and to those it refuses.
-/

namespace PeerLink
set_option autoImplicit false

/-- Whether a request of the method opens a stream. -/
def Method.opens : Method → Bool
  | .list | .invoke | .set => true
  | .subscribe | .unsubscribe | .close | .remove => false

structure Service (σ : Type) where
  responder : Responder := {}
  tree : Ledger σ
  tasks : List ResponderTask := []
  /-- What workers that have called the tree are about to answer. -/
  answers : List Reply := []
  links : Nat := 0
  /-- Connections that were bound in the place of another. -/
  rebinds : List Nat := []
  /-- All that has been sent. -/
  sent : List Outgoing := []
  accepted : List Accepted := []
  /-- What workers have sent, by their streams. -/
  replies : List SentReply := []

namespace Service
variable {σ : Type}

def start (t : σ) : Service σ := { tree := ⟨t, []⟩ }

/-! ## Moves -/

inductive Move (σ : Type)
  | connect
  | loseWriter (link : Nat)
  | disconnect
  | take (req : Request)
  /-- A request whose method is not known. -/
  | refuse (rid : Nat) (e : LinkError)
  /-- The tree changes by itself. -/
  | change (act : σ → List (Notice Binding) × σ)
  /-- A worker takes the task at a place, and calls the tree. -/
  | call (now : Timestamp) (place : Nat)
  /-- A worker answers what the tree has said. -/
  | answer (place : Nat)

def scheduled? : ResponderEffect → Option ResponderTask
  | .send _ => none
  | .schedule t => some t

def outgoing? : ResponderEffect → Option Outgoing
  | .send o => some o
  | .schedule _ => none

def acts (s : Service σ) (es : Responder.Effects) (responder : Responder) : Service σ :=
  { s with
    responder
    tasks := s.tasks ++ es.filterMap scheduled?
    sent := s.sent ++ es.filterMap outgoing? }

/-- The stream that a request opens. -/
def acceptance? (r : Responder) (link : Nat) (req : Request) : Option Accepted :=
  if req.method.opens then
    (r.checkOpen req).toOption.map fun path =>
      ⟨⟨req.rid, r.nextToken + 1⟩, req.method, path, link⟩
  else none

def connect (s : Service σ) : Service σ :=
  { s with
    responder := s.responder.connect (s.links + 1)
    links := s.links + 1
    rebinds := if s.responder.outlet.isSome then s.rebinds ++ [s.links + 1] else s.rebinds }

def take (s : Service σ) (req : Request) : Service σ :=
  match s.responder.outlet with
  | none => s
  | some outlet =>
    let (es, r) := s.responder.handle req
    { s.acts es r with
      accepted := s.accepted ++ (acceptance? s.responder outlet.link req).toList }

def refuse (s : Service σ) (rid : Nat) (e : LinkError) : Service σ :=
  match s.responder.outlet with
  | none => s
  | some _ => s.acts (s.responder.reject rid e) s.responder

def change (s : Service σ) (act : σ → List (Notice Binding) × σ) : Service σ :=
  let (notices, tree) := act s.tree.tree
  let (es, r) := s.responder.onChanges notices
  { s.acts es r with tree := { s.tree with tree } }

/-- The service when a worker has taken the answer at a place. -/
def withoutAnswer (s : Service σ) (place : Nat) : Service σ :=
  { s with answers := s.answers.eraseIdx place }

def answer [ValueTree σ] (s : Service σ) (x : Reply) : Service σ :=
  let (es, r, tree) := s.responder.give s.tree (some x)
  { s.acts es r with
    tree
    replies := s.replies ++ (es.filterMap outgoing?).map fun o => ⟨x.stream, o⟩ }

/-- A worker calls the tree. A task of the registry is run whole. -/
def call [ValueTree σ] (now : Timestamp) (s : Service σ) : ResponderTask → Service σ
  | .registry task =>
    let (es, r, tree) := s.responder.run now s.tree (.registry task)
    { s.acts es r with tree }
  | task =>
    let (x, notices, tree) := task.call now s.tree
    let (es, r) := s.responder.onChanges notices
    { s.acts es r with tree, answers := s.answers ++ x.toList }

def after [ValueTree σ] (s : Service σ) : Move σ → Service σ
  | .connect => s.connect
  | .loseWriter link => { s with responder := s.responder.loseWriter link }
  | .disconnect =>
    let (responder, tree) := s.responder.disconnect s.tree
    { s with responder, tree }
  | .take req => s.take req
  | .refuse rid e => s.refuse rid e
  | .change act => s.change act
  | .call now place =>
    match s.tasks[place]? with
    | none => s
    | some task => { s with tasks := s.tasks.eraseIdx place }.call now task
  | .answer place =>
    match s.answers[place]? with
    | none => s
    | some x => (s.withoutAnswer place).answer x

def ofMoves [ValueTree σ] (t : σ) (moves : List (Move σ)) : Service σ :=
  moves.foldl after (start t)

/-! ## The book -/

end Service

/-- The stream that a task is to answer on. -/
def ResponderTask.duty? : ResponderTask → Option Duty
  | .list s _ => some (.call s .list)
  | .invoke s _ _ => some (.call s .invoke)
  | .set s _ _ _ => some (.call s .set)
  | .reportClosed _ _ | .registry _ => none

namespace Service
variable {σ : Type}

/-- What the tree was told of streams that are over, and what it is still to be told. -/
def reports (s : Service σ) : List (String × Method) :=
  s.tree.closed ++ s.tasks.filterMap ResponderTask.report?

def duties (s : Service σ) : List Duty :=
  s.tasks.filterMap ResponderTask.duty? ++ s.answers.map .answer

def book (s : Service σ) : Book where
  inbound := s.responder.inbound
  nextToken := s.responder.nextToken
  bound := s.responder.outlet.map (·.link)
  links := s.links
  rebinds := s.rebinds
  accepted := s.accepted
  reports := s.reports
  duties := s.duties
  replies := s.replies

/-! ## What a responder owes -/

/-- Whether a request has to be refused. -/
def Rejects (r : Responder) (req : Request) : Prop :=
  req.method = .remove ∨
    req.method.opens = true ∧
      (req.path = none ∨ (∃ path, req.path = some path ∧ Path.valid path = false) ∨
        (r.inbound.get? req.rid).isSome = true)

/-- What a worker sends with an answer. -/
def sentWith (s : Service σ) (x : Reply) : List SentReply :=
  (sendTo s.responder.outlet (.response x.response)).map fun o => ⟨x.stream, o⟩

structure Fair [ValueTree σ] (s : Service σ) : Prop where
  /-- Requests that were accepted have different streams. -/
  streams : (s.accepted.map (·.stream)).Nodup
  /-- An open stream is that of a request that was accepted. -/
  opened : ∀ rid c, s.responder.inbound.get? rid = some c → ∃ a ∈ s.accepted, a.Opens rid c
  /-- Each of them is either open or reported as closed, and reported once. -/
  reported : (s.accepted.map (·.report)).Perm
    (s.reports ++ s.responder.inbound.values.map (·.report))
  /-- What is reported, or scheduled to be, are the streams that are over now. -/
  leaves : ∀ m, (s.after m).reports.Perm (s.reports ++ s.book.left (s.after m).book)
  /-- At most one reply is sent for a request that was accepted. -/
  once : (s.replies.map (·.stream)).Nodup
  sent : (s.replies.map (·.outgoing)).Sublist s.sent
  /-- It is one that answers the request, and goes out on its connection or on one that was bound
  in the place of that. -/
  answered : ∀ r ∈ s.replies, ∃ a ∈ s.accepted, a.stream = r.stream ∧
    Rebound s.rebinds a.link r.outgoing.link ∧
    ∃ resp, r.outgoing.message = .response resp ∧ a.Answers resp
  /-- It goes out on the connection of its request, unless another took the place of one. -/
  own : s.rebinds = [] → ∀ r ∈ s.replies, ∀ a ∈ s.accepted, a.stream = r.stream →
    r.outgoing.link = a.link
  /-- It is sent while its own stream is open, on the connection that is bound. -/
  current : ∀ m, ∃ rs, (s.after m).replies = s.replies ++ rs ∧
    ∀ r ∈ rs, (s.responder.current? r.stream).isSome = true ∧
      s.responder.outlet.map (·.link) = some r.outgoing.link
  /-- A worker whose stream is open sends what it has to say. -/
  told : ∀ place x, s.answers[place]? = some x → (s.responder.current? x.stream).isSome = true →
    (s.after (.answer place)).replies = s.replies ++ s.sentWith x
  /-- A stream is over when the other peer closes it, with its last response, and with the
  connection. -/
  closed : ∀ req, s.responder.outlet.isSome = true → req.method = .close →
    (s.after (.take req)).responder.inbound.get? req.rid = none
  completed : ∀ place x, s.answers[place]? = some x →
    (s.responder.current? x.stream).isSome = true → x.response.isClosing = true →
    (s.after (.answer place)).responder.inbound.get? x.stream.rid = none
  disconnected : (s.after .disconnect).responder.inbound = {}
  /-- A worker whose stream is over says nothing and leaves all streams as they are. -/
  stale : ∀ place x, s.answers[place]? = some x → s.responder.current? x.stream = none →
    s.after (.answer place) = s.withoutAnswer place
  /-- No worker says anything or closes a stream before it answers. -/
  silent : ∀ now place task, s.tasks[place]? = some task → task.duty?.isSome = true →
    (s.after (.call now place)).responder.inbound = s.responder.inbound ∧
      (s.after (.call now place)).sent = s.sent
  /-- A request that is refused is answered with one error, and changes nothing else. -/
  rejected : ∀ req outlet, s.responder.outlet = some outlet → Rejects s.responder req →
    ∃ e, s.after (.take req) =
      { s with sent := s.sent ++ outlet.send (.response (.failed req.rid e)) }
  refused : ∀ rid e outlet, s.responder.outlet = some outlet → s.after (.refuse rid e) =
    { s with sent := s.sent ++ outlet.send (.response (.failed rid e)) }

end Service
end PeerLink
