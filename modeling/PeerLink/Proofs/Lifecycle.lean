import PeerLink.Connection
import PeerLink.Proofs.Histories
import PeerLink.Proofs.Unbound

/-! # Lifecycles of a connection

A connection that is started and stopped again and again, while attempts succeed or fail, sessions
end for any reason, and the policy answers as it likes.

* `LifeEvent`: what is seen of a connection; `Tally`: what a history of such events comes to.
* `Tally.Allows`: which event may come next.
* `Lifecycle`: a connection, the stop that is under way, and what has been seen.
* `Lifecycle.Move`, `Lifecycle.after`: what can happen, and what comes of it. Calls to start and to
  stop do not overlap; a stop returns when the driver it waits for is done.
* `Lifecycle.InTime`: no driver takes up a pipe so late that the clock ends before the first ping.
* `Lifecycle.Lawful`: what holds at every time.
-/

namespace PeerLink
set_option autoImplicit false

/-! ## Events -/

inductive LifeEvent
  /-- A call to start has set a driver going. -/
  | started
  /-- A call to stop has returned. -/
  | stopped
  | published (s : ConnectionState)
  | attempted
  /-- A driver has taken up the pipe of an attempt that had succeeded. -/
  | reached
  | opened
  | ended
deriving DecidableEq

def LifeEvent.ofEffect? : ConnectionEffect → Option LifeEvent
  | .endpoint _ | .asked _ _ => none
  | .published s => some (.published s)
  | .attempted => some .attempted
  | .opened => some .opened
  | .ended => some .ended

def LifeEvent.ofEffects (es : Connection.Effects) : List LifeEvent :=
  es.filterMap LifeEvent.ofEffect?

namespace Connection
variable {σ : Type}

def phaseOf? (c : Connection σ) (id : Nat) : Option Phase := (c.drivers.get? id).map (·.phase)

/-- Whether a driver finds in its next step that an attempt has succeeded: it does so unless it
looks first at a wish to stop. -/
def takesUp (c : Connection σ) (id : Nat) (stopFirst : Bool) : Bool :=
  c.phaseOf? id = some (.connecting .ok) && !(stopFirst && c.stopWished)

/-- All that is seen of a step of a driver: that it takes up a pipe, and what it does. -/
def seen (c : Connection σ) (id : Nat) (stopFirst : Bool) (es : Effects) : List LifeEvent :=
  (if c.takesUp id stopFirst then [.reached] else []) ++ LifeEvent.ofEffects es

end Connection

/-- The ways that a state may change. -/
inductive ConnectionState.Edge : ConnectionState → ConnectionState → Prop
  | attempt : Edge .disconnected .connecting
  | succeed : Edge .connecting .connected
  | fail : Edge .connecting .disconnected
  | close : Edge .connected .stopping
  | finish : Edge .stopping .disconnected

structure Tally where
  /-- The state that was published last. -/
  shown : ConnectionState := .disconnected
  attempts : Nat := 0
  reached : Nat := 0
  opened : Nat := 0
  ended : Nat := 0
  /-- Whether a start has come since the last stop returned. -/
  active : Bool := false

namespace Tally

def add (t : Tally) : LifeEvent → Tally
  | .started => { t with active := true }
  | .stopped => { t with active := false }
  | .published s => { t with shown := s }
  | .attempted => { t with attempts := t.attempts + 1 }
  | .reached => { t with reached := t.reached + 1 }
  | .opened => { t with opened := t.opened + 1 }
  | .ended => { t with ended := t.ended + 1 }

def addAll (t : Tally) (es : List LifeEvent) : Tally := es.foldl add t

def ofHistory (es : List LifeEvent) : Tally := ({} : Tally).addAll es

/-- Each pipe that was taken up has had its session, and the session is over. -/
def Balanced (t : Tally) : Prop := t.opened = t.reached ∧ t.ended = t.opened

/-- A session has begun, and it is not over. -/
def InSession (t : Tally) : Prop := t.opened = t.reached ∧ t.opened = t.ended + 1

def Allows (t : Tally) : LifeEvent → Prop
  | .started => t.Balanced ∧ t.shown = .disconnected
  | .stopped => t.Balanced ∧ t.shown = .disconnected
  | .published s =>
    (s = t.shown ∨ t.active = true ∧ t.shown.Edge s) ∧ (s = .disconnected → t.Balanced)
  | .attempted => t.active = true ∧ t.Balanced ∧ t.shown = .connecting
  | .reached =>
    t.active = true ∧ t.Balanced ∧ t.shown = .connecting ∧ t.reached < t.attempts
  | .opened => t.active = true ∧ t.reached = t.opened + 1 ∧ t.ended = t.opened
  | .ended => t.active = true ∧ t.InSession ∧ t.shown = .stopping

end Tally

/-! ## Lifecycles -/

structure Lifecycle (σ : Type) where
  connection : Connection σ
  /-- The stop that is under way, with the driver it waits for. -/
  stopping : Option (Option Nat) := none
  /-- The oldest first. -/
  history : List LifeEvent := []

namespace Lifecycle
variable {σ : Type}

/-- Nothing has happened yet. The peer may ask, serve a tree, or both. The clock may have an end. -/
def ofSettings (config : LinkConfig) (tree : σ) (asks serves : Bool) (horizon : Option Nat) :
    Lifecycle σ where
  connection :=
    { endpoint :=
        { config
          peer :=
            { requester := if asks then some {} else none
              responder := if serves then some {} else none
              tree } }
      horizon }

inductive Move (σ : Type)
  | start
  | askStop
  | confirmStop
  /-- A driver makes a step. -/
  | drive (id : Nat) (stopFirst : Bool)
  /-- What the policy and the connector will say from now on. -/
  | foresee (policy : ReconnectPolicy) (outcomes : List ConnectOutcome)
  /-- Reader or writer of the session ends. -/
  | report (why : DisconnectReason)
  | receive (now : Timestamp) (bs : Bytes)
  | hangUp
  | advance (ms : Nat)
  /-- Somebody asks something of the requester. -/
  | use (call : Requester.Call)
  /-- The tree changes by itself. -/
  | change (act : σ → List (Notice Binding) × σ)
  /-- A worker runs the task at a place. -/
  | work (now : Timestamp) (place : Nat)

def sees (l : Lifecycle σ) (es : List LifeEvent) (connection : Connection σ) : Lifecycle σ :=
  { l with connection, history := l.history ++ es }

def withEndpoint (l : Lifecycle σ) (endpoint : Endpoint σ) : Lifecycle σ :=
  { l with connection := { l.connection with endpoint } }

def start (l : Lifecycle σ) : Lifecycle σ :=
  if l.stopping.isSome then l
  else
    let (begun, connection) := l.connection.start
    { l with connection, history := l.history ++ if begun then [.started] else [] }

def askStop (l : Lifecycle σ) : Lifecycle σ :=
  if l.stopping.isSome then l
  else
    let (awaited, connection) := l.connection.askStop
    { l with connection, stopping := some awaited }

def confirmStop (l : Lifecycle σ) : Lifecycle σ :=
  match l.stopping with
  | none => l
  | some awaited =>
    if awaited.any l.connection.drivers.contains then l
    else
      let (es, connection) := l.connection.confirmStop
      { l.sees (LifeEvent.ofEffects es ++ [.stopped]) connection with stopping := none }

def foresee (l : Lifecycle σ) (policy : ReconnectPolicy) (outcomes : List ConnectOutcome) :
    Lifecycle σ :=
  { l with
    connection :=
      { l.connection with policy, connector := { l.connection.connector with outcomes } } }

/-- Whether a driver takes up a pipe and then cannot set the timer that keeps the session alive. -/
def overruns (l : Lifecycle σ) : Move σ → Bool
  | .drive id stopFirst => l.connection.takesUp id stopFirst && l.connection.overruns
  | _ => false

variable [ValueTree σ]

def after (l : Lifecycle σ) : Move σ → Lifecycle σ
  | .start => l.start
  | .askStop => l.askStop
  | .confirmStop => l.confirmStop
  | .drive id stopFirst =>
    match l.connection.step? id stopFirst with
    | none => l
    | some (es, connection) => l.sees (l.connection.seen id stopFirst es) connection
  | .foresee policy outcomes => l.foresee policy outcomes
  | .report why => l.withEndpoint (l.connection.endpoint.report why)
  | .receive now bs => l.withEndpoint (l.connection.endpoint.receive now bs).2
  | .hangUp => l.withEndpoint l.connection.endpoint.hangUp
  | .advance ms => l.withEndpoint (l.connection.endpoint.advance ms)
  | .use call =>
    if call.uses then
      match l.connection.endpoint.use? call with
      | none => l
      | some act => l.withEndpoint act.2.2
    else l
  | .change act => l.withEndpoint (l.connection.endpoint.change act).2
  | .work now place =>
    match l.connection.endpoint.workAt? now place with
    | none => l
    | some act => l.withEndpoint act.2

def ofMoves (l : Lifecycle σ) (moves : List (Move σ)) : Lifecycle σ := moves.foldl after l

/-- Whenever a driver takes up a pipe, the clock can name the time of the first ping. -/
def InTime : Lifecycle σ → List (Move σ) → Prop
  | _, [] => True
  | l, m :: moves => l.overruns m = false ∧ (l.after m).InTime moves

instance decidableInTime : (l : Lifecycle σ) → (moves : List (Move σ)) →
    Decidable (l.InTime moves)
  | _, [] => .isTrue trivial
  | l, m :: moves =>
    have := decidableInTime (l.after m) moves
    inferInstanceAs (Decidable (l.overruns m = false ∧ (l.after m).InTime moves))

end Lifecycle

/-! ## What holds at every time -/

/-- An attempt, or the news that there is no connection. -/
def LifeEvent.Ends (e : LifeEvent) : Prop := e = .attempted ∨ e = .published .disconnected

/-- Of the events of a session those that mark its course. -/
def LifeEvent.marks : LifeEvent → Bool
  | .reached | .opened | .ended => true
  | _ => false

structure Lifecycle.Lawful {σ : Type} (l : Lifecycle σ) : Prop where
  /-- Each event is one that may come after those before it. -/
  allowed : Each (fun before e => (Tally.ofHistory before).Allows e) l.history
  /-- After a pipe was taken up there is one session, which begins and ends before the next attempt
  and before it is published that there is no connection. -/
  once : ∀ {before between later : List LifeEvent} {e : LifeEvent},
    l.history = before ++ .reached :: (between ++ e :: later) → e.Ends →
    (∀ x ∈ between, ¬ x.Ends) → between.filter LifeEvent.marks = [.opened, .ended]
  /-- When a stop has returned nothing is attempted and no other state is published until the next
  start. -/
  silent : ∀ {before between later : List LifeEvent} {e : LifeEvent},
    l.history = before ++ .stopped :: (between ++ e :: later) → (∀ x ∈ between, x ≠ .started) →
    e = .started ∨ e = .stopped ∨ e = .published .disconnected
  /-- The history tells the state, how many attempts there were, how many sessions have begun, which
  is one for each pipe that was taken up, and whether one runs. -/
  shown : l.connection.state = (Tally.ofHistory l.history).shown
  attempts : l.connection.connector.attempts = (Tally.ofHistory l.history).attempts
  sessions : l.connection.endpoint.links = (Tally.ofHistory l.history).opened
  begun : (Tally.ofHistory l.history).opened = (Tally.ofHistory l.history).reached
  running : l.connection.endpoint.session ≠ none ↔ (Tally.ofHistory l.history).InSession
  /-- Both sides are bound to the session that runs. -/
  bound : (Tally.ofHistory l.history).InSession →
    l.connection.endpoint.peer.BoundTo l.connection.endpoint.links
  /-- Without a connection nothing is open. -/
  unbound : l.connection.state = .disconnected → l.connection.endpoint.peer.Unbound
  /-- Timers are live only while a session runs. -/
  timers : ∀ id, l.connection.endpoint.peer.worker.Live id → (Tally.ofHistory l.history).InSession

end PeerLink
