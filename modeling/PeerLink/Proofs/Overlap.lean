import PeerLink.Proofs.Lifecycle

/-! # Calls that overlap

A connection that several callers start and stop, none of them waiting for another.

* `CallNote`: what is noted of calls and drivers. Which drivers are not done, and whose session the
  peer is bound to, is read off the notes.
* `Shared`: a connection, the calls to stop that have not returned, and the notes.
* `Shared.Move`, `Shared.after`: what can happen, in any order, and what comes of it.
* `Shared.Lawful`: how many drivers there are, how long they go on when somebody wishes to stop, and
  who publishes that there is no connection while a session goes on.
-/

namespace PeerLink
set_option autoImplicit false

/-! ## Notes -/

inductive CallNote
  /-- A call to start has set a driver going. -/
  | started (id : Nat)
  | stopBegan
  /-- A call to stop has returned, and the driver that it waited for. -/
  | stopReturned (awaited : Option Nat)
  /-- A driver has made a step, and whether it is done. -/
  | strode (id : Nat) (es : List LifeEvent) (done : Bool)
deriving DecidableEq

namespace CallNote

/-- The driver that makes a step or that was waited for. -/
def party? : CallNote → Option Nat
  | .started _ | .stopBegan => none
  | .stopReturned awaited => awaited
  | .strode id _ _ => some id

/-- It is published that there is no connection. -/
def Drops : CallNote → Prop
  | .started _ | .stopBegan => False
  | .stopReturned _ => True
  | .strode _ es _ => .published .disconnected ∈ es

def IsStart : CallNote → Prop
  | .started _ => True
  | .stopBegan | .stopReturned _ | .strode _ _ _ => False

def stridesOf (id : Nat) : CallNote → Bool
  | .strode id' _ _ => id' = id
  | .started _ | .stopBegan | .stopReturned _ => false

def opensOf (id : Nat) : CallNote → Bool
  | .strode id' es _ => id' = id && .opened ∈ es
  | .started _ | .stopBegan | .stopReturned _ => false

def aliveAfter (ids : List Nat) : CallNote → List Nat
  | .started id => ids ++ [id]
  | .strode id _ true => ids.filter (· ≠ id)
  | .stopBegan | .stopReturned _ | .strode _ _ false => ids

def binderAfter (binder : Option Nat) : CallNote → Option Nat
  | .strode id es _ =>
    if .opened ∈ es then some id else if .ended ∈ es then none else binder
  | .started _ | .stopBegan | .stopReturned _ => binder

def attemptAfter (id : Nat) (attempts : Bool) : CallNote → Bool
  | .strode id' es _ => if id' = id then .attempted ∈ es else attempts
  | .started _ | .stopBegan | .stopReturned _ => attempts

/-- The drivers that are not done. -/
def alive (ns : List CallNote) : List Nat := ns.foldl aliveAfter []

/-- The driver of the session that the peer is bound to. -/
def binder? (ns : List CallNote) : Option Nat := ns.foldl binderAfter none

/-- Whether a driver waits for a pipe. -/
def attempts (id : Nat) (ns : List CallNote) : Bool := ns.foldl (attemptAfter id) false

/-- How many steps a driver has made. -/
def strides (id : Nat) (ns : List CallNote) : Nat := ns.countP (stridesOf id)

/-- How many sessions a driver has begun. -/
def sessions (id : Nat) (ns : List CallNote) : Nat := ns.countP (opensOf id)

/-- A driver was done as soon as it had begun a session. -/
def Lost (id : Nat) (ns : List CallNote) : Prop :=
  ∃ es, .strode id es true ∈ ns ∧ .opened ∈ es

end CallNote

/-! ## Connections that are shared -/

structure Shared (σ : Type) where
  connection : Connection σ
  /-- The calls to stop that have not returned, each with the driver that it waits for. -/
  stops : List (Option Nat) := []
  /-- The oldest first. -/
  notes : List CallNote := []

namespace Shared
variable {σ : Type}

/-- Nothing has happened yet. The clock may have an end. -/
def ofSettings (config : LinkConfig) (tree : σ) (asks serves : Bool) (horizon : Option Nat) :
    Shared σ where
  connection := (Lifecycle.ofSettings config tree asks serves horizon).connection

inductive Move (σ : Type)
  | start
  | askStop
  /-- The call to stop at a place returns, if the driver that it waits for is done. -/
  | confirmStop (place : Nat)
  | drive (id : Nat) (stopFirst : Bool)
  /-- The session of a driver ends, whatever session the peer is bound to. -/
  | lose (id : Nat) (why : DisconnectReason)
  /-- What the policy and the connector will say from now on. -/
  | foresee (policy : ReconnectPolicy) (outcomes : List ConnectOutcome)
  /-- Anything else that happens to the endpoint; no session begins or ends. -/
  | touch (act : Endpoint σ → Endpoint σ)

def strode (s : Shared σ) (id : Nat) (act : Connection.Effects × Connection σ) : Shared σ :=
  { s with
    connection := act.2
    notes :=
      s.notes ++ [.strode id (LifeEvent.ofEffects act.1) !(act.2.drivers.contains id)] }

def start (s : Shared σ) : Shared σ :=
  let (begun, connection) := s.connection.start
  { s with
    connection
    notes := s.notes ++ if begun then [.started s.connection.nextDriver] else [] }

def askStop (s : Shared σ) : Shared σ :=
  let (awaited, connection) := s.connection.askStop
  { connection, stops := s.stops ++ [awaited], notes := s.notes ++ [.stopBegan] }

def confirmStop (s : Shared σ) (place : Nat) : Shared σ :=
  match s.stops[place]? with
  | none => s
  | some awaited =>
    if awaited.any s.connection.drivers.contains then s
    else
      { connection := s.connection.confirmStop.2
        stops := s.stops.eraseIdx place
        notes := s.notes ++ [.stopReturned awaited] }

def lose (s : Shared σ) (id : Nat) (why : DisconnectReason) : Shared σ :=
  match s.connection.drivers.get? id with
  | some ⟨.running keepalive, setbacks⟩ =>
    s.strode id (s.connection.beginClosing id ⟨.running keepalive, setbacks⟩ keepalive why)
  | _ => s

def touch (s : Shared σ) (endpoint : Endpoint σ) : Shared σ :=
  if endpoint.session.isSome = s.connection.endpoint.session.isSome then
    { s with connection := { s.connection with endpoint } }
  else s

def foresee (s : Shared σ) (policy : ReconnectPolicy) (outcomes : List ConnectOutcome) : Shared σ :=
  { s with
    connection :=
      { s.connection with policy, connector := { s.connection.connector with outcomes } } }

variable [ValueTree σ]

def after (s : Shared σ) : Move σ → Shared σ
  | .start => s.start
  | .askStop => s.askStop
  | .confirmStop place => s.confirmStop place
  | .drive id stopFirst =>
    match s.connection.step? id stopFirst with
    | none => s
    | some act => s.strode id act
  | .lose id why => s.lose id why
  | .foresee policy outcomes => s.foresee policy outcomes
  | .touch act => s.touch (act s.connection.endpoint)

def ofMoves (s : Shared σ) (moves : List (Move σ)) : Shared σ := moves.foldl after s

/-! ## What holds at every time -/

open CallNote

/-- A driver, when somebody has wished to stop and no start has come since. -/
structure Ceasing (s : Shared σ) (before since : List CallNote) (id : Nat) : Prop where
  few : strides id since ≤ 5
  /-- No session is begun but on a pipe that the driver was waiting for. -/
  sessions : sessions id since ≤ (attempts id before).toNat
  /-- The driver is done, or it can go on, whatever it looks at first. -/
  ends : id ∈ alive s.notes → strides id since < 5 ∧
    ∀ stopFirst, (s.connection.step? id stopFirst).isSome = true

structure Lawful (s : Shared σ) : Prop where
  /-- A driver that is not done is that of the last start, or it is waited for by one call to stop
  that has not returned. -/
  held : ∀ id ∈ alive s.notes, s.connection.owned = some id ∨ some id ∈ s.stops
  once : (s.connection.owned.toList ++ s.stops.reduceOption).Nodup
  few : (alive s.notes).length ≤ s.stops.length + 1
  /-- There are two only if a start has come when one was not done. -/
  single : Each (fun before n => n.IsStart → alive before = []) s.notes →
    (alive s.notes).length ≤ 1
  living : ∀ id, s.connection.drivers.contains id = true ↔ id ∈ alive s.notes
  ceasing : ∀ before since, s.notes = before ++ .stopBegan :: since →
    (∀ n ∈ since, ¬ n.IsStart) → ∀ id, s.Ceasing before since id
  bound : s.connection.endpoint.session.isSome = (binder? s.notes).isSome
  /-- While the peer is bound to the session of a driver, only others publish that there is no
  connection: another driver, or a call to stop that waited for another driver or none; unless the
  driver died when its session began. -/
  published : Each (fun before n => n.Drops → ∀ id, binder? (before ++ [n]) = some id →
    id ∈ alive before ∧ n.party? ≠ some id ∨ Lost id before) s.notes

end Shared
end PeerLink
