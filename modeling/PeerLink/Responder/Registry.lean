import PeerLink.Envelope
import PeerLink.Outlet
import PeerLink.Path
import PeerLink.Table
import PeerLink.Tree

/-! # Subscriptions of a responder

* `Registry`: the subscriptions of the other peer by number, each with a watch on the tree. Batches
  wait in a queue that one task empties, so they are applied in the order in which they came.
* `Registry.queue`: values wait too, and one task sends them together. With quality 0 only the
  newest value of a subscription waits.
* `Registry.bind`: a watch first, then the value as it stands, so no change is missed; a change that
  the watch saw is newer than the value that was read.
-/

namespace PeerLink
set_option autoImplicit false

/-- A batch of subscriptions that begin or end. -/
inductive RegistryOp
  | subscribe (paths : List SubscribePath)
  | unsubscribe (sids : List Nat)
deriving DecidableEq

inductive RegistryTask
  | drain
  | flush
deriving DecidableEq

inductive RegistryEffect
  | send (o : Outgoing)
  | schedule (t : RegistryTask)

/-- A subscription. The token tells this binding of the number from those before it. -/
structure RegistryEntry where
  path : String
  qos : Nat
  last : Option ValueUpdate := none
  token : Nat
  watch : Option Nat := none

structure Registry where
  outlet : Option Outlet := none
  entries : Table Nat RegistryEntry := {}
  ops : List RegistryOp := []
  /-- Whether a task that empties the batches is on its way. -/
  draining : Bool := false
  /-- Values that wait to be sent. -/
  queued : List SubscriptionUpdate := []
  flushScheduled : Bool := false
  nextToken : Nat := 0

namespace Registry
variable {σ : Type} [ValueTree σ]

abbrev Effects := List RegistryEffect

/-! ## Batches -/

def connect (r : Registry) (link : Nat) : Registry := { r with outlet := some ⟨link, true⟩ }

def loseWriter (r : Registry) (link : Nat) : Registry :=
  { r with outlet := r.outlet.map (·.lose link) }

/-- Puts a batch behind the others. -/
def enqueue (r : Registry) (op : RegistryOp) : Effects × Registry :=
  (if r.draining then [] else [.schedule .drain],
    { r with ops := r.ops ++ [op], draining := true })

/-! ## Values -/

/-- Puts a value in the place of the one of its subscription that waits. -/
def replaceQueued (u : SubscriptionUpdate) : List SubscriptionUpdate → List SubscriptionUpdate
  | [] => [u]
  | q :: qs => if q.sid = u.sid then u :: qs else q :: replaceQueued u qs

/-- Lets a value wait until it is sent. -/
def queue (r : Registry) (qos : Nat) (u : SubscriptionUpdate) : Effects × Registry :=
  (if r.flushScheduled then [] else [.schedule .flush],
    { r with
      flushScheduled := true
      queued := if qos = 0 then replaceQueued u r.queued else r.queued ++ [u] })

/-- The entry of a binding that is still the one of its number. -/
def current? (r : Registry) (b : Binding) : Option RegistryEntry :=
  (r.entries.get? b.sid).filter (·.token = b.token)

/-- Takes a value for a binding: it becomes the last one and waits to be sent. -/
def record (r : Registry) (b : Binding) (e : RegistryEntry) (u : ValueUpdate) :
    Effects × Registry :=
  { r with entries := r.entries.modify b.sid fun e => { e with last := some u } }.queue e.qos
    ⟨b.sid, u⟩

/-- Takes a change that a watch saw. -/
def onChange (r : Registry) (n : Notice Binding) : Effects × Registry :=
  match r.current? n.listener with
  | none => ([], r)
  | some e => r.record n.listener e n.update

def onChanges : Registry → List (Notice Binding) → Effects × Registry
  | r, [] => ([], r)
  | r, n :: ns =>
    let (a, r) := r.onChange n
    let (b, r) := onChanges r ns
    (a ++ b, r)

/-- Sends all values that wait as one response. -/
def flush (r : Registry) : Effects × Registry :=
  let updates := r.queued.map fun u => u.toJson.sorted
  (if updates.isEmpty then []
    else (sendTo r.outlet (.response (.opened Response.updateRid updates))).map .send,
    { r with flushScheduled := false, queued := [] })

/-! ## Bindings -/

def unwatch (t : σ) (e : RegistryEntry) : σ :=
  match e.watch with
  | some id => ValueTree.unwatch t id
  | none => t

/-- Makes the entry of a new binding, in place of an older one of its number. -/
def openEntry (r : Registry) (t : σ) (p : SubscribePath) : Binding × Registry × σ :=
  let token := r.nextToken + 1
  let replaced := r.entries.get? p.sid
  (⟨p.sid, token⟩,
    { r with
      nextToken := token
      entries := r.entries.insert p.sid { path := p.path, qos := p.qos, token }
      queued :=
        if replaced.isSome then r.queued.filter (·.sid ≠ p.sid) else r.queued },
    match replaced with
    | some e => unwatch t e
    | none => t)

/-- Removes the entry of a binding whose watch was refused. -/
def refuse (r : Registry) (b : Binding) : Registry :=
  if (r.current? b).isSome then { r with entries := r.entries.erase b.sid } else r

/-- Gives a binding its watch, and the value as it was read unless a change has come. -/
def attach (r : Registry) (t : σ) (b : Binding) (watch : Nat) (initial : Option ValueUpdate) :
    Effects × Registry × σ :=
  match r.current? b with
  | none => ([], r, ValueTree.unwatch t watch)
  | some e =>
    let r := { r with entries := r.entries.modify b.sid fun e => { e with watch := some watch } }
    match e.last, initial with
    | none, some u =>
      let (effects, r) := r.record b e u
      (effects, r, t)
    | _, _ => ([], r, t)

/-- The value at a path, or none if it may not be read. -/
def initialValue (t : σ) (path : String) : Option ValueUpdate :=
  match ValueTree.readValue t path with
  | .ok u => u
  | .error _ => none

/-- Binds a number to a path. A path that is not valid is passed over. -/
def bind (now : Timestamp) (r : Registry) (t : σ) (p : SubscribePath) : Effects × Registry × σ :=
  if !Path.valid p.path || r.outlet.isNone then ([], r, t)
  else
    let (b, r, t) := r.openEntry t p
    let (watch, notices, t) := ValueTree.watch now t p.path b
    let (a, r) := r.onChanges notices
    match watch with
    | .error _ => (a, r.refuse b, t)
    | .ok watch =>
      let (c, r, t) := r.attach t b watch (initialValue t p.path)
      (a ++ c, r, t)

def bindAll (now : Timestamp) : Registry → σ → List SubscribePath → Effects × Registry × σ
  | r, t, [] => ([], r, t)
  | r, t, p :: ps =>
    let (a, r, t) := r.bind now t p
    let (b, r, t) := bindAll now r t ps
    (a ++ b, r, t)

def releaseOne (r : Registry) (t : σ) (sid : Nat) : Registry × σ :=
  match r.entries.get? sid with
  | none => (r, t)
  | some e => ({ r with entries := r.entries.erase sid }, unwatch t e)

/-- Ends subscriptions; values of theirs that wait are dropped. -/
def release (r : Registry) (t : σ) (sids : List Nat) : Registry × σ :=
  let r := { r with queued := r.queued.filter fun u => !sids.contains u.sid }
  sids.foldl (fun (r, t) sid => releaseOne r t sid) (r, t)

/-! ## Tasks -/

def apply (now : Timestamp) (r : Registry) (t : σ) : RegistryOp → Effects × Registry × σ
  | .subscribe paths => r.bindAll now t paths
  | .unsubscribe sids =>
    let (r, t) := r.release t sids
    ([], r, t)

def applyAll (now : Timestamp) : Registry → σ → List RegistryOp → Effects × Registry × σ
  | r, t, [] => ([], r, t)
  | r, t, op :: ops =>
    let (a, r, t) := r.apply now t op
    let (b, r, t) := applyAll now r t ops
    (a ++ b, r, t)

def drain (now : Timestamp) (r : Registry) (t : σ) : Effects × Registry × σ :=
  let (effects, r, t) := { r with ops := [] }.applyAll now t r.ops
  (effects, { r with draining := false }, t)

def run (now : Timestamp) (r : Registry) (t : σ) : RegistryTask → Effects × Registry × σ
  | .drain => r.drain now t
  | .flush =>
    let (effects, r) := r.flush
    (effects, r, t)

/-- Ends all subscriptions and forgets what waits. -/
def closeAll (r : Registry) (t : σ) : Registry × σ :=
  ({ r with outlet := none, ops := [], queued := [], entries := {} },
    r.entries.values.foldl unwatch t)

def size (r : Registry) : Nat := r.entries.size

def pathOf? (r : Registry) (sid : Nat) : Option String := (r.entries.get? sid).map (·.path)

end Registry
end PeerLink
