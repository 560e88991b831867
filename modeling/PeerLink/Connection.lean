import PeerLink.Connection.Driver
import PeerLink.Endpoint

/-! # Connections

* `Connection`: an endpoint whose session is set up again when it is lost, until somebody stops it.
* `Connection.step?`: one step of a driver: attempt, session, end of the session, setback, wait.
* `Connection.start`, `Connection.askStop`, `Connection.confirmStop`: the calls. To stop is two
  events: the wish, which every driver sees, and the return once the driver is done.
-/

namespace PeerLink
set_option autoImplicit false

inductive ConnectionEffect
  | endpoint (e : EndpointEffect)
  /-- The policy was asked about a setback. -/
  | asked (setback : Nat) (delay : Option Nat)
  /-- A state was published, which may be the one that was published before. -/
  | published (s : ConnectionState)
  /-- The connector was asked for a pipe. -/
  | attempted
  /-- The peer was bound to a session. -/
  | opened
  /-- The peer was told that its session was over. -/
  | ended

structure Connection (σ : Type) where
  endpoint : Endpoint σ
  connector : Connector := {}
  policy : ReconnectPolicy := .never
  state : ConnectionState := .disconnected
  /-- Whether somebody wishes that it stops. -/
  stopWished : Bool := false
  /-- The drivers that are not done. -/
  drivers : Table Nat Driver := {}
  /-- The driver of the last start, unless a stop has taken it over. -/
  owned : Option Nat := none
  nextDriver : Nat := 0
  /-- The last time that the clock can name, if there is one. -/
  horizon : Option Nat := none

namespace Connection
variable {σ : Type} [ValueTree σ]

abbrev Effects := List ConnectionEffect

def ofEndpoint (es : Endpoint.Effects) : Effects := es.map .endpoint

def setDriver (c : Connection σ) (id : Nat) (d : Driver) : Connection σ :=
  { c with drivers := c.drivers.insert id d }

/-! ## Steps of a driver -/

def publish (c : Connection σ) (state : ConnectionState) : Effects × Connection σ :=
  ([.published state], { c with state })

def quit (c : Connection σ) (id : Nat) : Effects × Connection σ :=
  { c with drivers := c.drivers.erase id }.publish .disconnected

/-- A setback: the policy says how long to wait, or to give up. -/
def setback (c : Connection σ) (id : Nat) (d : Driver) : Effects × Connection σ :=
  let setbacks := d.countSetback
  let delay := c.policy.delay? setbacks
  let (a, c) := c.publish .disconnected
  let (b, c) :=
    match delay with
    | none => c.quit id
    | some ms => ([], c.setDriver id { phase := .waiting (c.endpoint.clock + ms), setbacks })
  (a ++ .asked setbacks delay :: b, c)

def attempt (c : Connection σ) (id : Nat) (d : Driver) : Effects × Connection σ :=
  let (a, c) := c.publish .connecting
  let (outcome, connector) := c.connector.connect
  (a ++ [.attempted], { c with connector }.setDriver id { d with phase := .connecting outcome })

/-- Adds the timer that pings the other peer, if the settings ask for one. -/
def addKeepalive (e : Endpoint σ) : Option Nat × Endpoint σ :=
  match e.config.keepalive? with
  | none => (none, e)
  | some seconds =>
    let (id, worker) := e.peer.worker.every (Session.millis seconds) (.ping e.links)
    (some id, { e with peer := { e.peer with worker } })

def cancelKeepalive (e : Endpoint σ) (keepalive : Option Nat) : Endpoint σ :=
  match keepalive with
  | none => e
  | some id => { e with peer := { e.peer with worker := e.peer.worker.cancel id } }

/-- Whether the clock cannot name the time of the first ping. -/
def overruns (c : Connection σ) : Bool :=
  match c.horizon, c.endpoint.config.keepalive? with
  | some last, some seconds => last < c.endpoint.clock + Session.millis seconds
  | _, _ => false

/-- Begins a session on a new pipe, but the timer cannot be set: the driver dies of it, and leaves
the session as it is. -/
def collapse (c : Connection σ) (id : Nat) : Effects × Connection σ :=
  let (a, c) := { c with endpoint := c.endpoint.connect }.publish .connected
  (.opened :: a, { c with drivers := c.drivers.erase id })

/-- Begins a session on a new pipe. -/
def establish (c : Connection σ) (id : Nat) : Effects × Connection σ :=
  if c.overruns then c.collapse id
  else
    let (keepalive, endpoint) := addKeepalive c.endpoint.connect
    let (a, c) := { c with endpoint }.publish .connected
    (.opened :: a, c.setDriver id { phase := .running keepalive })

/-- The session is to end; from now on it is not kept alive. -/
def beginClosing (c : Connection σ) (id : Nat) (d : Driver) (keepalive : Option Nat)
    (why : DisconnectReason) : Effects × Connection σ :=
  let (a, c) := { c with endpoint := cancelKeepalive c.endpoint keepalive }.publish .stopping
  (a, c.setDriver id { d with phase := .closing why })

def close (c : Connection σ) (id : Nat) (d : Driver) (why : DisconnectReason) :
    Effects × Connection σ :=
  let (a, endpoint) := c.endpoint.disconnect
  let c := { c with endpoint }
  let (b, c) := if why = .stopped then c.quit id else c.setback id d
  (ofEndpoint a ++ .ended :: b, c)

/-- A step of a driver that looks at the wish to stop before anything else that has happened;
nothing if there is no wish, or no session and no wait to break off. -/
def heedStop? (c : Connection σ) (id : Nat) (d : Driver) : Option (Effects × Connection σ) :=
  if c.stopWished then
    match d.phase with
    | .ready | .connecting _ | .waiting _ => some (c.quit id)
    | .running keepalive => some (c.beginClosing id d keepalive .stopped)
    | .closing _ => none
  else none

/-- A step of a driver that looks at what has happened; nothing while it waits for it. -/
def goOn? (c : Connection σ) (id : Nat) (d : Driver) : Option (Effects × Connection σ) :=
  match d.phase with
  | .ready => if c.stopWished then none else some (c.attempt id d)
  | .connecting .ok => some (c.establish id)
  | .connecting .refuse => some (c.setback id d)
  | .connecting .hang => none
  | .running keepalive => c.endpoint.reason?.map (c.beginClosing id d keepalive)
  | .closing why => some (c.close id d why)
  | .waiting time =>
    if time ≤ c.endpoint.clock then some ([], c.setDriver id { d with phase := .ready }) else none

/-- A step of a driver. When there is a wish to stop and something else has happened too, either may
come first. -/
def step? (c : Connection σ) (id : Nat) (stopFirst : Bool := false) :
    Option (Effects × Connection σ) :=
  (c.drivers.get? id).bind fun d =>
    if stopFirst then (c.heedStop? id d).or (c.goOn? id d)
    else (c.goOn? id d).or (c.heedStop? id d)

/-- A step of the oldest driver that can make one. -/
def anyStep? (c : Connection σ) : Option (Effects × Connection σ) :=
  c.drivers.keys.findSome? (c.step? ·)

/-- Lets drivers make at most `fuel` steps. -/
def restFor : Nat → Connection σ → Effects × Connection σ
  | 0, c => ([], c)
  | fuel + 1, c =>
    match c.anyStep? with
    | none => ([], c)
    | some (a, c) =>
      let (b, c) := restFor fuel c
      (a ++ b, c)

/-- More steps than drivers can make at one time: an attempt takes four at most, and after the
outcomes that are left an attempt succeeds. -/
def strides (c : Connection σ) : Nat := 4 * (c.connector.outcomes.length + c.drivers.size + 2)

/-- Lets all drivers go as far as they can. -/
def rest (c : Connection σ) : Effects × Connection σ := restFor c.strides c

/-! ## Calls -/

/-- Begins to connect: whether it was not running already. -/
def start (c : Connection σ) : Bool × Connection σ :=
  if c.owned.any c.drivers.contains then (false, c)
  else
    (true,
      { c with stopWished := false, owned := some c.nextDriver, nextDriver := c.nextDriver + 1
               }.setDriver c.nextDriver {})

/-- Wishes that it stops; answers with the driver that has to be waited for. -/
def askStop (c : Connection σ) : Option Nat × Connection σ :=
  (c.owned, { c with stopWished := true, owned := none })

/-- The driver that was waited for is done. -/
def confirmStop (c : Connection σ) : Effects × Connection σ := c.publish .disconnected

/-- Stops and waits until all is closed. -/
def stop (c : Connection σ) : Effects × Connection σ :=
  let (a, c) := c.askStop.2.rest
  let (b, c) := c.confirmStop
  (a ++ b, c)

/-! ## Events -/

/-- Something happens to the endpoint, and the drivers go on. -/
def act (c : Connection σ) (es : Endpoint.Effects) (endpoint : Endpoint σ) :
    Effects × Connection σ :=
  let (a, c) := { c with endpoint }.rest
  (ofEndpoint es ++ a, c)

def ask {α : Type} (c : Connection σ) (call : Requester → α × Requester.Effects × Requester) :
    Option (α × Effects × Connection σ) :=
  (c.endpoint.ask call).map fun (a, es, endpoint) => (a, c.act es endpoint)

def change (c : Connection σ) (call : σ → List (Notice Binding) × σ) : Effects × Connection σ :=
  let (es, endpoint) := c.endpoint.change call
  c.act es endpoint

def receive (now : Timestamp) (c : Connection σ) (bs : Bytes) : Effects × Connection σ :=
  let (es, endpoint) := c.endpoint.receive now bs
  c.act es endpoint

def hangUp (c : Connection σ) : Effects × Connection σ := c.act [] c.endpoint.hangUp

def advance (c : Connection σ) (ms : Nat) : Effects × Connection σ :=
  c.act [] (c.endpoint.advance ms)

def work? (now : Timestamp) (c : Connection σ) : Option (Effects × Connection σ) :=
  (c.endpoint.work? now).map fun (es, endpoint) => c.act es endpoint

/-- Runs tasks until none waits, at most `fuel` of them. -/
def settleFor (now : Timestamp) : Nat → Connection σ → Effects × Connection σ
  | 0, c => ([], c)
  | fuel + 1, c =>
    match c.work? now with
    | none => ([], c)
    | some (a, c) =>
      let (b, c) := settleFor now fuel c
      (a ++ b, c)

def settle (now : Timestamp) (c : Connection σ) : Effects × Connection σ :=
  settleFor now c.endpoint.peer.backlog c

end Connection
end PeerLink
