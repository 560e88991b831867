import PeerLink.Json.Value
import PeerLink.Fault
import PeerLink.Timestamp

/-! # Messages

* `Request`, `Response`, `Message`: what peers say to each other.
* `ValueUpdate`, `SubscriptionUpdate`: a value with its state and time, alone and for a
  subscription.
* `Inbound`: what a decoder hands on: a message, or a request that has to be refused.
-/

namespace PeerLink
set_option autoImplicit false

/-! ## Words -/

inductive Method
  | list
  | invoke
  | set
  | subscribe
  | unsubscribe
  | close
  | remove
deriving DecidableEq

namespace Method

def all : List Method := [list, invoke, set, subscribe, unsubscribe, close, remove]

def name : Method → String
  | list => "list"
  | invoke => "invoke"
  | set => "set"
  | subscribe => "subscribe"
  | unsubscribe => "unsubscribe"
  | close => "close"
  | remove => "remove"

def ofName? (s : String) : Option Method := all.find? (·.name = s)

def parse (s : String) : Except LinkError Method :=
  match ofName? s with
  | some m => .ok m
  | none => .error (.unknownMethod s)

theorem ofName?_name (m : Method) : ofName? m.name = some m := by cases m <;> decide

theorem parse_name (m : Method) : parse m.name = .ok m := by rw [parse, ofName?_name]

end Method

/-- Whether more responses may follow on a stream. -/
inductive StreamState
  | opened
  | closed
deriving DecidableEq

namespace StreamState

def all : List StreamState := [opened, closed]

def name : StreamState → String
  | opened => "open"
  | closed => "closed"

def ofName? (s : String) : Option StreamState := all.find? (·.name = s)

theorem ofName?_name (s : StreamState) : ofName? s.name = some s := by cases s <;> decide

end StreamState

/-- How much the writer of a value may do, least first. -/
inductive Permission
  | none
  | list
  | read
  | write
  | config
  | never
deriving DecidableEq

namespace Permission

def all : List Permission := [none, list, read, write, config, never]

def name : Permission → String
  | none => "none"
  | list => "list"
  | read => "read"
  | write => "write"
  | config => "config"
  | never => "never"

def code : Permission → Nat
  | none => 0
  | list => 1
  | read => 2
  | write => 3
  | config => 4
  | never => 5

def ofName? (s : String) : Option Permission := all.find? (·.name = s)

def ofCode? (n : Nat) : Option Permission := all.find? (·.code = n)

/-- Whether the level stands at that of writing or above it. -/
def reachesWrite (p : Permission) : Bool := write.code ≤ p.code

/-- Whether a value may be written: the level of writing or above, but not `never`. -/
def mayWrite (p : Permission) : Bool := p.reachesWrite && p != never

theorem ofName?_name (p : Permission) : ofName? p.name = some p := by cases p <;> decide

theorem ofCode?_code (p : Permission) : ofCode? p.code = some p := by cases p <;> decide

end Permission

inductive ValueStatus
  | ok
  | stale
  | disconnected
  | unknown
deriving DecidableEq

namespace ValueStatus

def all : List ValueStatus := [ok, stale, disconnected, unknown]

def name : ValueStatus → String
  | ok => "ok"
  | stale => "stale"
  | disconnected => "disconnected"
  | unknown => "unknown"

def ofName? (s : String) : Option ValueStatus := all.find? (·.name = s)

theorem ofName?_name (s : ValueStatus) : ofName? s.name = some s := by cases s <;> decide

end ValueStatus

/-! ## Values -/

structure ValueUpdate where
  value : Json.Value
  status : ValueStatus := .ok
  time : Timestamp

/-- A value for the holder of a subscription. -/
structure SubscriptionUpdate where
  sid : Nat
  update : ValueUpdate

/-- One entry of a batch of subscriptions. With quality 0 the holder wants the newest value only. -/
structure SubscribePath where
  path : String
  sid : Nat
  qos : Nat := 0
deriving DecidableEq

/-! ## Messages -/

structure Request where
  rid : Nat
  method : Method
  path : Option String := none
  params : Option Json.Value := none
  value : Option Json.Value := none
  permit : Option Permission := none
  paths : List SubscribePath := []
  sids : List Nat := []

def Request.close (rid : Nat) : Request := { rid, method := .close }

structure Response where
  rid : Nat
  stream : Option StreamState := none
  updates : List Json.Value := []
  error : Option LinkError := none

namespace Response

/-- The request number under which values for subscriptions travel. -/
def updateRid : Nat := 0

def closed (rid : Nat) (updates : List Json.Value := []) : Response :=
  { rid, stream := some .closed, updates }

def opened (rid : Nat) (updates : List Json.Value := []) : Response :=
  { rid, stream := some .opened, updates }

def failed (rid : Nat) (error : LinkError) : Response :=
  { rid, stream := some .closed, error := some error }

/-- Whether the stream ends here, by its state or by an error. -/
def isClosing (r : Response) : Bool := r.error.isSome || r.stream == some .closed

end Response

inductive Message
  | request (r : Request)
  | response (r : Response)
  | ping

/-- What a decoder hands on. -/
inductive Inbound
  | message (m : Message)
  | rejected (rid : Nat) (error : LinkError)

end PeerLink
