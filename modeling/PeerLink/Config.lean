import PeerLink.AckWindow
import PeerLink.Reconnect

/-! # Settings of a link

* `LinkConfig`: the settings, with their defaults.
* `LinkConfig.check`: the error of settings that cannot be used.
-/

namespace PeerLink
set_option autoImplicit false

/-- The form of messages on the wire: lines, or binary frames. -/
inductive Protocol
  | v1
  | v2
deriving DecidableEq

namespace Protocol

def all : List Protocol := [v1, v2]

def name : Protocol → String
  | v1 => "v1"
  | v2 => "v2"

def ofName? (s : String) : Option Protocol := all.find? (·.name = s)

end Protocol

namespace ViolationPolicy

def all : List ViolationPolicy := [disconnect, ignore]

def name : ViolationPolicy → String
  | disconnect => "disconnect"
  | ignore => "ignore"

def ofName? (s : String) : Option ViolationPolicy := all.find? (·.name = s)

end ViolationPolicy

structure LinkConfig where
  protocol : Protocol := .v1
  /-- The most bytes in the body of a frame; a line may have `lineFactor` times as many. -/
  maxFrameSize : Nat := 16384
  ackWindow : Nat := 32
  windowViolation : ViolationPolicy := .disconnect
  /-- Seconds between pings; zero for none. -/
  keepaliveSecs : Nat := 30
  /-- Seconds without data after which the link is given up; zero for any time. -/
  readTimeoutSecs : Nat := 0
  maxWorkers : Nat := 8
  reconnect : Backoff := ⟨500, 30000, 0⟩
deriving DecidableEq

inductive ConfigError
  | frameSize (size : Nat)
  | ackWindow
  | workers
deriving DecidableEq

def ConfigError.message : ConfigError → String
  | frameSize size => s!"invalid config: max_frame_size must be at least 16, got {size}"
  | ackWindow => "invalid config: ack_window must be positive"
  | workers => "invalid config: scheduler.max_workers must be positive"

namespace LinkConfig

def lineFactor : Nat := 16

def maxLine (c : LinkConfig) : Nat := min (c.maxFrameSize * lineFactor) (2 ^ 64 - 1)

/-- A number of seconds of which zero stands for none. -/
def positive? (n : Nat) : Option Nat := if n = 0 then none else some n

def keepalive? (c : LinkConfig) : Option Nat := positive? c.keepaliveSecs

def readTimeout? (c : LinkConfig) : Option Nat := positive? c.readTimeoutSecs

def check (c : LinkConfig) : Except ConfigError Unit :=
  if c.maxFrameSize < 16 then .error (.frameSize c.maxFrameSize)
  else if c.ackWindow = 0 then .error .ackWindow
  else if c.maxWorkers = 0 then .error .workers
  else .ok ()

end LinkConfig
end PeerLink
