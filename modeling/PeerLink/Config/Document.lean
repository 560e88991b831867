import PeerLink.Config
import PeerLink.Toml.Document

/-! # Settings in a TOML document

* `LinkConfig.ofToml`: the settings of a document. A setting that is missing has its default, and
  keys that are not known are passed over.
-/

namespace PeerLink
set_option autoImplicit false

open Toml (Item Members)

inductive ConfigFault
  | document
  | invalid (e : ConfigError)
deriving DecidableEq

namespace Toml.Item

def asNatBelow? (bound : Nat) : Item → Option Nat
  | integer n => if 0 ≤ n ∧ n < bound then some n.toNat else none
  | _ => none

def isEmptyContainer : Item → Bool
  | array [] => true
  | table _ [] => true
  | _ => false

/-- A word of an enumeration: a string, or a table whose only member has the word as its key and
nothing as its value. -/
def word? : Item → Option String
  | string s => some s
  | table _ [(k, i)] => if i.isEmptyContainer then some k else none
  | _ => none

/-- The fields of a section: by name from a table, or in their order from an array. A date or a time
stands for a section whose only field is none of the names. -/
def fields? (names : List String) : Item → Option (List (Option Item))
  | time => some (names.map fun _ => none)
  | table _ ms => some (names.map fun n => Members.get? ms n)
  | array items => some ((List.range names.length).map fun k => items[k]?)
  | tables elements =>
    some ((List.range names.length).map fun k => elements[k]?.map (Item.table .header ·))
  | _ => none

end Toml.Item

/-- The value of a field, or its default if it is missing. -/
def settingOr {α : Type} (d : α) (read : Item → Option α) : Option Item → Option α
  | none => some d
  | some i => read i

namespace LinkConfig

def readWorkers (d : Nat) (i : Item) : Option Nat :=
  match i.fields? ["max_workers"] with
  | some [workers] => settingOr d (Item.asNatBelow? (2 ^ 64)) workers
  | _ => none

def readReconnect (d : Backoff) (i : Item) : Option Backoff :=
  match i.fields? ["initial_delay_ms", "max_delay_ms", "max_attempts"] with
  | some [initial, max, attempts] => do
    let initial ← settingOr d.initial (Item.asNatBelow? (2 ^ 64)) initial
    let max ← settingOr d.max (Item.asNatBelow? (2 ^ 64)) max
    let attempts ← settingOr d.maxAttempts (Item.asNatBelow? (2 ^ 32)) attempts
    pure ⟨initial, max, attempts⟩
  | _ => none

def ofMembers? (ms : Members) : Option LinkConfig := do
  let d : LinkConfig := {}
  let protocol ← settingOr d.protocol (fun i => i.word?.bind Protocol.ofName?) (ms.get? "protocol")
  let maxFrameSize ← settingOr d.maxFrameSize (Item.asNatBelow? (2 ^ 64))
    (ms.get? "max_frame_size")
  let ackWindow ← settingOr d.ackWindow (Item.asNatBelow? (2 ^ 32)) (ms.get? "ack_window")
  let windowViolation ← settingOr d.windowViolation (fun i => i.word?.bind ViolationPolicy.ofName?)
    (ms.get? "window_violation")
  let keepaliveSecs ← settingOr d.keepaliveSecs (Item.asNatBelow? (2 ^ 64))
    (ms.get? "keepalive_secs")
  let readTimeoutSecs ← settingOr d.readTimeoutSecs (Item.asNatBelow? (2 ^ 64))
    (ms.get? "read_timeout_secs")
  let maxWorkers ← settingOr d.maxWorkers (readWorkers d.maxWorkers) (ms.get? "scheduler")
  let reconnect ← settingOr d.reconnect (readReconnect d.reconnect) (ms.get? "reconnect")
  pure { protocol, maxFrameSize, ackWindow, windowViolation, keepaliveSecs, readTimeoutSecs,
         maxWorkers, reconnect }

def ofToml (text : String) : Except ConfigFault LinkConfig :=
  match (Toml.parse? text).bind ofMembers? with
  | none => .error .document
  | some c =>
    match c.check with
    | .error e => .error (.invalid e)
    | .ok () => .ok c

end LinkConfig
end PeerLink
