import PeerLink.Envelope
import PeerLink.Requester.Pending

/-! # Subscriptions of a requester

* `SubscriptionTable`: the subscriptions by number. What is asked for between two flushes leaves as
  one batch; a subscription that the other peer has never heard of is withdrawn without a word.
* `SubscriptionTable.takeBatch`: what a flush has to send.
* `SubscriptionUpdate.ofEntry?`: an update as an object, or as an array of number, value and time.
-/

namespace PeerLink
set_option autoImplicit false

open Json (Value)

structure Subscription where
  path : String
  qos : Nat
  handler : Handler
  last : Option ValueUpdate := none
  /-- Whether the other peer has been told. -/
  sent : Bool := false

/-- What a flush has to send. -/
structure Batch where
  subscribe : List SubscribePath := []
  unsubscribe : List Nat := []
deriving DecidableEq

structure SubscriptionTable where
  nextSid : Nat := 1
  entries : Table Nat Subscription := {}
  toSubscribe : List Nat := []
  toUnsubscribe : List Nat := []
  /-- Whether a flush is on its way. -/
  flushScheduled : Bool := false
  isOpen : Bool := false

namespace SubscriptionTable

/-- Whether a flush has to be scheduled; from now on one is. -/
def requestFlush (t : SubscriptionTable) : Bool × SubscriptionTable :=
  (!t.flushScheduled, { t with flushScheduled := true })

/-- A new subscription: its number, and whether a flush has to be scheduled. -/
def add (t : SubscriptionTable) (path : String) (qos : Nat) (handler : Handler) :
    Nat × Bool × SubscriptionTable :=
  let sid := t.entries.firstFree (t.entries.size + 1) t.nextSid
  let t :=
    { t with
      nextSid := sid + 1
      entries := t.entries.insert sid { path, qos, handler }
      toSubscribe := t.toSubscribe ++ [sid] }
  (sid, t.requestFlush)

/-- Ends a subscription: its handler, and whether a flush has to be scheduled. -/
def remove (t : SubscriptionTable) (sid : Nat) : Option (Handler × Bool) × SubscriptionTable :=
  match t.entries.get? sid with
  | none => (none, t)
  | some e =>
    let t := { t with entries := t.entries.erase sid }
    if e.sent then
      let (schedule, t) := { t with toUnsubscribe := t.toUnsubscribe ++ [sid] }.requestFlush
      (some (e.handler, schedule), t)
    else (some (e.handler, false), { t with toSubscribe := t.toSubscribe.filter (· ≠ sid) })

def batchEntry (t : SubscriptionTable) (sid : Nat) : Option SubscribePath :=
  (t.entries.get? sid).map fun e => ⟨e.path, sid, e.qos⟩

/-- All that was asked for since the last flush. -/
def takeBatch (t : SubscriptionTable) : Batch × SubscriptionTable :=
  (⟨t.toSubscribe.filterMap t.batchEntry, t.toUnsubscribe⟩,
    { t with
      flushScheduled := false
      toSubscribe := []
      toUnsubscribe := []
      entries :=
        t.toSubscribe.foldl (fun es sid => es.modify sid fun e => { e with sent := true })
          t.entries })

/-- Keeps an update as the last of its subscription; answers with the handler. -/
def record (t : SubscriptionTable) (u : SubscriptionUpdate) : Option Handler × SubscriptionTable :=
  match t.entries.get? u.sid with
  | none => (none, t)
  | some e =>
    (some e.handler,
      { t with entries := t.entries.modify u.sid fun e => { e with last := some u.update } })

def last? (t : SubscriptionTable) (sid : Nat) : Option ValueUpdate :=
  (t.entries.get? sid).bind (·.last)

/-- All subscriptions in order of their numbers; none is left, and none may be added until the
next connection. -/
def drain (t : SubscriptionTable) : List (Nat × Handler) × SubscriptionTable :=
  ((t.entries.toSorted (· ≤ ·)).map fun e => (e.1, e.2.handler),
    { t with isOpen := false, toSubscribe := [], toUnsubscribe := [], entries := {} })

def size (t : SubscriptionTable) : Nat := t.entries.size

end SubscriptionTable

/-! ## Updates -/

/-- The time an item names, or the present. -/
def timeOr (now : Timestamp) (v : Option Value) : Timestamp :=
  ((v.bind Value.asString?).bind Timestamp.parse?).getD now

/-- An update as it stands in a batch of values. An array may lack its value, which is then null,
and its time. -/
def SubscriptionUpdate.ofEntry? (now : Timestamp) (v : Value) : Option SubscriptionUpdate :=
  match v with
  | .arr items =>
    match items with
    | [] => none
    | sid :: rest =>
      (sid.asNatBelow? wordBound).map fun sid =>
        ⟨sid, { value := (rest[0]?).getD .null, time := timeOr now rest[1]? }⟩
  | v => SubscriptionUpdate.ofJson? v

end PeerLink
