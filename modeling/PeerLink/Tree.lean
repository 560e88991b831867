import PeerLink.Message

/-! # Trees of values

* `ValueTree`: what a responder asks of the tree it serves.
* `Binding`: who watches a value; `Notice`: what they are told.
* `WatchGuard`: the right to end a watch.
-/

namespace PeerLink
set_option autoImplicit false

open Json (Value)

/-- What comes of a call to a tree: an answer, an error, or the death of the worker that made it. -/
inductive Outcome (α : Type)
  | answered (a : α)
  | refused (e : LinkError)
  | died

/-- A subscription as it was bound; the token tells it from others of the same number. -/
structure Binding where
  sid : Nat
  token : Nat
deriving DecidableEq

/-- News for the one who watches. -/
structure Notice (L : Type) where
  listener : L
  update : ValueUpdate

/-- Whoever holds it ends the watch of its number; there need not be one. -/
structure WatchGuard where
  watch : Option Nat := none
deriving DecidableEq

namespace WatchGuard

def isArmed (g : WatchGuard) : Bool := g.watch.isSome

def text (g : WatchGuard) : String := "WatchGuard \x7b armed: " ++ toString g.isArmed ++ " \x7d"

end WatchGuard

/-- A child of a node, and what is known about it. -/
structure Row where
  name : String
  info : Value

/-- A tree. Calls that change values answer with news for those who watch, in order. -/
class ValueTree (σ : Type) where
  listChildren : σ → String → Outcome (List Row)
  readValue : σ → String → Except LinkError (Option ValueUpdate)
  writeValue : Timestamp → σ → String → Value → Permission →
    Outcome Unit × List (Notice Binding) × σ
  invoke : Timestamp → σ → String → Option Value →
    Outcome (List Value) × List (Notice Binding) × σ
  /-- Begins a watch and answers with its number. -/
  watch : Timestamp → σ → String → Binding → Except LinkError Nat × List (Notice Binding) × σ
  unwatch : σ → Nat → σ
  /-- A stream on a path has been closed. -/
  streamClosed : σ → String → Method → σ

end PeerLink
