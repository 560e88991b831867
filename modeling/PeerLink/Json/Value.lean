import PeerLink.Number.Shortest

/-! # JSON values

* `Number`: a whole number, or a floating-point number.
* `Value`: a JSON value; the members of an object stand in the order in which they are written.
* `Value.ofMembers`: an object with its members in order of their keys, the last of a key kept.
* `Value.sorted`: the same value with the members of every object in that order.
-/

namespace PeerLink.Json
set_option autoImplicit false

/-- A number: `neg n` is `-n`. -/
inductive Number
  | nat (n : Nat)
  | neg (n : Nat)
  | float (x : Binary64)
deriving DecidableEq

inductive Value
  | null
  | bool (b : Bool)
  | num (n : Number)
  | str (s : String)
  | arr (items : List Value)
  | obj (members : List (String × Value))

namespace Value

/-! ## Constructors -/

def ofNat (n : Nat) : Value := .num (.nat n)

/-- Puts a member in front of the first greater key, in the place of an equal one. -/
def putMember (k : String) (v : Value) : List (String × Value) → List (String × Value)
  | [] => [(k, v)]
  | (k', v') :: rest =>
    if k = k' then (k, v) :: rest
    else if k < k' then (k, v) :: (k', v') :: rest
    else (k', v') :: putMember k v rest

/-- The members in order of their keys; of two with one key the later stays. -/
def orderMembers (ms : List (String × Value)) : List (String × Value) :=
  ms.foldl (fun acc m => putMember m.1 m.2 acc) []

def ofMembers (ms : List (String × Value)) : Value := .obj (orderMembers ms)

mutual
/-- The value with the members of every object in order of their keys. -/
def sorted : Value → Value
  | .arr items => .arr (sortedItems items)
  | .obj ms => .obj (orderMembers (sortedMembers ms))
  | v => v

def sortedItems : List Value → List Value
  | [] => []
  | v :: vs => sorted v :: sortedItems vs

def sortedMembers : List (String × Value) → List (String × Value)
  | [] => []
  | (k, v) :: ms => (k, sorted v) :: sortedMembers ms
end

/-! ## Parts -/

def member? (k : String) (ms : List (String × Value)) : Option Value :=
  (ms.find? (·.1 = k)).map (·.2)

def asString? : Value → Option String
  | .str s => some s
  | _ => none

def asNatBelow? (bound : Nat) : Value → Option Nat
  | .num (.nat n) => if n < bound then some n else none
  | _ => none

def asArray? : Value → Option (List Value)
  | .arr vs => some vs
  | _ => none

/-! ## Records -/

/-- The values of the named fields, from an object or from an array in the same order; an array may
be shorter but not longer. -/
def fields? (names : List String) : Value → Option (List (Option Value))
  | .obj ms => some (names.map fun n => member? n ms)
  | .arr vs =>
    if vs.length ≤ names.length then
      some (vs.map some ++ List.replicate (names.length - vs.length) none)
    else none
  | _ => none

/-- A field that may be missing or null. -/
def optional? {α : Type} (read : Value → Option α) : Option Value → Option (Option α)
  | none | some .null => some none
  | some v => (read v).map some

/-- A field that may be missing. -/
def default? {α : Type} (d : α) (read : Value → Option α) : Option Value → Option α
  | none => some d
  | some v => read v

def isNull : Value → Bool
  | .null => true
  | _ => false

/-- Whether a value stands for nothing where an empty object does too. -/
def isVoid : Value → Bool
  | .null | .obj [] => true
  | _ => false

/-- A word of an enumeration: a string, or an object whose only member has the word as its key and
as its value one that stands for nothing. -/
def wordOver? (isNothing : Value → Bool) : Value → Option String
  | .str s => some s
  | .obj [(k, v)] => if isNothing v then some k else none
  | _ => none

def word? : Value → Option String := wordOver? isNull

end Value
end PeerLink.Json
