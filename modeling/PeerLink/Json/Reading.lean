import PeerLink.Json.Literal

/-! # Reading documents

* `Shape`: which parts of a document its reader keeps.
* `Raw.keep?`: the value of the parts kept. Parts that are not kept only have to be spelled well;
  in the others strings and numbers have values and containers nest at most `maxDepth` deep.
* `Value.parse?`: the value of a whole document.
-/

namespace PeerLink.Json
set_option autoImplicit false

/-- How deep containers may nest in what is kept. -/
def maxDepth : Nat := 127

/-- What a reader keeps of a document. A `record` keeps its named members, of which each may stand
once; with `all` it reads the others too. -/
inductive Shape
  | any
  | word
  | list (item : Shape)
  | record (all : Bool) (names : List (String × Shape))

def Shape.member? (k : String) : List (String × Shape) → Option Shape
  | [] => none
  | (k', s) :: rest => if k = k' then some s else member? k rest

namespace Raw

/-- Whether no key that is kept stands twice. -/
def distinct (names : List (String × Shape)) (keys : List String) : Bool :=
  names.all fun n => keys.count n.1 ≤ 1

mutual
/-- The value of what a shape keeps; `room` is how deep containers may still nest. -/
def keep? : Shape → Nat → Raw → Option Value
  | _, _, .null => some .null
  | _, _, .bool b => some (.bool b)
  | _, _, .number n => n.number?.map .num
  | _, _, .string ps => (StringPart.text? ps).map .str
  | _, 0, .array _ => none
  | _, 0, .object _ => none
  | .list shape, room + 1, .array vs => (keepItems? shape room vs).map .arr
  | .record _ names, room + 1, .array vs => (keepRow? names room vs).map .arr
  | _, room + 1, .array vs => (keepItems? .any room vs).map .arr
  | .record all names, room + 1, .object ms =>
    match keepMembers? all names room ms with
    | none => none
    | some kept => if distinct names (kept.map (·.1)) then some (Value.ofMembers kept) else none
  | .word, room + 1, .object ms =>
    match keepMembers? true [] room ms with
    | some [m] => some (.obj [m])
    | _ => none
  | _, room + 1, .object ms => (keepMembers? true [] room ms).map Value.ofMembers

def keepItems? : Shape → Nat → List Raw → Option (List Value)
  | _, _, [] => some []
  | shape, room, v :: vs =>
    match keep? shape room v, keepItems? shape room vs with
    | some v, some vs => some (v :: vs)
    | _, _ => none

/-- The items of a record that is written as an array, one for each name and no more. -/
def keepRow? : List (String × Shape) → Nat → List Raw → Option (List Value)
  | _, _, [] => some []
  | [], _, _ :: _ => none
  | (_, shape) :: names, room, v :: vs =>
    match keep? shape room v, keepRow? names room vs with
    | some v, some vs => some (v :: vs)
    | _, _ => none

/-- The members that are kept; every key must have a text. -/
def keepMembers? : Bool → List (String × Shape) → Nat → List (List StringPart × Raw) →
    Option (List (String × Value))
  | _, _, _, [] => some []
  | all, names, room, (ps, v) :: ms =>
    match StringPart.text? ps, keepMembers? all names room ms with
    | some k, some kept =>
      match Shape.member? k names with
      | some shape => (keep? shape room v).map fun v => (k, v) :: kept
      | none => if all then (keep? .any room v).map fun v => (k, v) :: kept else some kept
    | _, _ => none
end

end Raw

def Shape.read? (shape : Shape) (s : Bytes) : Option Value :=
  (Raw.parse s).bind (Raw.keep? shape maxDepth)

def Value.parse? (s : Bytes) : Option Value := Shape.any.read? s

end PeerLink.Json
