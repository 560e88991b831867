/-! # TOML tables

* `Item`: a value, a table, or an array of tables.
* `Members.under`: goes down a path and changes the table at its end. Tables on the way that are not
  there are made; what may be gone into depends on how a table came to be.
* `Members.define`, `openTable`, `openElement`: what a line of a document does.
-/

namespace PeerLink.Toml
set_option autoImplicit false

/-- How a table came to be: written in braces, by its own header, as a part of a longer header, or
as a part of a dotted key. -/
inductive Origin
  | braces
  | header
  | implied
  | dotted
deriving DecidableEq

/-- Of a date or a time nothing but its kind is needed, and of `other` values, which are truth
values and numbers with a fraction or an exponent, not even that. -/
inductive Item
  | string (s : String)
  | integer (n : Int)
  | time
  | other
  | array (items : List Item)
  | table (origin : Origin) (members : List (String × Item))
  | tables (elements : List (List (String × Item)))

abbrev Members := List (String × Item)

namespace Members

def get? (ms : Members) (k : String) : Option Item := ms.lookup k

/-- Puts an item in the place of a member, or behind all members. -/
def put : Members → String → Item → Members
  | [], k, i => [(k, i)]
  | (k', i') :: ms, k, i => if k = k' then (k, i) :: ms else (k', i') :: put ms k i

/-- The origin of a table made on the way: by a dotted key or by a header. -/
def madeBy (byKey : Bool) : Origin := if byKey then .dotted else .implied

/-- Whether one may go into a table. No key reaches into a table with a header of its own. -/
def mayEnter (byKey : Bool) : Origin → Bool
  | .braces => false
  | .header => !byKey
  | .implied | .dotted => true

/-- Changes the table at the end of a path, counted from a table of a given origin. -/
def under (byKey : Bool) (act : Origin → Members → Option Members) :
    List String → Origin → Members → Option Members
  | [], origin, ms => act origin ms
  | k :: ks, _, ms =>
    match get? ms k with
    | none =>
      (under byKey act ks (madeBy byKey) []).map fun ms' => put ms k (.table (madeBy byKey) ms')
    | some (.table origin inner) =>
      if mayEnter byKey origin then
        (under byKey act ks origin inner).map fun ms' => put ms k (.table origin ms')
      else none
    | some (.tables elements) =>
      match elements.getLast? with
      | none => none
      | some inner =>
        (under byKey act ks .header inner).map fun ms' =>
          put ms k (.tables (elements.dropLast ++ [ms']))
    | some _ => none

/-- Gives a value to a key. A dotted key adds only to tables made by dotted keys. -/
def define (path : List String) (k : String) (i : Item) (origin : Origin) (ms : Members) :
    Option Members :=
  under true
    (fun origin ms =>
      if (origin == .dotted) == path.isEmpty then none
      else if (get? ms k).isSome then none
      else some (put ms k i))
    path origin ms

/-- Begins the table of a header; a table that was only implied gets its header now. -/
def openTable (parents : List String) (k : String) (ms : Members) : Option Members :=
  under false
    (fun _ ms =>
      match get? ms k with
      | none => some (put ms k (.table .header []))
      | some (.table .implied inner) => some (put ms k (.table .header inner))
      | some _ => none)
    parents .header ms

/-- Begins the next table of an array of tables. -/
def openElement (parents : List String) (k : String) (ms : Members) : Option Members :=
  under false
    (fun _ ms =>
      match get? ms k with
      | none => some (put ms k (.tables [[]]))
      | some (.tables elements) => some (put ms k (.tables (elements ++ [[]])))
      | some _ => none)
    parents .header ms

/-- Gives a value to a key in the table that a header began. -/
def defineIn (current : List String) (path : List String) (k : String) (i : Item) (ms : Members) :
    Option Members :=
  under false (define path k i) current .header ms

end Members
end PeerLink.Toml
