import PeerLink.Path
import PeerLink.Table
import PeerLink.Tree

/-! # Trees in memory

* `MemoryTree`: values and actions by path. Nodes between the root and a stored path are there
  because the path is.
* `MemoryTree.listChildren`: the names one step below a path, in order.
* `MemoryTree.setValue`: stores a value and tells those who watch its path.
-/

namespace PeerLink
set_option autoImplicit false

open Json (Value)

/-- What an action does: it answers with its parameters, with rows, or with an error; it sets a
value; or it takes its worker down. -/
inductive Action
  | echo
  | rows (rows : List Value)
  | fail (e : LinkError)
  | store (path : String) (value : Value)
  | die

structure Watch (L : Type) where
  id : Nat
  path : String
  listener : L

structure MemoryTree (L : Type) where
  values : Table String ValueUpdate := {}
  actions : Table String Action := {}
  /-- The oldest first. -/
  watches : List (Watch L) := []
  nextWatch : Nat := 0
  /-- Streams that were reported as closed. -/
  closed : List (String × Method) := []

namespace MemoryTree
variable {L : Type}

/-! ## Values -/

def watchesOf (t : MemoryTree L) (path : String) : List (Watch L) :=
  t.watches.filter (·.path = path)

def setValue (now : Timestamp) (t : MemoryTree L) (path : String) (value : Value) :
    List (Notice L) × MemoryTree L :=
  let update : ValueUpdate := { value, time := now }
  ((t.watchesOf path).map fun w => ⟨w.listener, update⟩,
    { t with values := t.values.insert path update })

def readValue (t : MemoryTree L) (path : String) : Option ValueUpdate := t.values.get? path

def writeValue (now : Timestamp) (t : MemoryTree L) (path : String) (value : Value)
    (permit : Permission) : Except LinkError Unit × List (Notice L) × MemoryTree L :=
  if !permit.mayWrite then
    (.error ⟨.permissionDenied, "writing " ++ path ++ " needs write permission", none⟩, [], t)
  else if t.actions.contains path then
    (.error ⟨.invalidValue, path ++ " is an action", none⟩, [], t)
  else (.ok (), t.setValue now path value)

/-! ## Actions -/

def addAction (t : MemoryTree L) (path : String) (a : Action) : MemoryTree L :=
  { t with actions := t.actions.insert path a }

def invoke (now : Timestamp) (t : MemoryTree L) (path : String) (params : Option Value) :
    Outcome (List Value) × List (Notice L) × MemoryTree L :=
  match t.actions.get? path with
  | none => (.refused (.badPath path), [], t)
  | some .echo => (.answered [params.getD .null], [], t)
  | some (.rows rows) => (.answered rows, [], t)
  | some (.fail e) => (.refused e, [], t)
  | some (.store path value) => (.answered [], t.setValue now path value)
  | some .die => (.died, [], t)

/-! ## The hierarchy -/

def stored (t : MemoryTree L) : List String := t.values.keys ++ t.actions.keys

/-- What stands in front of the names of children. -/
def childPrefix (path : String) : List Char :=
  if path = "/" then ['/'] else path.toList ++ ['/']

/-- The rest of a path that begins with a given text. -/
def below? (start : List Char) (path : String) : Option (List Char) :=
  if start.isPrefixOf path.toList then some (path.toList.drop start.length) else none

/-- Whether a path is the root, is stored, or has something stored below it. -/
def hasNode (t : MemoryTree L) (path : String) : Bool :=
  path = "/" || t.stored.any fun k => k = path || (below? (path.toList ++ ['/']) k).isSome

/-- The name of the child of a node that leads to a stored path. -/
def childName? (start : List Char) (path : String) : Option String :=
  match below? start path with
  | none => none
  | some rest =>
    let name := rest.takeWhile (· != '/')
    if name.isEmpty then none else some (String.ofList name)

/-- Puts a name in its place, once. -/
def insertName (n : String) : List String → List String
  | [] => [n]
  | m :: ms => if n = m then m :: ms else if n < m then n :: m :: ms else m :: insertName n ms

def childNames (t : MemoryTree L) (path : String) : List String :=
  (t.stored.filterMap (childName? (childPrefix path))).foldl (fun ns n => insertName n ns) []

/-- What is known about a node: whether it can be invoked, or has a value. -/
def nodeInfo (t : MemoryTree L) (path : String) : Value :=
  let kind : List (String × Value) := [("$is", .str "node")]
  if t.actions.contains path then .ofMembers (kind ++ [("$invokable", .str "write")])
  else if t.values.contains path then .ofMembers (kind ++ [("$type", .str "dynamic")])
  else .ofMembers kind

def listChildren (t : MemoryTree L) (path : String) : Except LinkError (List Row) :=
  if t.hasNode path then
    .ok ((t.childNames path).map fun n =>
      ⟨n, t.nodeInfo (String.ofList (childPrefix path) ++ n)⟩)
  else .error (.badPath path)

/-! ## Watches -/

def watch (t : MemoryTree L) (path : String) (listener : L) : Nat × MemoryTree L :=
  (t.nextWatch,
    { t with
      watches := t.watches ++ [⟨t.nextWatch, path, listener⟩]
      nextWatch := t.nextWatch + 1 })

def unwatch (t : MemoryTree L) (id : Nat) : MemoryTree L :=
  { t with watches := t.watches.filter (·.id ≠ id) }

def watcherCount (t : MemoryTree L) (path : String) : Nat := (t.watchesOf path).length

/-! ## Streams -/

def streamClosed (t : MemoryTree L) (path : String) (m : Method) : MemoryTree L :=
  { t with closed := t.closed ++ [(path, m)] }

end MemoryTree

/-- An answer or an error as what comes of a call. -/
def Outcome.ofExcept {α : Type} : Except LinkError α → Outcome α
  | .ok a => .answered a
  | .error e => .refused e

instance : ValueTree (MemoryTree Binding) where
  listChildren t path := .ofExcept (t.listChildren path)
  readValue t path := .ok (t.readValue path)
  writeValue now t path value permit :=
    let (r, notices, t) := t.writeValue now path value permit
    (.ofExcept r, notices, t)
  invoke now t path params := t.invoke now path params
  watch _ t path b :=
    let (id, t) := t.watch path b
    (.ok id, [], t)
  unwatch t id := t.unwatch id
  streamClosed t path m := t.streamClosed path m

end PeerLink
