import PeerLink.Tree.Memory

/-! # Trees that interfere

* `HookedTree`: a tree in memory that refuses some watches and reads, and changes values while a
  watch begins.
-/

namespace PeerLink
set_option autoImplicit false

open Json (Value)

structure HookedTree where
  memory : MemoryTree Binding := {}
  refusedWatches : List String := []
  refusedReads : List String := []
  /-- Values that are set when a watch of their path has begun. -/
  changes : List (String × Value) := []

namespace HookedTree

def refusal (path : String) : LinkError := ⟨.permissionDenied, "refused: " ++ path, none⟩

def withMemory (t : HookedTree) (memory : MemoryTree Binding) : HookedTree := { t with memory }

def watch (now : Timestamp) (t : HookedTree) (path : String) (b : Binding) :
    Except LinkError Nat × List (Notice Binding) × HookedTree :=
  if t.refusedWatches.contains path then (.error (refusal path), [], t)
  else
    let (id, memory) := t.memory.watch path b
    match t.changes.lookup path with
    | none => (.ok id, [], t.withMemory memory)
    | some value =>
      let (notices, memory) := memory.setValue now path value
      (.ok id, notices, t.withMemory memory)

end HookedTree

instance : ValueTree HookedTree where
  listChildren t path := ValueTree.listChildren t.memory path
  readValue t path :=
    if t.refusedReads.contains path then .error (HookedTree.refusal path)
    else .ok (t.memory.readValue path)
  writeValue now t path value permit :=
    let (r, notices, memory) := ValueTree.writeValue now t.memory path value permit
    (r, notices, t.withMemory memory)
  invoke now t path params :=
    let (r, notices, memory) := t.memory.invoke now path params
    (r, notices, t.withMemory memory)
  watch now t path b := t.watch now path b
  unwatch t id := t.withMemory (t.memory.unwatch id)
  streamClosed t path m := t.withMemory (t.memory.streamClosed path m)

end PeerLink
