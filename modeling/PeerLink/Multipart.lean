import PeerLink.Frame
import PeerLink.Table

/-! # Split payloads

A payload that is too long for one frame travels in several with the same request number: a primary
frame with the headers, then continuations. Each of them declares the length of the whole.

* `Frame.split`: the frames of a payload.
* `Reassembler`: the payloads that have not arrived whole. Requests of one peer and responses to the
  other share their numbers, so the direction is part of the key.
* `Reassembler.abandon`: the members on the way are counted but not kept, and nothing comes of them.
-/

namespace PeerLink
set_option autoImplicit false

/-! ## Splitting -/

/-- Pieces of `size` bytes; the last may be shorter. A size of zero counts as one. -/
def Bytes.chunks (size : Nat) (bs : Bytes) : List Bytes :=
  if bs.isEmpty then []
  else bs.take (max size 1) :: chunks size (bs.drop (max size 1))
termination_by bs.length
decreasing_by
  rename_i h
  simp only [List.isEmpty_iff] at h
  have := List.length_pos_iff.mpr h
  simp only [List.length_drop]
  omega

namespace Frame

/-- A later member of a split payload. -/
def continuation (template : Frame) (total : Nat) (body : Bytes) : Frame :=
  { type := template.type, rid := template.rid, body,
    headers := { total := some total, continuation := true } }

/-- The frames of a payload, each with at most `maxBody` bytes of it; the first has the headers of
the template. -/
def split (template : Frame) (body : Bytes) (maxBody : Nat) : List Frame :=
  if body.length ≤ maxBody then [{ template with body }]
  else
    let total := body.length % 2 ^ 32
    match Bytes.chunks maxBody body with
    | [] => []
    | first :: later =>
      { template with headers := { template.headers with total := some total }, body := first } ::
        later.map (continuation template total)

end Frame

/-! ## Assemblies -/

/-- Whether a request or a response is assembled, and its number. -/
structure AssemblyKey where
  isRequest : Bool
  rid : Nat
deriving DecidableEq

def Frame.assemblyKey (f : Frame) : AssemblyKey := ⟨f.type.isRequest, f.rid⟩

/-- A payload of which some members have arrived; the body of `primary` holds their bytes. -/
structure Assembly where
  primary : Frame
  total : Nat
  received : Nat
  abandoned : Bool := false
deriving DecidableEq

namespace Assembly

def isComplete (a : Assembly) : Bool := a.received == a.total

/-- The whole frame, as if it had never been split. -/
def finish (a : Assembly) : Frame :=
  { a.primary with headers := { a.primary.headers with total := none, continuation := false } }

def extend (a : Assembly) (body : Bytes) : Assembly :=
  { a with
    received := a.received + body.length
    primary :=
      if a.abandoned then a.primary else { a.primary with body := a.primary.body ++ body } }

def abandon (a : Assembly) : Assembly :=
  { a with abandoned := true, primary := { a.primary with body := [] } }

end Assembly

structure Reassembler where
  assemblies : Table AssemblyKey Assembly := {}

namespace Reassembler

/-- What becomes of a frame: a whole frame, nothing yet, or an error. -/
abbrev Outcome := Except FrameError (Option Frame)

def inProgress (r : Reassembler) : Nat := r.assemblies.size

def abandon (r : Reassembler) (key : AssemblyKey) : Reassembler :=
  ⟨r.assemblies.modify key Assembly.abandon⟩

def discard (r : Reassembler) (key : AssemblyKey) : Reassembler := ⟨r.assemblies.erase key⟩

def pushContinuation (r : Reassembler) (f : Frame) : Outcome × Reassembler :=
  let key := f.assemblyKey
  match r.assemblies.get? key with
  | none => (.error (.badMultipart f.rid .orphan), r)
  | some a =>
    if f.headers.total ≠ some a.total then (.error (.badMultipart f.rid .totalChanged), r)
    else if a.total < a.received + f.body.length then
      (.error (.badMultipart f.rid .overrun), r)
    else
      let a := a.extend f.body
      if a.isComplete then
        (.ok (if a.abandoned then none else some a.finish), r.discard key)
      else (.ok none, ⟨r.assemblies.modify key fun _ => a⟩)

/-- Takes the first member of a split payload. An abandoned assembly gives way to it. -/
def pushPrimary (r : Reassembler) (f : Frame) (total : Nat) : Outcome × Reassembler :=
  let key := f.assemblyKey
  let r := if (r.assemblies.get? key).any (·.abandoned) then r.discard key else r
  if r.assemblies.contains key then (.error (.badMultipart f.rid .primaryWhileOpen), r)
  else if total < f.body.length then (.error (.badMultipart f.rid .primaryTooLong), r)
  else
    let a : Assembly := { primary := f, total, received := f.body.length }
    if a.isComplete then (.ok (some a.finish), r) else (.ok none, ⟨r.assemblies.insert key a⟩)

def push (r : Reassembler) (f : Frame) : Outcome × Reassembler :=
  if f.headers.continuation then r.pushContinuation f
  else
    match f.headers.total with
    | none => (.ok (some f), r)
    | some total => r.pushPrimary f total

end Reassembler
end PeerLink
