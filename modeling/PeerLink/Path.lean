import PeerLink.Fault

/-! # Node paths

* `Path.valid`: a leading slash, then segments that are neither empty nor dots and hold no reserved
  character; the root is a slash alone.
* `Path.check`: the error of a path that is not valid.
-/

namespace PeerLink.Path
set_option autoImplicit false

def reserved : List Char := ['\\', '?', '*', '|', '<', '>', '"', ':', '%']

def segments : List Char → List (List Char)
  | [] => [[]]
  | c :: cs =>
    if c = '/' then [] :: segments cs
    else
      match segments cs with
      | [] => [[c]]
      | s :: rest => (c :: s) :: rest

theorem segments_ne_nil : ∀ cs : List Char, segments cs ≠ []
  | [] => by simp [segments]
  | c :: cs => by
    unfold segments
    split
    · simp
    · split <;> simp

/-- A segment that may stand in a path. -/
def goodSegment (s : List Char) : Bool :=
  !s.isEmpty && s != ['.'] && s != ['.', '.'] && s.all (!reserved.contains ·)

/-- An absolute path of good segments. -/
def valid (path : String) : Bool :=
  match path.toList with
  | ['/'] => true
  | '/' :: rest => (segments rest).all goodSegment
  | _ => false

/-- Nothing for a valid path, its error for any other. -/
def check (path : String) : Except LinkError Unit :=
  if valid path then .ok () else .error (.badPath path)

theorem check_eq_ok {path : String} : check path = .ok () ↔ valid path = true := by
  unfold check
  split <;> simp_all

end PeerLink.Path
