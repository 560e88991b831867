import PeerLink.Framing.Binary

/-! # Writing binary frames

* `Writer`: the messages that wait and the frames of the one that is being written.
* `Writer.step`: one step of the writer. Without credit it waits at two bells: when credit comes it
  tries again, and when an acknowledgement is due it sends one, which needs no credit. So two peers
  that have used up each other's credit do not wait for each other.
* `Writer.pump`: all steps that can be made.
-/

namespace PeerLink
set_option autoImplicit false

structure Writer where
  queue : List Message := []
  /-- What is left of the message that is being written. -/
  frames : Option (List Frame) := none
  /-- Whether the writer waits for credit. -/
  waiting : Bool := false

namespace Writer

def push (w : Writer) (m : Message) : Writer := { w with queue := w.queue ++ [m] }

def isIdle (w : Writer) : Bool := w.queue.isEmpty && w.frames.isNone

/-- Goes away from both bells. -/
def leaveBells (b : BinaryEnd) : BinaryEnd :=
  { b with
    window :=
      { b.window with credit := b.window.credit.leave, ackDue := b.window.ackDue.leave } }

def askCredit (b : BinaryEnd) : Bool × BinaryEnd :=
  let (called, credit) := b.window.credit.listen
  (called, { b with window := { b.window with credit } })

def askDue (b : BinaryEnd) : Bool × BinaryEnd :=
  let (called, ackDue) := b.window.ackDue.listen
  (called, { b with window := { b.window with ackDue } })

/-- Goes on because credit may have come. -/
def retry (w : Writer) (b : BinaryEnd) : Bytes × Writer × BinaryEnd :=
  ([], { w with waiting := false }, leaveBells b)

/-- Sends an acknowledgement because one is due. -/
def answerDue (w : Writer) (b : BinaryEnd) : Bytes × Writer × BinaryEnd :=
  let (bytes, b) := (leaveBells b).ackFrame
  (bytes, { w with waiting := false }, b)

/-- Asks both bells, that of credit first unless told otherwise. Whichever answers, the writer goes
away from the other; if none does, it waits. -/
def listen (w : Writer) (b : BinaryEnd) (dueFirst : Bool := false) : Bytes × Writer × BinaryEnd :=
  if dueFirst then
    let (due, b) := askDue b
    if due then w.answerDue b
    else
      let (called, b) := askCredit b
      if called then w.retry b else ([], { w with waiting := true }, b)
  else
    let (called, b) := askCredit b
    if called then w.retry b
    else
      let (due, b) := askDue b
      if due then w.answerDue b else ([], { w with waiting := true }, b)

/-- Whether a bell has called a writer that waits. -/
def isCalled (b : BinaryEnd) : Bool := b.window.credit.isCalled || b.window.ackDue.isCalled

/-- One step, with what it writes; nothing if the writer has to wait or has nothing to do. When both
bells ring, either may be heard: `dueFirst` says which one is asked first. -/
def step (w : Writer) (b : BinaryEnd) (dueFirst : Bool := false) :
    Option (Bytes × Writer × BinaryEnd) :=
  match w.frames, w.queue with
  | none, [] => none
  | none, m :: queue =>
    let (frames, b) := b.begin m
    some ([], { w with queue, frames := some frames }, b)
  | some [], _ => some ([], { w with frames := none }, b)
  | some (f :: frames), _ =>
    if w.waiting then if isCalled b then some (w.listen b dueFirst) else none
    else
      match b.window.next with
      | (some seq, window) =>
        let (bytes, b) := { b with window }.stamp f (some seq)
        some (bytes, { w with frames := some frames }, b)
      | (none, _) => some (w.listen b dueFirst)

/-- Makes at most `fuel` steps. -/
def pumpFor : Nat → Writer → BinaryEnd → Bytes × Writer × BinaryEnd
  | 0, w, b => ([], w, b)
  | fuel + 1, w, b =>
    match w.step b with
    | none => ([], w, b)
    | some (bytes, w, b) =>
      let (more, w, b) := pumpFor fuel w b
      (bytes ++ more, w, b)

/-- More steps than can be made before the writer waits or is done: two for a message, one for a
frame, and a few to answer the bells. -/
def work (w : Writer) (b : BinaryEnd) : Nat :=
  (w.frames.getD []).length + (w.queue.map fun m => (b.begin m).1.length + 2).foldl (· + ·) 0 + 8

def pump (w : Writer) (b : BinaryEnd) : Bytes × Writer × BinaryEnd := pumpFor (w.work b) w b

end Writer
end PeerLink
