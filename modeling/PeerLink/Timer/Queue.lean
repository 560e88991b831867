import PeerLink.Table
import PeerLink.Timer.Policy

/-! # Queues of timers

* `Timer`: what to do, when, and how often.
* `TimerQueue`: timers that wait, with their deadlines in order, and periodic timers that fire.
* `TimerQueue.takeDue`: detaches the timers whose time has come, the earliest first.
-/

namespace PeerLink
set_option autoImplicit false

/-- A timer for a task of type `τ`; without an interval it fires once. -/
structure Timer (τ : Type) where
  id : Nat
  task : τ
  nextRun : Nat
  interval : Option Nat := none
  policy : FiringPolicy := .skip

/-- A time, and the timer that is due then. -/
structure Deadline where
  time : Nat
  id : Nat
deriving DecidableEq

/-- Earlier times first; at one time, older timers first. -/
def Deadline.le (a b : Deadline) : Bool := a.time < b.time || (a.time == b.time && a.id ≤ b.id)

def Timer.deadline {τ : Type} (t : Timer τ) : Deadline := ⟨t.nextRun, t.id⟩

structure TimerQueue (τ : Type) where
  /-- In order. -/
  deadlines : List Deadline := []
  waiting : Table Nat (Timer τ) := {}
  running : Table Nat (Timer τ) := {}

namespace TimerQueue
variable {τ : Type}

/-- Puts a deadline in its place. -/
def insertDeadline (d : Deadline) : List Deadline → List Deadline
  | [] => [d]
  | e :: es => if d.le e then d :: e :: es else e :: insertDeadline d es

def insert (q : TimerQueue τ) (t : Timer τ) : TimerQueue τ :=
  { q with
    deadlines := insertDeadline t.deadline q.deadlines
    waiting := q.waiting.insert t.id t }

/-- Removes a timer that waits; one that fires is dropped when its firing ends. -/
def cancel (q : TimerQueue τ) (id : Nat) : TimerQueue τ :=
  match q.waiting.get? id with
  | none => q
  | some t =>
    { q with deadlines := q.deadlines.erase t.deadline, waiting := q.waiting.erase id }

/-- The timers that are due, in the order of their deadlines, and the queue without them. -/
def takeDue (q : TimerQueue τ) (now : Nat) : List (Timer τ) × TimerQueue τ :=
  let due := q.deadlines.takeWhile (·.time ≤ now)
  (due.filterMap fun d => q.waiting.get? d.id,
    { q with
      deadlines := q.deadlines.dropWhile (·.time ≤ now)
      waiting := due.foldl (fun w d => w.erase d.id) q.waiting })

/-- Timers that wait or fire. -/
def size (q : TimerQueue τ) : Nat := q.waiting.size + q.running.size

end TimerQueue
end PeerLink
