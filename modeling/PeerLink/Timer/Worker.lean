import PeerLink.Timer.Service

/-! # One worker

* `Worker`: a timer service whose firings wait in one queue with other tasks. The worker takes them
  in the order in which they came, and only when it is told to.
* `Worker.take?`, `Worker.start`, `Worker.finish`: the life of a piece of work.
-/

namespace PeerLink
set_option autoImplicit false

/-- What waits for the worker. -/
inductive Work (τ : Type)
  | task (t : τ)
  | firing (t : Timer τ)

structure Worker (τ : Type) where
  timers : TimerService τ := {}
  queue : List (Work τ) := []

namespace Worker
variable {τ : Type}

/-- Puts tasks behind those that wait. -/
def submit (w : Worker τ) (ts : List τ) : Worker τ := { w with queue := w.queue ++ ts.map .task }

/-- Lets the timers come to rest; firings that are due wait from now on. -/
def wake (w : Worker τ) : Worker τ :=
  let (due, timers) := w.timers.rest.takeFirings
  { timers, queue := w.queue ++ due.map .firing }

def advance (w : Worker τ) (ms : Nat) : Worker τ :=
  { w with timers := w.timers.advance ms }.wake

/-- Adds a timer that fires in regular intervals. -/
def every (w : Worker τ) (interval : Nat) (task : τ) : Nat × Worker τ :=
  let (id, timers) := w.timers.add task interval (some interval)
  (id, { w with timers }.wake)

def cancel (w : Worker τ) (id : Nat) : Worker τ := { w with timers := w.timers.cancel id }.wake

/-! ## Work -/

/-- The work that has waited longest. -/
def take? (w : Worker τ) : Option (Work τ × Worker τ) :=
  match w.queue with
  | [] => none
  | x :: queue => some (x, { w with queue })

/-- Begins a piece of work: the task to run, unless it is that of a timer that was cancelled. -/
def start (w : Worker τ) : Work τ → Option τ × Worker τ
  | .task t => (some t, w)
  | .firing t =>
    let (runs, timers) := w.timers.start t
    (if runs then some t.task else none, { w with timers })

def finish (w : Worker τ) : Work τ → Worker τ
  | .task _ => w
  | .firing t => { w with timers := w.timers.finish t }.wake

def now (w : Worker τ) : Nat := w.timers.now

def size (w : Worker τ) : Nat := w.queue.length

end Worker
end PeerLink
