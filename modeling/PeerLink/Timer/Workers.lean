import PeerLink.Timer.Service

/-! # Workers without limit

* `Workers`: a timer service whose firings begin at once. Some of them are held up until they are
  let go.
* `Workers.settle`: lets all firings run that can.
-/

namespace PeerLink
set_option autoImplicit false

/-- A task by its name; a task that blocks waits until it is let go. -/
structure Job where
  name : String
  blocks : Bool := false
deriving DecidableEq

/-- A task that began to run. -/
structure Started where
  time : Nat
  name : String
deriving DecidableEq

/-- Earlier tasks first; at one time, by name. -/
def Started.le (a b : Started) : Bool := a.time < b.time || (a.time == b.time && a.name ≤ b.name)

structure Workers where
  timers : TimerService Job := {}
  /-- Tasks that are held up, with the timers that fired them. -/
  held : List (Job × Option (Timer Job)) := []
  /-- The last timer of each name. -/
  named : Table String Nat := {}

namespace Workers

/-- Adds a timer under the name of its task. -/
def add (w : Workers) (job : Job) (delay : Nat) (interval : Option Nat := none)
    (policy : FiringPolicy := .skip) : Workers :=
  let (id, timers) := w.timers.add job delay interval policy
  { w with timers, named := w.named.insert job.name id }

def cancel (w : Workers) (name : String) : Workers :=
  match w.named.get? name with
  | none => w
  | some id => { w with timers := w.timers.cancel id }

/-- The names whose last timer must not fire any more, in order. -/
def cancelled (w : Workers) : List String :=
  ((w.named.toSorted (· ≤ ·)).filter fun e => w.timers.isCancelled e.2).map (·.1)

def finish (w : Workers) (t : Option (Timer Job)) : Workers :=
  match t with
  | none => w
  | some t => { w with timers := w.timers.finish t }

/-- Runs a task that no timer keeps from running. -/
def runJob (w : Workers) (job : Job) (t : Option (Timer Job)) : Started × Workers :=
  (⟨w.timers.now, job.name⟩,
    if job.blocks then { w with held := w.held ++ [(job, t)] } else w.finish t)

def runFiring (w : Workers) (t : Timer Job) : List Started × Workers :=
  let (runs, timers) := w.timers.start t
  let w := { w with timers }
  if runs then
    let (started, w) := w.runJob t.task (some t)
    ([started], w)
  else ([], w.finish (some t))

def runFirings (w : Workers) : List (Timer Job) → List Started × Workers
  | [] => ([], w)
  | t :: ts =>
    let (a, w) := w.runFiring t
    let (b, w) := runFirings w ts
    (a ++ b, w)

/-- Lets firings run until none is left, in at most `fuel` rounds. -/
def settleFor : Nat → Workers → List Started × Workers
  | 0, w => ([], w)
  | fuel + 1, w =>
    let (firings, timers) := w.timers.rest.takeFirings
    let w := { w with timers }
    if firings.isEmpty then ([], w)
    else
      let (a, w) := w.runFirings firings
      let (b, w) := settleFor fuel w
      (a ++ b, w)

/-- More rounds than there can be: a timer that makes up for missed runs is nearer to the present
after each. -/
def rounds (w : Workers) : Nat :=
  let timers := w.timers.receiveAll
  let behind (t : Timer Job) : Nat := timers.now - t.nextRun + 2
  (timers.queue.waiting.values.map behind).foldl (· + ·) 0 + 2

def settle (w : Workers) : List Started × Workers := settleFor w.rounds w

/-- Lets a task go that is held up, the first of its name. -/
def release (w : Workers) (name : String) : Bool × Workers :=
  match w.held.find? (·.1.name = name) with
  | none => (false, w)
  | some (_, t) => (true, { w with held := w.held.eraseP (·.1.name = name) }.finish t)

end Workers
end PeerLink
