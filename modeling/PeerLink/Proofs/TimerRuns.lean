import PeerLink.Proofs.TimerQueues
import PeerLink.Timer.Service

/-! # Runs of a timer service

The service reads its letters and sweeps its queue in any order, workers take the firings in any
order and hold them as long as they like, timers are added and cancelled, and time passes.

* `TimerMove`, `TimerRun`: what can happen, and what has happened.
* `Stage`: where one timer is; `TimerRun.Stands` says that it is there and nowhere else.
* `TimerRun.Passes`: all that a move can do to one timer.
-/

namespace PeerLink
set_option autoImplicit false

/-- How the task of a firing ends. A panic stays with the worker. -/
inductive TaskEnd
  | returned
  | panicked

inductive TimerMove (τ : Type)
  | add (task : τ) (delay : Nat) (interval : Option Nat) (policy : FiringPolicy)
  | cancel (id : Nat)
  | shutdown
  | advance (ms : Nat)
  /-- The service reads one letter. -/
  | receive
  /-- The service hands what is due to the workers. -/
  | sweep
  /-- A worker takes one of the firings. -/
  | start (n : Nat)
  /-- One of the tasks that run ends. -/
  | finish (n : Nat) (e : TaskEnd)

inductive TimerNote (τ : Type)
  | added (t : Timer τ)
  | cancelled (id : Nat)
  | began (t : Timer τ) (time : Nat)
  | ended (t : Timer τ) (time : Nat) (e : TaskEnd)

structure TimerRun (τ : Type) where
  service : TimerService τ := {}
  /-- The firings whose tasks run. -/
  active : List (Timer τ) := []
  notes : List (TimerNote τ) := []

namespace TimerRun
variable {τ : Type}

/-- A worker runs the task of a firing, unless the timer has been cancelled. -/
def takeUp (r : TimerRun τ) (t : Timer τ) : TimerRun τ :=
  let (runs, service) := r.service.start t
  if runs then
    { service, active := r.active ++ [t], notes := r.notes ++ [.began t r.service.now] }
  else { r with service := service.finish t }

/-- The timer that a call adds. -/
def newTimer (r : TimerRun τ) (task : τ) (delay : Nat) (interval : Option Nat)
    (policy : FiringPolicy) : Timer τ :=
  { id := r.service.nextId, task, nextRun := r.service.now + delay, interval, policy }

def after (r : TimerRun τ) : TimerMove τ → TimerRun τ
  | .add task delay interval policy =>
    { r with
      service := (r.service.add task delay interval policy).2
      notes := r.notes ++ [.added (r.newTimer task delay interval policy)] }
  | .cancel id => { r with service := r.service.cancel id, notes := r.notes ++ [.cancelled id] }
  | .shutdown => { r with service := r.service.shutdown }
  | .advance ms => { r with service := r.service.advance ms }
  | .receive => { r with service := r.service.receive }
  | .sweep => { r with service := r.service.sweep }
  | .start n =>
    match r.service.due[n]? with
    | none => r
    | some t => { r with service := { r.service with due := r.service.due.eraseIdx n } }.takeUp t
  | .finish n e =>
    match r.active[n]? with
    | none => r
    | some t =>
      { service := r.service.finish t
        active := r.active.eraseIdx n
        notes := r.notes ++ [.ended t r.service.now e] }

def run (ms : List (TimerMove τ)) : TimerRun τ := ms.foldl after {}

theorem run_snoc (ms : List (TimerMove τ)) (m : TimerMove τ) : run (ms ++ [m]) = (run ms).after m :=
  List.foldl_concat ..

end TimerRun

/-! ## Stages -/

/-- Where a timer is. -/
inductive Stage (τ : Type)
  | absent
  /-- In the letter that adds it. -/
  | posted (t : Timer τ)
  | waiting (t : Timer τ)
  /-- Its firing was handed to the workers. -/
  | due (t : Timer τ)
  | active (t : Timer τ)
  /-- The end of its firing was reported. -/
  | reported (t : Timer τ)
  /-- The report came when the service had stopped. -/
  | stranded (t : Timer τ)

/-- Whether a letter moves a timer from one stage to another. -/
def TimerLetter.about {τ : Type} (id : Nat) : TimerLetter τ → Bool
  | .insert t => t.id = id
  | .finished id' => id' = id
  | .cancel _ | .shutdown => false

section about
variable {τ : Type} (id : Nat)

@[simp] theorem TimerLetter.about_insert (t : Timer τ) :
    about id (.insert t) = decide (t.id = id) := rfl

@[simp] theorem TimerLetter.about_finished (id' : Nat) :
    about id (.finished id' : TimerLetter τ) = decide (id' = id) := rfl

@[simp] theorem TimerLetter.about_cancel (id' : Nat) :
    about id (.cancel id' : TimerLetter τ) = false := rfl

@[simp] theorem TimerLetter.about_shutdown : about id (.shutdown : TimerLetter τ) = false := rfl

end about

/-- Whether a note is one of a firing. -/
def TimerNote.about {τ : Type} (id : Nat) : TimerNote τ → Bool
  | .began t _ => t.id = id
  | .ended t _ _ => t.id = id
  | .added _ | .cancelled _ => false

/-- When the task of a firing began. -/
def TimerNote.beginning? {τ : Type} : TimerNote τ → Option Nat
  | .began _ time => some time
  | _ => none

def TimerNote.ending? {τ : Type} : TimerNote τ → Option Nat
  | .ended _ time _ => some time
  | _ => none

/-- Firings of periodic timers are counted, and are to be reported. -/
def Timer.isPeriodic {τ : Type} (t : Timer τ) : Bool := t.interval.isSome

namespace Stage
variable {τ : Type}

def inLetters : Stage τ → List (TimerLetter τ)
  | posted t => [.insert t]
  | reported t => [.finished t.id]
  | _ => []

def inWaiting : Stage τ → Option (Timer τ)
  | waiting t => some t
  | _ => none

def inRunning : Stage τ → Option (Timer τ)
  | due t | active t => if t.isPeriodic then some t else none
  | reported t | stranded t => some t
  | _ => none

def inDue : Stage τ → List (Timer τ)
  | due t => [t]
  | _ => []

def inActive : Stage τ → List (Timer τ)
  | active t => [t]
  | _ => []

/-- The timer is that of the number, a firing that is reported is one of a periodic timer, and
reports are lost only by a service that has stopped. -/
def Fits (stopped : Bool) (id : Nat) : Stage τ → Prop
  | absent => True
  | posted t | waiting t | due t | active t => t.id = id
  | reported t => t.id = id ∧ t.isPeriodic = true
  | stranded t => t.id = id ∧ t.isPeriodic = true ∧ stopped = true

/-- Where a timer is when its firing has ended. -/
def ending (t : Timer τ) : Stage τ := if t.isPeriodic then reported t else absent

end Stage

namespace TimerRun
variable {τ : Type}

/-- A timer is at a stage, and nowhere else. -/
structure Stands (r : TimerRun τ) (id : Nat) (s : Stage τ) : Prop where
  letters : r.service.letters.filter (·.about id) = s.inLetters
  waiting : r.service.queue.waiting.get? id = s.inWaiting
  running : r.service.queue.running.get? id = s.inRunning
  due : r.service.due.filter (·.id = id) = s.inDue
  active : r.active.filter (·.id = id) = s.inActive
  fits : s.Fits r.service.stopped id

/-- What is noted of the firings of one timer. -/
def story (r : TimerRun τ) (id : Nat) : List (TimerNote τ) := r.notes.filter (·.about id)

/-- When the firings of a timer began. -/
def begins (r : TimerRun τ) (id : Nat) : List Nat := (r.story id).filterMap (·.beginning?)

def ends (r : TimerRun τ) (id : Nat) : List Nat := (r.story id).filterMap (·.ending?)

/-- All that a move can do to one timer, with what is noted of it. -/
inductive Passes (r : TimerRun τ) (id : Nat) :
    TimerMove τ → Stage τ → List (TimerNote τ) → Stage τ → Prop
  | stays (m : TimerMove τ) (s : Stage τ) : Passes r id m s [] s
  | added {task : τ} {delay : Nat} {interval : Option Nat} {policy : FiringPolicy}
      (fresh : id = r.service.nextId) :
      Passes r id (.add task delay interval policy) .absent []
        (.posted (r.newTimer task delay interval policy))
  | queued {t : Timer τ} (works : r.service.stopped = false) :
      Passes r id .receive (.posted t) [] (.waiting t)
  | lost {t : Timer τ} (stopped : r.service.stopped = true) :
      Passes r id .receive (.posted t) [] .absent
  | removed {t : Timer τ} (cancelled : id ∈ r.service.cancelled) :
      Passes r id .receive (.waiting t) [] .absent
  | detached {t : Timer τ} (works : r.service.stopped = false) (kept : id ∉ r.service.cancelled)
      (now : t.nextRun ≤ r.service.now) : Passes r id .sweep (.waiting t) [] (.due t)
  | dropped {t : Timer τ} (cancelled : id ∈ r.service.cancelled) :
      Passes r id .sweep (.waiting t) [] .absent
  | begun {t : Timer τ} {n : Nat} (taken : r.service.due[n]? = some t)
      (kept : id ∉ r.service.cancelled) :
      Passes r id (.start n) (.due t) [.began t r.service.now] (.active t)
  | passedOver {t : Timer τ} {n : Nat} (taken : r.service.due[n]? = some t)
      (cancelled : id ∈ r.service.cancelled) :
      Passes r id (.start n) (.due t) [] (.ending t)
  | ended {t : Timer τ} {n : Nat} {e : TaskEnd} (taken : r.active[n]? = some t) :
      Passes r id (.finish n e) (.active t) [.ended t r.service.now e] (.ending t)
  | renewed {t : Timer τ} {i : Nat} (works : r.service.stopped = false)
      (kept : id ∉ r.service.cancelled) (interval : t.interval = some i) :
      Passes r id .receive (.reported t) []
        (.waiting { t with nextRun := t.policy.nextRun t.nextRun i r.service.now })
  | forgotten {t : Timer τ} (cancelled : id ∈ r.service.cancelled) :
      Passes r id .receive (.reported t) [] .absent
  | stranded {t : Timer τ} (stopped : r.service.stopped = true) :
      Passes r id .receive (.reported t) [] (.stranded t)

end TimerRun
end PeerLink
