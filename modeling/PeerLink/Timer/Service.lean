import PeerLink.Timer.Queue

/-! # The timer service

* `TimerService`: a queue of timers with the letters that wait for it. Timers are added and
  cancelled by letters, and a firing that has ended is reported by one.
* `TimerService.cancel`: sets a mark at once, before the letter is read. The mark is looked at when
  a timer comes due, when its firing begins, and before it is put back.
* `TimerService.sweep`, `TimerService.start`, `TimerService.finish`: the life of a firing.
-/

namespace PeerLink
set_option autoImplicit false

inductive TimerLetter (τ : Type)
  | insert (t : Timer τ)
  | cancel (id : Nat)
  | finished (id : Nat)
  | shutdown

structure TimerService (τ : Type) where
  now : Nat := 0
  nextId : Nat := 1
  queue : TimerQueue τ := {}
  letters : List (TimerLetter τ) := []
  /-- Timers that must not fire any more: cancelled ones, and those that have fired their once. -/
  cancelled : List Nat := []
  /-- Firings that no worker has begun. -/
  due : List (Timer τ) := []
  stopped : Bool := false

namespace TimerService
variable {τ : Type}

def isCancelled (s : TimerService τ) (id : Nat) : Bool := s.cancelled.contains id

def mark (s : TimerService τ) (id : Nat) : TimerService τ :=
  if s.isCancelled id then s else { s with cancelled := s.cancelled ++ [id] }

def send (s : TimerService τ) (l : TimerLetter τ) : TimerService τ :=
  { s with letters := s.letters ++ [l] }

/-! ## Calls -/

/-- Adds a timer that first fires after a delay; answers with its number. -/
def add (s : TimerService τ) (task : τ) (delay : Nat) (interval : Option Nat := none)
    (policy : FiringPolicy := .skip) : Nat × TimerService τ :=
  let t : Timer τ := { id := s.nextId, task, nextRun := s.now + delay, interval, policy }
  (s.nextId, { s with nextId := s.nextId + 1 }.send (.insert t))

def cancel (s : TimerService τ) (id : Nat) : TimerService τ :=
  if s.isCancelled id then s else (s.mark id).send (.cancel id)

def shutdown (s : TimerService τ) : TimerService τ := s.send .shutdown

def advance (s : TimerService τ) (ms : Nat) : TimerService τ := { s with now := s.now + ms }

def count (s : TimerService τ) : Nat := if s.stopped then 0 else s.queue.size

/-! ## Letters -/

/-- Puts a periodic timer back whose firing has ended. -/
def reschedule (s : TimerService τ) (t : Timer τ) : TimerService τ :=
  if s.isCancelled t.id then s
  else
    match t.interval with
    | none => s
    | some i =>
      { s with queue := s.queue.insert { t with nextRun := t.policy.nextRun t.nextRun i s.now } }

def read (s : TimerService τ) : TimerLetter τ → TimerService τ
  | .insert t => { s with queue := s.queue.insert t }
  | .cancel id => { s with queue := s.queue.cancel id }
  | .finished id =>
    match s.queue.running.get? id with
    | none => s
    | some t =>
      { s with queue := { s.queue with running := s.queue.running.erase id } }.reschedule t
  | .shutdown => { s with stopped := true }

def receive (s : TimerService τ) : TimerService τ :=
  match s.letters with
  | [] => s
  | l :: letters =>
    let s := { s with letters }
    if s.stopped then s else s.read l

def receiveAll (s : TimerService τ) : TimerService τ :=
  s.letters.foldl (fun s _ => s.receive) s

/-! ## Firings -/

/-- Hands the firing of a timer that is due to the workers. -/
def fire (s : TimerService τ) (t : Timer τ) : TimerService τ :=
  if s.isCancelled t.id then s
  else
    let queue :=
      if t.interval.isSome then { s.queue with running := s.queue.running.insert t.id t }
      else s.queue
    { s with queue, due := s.due ++ [t] }

def sweep (s : TimerService τ) : TimerService τ :=
  if s.stopped then s
  else
    let (due, queue) := s.queue.takeDue s.now
    due.foldl fire { s with queue }

/-- A worker begins a firing: whether its task runs. A timer that fires once is used up by it. -/
def start (s : TimerService τ) (t : Timer τ) : Bool × TimerService τ :=
  (!s.isCancelled t.id, if t.interval.isSome then s else s.mark t.id)

/-- Reports the end of a firing; that of a timer that fires once needs no report. -/
def finish (s : TimerService τ) (t : Timer τ) : TimerService τ :=
  if t.interval.isSome then s.send (.finished t.id) else s

/-- Reads all letters and fires what is due. -/
def rest (s : TimerService τ) : TimerService τ := s.receiveAll.sweep

/-- The firings that no worker has begun are taken over. -/
def takeFirings (s : TimerService τ) : List (Timer τ) × TimerService τ :=
  (s.due, { s with due := [] })

end TimerService
end PeerLink
