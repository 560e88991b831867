import PeerLink.Proofs.OverlapSteps

/-! # Trying again and again

A driver whose attempts fail and whose sessions end, in any mixture, while nobody stops it.

* `RetryNote`: what the driver has done in a step, read off its phases before and after it.
* `RetryNote.setbacks`: how many setbacks there have been since the last session began.
* `Retrying`: a connection, its driver of the last start, and what that has done.
* `Retrying.Move`, `Retrying.after`: what can happen, in any order, and what comes of it.
* `Retrying.Lawful`: how long the driver waits after each setback, and when it gives up.
-/

namespace PeerLink
set_option autoImplicit false

/-! ## Notes -/

inductive RetryNote
  /-- An attempt has succeeded, and a session begins. -/
  | connected
  /-- An attempt has failed at a time. The driver waits for some milliseconds, or it is done. -/
  | failed (time : Nat) (delay? : Option Nat)
  /-- A session is over. -/
  | dropped (time : Nat) (delay? : Option Nat)
  /-- An attempt has succeeded, but the driver is done: the timer of the session cannot be set. -/
  | died
  /-- An attempt begins, a session is about to be closed, or a wait is over. -/
  | wentOn
deriving DecidableEq

namespace RetryNote

/-- The time of a setback, and what the driver makes of it. -/
def setback? : RetryNote → Option (Nat × Option Nat)
  | failed time delay? | dropped time delay? => some (time, delay?)
  | connected | died | wentOn => none

def isFailure : RetryNote → Bool
  | failed _ _ => true
  | connected | dropped _ _ | died | wentOn => false

/-- A session that ends counts as the first setback after it. -/
def count (k : Nat) : RetryNote → Nat
  | connected => 0
  | failed _ _ | dropped _ _ => k + 1
  | died | wentOn => k

/-- How many setbacks there have been since the last session began. -/
def setbacks (ns : List RetryNote) : Nat := ns.foldl count 0

/-- The driver has given up. -/
def GivesUp (n : RetryNote) : Prop := ∃ time, n.setback? = some (time, none)

/-- The driver is done. -/
def IsLast (n : RetryNote) : Prop := n = died ∨ n.GivesUp

def delayFrom? (clock : Nat) : Option Phase → Option Nat
  | some (.waiting time) => some (time - clock)
  | none | some .ready | some (.connecting _) | some (.running _) | some (.closing _) => none

/-- What is noted of a step that leads from one phase to another. -/
def ofStep (clock : Nat) : Phase → Option Phase → RetryNote
  | .connecting .ok, some _ => connected
  | .connecting .ok, none => died
  | .connecting .refuse, next => failed clock (delayFrom? clock next)
  | .closing _, next => dropped clock (delayFrom? clock next)
  | .ready, _ | .connecting .hang, _ | .running _, _ | .waiting _, _ => wentOn

end RetryNote

/-! ## Connections that nobody stops -/

structure Retrying (σ : Type) where
  connection : Connection σ
  driver : Nat
  /-- What the driver has done, the oldest first. -/
  notes : List RetryNote := []

namespace Retrying
variable {σ : Type}

/-- A call to start has just set a driver going. -/
def ofStart (c : Connection σ) : Retrying σ := { connection := c.start.2, driver := c.nextDriver }

inductive Move (σ : Type)
  /-- A driver makes a step, this one or one that an earlier stop has left. -/
  | drive (id : Nat) (stopFirst : Bool)
  /-- What the connector will say from now on. -/
  | foresee (outcomes : List ConnectOutcome)
  /-- Anything that happens to the endpoint but a stop. -/
  | touch (act : Endpoint σ → Endpoint σ)

def foresee (r : Retrying σ) (outcomes : List ConnectOutcome) : Retrying σ :=
  { r with
    connection := { r.connection with connector := { r.connection.connector with outcomes } } }

def touch (r : Retrying σ) (endpoint : Endpoint σ) : Retrying σ :=
  if endpoint.reason? = some .stopped then r
  else { r with connection := { r.connection with endpoint } }

/-- Another driver has made a step. -/
def passed (r : Retrying σ) (connection : Connection σ) : Retrying σ := { r with connection }

/-- The driver has made a step from a phase. -/
def strode (r : Retrying σ) (phase : Phase) (connection : Connection σ) : Retrying σ :=
  { r with
    connection
    notes :=
      r.notes ++
        [.ofStep connection.endpoint.clock phase (connection.phaseOf? r.driver)] }

variable [ValueTree σ]

def drive (r : Retrying σ) (id : Nat) (stopFirst : Bool) : Retrying σ :=
  match r.connection.step? id stopFirst, r.connection.phaseOf? id with
  | some act, some phase => if id = r.driver then r.strode phase act.2 else r.passed act.2
  | _, _ => r

def after (r : Retrying σ) : Move σ → Retrying σ
  | .drive id stopFirst => r.drive id stopFirst
  | .foresee outcomes => r.foresee outcomes
  | .touch act => r.touch (act r.connection.endpoint)

def ofMoves (r : Retrying σ) (moves : List (Move σ)) : Retrying σ := moves.foldl after r

/-! ## What holds at every time -/

open RetryNote

structure Lawful (b : Backoff) (r : Retrying σ) : Prop where
  /-- The delay after the first setback in a row is the initial one. It doubles with each of the
  next 31, up to the bound. -/
  delays : Each (fun before n => ∀ time ms, n.setback? = some (time, some ms) →
    ms = min (b.initial * 2 ^ min (setbacks before) 31) (max b.max b.initial)) r.notes
  restarts : Each (fun before n => ∀ time ms, n.setback? = some (time, some ms) →
    setbacks before = 0 → ms = b.initial) r.notes
  rises : ∀ {before between later : List RetryNote} {n n' : RetryNote} {time ms time' ms' : Nat},
    r.notes = before ++ n :: (between ++ n' :: later) → n.setback? = some (time, some ms) →
    n'.setback? = some (time', some ms') → .connected ∉ between → ms ≤ ms'
  /-- The driver gives up at the first setback in a row that comes after as many as it may bear. No
  number is too great to be borne that the driver cannot count beyond. -/
  givesUp : Each (fun before n => n.setback?.isSome = true →
    (n.GivesUp ↔ 0 < b.maxAttempts ∧ b.maxAttempts < Driver.maxSetbacks ∧
      setbacks before = b.maxAttempts)) r.notes
  /-- If no attempt has ever succeeded then one more has failed than the driver may bear. -/
  unreached : .connected ∉ r.notes → (∃ n ∈ r.notes, n.GivesUp) →
    r.notes.countP isFailure = b.maxAttempts + 1
  /-- The driver goes on for ever unless it gives up, or the clock comes to its end. -/
  alive : r.connection.drivers.contains r.driver = true ↔ ∀ n ∈ r.notes, ¬ n.IsLast
  endless : r.connection.horizon = none → .died ∉ r.notes
  last : ∀ {before later : List RetryNote} {n : RetryNote},
    r.notes = before ++ n :: later → n.IsLast → later = []
  /-- After a setback the driver makes no step before the delay is over, and then it can. -/
  waits : ∀ {before : List RetryNote} {n : RetryNote} {time ms : Nat},
    r.notes = before ++ [n] → n.setback? = some (time, some ms) → ∀ stopFirst,
    (r.connection.step? r.driver stopFirst).isSome = true ↔
      time + ms ≤ r.connection.endpoint.clock

end Retrying
end PeerLink
