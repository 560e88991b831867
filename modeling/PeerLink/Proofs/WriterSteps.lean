import PeerLink.Framing.Writer
import Mathlib.Tactic.Common

/-! # Steps of a writer

* `Bell.Rung`: a ring is kept, or has called the listener and was not answered.
* `BinaryEnd.withBells`: an end with other bells and otherwise the same.
* `Writer.Step`: what one step of a writer does, case by case.
* `Writer.step_cases`: a writer does nothing else.
-/

namespace PeerLink
set_option autoImplicit false

/-! ## Bells -/

namespace Bell

def Rung (b : Bell) : Prop := b.kept = true ∨ b.listener = .called

theorem rung_ring (b : Bell) : b.ring.Rung := by
  obtain ⟨kept, listener⟩ := b
  cases listener <;> simp [ring, Rung]

theorem rung_leave (b : Bell) : b.leave.Rung ↔ b.Rung := by
  obtain ⟨kept, listener⟩ := b
  cases listener <;> simp [leave, Rung]

/-- One who may not go on was not called and waits now. -/
theorem listen_false {b : Bell} (h : b.listen.1 = false) :
    b.listener ≠ .called ∧ b.listen.2.listener = .waiting ∧ (b.listen.2.Rung ↔ b.Rung) := by
  obtain ⟨kept, listener⟩ := b
  cases listener with
  | called => simp [listen] at h
  | waiting => simp [listen]
  | absent =>
    cases kept with
    | true => simp [listen] at h
    | false => simp [listen, Rung]

end Bell

def BinaryEnd.withBells (b : BinaryEnd) (credit ackDue : Bell) : BinaryEnd :=
  { b with window := { b.window with credit, ackDue } }

/-- A frame with its number and an acknowledgement. -/
def Frame.stamped (f : Frame) (ack : Nat) (seq : Option Nat) : Frame :=
  { f with ack, headers := { f.headers with seq } }

def Frame.ackOnly (ack : Nat) : Frame := { type := .ack, rid := 0, ack }

/-- An end that has acknowledged all that came. -/
def BinaryEnd.acknowledged (b : BinaryEnd) : BinaryEnd :=
  { b with window := { b.window with acked := max b.window.acked b.window.received } }

/-- An end that has given a number away. -/
def BinaryEnd.numbered (b : BinaryEnd) : BinaryEnd :=
  { b with window := { b.window with nextSeq := b.window.nextSeq + 1 } }

theorem BinaryEnd.ackFrame_eq (b : BinaryEnd) :
    b.ackFrame = ((Frame.ackOnly b.window.received).encode, b.acknowledged) := rfl

/-! ## Steps -/

namespace Writer

/-- The frames that one step writes, and what becomes of the writer and its end. -/
inductive Step (w : Writer) (b : BinaryEnd) : List Frame → Writer → BinaryEnd → Prop
  /-- It turns to the next message. -/
  | begins {m : Message} {queue : List Message} (frames : w.frames = none)
      (queued : w.queue = m :: queue) :
      Step w b [] { w with queue, frames := some (b.begin m).1 } (b.begin m).2
  /-- It is done with a message. -/
  | ends (frames : w.frames = some []) : Step w b [] { w with frames := none } b
  /-- It sends the next frame. -/
  | sends {f : Frame} {fs : List Frame} (frames : w.frames = some (f :: fs))
      (free : w.waiting = false) (credit : b.window.nextSeq ≤ b.window.sendLimit) :
      Step w b [f.stamped b.window.received (some b.window.nextSeq)]
        { w with frames := some fs } b.numbered.acknowledged
  /-- It will try again. -/
  | retries {f : Frame} {fs : List Frame} {credit ackDue : Bell}
      (frames : w.frames = some (f :: fs)) (due : ackDue.Rung ↔ b.window.ackDue.Rung) :
      Step w b [] { w with waiting := false } (b.withBells credit ackDue)
  /-- It answers with an acknowledgement. -/
  | answers {f : Frame} {fs : List Frame} {credit ackDue : Bell}
      (frames : w.frames = some (f :: fs)) :
      Step w b [Frame.ackOnly b.window.received] { w with waiting := false }
        (b.withBells credit ackDue).acknowledged
  /-- It waits. -/
  | waits {f : Frame} {fs : List Frame} {credit ackDue : Bell}
      (frames : w.frames = some (f :: fs)) (stuck : w.waiting = false →
        b.window.sendLimit < b.window.nextSeq)
      (uncalled : b.window.credit.listener ≠ .called) (listens : credit.listener = .waiting)
      (due : ackDue.Rung ↔ b.window.ackDue.Rung) :
      Step w b [] { w with waiting := true } (b.withBells credit ackDue)

theorem step_listen {w : Writer} {b : BinaryEnd} {f : Frame} {fs : List Frame}
    (hf : w.frames = some (f :: fs))
    (hs : w.waiting = false → b.window.sendLimit < b.window.nextSeq) (dueFirst : Bool) :
    ∃ out, (w.listen b dueFirst).1 = out.flatMap Frame.encode ∧
      Step w b out (w.listen b dueFirst).2.1 (w.listen b dueFirst).2.2 := by
  unfold listen
  cases dueFirst with
  | true =>
    simp only [if_true, askDue, askCredit]
    by_cases hd : b.window.ackDue.listen.1 = true
    · simp only [hd, if_true]
      exact ⟨_, (List.flatMap_singleton _ _).symm, .answers hf⟩
    · obtain ⟨-, -, hd2⟩ := Bell.listen_false (Bool.eq_false_iff.mpr hd)
      simp only [hd]
      by_cases hc : b.window.credit.listen.1 = true
      · simp only [hc, if_true]
        exact ⟨[], rfl, .retries hf ((Bell.rung_leave _).trans hd2)⟩
      · obtain ⟨hc1, hc2, -⟩ := Bell.listen_false (Bool.eq_false_iff.mpr hc)
        simp only [hc]
        exact ⟨[], rfl, .waits hf hs hc1 hc2 hd2⟩
  | false =>
    simp only [Bool.false_eq_true, if_false, askDue, askCredit]
    by_cases hc : b.window.credit.listen.1 = true
    · simp only [hc, if_true]
      exact ⟨[], rfl, .retries hf (Bell.rung_leave _)⟩
    · obtain ⟨hc1, hc2, -⟩ := Bell.listen_false (Bool.eq_false_iff.mpr hc)
      simp only [hc]
      by_cases hd : b.window.ackDue.listen.1 = true
      · simp only [hd, if_true]
        exact ⟨_, (List.flatMap_singleton _ _).symm, .answers hf⟩
      · obtain ⟨-, -, hd2⟩ := Bell.listen_false (Bool.eq_false_iff.mpr hd)
        simp only [hd]
        exact ⟨[], rfl, .waits hf hs hc1 hc2 hd2⟩

theorem step_cases {w w' : Writer} {b b' : BinaryEnd} {bytes : Bytes} {dueFirst : Bool}
    (h : w.step b dueFirst = some (bytes, w', b')) :
    ∃ out, bytes = out.flatMap Frame.encode ∧ Step w b out w' b' := by
  unfold step at h
  split at h
  · cases h
  · rename_i m queue hf hq
    obtain ⟨rfl, rfl, rfl⟩ := by simpa using h
    exact ⟨[], rfl, .begins hf hq⟩
  · rename_i hf
    obtain ⟨rfl, rfl, rfl⟩ := by simpa using h
    exact ⟨[], rfl, .ends hf⟩
  · rename_i f fs _ hf
    split at h
    · rename_i hw
      split at h
      · have hs := step_listen (b := b) hf (by simp [hw]) dueFirst
        rw [Option.some.inj h] at hs
        exact hs
      · cases h
    · rename_i hw
      rw [AckWindow.next] at h
      by_cases hc : b.window.sendLimit < b.window.nextSeq
      · have hs := step_listen (b := b) hf (fun _ => hc) dueFirst
        rw [if_pos hc] at h
        rw [Option.some.inj h] at hs
        exact hs
      · rw [if_neg hc] at h
        obtain ⟨rfl, rfl, rfl⟩ := by simpa using h
        exact ⟨_, (List.flatMap_singleton _ _).symm,
          .sends hf (by simpa using hw) (Nat.not_lt.mp hc)⟩

end Writer
end PeerLink
