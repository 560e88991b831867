import Mathlib.Data.List.Range
import PeerLink.Proofs.LinkCredit

/-! # Windows that anybody calls

The counters of a window when its calls come in any order, with any numbers from the other peer.

* `AckWindow.Record`: a window, the numbers that it gave out, the frames that it accepted, and what
  it said when somebody asked what to acknowledge.
* `AckWindow.Call`, `AckWindow.Record.after`: the calls, and what comes of them.
* `AckWindow.InWords`: what is computed from the counters has 32 bits.
* `AckWindow.Record.Lawful`: what holds at every time.
-/

namespace PeerLink
set_option autoImplicit false

namespace AckWindow

inductive Call
  | next
  /-- The other peer acknowledges. -/
  | acceptAck (ack : Nat)
  | acceptFrame (seq : Nat)
  /-- Somebody asks what to acknowledge. -/
  | ask
  /-- The answer at a place has gone out; nothing if so many answers were not given. -/
  | noteAck (place : Nat)

/-- What is computed from the counters is a number of 32 bits, and nothing is taken from less. -/
structure InWords (w : AckWindow) : Prop where
  lastSent : w.lastSent + 1 = w.nextSeq
  next : w.nextSeq < 2 ^ 32
  inFlight : w.inFlight + w.peerAck = w.lastSent
  unacked : w.unacked + w.acked = w.received
  expected : w.received + 1 < 2 ^ 32

structure Record where
  window : AckWindow
  /-- The numbers that were given out, the oldest first. -/
  taken : List Nat := []
  /-- The numbers of the frames that were accepted. -/
  accepted : List Nat := []
  /-- What was said when somebody asked what to acknowledge. -/
  told : List Nat := []
deriving DecidableEq

namespace Record

def ofSize (window : Nat) (policy : ViolationPolicy) : Record :=
  { window := AckWindow.ofSize window policy }

def next (r : Record) : Record :=
  match r.window.next with
  | (none, _) => r
  | (some seq, window) => { r with window, taken := r.taken ++ [seq] }

def acceptFrame (r : Record) (seq : Nat) : Record :=
  match r.window.acceptFrame seq with
  | (.ok (), window) => { r with window, accepted := r.accepted ++ [seq] }
  | (.error _, window) => { r with window }

def noteAck (r : Record) (place : Nat) : Record :=
  match r.told[place]? with
  | none => r
  | some ack => { r with window := r.window.noteAck ack }

def after (r : Record) : Call → Record
  | .next => r.next
  | .acceptAck ack => { r with window := (r.window.acceptAck ack).2 }
  | .acceptFrame seq => r.acceptFrame seq
  | .ask => { r with told := r.told ++ [r.window.received] }
  | .noteAck place => r.noteAck place

def ofCalls (r : Record) (calls : List Call) : Record := calls.foldl after r

structure Lawful (size : Nat) (given : ViolationPolicy) (r : Record) : Prop where
  size : r.window.window = max size 1
  policy : r.window.policy = given
  /-- The numbers given out are 1, 2, 3 and so on, and they do not run further ahead of what the
  other peer acknowledged than the window. -/
  taken : r.taken = List.range' 1 r.window.lastSent
  peer : r.window.peerAck ≤ r.window.lastSent
  credit : r.window.lastSent ≤ r.window.peerAck + r.window.window
  /-- The frames accepted are 1, 2, 3 and so on. -/
  accepted : r.accepted = List.range' 1 r.window.received
  acked : r.window.acked ≤ r.window.received
  strict : given = .disconnect → r.window.received ≤ r.window.acked + r.window.window
  words : r.taken.length < 2 ^ 32 - 1 → r.accepted.length < 2 ^ 32 - 1 → r.window.InWords
  /-- Only what was sent may be acknowledged, and not less than before. -/
  hears : ∀ ack, (r.window.acceptAck ack).1 = .ok () ↔
    r.window.peerAck ≤ ack ∧ ack ≤ r.window.lastSent
  /-- What is refused leaves counters and bells as they are. -/
  ackRefused : ∀ ack e, (r.window.acceptAck ack).1 = .error e →
    (r.window.acceptAck ack).2 = r.window
  frameRefused : ∀ seq e, (r.window.acceptFrame seq).1 = .error e →
    (r.window.acceptFrame seq).2 = r.window

/-! ## Calls -/

/-- What each call keeps. -/
structure Kept (size : Nat) (given : ViolationPolicy) (r : Record) : Prop where
  size : r.window.window = max size 1
  policy : r.window.policy = given
  balanced : r.window.Balanced
  peer : r.window.peerAck ≤ r.window.lastSent
  strict : given = .disconnect → r.window.received ≤ r.window.acked + r.window.window
  taken : r.taken = List.range' 1 r.window.lastSent
  accepted : r.accepted = List.range' 1 r.window.received
  told : ∀ ack ∈ r.told, ack ≤ r.window.received

variable {size : Nat} {given : ViolationPolicy} {r : Record}

theorem Kept.ofSize (size : Nat) (given : ViolationPolicy) :
    (Record.ofSize size given).Kept size given where
  size := rfl
  policy := rfl
  balanced := ⟨Nat.le_refl 0, Nat.le_refl 1, Nat.zero_le _⟩
  peer := Nat.le_refl 0
  strict := fun _ => Nat.zero_le _
  taken := rfl
  accepted := rfl
  told := nofun

theorem Kept.next (h : r.Kept size given) : r.next.Kept size given := by
  unfold Record.next AckWindow.next
  by_cases hcredit : r.window.sendLimit < r.window.nextSeq
  · rw [if_pos hcredit]
    exact h
  · rw [if_neg hcredit]
    -- The number that is given out is from now on the last one that was sent.
    have hseq : r.window.nextSeq = r.window.lastSent + 1 :=
      (Nat.sub_add_cancel h.balanced.next).symm
    refine { h with
      balanced := ⟨h.balanced.acked, Nat.le_add_left 1 _, Nat.not_lt.mp hcredit⟩
      peer := ?_
      taken := ?_ }
    · change r.window.peerAck ≤ r.window.nextSeq
      rw [hseq]
      exact Nat.le_succ_of_le h.peer
    · change r.taken ++ [r.window.nextSeq] = List.range' 1 r.window.nextSeq
      rw [h.taken, hseq, List.range'_1_concat, Nat.add_comm 1]

theorem Kept.acceptAck (h : r.Kept size given) (ack : Nat) :
    (r.after (.acceptAck ack)).Kept size given := by
  unfold Record.after
  dsimp only
  obtain ⟨hle, hsent, heard⟩ | ⟨-, e, -, hrefused⟩ := r.window.acceptAck_cases ack
  · rw [heard]
    refine { h with balanced := ⟨h.balanced.acked, h.balanced.next, ?_⟩, peer := hsent }
    have hlimit := h.balanced.limit
    change r.window.lastSent ≤ min (ack + r.window.window) maxSeq
    omega
  · rw [hrefused]
    exact h

theorem Kept.acceptFrame (h : r.Kept size given) (seq : Nat) :
    (r.acceptFrame seq).Kept size given := by
  unfold Record.acceptFrame
  obtain ⟨rfl, hroom, hcounted⟩ | ⟨-, e, -, hrefused⟩ := r.window.acceptFrame_cases seq
  · rw [hcounted]
    have hmore := Nat.le_succ r.window.received
    refine { h with
      balanced := ⟨Nat.le_trans h.balanced.acked hmore, h.balanced.next, h.balanced.limit⟩
      strict := fun hgiven => ?_
      accepted := ?_
      told := fun ack hack => Nat.le_trans (h.told ack hack) hmore }
    · obtain hlimit | hignore := hroom
      · exact Nat.le_trans hlimit (Nat.min_le_left _ _)
      · exact nomatch (hgiven.symm.trans h.policy.symm).trans hignore
    · change r.accepted ++ [r.window.received + 1] = List.range' 1 (r.window.received + 1)
      rw [h.accepted, List.range'_1_concat, Nat.add_comm 1]
  · rw [hrefused]
    exact h

theorem Kept.ask (h : r.Kept size given) : (r.after .ask).Kept size given where
  __ := h
  told := fun ack hack => by
    obtain hack | hack := List.mem_append.mp hack
    · exact h.told ack hack
    · exact Nat.le_of_eq (List.mem_singleton.mp hack)

theorem Kept.noteAck (h : r.Kept size given) (place : Nat) : (r.noteAck place).Kept size given := by
  unfold Record.noteAck
  cases hplace : r.told[place]? with
  | none => exact h
  | some ack =>
    have hack := h.told ack (List.mem_of_getElem? hplace)
    have hgrows := Nat.le_max_left r.window.acked ack
    exact { h with
      balanced := ⟨Nat.max_le.mpr ⟨h.balanced.acked, hack⟩, h.balanced.next, h.balanced.limit⟩
      strict := fun hgiven =>
        Nat.le_trans (h.strict hgiven) (Nat.add_le_add_right hgrows r.window.window) }

theorem Kept.after (h : r.Kept size given) (c : Call) : (r.after c).Kept size given := by
  cases c with
  | next => exact h.next
  | acceptAck ack => exact h.acceptAck ack
  | acceptFrame seq => exact h.acceptFrame seq
  | ask => exact h.ask
  | noteAck place => exact h.noteAck place

theorem Kept.ofCalls (h : r.Kept size given) (calls : List Call) :
    (r.ofCalls calls).Kept size given := by
  induction calls generalizing r with
  | nil => exact h
  | cons c calls ih => exact ih (h.after c)

/-! ## At every time -/

theorem Kept.words (h : r.Kept size given) (htaken : r.taken.length < 2 ^ 32 - 1)
    (haccepted : r.accepted.length < 2 ^ 32 - 1) : r.window.InWords := by
  rw [h.taken, List.length_range'] at htaken
  rw [h.accepted, List.length_range'] at haccepted
  have hlast : r.window.lastSent + 1 = r.window.nextSeq := Nat.sub_add_cancel h.balanced.next
  have hunacked := unacked_eq h.balanced.acked (by omega)
  refine ⟨hlast, by omega, Nat.sub_add_cancel h.peer, ?_, by omega⟩
  rw [hunacked]
  exact Nat.sub_add_cancel h.balanced.acked

theorem Kept.laws (h : r.Kept size given) : r.Lawful size given where
  size := h.size
  policy := h.policy
  taken := h.taken
  peer := h.peer
  credit := Nat.le_trans h.balanced.limit (Nat.min_le_left _ _)
  accepted := h.accepted
  acked := h.balanced.acked
  strict := h.strict
  words := h.words
  hears := fun ack => by
    obtain ⟨hle, hsent, heard⟩ | ⟨hbad, e, -, hrefused⟩ := r.window.acceptAck_cases ack
    · rw [heard]
      exact iff_of_true rfl ⟨hle, hsent⟩
    · rw [hrefused]
      refine iff_of_false nofun fun hgood => ?_
      omega
  ackRefused := fun ack e he => by
    obtain ⟨-, -, heard⟩ | ⟨-, _, -, hrefused⟩ := r.window.acceptAck_cases ack
    · rw [heard] at he
      cases he
    · rw [hrefused]
  frameRefused := fun seq e he => by
    obtain ⟨-, -, hcounted⟩ | ⟨-, _, -, hrefused⟩ := r.window.acceptFrame_cases seq
    · rw [hcounted] at he
      cases he
    · rw [hrefused]

/-- Whatever is called in whatever order, and whatever the other peer says. -/
theorem ofCalls_counted (size : Nat) (given : ViolationPolicy) (calls : List Call) :
    ((Record.ofSize size given).ofCalls calls).Lawful size given :=
  ((Kept.ofSize size given).ofCalls calls).laws

/-- An acknowledgement of what was not sent and a frame out of turn are refused, and the third frame
is one too many until the second is acknowledged. -/
example : (Record.ofSize 2 .disconnect).ofCalls
    [.next, .next, .next, .acceptAck 3, .acceptAck 1, .acceptFrame 2, .acceptFrame 1,
      .acceptFrame 2, .acceptFrame 3, .ask, .noteAck 0, .acceptFrame 3] =
    { window :=
        { window := 2, nextSeq := 3, peerAck := 1, received := 3, acked := 2
          credit := { kept := true }, ackDue := { kept := true } }
      taken := [1, 2], accepted := [1, 2, 3], told := [2] } := by
  decide

end Record
end AckWindow
end PeerLink
