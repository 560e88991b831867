import PeerLink.Framing.Joined
import Mathlib.Logic.Function.Basic

/-! # Runs of a link

* `Link`: two ends of binary frames, the bytes under way, and what each end was asked and answered.
* `Link.Move`, `Link.after`: what can happen, and what comes of it. Moves come in any order.
* `Link.Reachable`: the links that moves of a given kind lead to.
* `Link.joined_pump` and its like: a link moves as joined framers do; to write all that can be
  written is to make steps of the writer.
-/

namespace PeerLink
set_option autoImplicit false

@[simp] theorem Side.other_ne (s : Side) : s.other ≠ s := by cases s <;> decide

@[simp] theorem Side.ne_other (s : Side) : s ≠ s.other := by cases s <;> decide

@[simp] theorem Side.other_other (s : Side) : s.other.other = s := by cases s <;> rfl

theorem Side.eq_or_eq_other (s s' : Side) : s' = s ∨ s' = s.other := by
  cases s <;> cases s' <;> decide

/-- The binary end that settings describe. -/
def LinkConfig.binaryEnd (c : LinkConfig) (codec : BodyCodec) : BinaryEnd :=
  { codec, maxBody := c.maxFrameSize, window := AckWindow.ofSize c.ackWindow c.windowViolation }

theorem Framer.ofConfig_binaryEnd {c : LinkConfig} (codec : BodyCodec) (h : c.protocol = .v2) :
    Framer.ofConfig c codec = { wire := .binary (c.binaryEnd codec) } := by
  rw [Framer.ofConfig, h]
  rfl

/-! ## Links -/

/-- A stream that was closed at one end, and how many frames had come to that end before. -/
structure Closing where
  rid : Nat
  received : Nat

/-- What one end was asked to send, which streams it closed, and what it read. -/
structure Log where
  queued : List Message := []
  closings : List Closing := []
  answers : List Decoding := []

structure Link where
  writer : Side → Writer := fun _ => {}
  reader : Side → BinaryEnd
  /-- Bytes that a side has written and the other has not been given. -/
  sent : Side → Bytes := fun _ => []
  log : Side → Log := fun _ => {}

/-- The stream that a message closes. -/
def Message.closing? (m : Message) : Option Nat :=
  match m with
  | .request r => if r.method = .close then some r.rid else none
  | _ => none

/-- The stream that the next step of a writer closes. -/
def Writer.closing? (w : Writer) : Option Nat :=
  match w.frames, w.queue with
  | none, m :: _ => m.closing?
  | _, _ => none

theorem BinaryEnd.begin_snd (b : BinaryEnd) (m : Message) :
    (b.begin m).2 = { b with closed := b.closed ++ m.closing?.toList } := by
  have hnil : { b with closed := b.closed ++ [] } = b := by rw [List.append_nil]
  cases m with
  | ping => exact hnil.symm
  | response r => exact hnil.symm
  | request r =>
    change (if r.method = .close then { b with closed := b.closed ++ [r.rid] } else b) =
      { b with closed := b.closed ++ (if r.method = .close then some r.rid else none).toList }
    split
    · rfl
    · exact hnil.symm

theorem BinaryEnd.begin_fst (b : BinaryEnd) (m : Message) :
    (b.begin m).1 = m.frames b.codec b.maxBody := by
  have hf : (b.begin m).1 = m.frames (b.begin m).2.codec (b.begin m).2.maxBody := rfl
  rw [hf, b.begin_snd m]

/-- The stream that is closed by a step, noted with the frames that came before. -/
def Log.close (log : Log) (rid : Option Nat) (received : Nat) : Log :=
  match rid with
  | some rid => { log with closings := log.closings ++ [⟨rid, received⟩] }
  | none => log

namespace Link

/-- A link over which nothing has gone. -/
def ofConfigs (c : Side → LinkConfig) (codec : Side → BodyCodec) : Link :=
  { reader := fun s => (c s).binaryEnd (codec s) }

/-- What can happen: a message is queued; a writer makes a step, and asks first whether an
acknowledgement is due or not; an acknowledgement goes out unasked, or because one is due; bytes
arrive; an end reads what has arrived. -/
inductive Move
  | queue (s : Side) (m : Message)
  | write (s : Side) (dueFirst : Bool)
  | acknowledge (s : Side)
  | answerDue (s : Side)
  | deliver (s : Side) (n : Nat)
  | read (s : Side)

/-- An end writes. -/
def emit (l : Link) (s : Side) (r : Bytes × BinaryEnd) : Link :=
  { l with
    reader := Function.update l.reader s r.2
    sent := Function.update l.sent s (l.sent s ++ r.1) }

/-- The end with the kept ring for acknowledgements taken. -/
def quiet (b : BinaryEnd) : BinaryEnd :=
  { b with window := { b.window with ackDue := b.window.ackDue.take.2 } }

def after (l : Link) : Move → Link
  | .queue s m =>
    { l with
      writer := Function.update l.writer s ((l.writer s).push m)
      log := Function.update l.log s { l.log s with queued := (l.log s).queued ++ [m] } }
  | .write s dueFirst =>
    match (l.writer s).step (l.reader s) dueFirst with
    | none => l
    | some (bytes, w, b) =>
      { l.emit s (bytes, b) with
        writer := Function.update l.writer s w
        log := Function.update l.log s
          ((l.log s).close (l.writer s).closing? (l.reader s).window.received) }
  | .acknowledge s => l.emit s (l.reader s).pendingAck
  | .answerDue s =>
    if (l.reader s).window.ackDue.take.1 then l.emit s (quiet (l.reader s)).pendingAck else l
  | .deliver s n =>
    { l with
      reader := Function.update l.reader s ((l.reader s).feed ((l.sent s.other).take n))
      sent := Function.update l.sent s.other ((l.sent s.other).drop n) }
  | .read s =>
    { l with
      reader := Function.update l.reader s (l.reader s).next.2
      log := Function.update l.log s
        { l.log s with answers := (l.log s).answers ++ [(l.reader s).next.1] } }

/-- The links that allowed moves lead to. -/
inductive Reachable (allowed : Link → Move → Prop) (start : Link) : Link → Prop
  | start : Reachable allowed start start
  | move {l : Link} (h : Reachable allowed start l) (m : Move) (ok : allowed l m) :
      Reachable allowed start (l.after m)

/-- Moves each of which is allowed once those before it have been made. -/
def Allows (allowed : Link → Move → Prop) : Link → List Move → Prop
  | _, [] => True
  | l, m :: ms => allowed l m ∧ Allows allowed (l.after m) ms

instance {allowed : Link → Move → Prop} [inst : ∀ l m, Decidable (allowed l m)] :
    ∀ (ms : List Move) (l : Link), Decidable (Allows allowed l ms)
  | [], _ => isTrue trivial
  | m :: ms, l =>
    have : Decidable (Allows allowed (l.after m) ms) := instDecidableAllows ms (l.after m)
    inferInstanceAs (Decidable (allowed l m ∧ Allows allowed (l.after m) ms))

theorem Reachable.foldl {allowed : Link → Move → Prop} {start : Link} :
    ∀ {l : Link} (ms : List Move), Reachable allowed start l → Allows allowed l ms →
      Reachable allowed start (ms.foldl after l)
  | _, [], h, _ => h
  | _, m :: ms, h, ok => Reachable.foldl ms (h.move m ok.1) ok.2

/-! ## As joined framers -/

/-- The two ends as framers. -/
def joined (l : Link) : Joined :=
  { a := { wire := .binary (l.reader .a), writer := l.writer .a }
    b := { wire := .binary (l.reader .b), writer := l.writer .b }
    fromA := l.sent .a
    fromB := l.sent .b }

theorem joined_ofConfigs {c : Side → LinkConfig} (codec : Side → BodyCodec)
    (h : ∀ s, (c s).protocol = .v2) :
    (ofConfigs c codec).joined =
      { a := Framer.ofConfig (c .a) (codec .a), b := Framer.ofConfig (c .b) (codec .b) } := by
  rw [Framer.ofConfig_binaryEnd _ (h .a), Framer.ofConfig_binaryEnd _ (h .b)]
  rfl

theorem joined_deliver (l : Link) (s : Side) (n : Nat) :
    (l.after (.deliver s n)).joined = (l.joined.deliver s n).2 := by
  cases s <;> rfl

theorem joined_acknowledge (l : Link) (s : Side) :
    (l.after (.acknowledge s)).joined = (l.joined.pendingAck s).2 := by
  cases s <;> rfl

theorem get_joined (l : Link) (s : Side) :
    l.joined.get s = { wire := .binary (l.reader s), writer := l.writer s } := by
  cases s <;> rfl

theorem joined_read (l : Link) (s : Side) :
    (l.after (.read s)).joined = l.joined.set (l.joined.get s).next.2 s := by
  have h : (l.joined.get s).next.2 =
      { wire := .binary (l.reader s).next.2, writer := l.writer s } := by
    rw [get_joined]
    rfl
  rw [h, after]
  generalize (l.reader s).next = r
  cases s <;> rfl

theorem joined_answerDue (l : Link) (s : Side) :
    (l.after (.answerDue s)).joined =
      if (l.joined.get s).takeAckDue.1 then
        (((l.joined.set (l.joined.get s).takeAckDue.2 s)).pendingAck s).2
      else l.joined := by
  have h : (l.joined.get s).takeAckDue.1 = (l.reader s).window.ackDue.take.1 := by
    rw [get_joined]
    rfl
  rw [h, after]
  split
  · cases s <;> rfl
  · rfl

theorem pumpFor_of_none {w : Writer} {b : BinaryEnd} (h : w.step b = none) (fuel : Nat) :
    w.pumpFor fuel b = ([], w, b) := by
  cases fuel with
  | zero => rfl
  | succ fuel => rw [Writer.pumpFor, h]

theorem pumpFor_of_some {w w' : Writer} {b b' : BinaryEnd} {bytes : Bytes}
    (h : w.step b = some (bytes, w', b')) (fuel : Nat) :
    w.pumpFor (fuel + 1) b = (bytes ++ (w'.pumpFor fuel b').1, (w'.pumpFor fuel b').2) := by
  rw [Writer.pumpFor, h]

/-- A writer that makes all steps it can makes them one by one. -/
theorem joined_pumpFor (s : Side) : ∀ (fuel : Nat) (l : Link),
    ((List.replicate fuel (Move.write s false)).foldl after l).joined =
      (l.joined.act s
        (((l.writer s).pumpFor fuel (l.reader s)).1,
          { wire := .binary ((l.writer s).pumpFor fuel (l.reader s)).2.2
            writer := ((l.writer s).pumpFor fuel (l.reader s)).2.1 })).2
  | 0, l => by
    have hp : (l.writer s).pumpFor 0 (l.reader s) = ([], l.writer s, l.reader s) := rfl
    rw [List.replicate_zero, List.foldl_nil, hp]
    cases s <;>
      simp only [joined, Joined.act, Joined.set, Joined.setSent, Joined.sentBy, List.append_nil]
  | fuel + 1, l => by
    rw [List.replicate_succ, List.foldl_cons, joined_pumpFor s fuel]
    cases h : (l.writer s).step (l.reader s) with
    | none =>
      have hl : l.after (.write s false) = l := by rw [after, h]
      rw [hl, pumpFor_of_none h, pumpFor_of_none h]
    | some r =>
      obtain ⟨bytes, w, b⟩ := r
      have hl : l.after (.write s false) =
          { l.emit s (bytes, b) with
            writer := Function.update l.writer s w
            log := Function.update l.log s
              ((l.log s).close (l.writer s).closing? (l.reader s).window.received) } := by
        rw [after, h]
      rw [hl, pumpFor_of_some h]
      simp only [emit, Function.update_self]
      generalize w.pumpFor fuel b = r
      cases s <;> simp [joined, Joined.act, Joined.set, Joined.setSent, Joined.sentBy]

theorem joined_pump (l : Link) (s : Side) :
    ∃ n, ((List.replicate n (Move.write s false)).foldl after l).joined = (l.joined.pump s).2 := by
  refine ⟨(l.writer s).work (l.reader s), ?_⟩
  rw [joined_pumpFor, Joined.pump, get_joined]
  rfl

end Link
end PeerLink
