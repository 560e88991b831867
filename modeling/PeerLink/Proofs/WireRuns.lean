import PeerLink.Proofs.LinkCredit
import PeerLink.Proofs.WireNotes

/-! # What goes over a wire

One end writes its messages; its peer may send anything, and may be anyone.

* `BinaryEnd.readsFor`: the frames that an end reads at a time.
* `Sender`: an end with its writer, and with notes of all that it wrote and read.
* `Sender.Follows`: the notes tell all that the end has counted.
* `Sender.trace_well_formed`: whatever comes, the writer writes the frames of its messages in order,
  numbered without a gap, and runs ahead of its peer no further than it may.
-/

namespace PeerLink
set_option autoImplicit false

open Note

/-! ## Reading -/

namespace BinaryEnd

/-- The frames that `nextFrom` reads, each with whether it was accounted for. -/
def readsFor : Nat → BinaryEnd → List (Frame × Except FrameError Unit)
  | 0, _ => []
  | fuel + 1, b =>
    match Frame.decode b.maxBody b.buffer with
    | .ok (some (f, rest)) =>
      let b := { b with buffer := rest }
      (f, (b.account f).1) ::
        match b.accept f with
        | (none, b) => readsFor fuel b
        | (some _, _) => []
    | _ => []

def reads (b : BinaryEnd) : List (Frame × Except FrameError Unit) :=
  b.readsFor (b.buffer.length + 1)

/-- A frame is accounted for, or its acknowledgement is taken and its number refused, or nothing is
taken of it. -/
theorem account_cases (b : BinaryEnd) (f : Frame) :
    (b.window.peerAck ≤ f.ack ∧ f.ack ≤ b.window.lastSent ∧
      ((f.type.consumesCredit = true → f.headers.seq = some (b.window.received + 1)) ∧
          b.account f = (.ok (), { b with window := b.window.after f }) ∨
        ∃ e, (∀ fault, e ≠ .ackViolation fault) ∧
          b.account f = (.error e, { b with window := b.window.heard f.ack }))) ∨
      ∃ fault, b.account f = (.error (.ackViolation fault), b) := by
  obtain ⟨h1, h2, ha⟩ | ⟨h, e, he, ha⟩ := b.window.acceptAck_cases f.ack
  · refine .inl ⟨h1, h2, ?_⟩
    cases hc : f.type.consumesCredit with
    | false => exact .inl ⟨fun h => Bool.noConfusion h, by simp [account, ha, hc, AckWindow.after]⟩
    | true =>
      cases hs : f.headers.seq with
      | none =>
        exact .inr ⟨.codec .noSequence, fun _ h => FrameError.noConfusion h,
          by simp [account, ha, hc, hs]⟩
      | some seq =>
        obtain ⟨hq, -, hf⟩ | ⟨-, e, -, hf⟩ := (b.window.heard f.ack).acceptFrame_cases seq
        · have hq' : seq = b.window.received + 1 := hq
          subst hq'
          exact .inl ⟨fun _ => rfl, by simp [account, ha, hc, hs, hf, AckWindow.after]⟩
        · refine .inr ⟨e, fun fault hfault => ?_, by simp [account, ha, hc, hs, hf]⟩
          rw [hfault, AckWindow.acceptFrame] at hf
          split_ifs at hf <;> cases hf
  · right
    have hfault : ∃ fault, e = .ackViolation fault := by
      unfold AckWindow.acceptAck at ha
      split_ifs at ha <;> cases ha <;> exact ⟨_, rfl⟩
    obtain ⟨fault, rfl⟩ := hfault
    exact ⟨fault, by simp [account, ha]⟩

theorem accept_end (b : BinaryEnd) (f : Frame) :
    (b.accept f).2.codec = b.codec ∧ (b.accept f).2.maxBody = b.maxBody ∧
      (b.accept f).2.window = (b.account f).2.window := by
  have hend : (b.account f).2.codec = b.codec ∧ (b.account f).2.maxBody = b.maxBody := by
    obtain ⟨-, -, ⟨-, ha⟩ | ⟨e, -, ha⟩⟩ | ⟨fault, ha⟩ := b.account_cases f <;>
      exact ⟨by rw [ha], by rw [ha]⟩
  unfold accept
  generalize b.account f = r at hend ⊢
  obtain ⟨r, b'⟩ := r
  cases r with
  | error e => exact ⟨hend.1, hend.2, rfl⟩
  | ok u =>
    dsimp only
    rw [deliver_end]
    exact ⟨hend.1, hend.2, rfl⟩

end BinaryEnd

/-! ## Counters -/

/-- The notes of an end tell what it has counted. -/
structure Writer.Follows (window : Nat) (w : Writer) (b : BinaryEnd) (t : List (Note Frame)) :
    Prop where
  lawful : Lawful window t
  size : b.window.window = window
  sent : b.window.nextSeq = (numbered t).length + 1
  acked : b.window.peerAck = acked t
  came : b.window.received = (taken t).length
  balanced : b.window.Balanced
  attentive : w.Attentive b

namespace Writer.Follows
variable {window : Nat} {w w' : Writer} {b b' : BinaryEnd} {t : List (Note Frame)}

theorem congr (h : w.Follows window b t) (hwindow : b'.window = b.window) :
    w.Follows window b' t where
  lawful := h.lawful
  size := hwindow ▸ h.size
  sent := hwindow ▸ h.sent
  acked := hwindow ▸ h.acked
  came := hwindow ▸ h.came
  balanced := hwindow ▸ h.balanced
  attentive := ⟨hwindow ▸ h.attentive.due, hwindow ▸ h.attentive.waits⟩

theorem account (h : w.Follows window b t) (f : Frame) :
    w.Follows window (b.account f).2 (t ++ [.read f (b.account f).1]) := by
  obtain ⟨hack, hsent, ⟨hseq, ha⟩ | ⟨e, he, ha⟩⟩ | ⟨fault, ha⟩ := b.account_cases f
  · have hacked : Note.acked (t ++ [.read f (.ok ())]) = f.ack := by
      have hok : ∀ fault, (.ok () : Except FrameError Unit) ≠ .error (.ackViolation fault) := by
        simp
      rw [acked_read t hok, ← h.acked, Nat.max_eq_right hack]
    have hreads := b.after_reads f b.buffer
    rw [ha]
    refine ⟨.read h.lawful fun htaken => ?_, hreads.size.trans h.size, ?_, ?_, ?_,
      h.balanced.after hack hseq, h.attentive.after hack⟩
    · rw [← h.came]
      refine hseq ?_
      simpa [taken?] using htaken
    · rw [numbered_append, numbered_read, List.append_nil]
      exact hreads.nextSeq.trans h.sent
    · rw [hacked, AckWindow.after]
      split <;> rfl
    · rw [taken_append, List.length_append, ← h.came]
      cases hc : f.type.consumesCredit with
      | false => simp [AckWindow.after, hc, AckWindow.heard, taken, taken?]
      | true => simp [AckWindow.after, hc, hseq hc, AckWindow.counted, taken, taken?]
  · have hacked : Note.acked (t ++ [.read f (.error e)]) = f.ack := by
      rw [acked_read t fun fault hr => he fault (Except.error.inj hr), ← h.acked,
        Nat.max_eq_right hack]
    rw [ha]
    refine ⟨.read h.lawful fun htaken => absurd rfl htaken, h.size, ?_, hacked.symm, ?_,
      ⟨h.balanced.acked, h.balanced.next, ?_⟩, h.attentive.heard hack⟩
    · rw [numbered_append, numbered_read, List.append_nil]
      exact h.sent
    · rw [taken_append]
      exact h.came.trans (congrArg List.length (List.append_nil (taken t)).symm)
    · have hlimit := h.balanced.limit
      simp only [AckWindow.heard, AckWindow.lastSent] at hlimit hack ⊢
      omega
  · rw [ha]
    refine ⟨.read h.lawful fun htaken => absurd rfl htaken, h.size, ?_, ?_, ?_, h.balanced,
      h.attentive⟩
    · rw [numbered_append, numbered_read, List.append_nil]
      exact h.sent
    · rw [acked_refused]
      exact h.acked
    · rw [taken_append]
      exact h.came.trans (congrArg List.length (List.append_nil (taken t)).symm)

theorem nextFrom : ∀ (fuel : Nat) {b : BinaryEnd} {t : List (Note Frame)},
    w.Follows window b t →
    w.Follows window (b.nextFrom fuel).2 (t ++ (b.readsFor fuel).map fun p => .read p.1 p.2) ∧
      (b.nextFrom fuel).2.codec = b.codec ∧ (b.nextFrom fuel).2.maxBody = b.maxBody
  | 0, b, t, h => by
    rw [BinaryEnd.nextFrom, BinaryEnd.readsFor]
    exact ⟨by simpa using h, rfl, rfl⟩
  | fuel + 1, b, t, h => by
    rw [BinaryEnd.nextFrom, BinaryEnd.readsFor]
    cases hd : Frame.decode b.maxBody b.buffer with
    | error e => exact ⟨by simpa using h, rfl, rfl⟩
    | ok o =>
      cases o with
      | none => exact ⟨by simpa using h, rfl, rfl⟩
      | some p =>
        obtain ⟨f, rest⟩ := p
        dsimp only
        have hbuf : ({ b with buffer := rest } : BinaryEnd).window = b.window := rfl
        have hread := (h.congr hbuf).account f
        obtain ⟨hcodec, hmax, hwindow⟩ := BinaryEnd.accept_end { b with buffer := rest } f
        replace hread := hread.congr hwindow
        generalize BinaryEnd.accept { b with buffer := rest } f = r at hread hcodec hmax hwindow ⊢
        obtain ⟨r, b1⟩ := r
        cases r with
        | some r => exact ⟨hread, hcodec, hmax⟩
        | none =>
          -- A frame that brings nothing is passed over; the notes go on from those of it.
          obtain ⟨hmore, hcodec', hmax'⟩ := nextFrom fuel hread
          refine ⟨?_, hcodec'.trans hcodec, hmax'.trans hmax⟩
          rw [List.append_assoc] at hmore
          exact hmore

theorem wrote_ack (h : w.Follows window b t) (credit ackDue : Bell)
    (hw : w'.Attentive (b.withBells credit ackDue).acknowledged) :
    w'.Follows window (b.withBells credit ackDue).acknowledged
      (t ++ [.wrote (.ackOnly b.window.received)]) where
  lawful := by
    rw [h.came]
    exact .ack h.lawful
  size := h.size
  sent := by
    rw [numbered_append, numbered_ackOnly, List.append_nil]
    exact h.sent
  acked := by
    rw [acked_wrote]
    exact h.acked
  came := by
    rw [taken_append, taken_wrote, List.append_nil]
    exact h.came
  balanced := ⟨Nat.max_le.mpr ⟨h.balanced.acked, Nat.le_refl _⟩, h.balanced.next, h.balanced.limit⟩
  attentive := hw

theorem rung (h : w.Follows window b t) (credit ackDue : Bell)
    (hw : w'.Attentive (b.withBells credit ackDue)) :
    w'.Follows window (b.withBells credit ackDue) t :=
  ⟨h.lawful, h.size, h.sent, h.acked, h.came,
    ⟨h.balanced.acked, h.balanced.next, h.balanced.limit⟩, hw⟩

theorem step {out : List Frame} (h : w.Follows window b t) (hs : Step w b out w' b')
    (hplain : ∀ f fs, w.frames = some (f :: fs) → f.type.consumesCredit = true) :
    w'.Follows window b' (t ++ out.map .wrote) := by
  have hattentive := hs.attentive h.attentive h.balanced
  cases hs with
  | @begins m queue frames queued =>
    rw [List.map_nil, List.append_nil]
    rw [b.begin_snd] at hattentive ⊢
    exact ⟨h.lawful, h.size, h.sent, h.acked, h.came, h.balanced, hattentive⟩
  | ends frames =>
    rw [List.map_nil, List.append_nil]
    exact ⟨h.lawful, h.size, h.sent, h.acked, h.came, h.balanced, hattentive⟩
  | @sends f fs frames free credit =>
    have htype := hplain f fs frames
    have hnumber : b.window.nextSeq ≤ b.window.peerAck + b.window.window :=
      Nat.le_trans credit (Nat.min_le_left _ _)
    refine ⟨?_, h.size, ?_, ?_, ?_, ⟨Nat.max_le.mpr ⟨h.balanced.acked, Nat.le_refl _⟩,
      Nat.succ_pos _, credit⟩, hattentive⟩
    · rw [h.sent, h.acked, h.size] at hnumber
      rw [h.came, h.sent]
      exact .frame h.lawful htype hnumber
    · rw [List.map_singleton, numbered_append, numbered_stamped htype, List.length_append,
        List.length_singleton]
      exact congrArg (· + 1) h.sent
    · rw [List.map_singleton, acked_wrote]
      exact h.acked
    · rw [List.map_singleton, taken_append, taken_wrote, List.append_nil]
      exact h.came
  | @retries f fs credit ackDue frames due =>
    rw [List.map_nil, List.append_nil]
    exact h.rung credit ackDue hattentive
  | @answers f fs credit ackDue frames => exact h.wrote_ack credit ackDue hattentive
  | @waits f fs credit ackDue frames stuck uncalled listens due =>
    rw [List.map_nil, List.append_nil]
    exact h.rung credit ackDue hattentive

theorem pendingAck (h : w.Follows window b t) (ackDue : Bell) :
    ∃ out, (out = [] ∨ out = [Frame.ackOnly b.window.received]) ∧
      (b.withBells b.window.credit ackDue).pendingAck.1 = out.flatMap Frame.encode ∧
      w.Follows window (b.withBells b.window.credit ackDue).pendingAck.2
        (t ++ out.map .wrote) := by
  have hattentive := h.attentive.pendingAck h.balanced ackDue
  unfold BinaryEnd.pendingAck at hattentive ⊢
  by_cases hp : (b.withBells b.window.credit ackDue).window.ackPending = true
  · rw [if_pos hp] at hattentive ⊢
    exact ⟨_, .inr rfl, (List.flatMap_singleton _ _).symm, h.wrote_ack _ ackDue hattentive⟩
  · rw [if_neg hp] at hattentive ⊢
    refine ⟨[], .inl rfl, rfl, ?_⟩
    rw [List.map_nil, List.append_nil]
    exact h.rung _ ackDue hattentive

end Writer.Follows

/-- A writer that can make no step has written all, or waits for credit. -/
theorem Writer.Attentive.step_none {w : Writer} {b : BinaryEnd} {dueFirst : Bool}
    (h : w.Attentive b) (hstep : w.step b dueFirst = none) :
    w.frames = none ∧ w.queue = [] ∨
      ∃ f fs, w.frames = some (f :: fs) ∧ b.window.sendLimit < b.window.nextSeq := by
  unfold Writer.step at hstep
  split at hstep
  · rename_i hframes hqueue
    exact .inl ⟨hframes, hqueue⟩
  · cases hstep
  · cases hstep
  · rename_i f fs hframes
    refine .inr ⟨f, fs, hframes, ?_⟩
    split_ifs at hstep with hwait hcalled
    · refine ((h.waits hwait).2.resolve_left fun hc => hcalled ?_).2
      simp [Writer.isCalled, Bell.isCalled, hc]
    · split at hstep <;> cases hstep

/-! ## Messages -/

/-- What the frames of a message are. -/
structure Frame.Of (codec : BodyCodec) (maxBody : Nat) (m : Message) (f : Frame) : Prop where
  type : f.type = m.frameType
  rid : f.rid = m.rid
  unstamped : f.unstamp = f
  total : ∀ n, f.headers.total = some n → n < 2 ^ 32
  body : f.body.length ≤ max maxBody 1

theorem Message.frame_of {codec : BodyCodec} {maxBody : Nat} {m : Message} {f : Frame}
    (hf : f ∈ m.frames codec maxBody) : f.Of codec maxBody m := by
  rw [Message.frames_eq_split] at hf
  obtain ⟨htype, hrid, htotal⟩ := Frame.split_mem hf rfl
  refine ⟨htype, hrid, ?_, htotal, ?_⟩
  all_goals
    unfold Frame.split at hf
    split at hf
    · rename_i hlen
      rw [List.mem_singleton.mp hf]
      first | rfl | exact Nat.le_trans hlen (Nat.le_max_left _ _)
    · have hchunks : ∀ c ∈ Bytes.chunks maxBody (m.bodyBytes codec), _ :=
        Bytes.length_of_mem_chunks
      cases hc : Bytes.chunks maxBody (m.bodyBytes codec) with
      | nil => simp [hc] at hf
      | cons first later =>
        rw [hc] at hchunks
        simp only [hc, List.mem_cons, List.mem_map] at hf
        obtain rfl | ⟨c, hlater, rfl⟩ := hf
        · first | rfl | exact (hchunks first List.mem_cons_self).2
        · first | rfl | exact (hchunks c (List.mem_cons_of_mem first hlater)).2

theorem Message.frameType_consumes (m : Message) : m.frameType.consumesCredit = true := by
  cases m <;> rfl

theorem Message.frameType_code (m : Message) :
    FrameType.ofCode m.frameType.code = m.frameType := by
  cases m with
  | ping => rfl
  | response r => rfl
  | request r => cases hm : r.method <;> simp only [Message.frameType, hm] <;> rfl

/-- The frames that a writer has still to write. -/
def Writer.rest (codec : BodyCodec) (maxBody : Nat) (w : Writer) : List Frame :=
  w.frames.getD [] ++ w.queue.flatMap (·.frames codec maxBody)

theorem Writer.Step.rest {codec : BodyCodec} {maxBody : Nat} {w w' : Writer} {b b' : BinaryEnd}
    {out : List Frame} (hs : Step w b out w' b') (hcodec : b.codec = codec)
    (hmax : b.maxBody = maxBody) (hplain : ∀ f fs, w.frames = some (f :: fs) →
      f.unstamp = f ∧ f.type.consumesCredit = true) :
    (numbered (out.map .wrote)).map Frame.unstamp ++ w'.rest codec maxBody =
      w.rest codec maxBody := by
  cases hs with
  | begins frames queued => simp [Writer.rest, frames, queued, numbered, written, b.begin_fst,
      hcodec, hmax]
  | ends frames => simp [Writer.rest, frames, numbered, written]
  | @sends f fs frames free credit =>
    obtain ⟨hunstamp, htype⟩ := hplain f fs frames
    have hf : (f.stamped b.window.received (some b.window.nextSeq)).unstamp = f := hunstamp
    rw [List.map_singleton, numbered_stamped htype, List.map_singleton, hf]
    simp [Writer.rest, frames]
  | answers frames => rfl
  | retries frames due => rfl
  | waits frames stuck uncalled listens due => rfl

theorem Writer.Step.same {w w' : Writer} {b b' : BinaryEnd} {out : List Frame}
    (hs : Step w b out w' b') :
    (out = [] ∨ ∃ f, out = [f]) ∧ b'.codec = b.codec ∧ b'.maxBody = b.maxBody := by
  cases hs with
  | begins frames queued =>
    rw [b.begin_snd]
    exact ⟨.inl rfl, rfl, rfl⟩
  | sends frames free credit => exact ⟨.inr ⟨_, rfl⟩, rfl, rfl⟩
  | answers frames => exact ⟨.inr ⟨_, rfl⟩, rfl, rfl⟩
  | ends | retries | waits => exact ⟨.inl rfl, rfl, rfl⟩

/-! ## Runs -/

/-- An end of a link with notes of what it was asked to write and of what it wrote and read. -/
structure Sender where
  writer : Writer := {}
  port : BinaryEnd
  queued : List Message := []
  notes : List (Note Bytes) := []

namespace Sender

def ofConfig (c : LinkConfig) (codec : BodyCodec) : Sender := { port := c.binaryEnd codec }

/-- What can happen: a message is queued; the writer makes a step, and asks first whether an
acknowledgement is due or not; an acknowledgement goes out unasked, or because one is due; bytes
come from the peer; the end reads what has come. -/
inductive Move
  | queue (m : Message)
  | write (dueFirst : Bool)
  | acknowledge
  | answerDue
  | feed (bytes : Bytes)
  | read

/-- What is written is noted, if it is anything. -/
def emit (s : Sender) (r : Bytes × BinaryEnd) : Sender :=
  { s with port := r.2, notes := s.notes ++ if r.1.isEmpty then [] else [.wrote r.1] }

def after (s : Sender) : Move → Sender
  | .queue m => { s with writer := s.writer.push m, queued := s.queued ++ [m] }
  | .write dueFirst =>
    match s.writer.step s.port dueFirst with
    | none => s
    | some (bytes, w, b) => { s.emit (bytes, b) with writer := w }
  | .acknowledge => s.emit s.port.pendingAck
  | .answerDue =>
    if s.port.window.ackDue.take.1 then s.emit (Link.quiet s.port).pendingAck else s
  | .feed bytes => { s with port := s.port.feed bytes }
  | .read =>
    { s with
      port := s.port.next.2
      notes := s.notes ++ s.port.reads.map fun p => .read p.1 p.2 }

def run (s : Sender) (ms : List Move) : Sender := ms.foldl after s

def bytes (s : Sender) : Bytes := (written s.notes).flatten

theorem bytes_emit (s : Sender) (r : Bytes × BinaryEnd) : (s.emit r).bytes = s.bytes ++ r.1 := by
  obtain ⟨bytes, b⟩ := r
  cases bytes with
  | nil => simp [emit, bytes]
  | cons x bs => simp [emit, bytes, written, written?]

/-! ### As a framer -/

def framer (s : Sender) : Framer := { wire := .binary s.port, writer := s.writer }

theorem run_pumpFor : ∀ (fuel : Nat) (s : Sender),
    (s.run (List.replicate fuel (.write false))).port = (s.writer.pumpFor fuel s.port).2.2 ∧
    (s.run (List.replicate fuel (.write false))).writer = (s.writer.pumpFor fuel s.port).2.1 ∧
    (s.run (List.replicate fuel (.write false))).bytes =
      s.bytes ++ (s.writer.pumpFor fuel s.port).1
  | 0, s => ⟨rfl, rfl, (List.append_nil _).symm⟩
  | fuel + 1, s => by
    obtain ⟨hport, hwriter, hbytes⟩ := run_pumpFor fuel (s.after (.write false))
    change (s.run (.write false :: List.replicate fuel (.write false))).port = _ ∧
      (s.run (.write false :: List.replicate fuel (.write false))).writer = _ ∧
      (s.run (.write false :: List.replicate fuel (.write false))).bytes = _
    rw [run, List.foldl_cons]
    rw [run] at hport hwriter hbytes
    rw [hport, hwriter, hbytes]
    cases h : s.writer.step s.port with
    | none =>
      have hs : s.after (.write false) = s := by rw [after, h]
      rw [hs, Link.pumpFor_of_none h, Link.pumpFor_of_none h]
      exact ⟨rfl, rfl, rfl⟩
    | some r =>
      obtain ⟨bytes, w, b⟩ := r
      have hs : s.after (.write false) = { s.emit (bytes, b) with writer := w } := by
        rw [after, h]
      have hemit : (s.after (.write false)).bytes = s.bytes ++ bytes := by
        rw [hs]
        exact s.bytes_emit (bytes, b)
      rw [hemit, hs, Link.pumpFor_of_some h, List.append_assoc]
      exact ⟨rfl, rfl, rfl⟩

/-- A framer that writes all it can makes steps of its writer. -/
theorem run_pump (s : Sender) : ∃ n,
    (s.run (List.replicate n (.write false))).framer = s.framer.pump.2 ∧
      (s.run (List.replicate n (.write false))).bytes = s.bytes ++ s.framer.pump.1 := by
  obtain ⟨hport, hwriter, hbytes⟩ := run_pumpFor (s.writer.work s.port) s
  refine ⟨s.writer.work s.port, ?_, ?_⟩
  · simp only [framer, Framer.pump, Writer.pump, hport, hwriter]
  · simp only [framer, Framer.pump, Writer.pump, hbytes]

/-! ### What the notes tell -/

/-- What the frames `t` say of an end of a link is all that it did. -/
structure Follows (window : Nat) (codec : BodyCodec) (maxBody : Nat) (s : Sender)
    (t : List (Note Frame)) : Prop where
  counters : s.writer.Follows window s.port t
  sameCodec : s.port.codec = codec
  sameLimit : s.port.maxBody = maxBody
  notes : s.notes = t.map (Note.map Frame.encode)
  frames : (numbered t).map Frame.unstamp ++ s.writer.rest codec maxBody =
    s.queued.flatMap (·.frames codec maxBody)

namespace Follows
variable {window : Nat} {codec : BodyCodec} {maxBody : Nat} {s : Sender} {t : List (Note Frame)}

theorem start (c : LinkConfig) (codec : BodyCodec) :
    (ofConfig c codec).Follows (max c.ackWindow 1) codec c.maxFrameSize [] where
  counters := by
    refine ⟨.nil, rfl, rfl, rfl, rfl, ⟨Nat.le_refl 0, Nat.le_refl 1, Nat.zero_le _⟩, fun h => ?_,
      nofun⟩
    exact absurd h (AckWindow.not_due rfl)
  sameCodec := rfl
  sameLimit := rfl
  notes := rfl
  frames := rfl

theorem mem_rest (h : s.Follows window codec maxBody t) {f : Frame}
    (hf : f ∈ (numbered t).map Frame.unstamp ++ s.writer.rest codec maxBody) :
    ∃ m ∈ s.queued, f.Of codec maxBody m := by
  rw [h.frames] at hf
  obtain ⟨m, hm, hf⟩ := List.mem_flatMap.mp hf
  exact ⟨m, hm, Message.frame_of hf⟩

theorem plain (h : s.Follows window codec maxBody t) (f : Frame) (fs : List Frame)
    (hf : s.writer.frames = some (f :: fs)) :
    f.unstamp = f ∧ f.type.consumesCredit = true := by
  obtain ⟨m, -, hm⟩ := h.mem_rest (f := f) (by simp [Writer.rest, hf])
  exact ⟨hm.unstamped, hm.type ▸ m.frameType_consumes⟩

/-- Frames are written, one at most, and each is noted. -/
theorem emit (h : s.Follows window codec maxBody t) {w : Writer} {b : BinaryEnd} {out : List Frame}
    (hone : out = [] ∨ ∃ f, out = [f]) (hcounters : w.Follows window b (t ++ out.map .wrote))
    (hcodec : b.codec = s.port.codec) (hmax : b.maxBody = s.port.maxBody)
    (hrest : (numbered (out.map .wrote)).map Frame.unstamp ++ w.rest codec maxBody =
      s.writer.rest codec maxBody) :
    ({ s.emit (out.flatMap Frame.encode, b) with writer := w } : Sender).Follows window codec
      maxBody (t ++ out.map .wrote) where
  counters := hcounters
  sameCodec := hcodec.trans h.sameCodec
  sameLimit := hmax.trans h.sameLimit
  notes := by
    rw [List.map_append, ← h.notes]
    obtain rfl | ⟨f, rfl⟩ := hone
    · rfl
    · simp [Sender.emit, f.encode_ne_nil, Note.map]
  frames := by
    rw [numbered_append, List.map_append, List.append_assoc, hrest]
    exact h.frames

theorem acknowledge (h : s.Follows window codec maxBody t) (ackDue : Bell) :
    ∃ t', (s.emit (s.port.withBells s.port.window.credit ackDue).pendingAck).Follows window codec
      maxBody t' := by
  obtain ⟨out, hout, hbytes, hcounters⟩ := h.counters.pendingAck ackDue
  have hsame : (s.port.withBells s.port.window.credit ackDue).pendingAck.2.codec = s.port.codec ∧
      (s.port.withBells s.port.window.credit ackDue).pendingAck.2.maxBody = s.port.maxBody := by
    unfold BinaryEnd.pendingAck
    split <;> exact ⟨rfl, rfl⟩
  refine ⟨t ++ out.map .wrote, ?_⟩
  have hemit := h.emit (hout.imp id fun hout => ⟨_, hout⟩) hcounters hsame.1 hsame.2 (by
    obtain rfl | rfl := hout <;> rfl)
  rw [← hbytes] at hemit
  exact hemit

theorem move (h : s.Follows window codec maxBody t) (m : Move) :
    ∃ t', (s.after m).Follows window codec maxBody t' := by
  cases m with
  | queue m =>
    refine ⟨t, ⟨h.counters.lawful, h.counters.size, h.counters.sent, h.counters.acked,
      h.counters.came, h.counters.balanced, h.counters.attentive.due, h.counters.attentive.waits⟩,
      h.sameCodec, h.sameLimit, h.notes, ?_⟩
    simp [after, Writer.rest, Writer.push, ← h.frames]
  | write dueFirst =>
    rw [after]
    cases hs : s.writer.step s.port dueFirst with
    | none => exact ⟨t, h⟩
    | some r =>
      obtain ⟨bytes, w, b⟩ := r
      obtain ⟨out, rfl, hstep⟩ := Writer.step_cases hs
      have hplain := h.plain
      have hcounters := h.counters.step hstep fun f fs hf => (hplain f fs hf).2
      have hrest := hstep.rest h.sameCodec h.sameLimit hplain
      obtain ⟨hone, hcodec, hmax⟩ := hstep.same
      exact ⟨_, h.emit hone hcounters hcodec hmax hrest⟩
  | acknowledge => exact h.acknowledge s.port.window.ackDue
  | answerDue =>
    rw [after]
    split
    · exact h.acknowledge s.port.window.ackDue.take.2
    · exact ⟨t, h⟩
  | feed bytes =>
    exact ⟨t, h.counters.congr rfl, h.sameCodec, h.sameLimit, h.notes, h.frames⟩
  | read =>
    obtain ⟨hcounters, hcodec, hmax⟩ := h.counters.nextFrom (s.port.buffer.length + 1)
    refine ⟨_, hcounters, hcodec.trans h.sameCodec, hmax.trans h.sameLimit, ?_, ?_⟩
    · rw [List.map_append, ← h.notes, List.map_map]
      rfl
    · have hnone : numbered ((s.port.readsFor (s.port.buffer.length + 1)).map
          fun p => .read p.1 p.2) = [] := by
        simp [numbered, written, List.filterMap_map, written?, Function.comp_def]
      rw [numbered_append, hnone, List.append_nil]
      exact h.frames

theorem run : ∀ (ms : List Move) {s : Sender} {t : List (Note Frame)},
    s.Follows window codec maxBody t → ∃ t', (s.run ms).Follows window codec maxBody t'
  | [], _, t, h => ⟨t, h⟩
  | m :: ms, _, _, h => by
    obtain ⟨t', h'⟩ := h.move m
    exact run ms h'

/-- A frame that was written can be read, if its parts are not too long. -/
theorem readable (h : s.Follows window codec maxBody t) (hrid : ∀ m ∈ s.queued, m.rid < 2 ^ 32)
    (hwritten : (written t).length < 2 ^ 32 - 1) (htaken : (taken t).length < 2 ^ 32 - 1)
    {f : Frame} (hf : f ∈ written t) (hheaders : f.headers.encode.length ≤ Frame.maxHeaders)
    (hbody : f.body.length < 2 ^ 32) : f.InWords ∧ f.Fits (max maxBody 1) := by
  have hack : f.ack < 2 ^ 32 := by
    have := h.counters.lawful.ack_le f hf
    omega
  cases htype : f.type.consumesCredit with
  | false =>
    have hform := h.counters.lawful.ackOnly_of f hf htype
    rw [hform]
    exact ⟨Frame.inWords_ackOnly hack, ⟨Nat.zero_le _, Nat.zero_le _⟩⟩
  | true =>
    have hmem : f ∈ numbered t := List.mem_filter.mpr ⟨hf, htype⟩
    obtain ⟨n, hn, hseq⟩ := h.counters.lawful.wellFormed.numbers.mem hmem
    have hle : (numbered t).length ≤ (written t).length := List.length_filter_le _ _
    obtain ⟨m, hm, hof⟩ := h.mem_rest (List.mem_append_left _ (List.mem_map_of_mem hmem))
    have htype : f.type = m.frameType := hof.type
    have hrid' : f.rid = m.rid := hof.rid
    refine ⟨⟨?_, hrid' ▸ hrid m hm, hack, ⟨fun k hk => ?_, hof.total, ?_⟩, hbody⟩, hheaders,
      hof.body⟩
    · rw [htype]
      exact m.frameType_code
    · rw [hseq] at hk
      cases hk
      omega
    · have : Frame.maxHeaders < 2 ^ 64 := by decide
      omega

theorem bytes_eq (h : s.Follows window codec maxBody t) :
    s.bytes = (written t).flatMap Frame.encode := by
  rw [bytes, h.notes, written_map, List.flatMap_def]

end Follows

/-- What the notes `t` of an end say, whoever its peer is. -/
structure WritesInOrder (c : LinkConfig) (codec : BodyCodec) (s : Sender) (t : List (Note Frame)) :
    Prop where
  /-- Each write is one frame. -/
  notes : s.notes = t.map (Note.map Frame.encode)
  wellFormed : WellFormed (max c.ackWindow 1) t
  /-- The frames of the messages go out in order. -/
  frames : (numbered t).map Frame.unstamp ++ s.writer.rest codec c.maxFrameSize =
    s.queued.flatMap (·.frames codec c.maxFrameSize)
  /-- What is left has to wait for the peer. -/
  stuck : ∀ dueFirst, s.writer.step s.port dueFirst = none → (written t).length < 2 ^ 32 - 1 →
    s.writer.rest codec c.maxFrameSize = [] ∨ (numbered t).length = acked t + max c.ackWindow 1
  /-- The bytes are those of the frames, if no part of any is too long. -/
  parses : (∀ m ∈ s.queued, m.rid < 2 ^ 32) → (written t).length < 2 ^ 32 - 1 →
    (taken t).length < 2 ^ 32 - 1 →
    (∀ f ∈ written t, f.headers.encode.length ≤ Frame.maxHeaders ∧ f.body.length < 2 ^ 32) →
    Parses (max c.maxFrameSize 1) s.bytes (written t)

theorem trace_well_formed (c : LinkConfig) (codec : BodyCodec) (ms : List Move) :
    ∃ t, WritesInOrder c codec ((ofConfig c codec).run ms) t := by
  obtain ⟨t, h⟩ := (Follows.start c codec).run ms
  refine ⟨t, h.notes, h.counters.lawful.wellFormed, h.frames, fun dueFirst hstep hlen => ?_,
    fun hrid hwritten htaken hparts => ?_⟩
  · obtain ⟨hframes, hqueue⟩ | ⟨f, fs, -, hcredit⟩ := h.counters.attentive.step_none hstep
    · exact .inl (by simp [Writer.rest, hframes, hqueue])
    · right
      have hle : (numbered t).length ≤ (written t).length := List.length_filter_le _ _
      have hlimit := h.counters.balanced.limit
      rw [AckWindow.lastSent, h.counters.sent, h.counters.acked, h.counters.size] at hlimit
      rw [AckWindow.sendLimit, h.counters.sent, h.counters.acked, h.counters.size] at hcredit
      simp only [AckWindow.maxSeq] at hlimit hcredit
      omega
  · rw [h.bytes_eq]
    exact .encode fun f hf => h.readable hrid hwritten htaken hf (hparts f hf).1 (hparts f hf).2

/-- Two pings with a window of one: the second goes out when the first has been acknowledged. -/
def pings : List Move :=
  [.queue .ping, .queue .ping, .write false, .write false, .write false, .write false,
    .write false, .feed (Frame.ackOnly 1).encode, .read, .write false, .write false]

theorem pings_well_formed : ∃ t, WritesInOrder { ackWindow := 1 } .json
    ((ofConfig { ackWindow := 1 } .json).run pings) t ∧ (numbered t).length = 2 ∧
    Parses 16384 ((ofConfig { ackWindow := 1 } .json).run pings).bytes (written t) := by
  obtain ⟨t, h⟩ := trace_well_formed { ackWindow := 1 } .json pings
  have hwritten : (written t).map (fun f => f.encode.length) = [11, 11] := by
    have hbytes : (written t).map Frame.encode =
        written ((ofConfig { ackWindow := 1 } .json).run pings).notes := by
      rw [h.notes, written_map]
    have hlengths := congrArg (List.map List.length) hbytes
    rw [List.map_map] at hlengths
    exact hlengths.trans (by decide +kernel)
  have hlen : (written t).length = 2 := by
    have hlength := congrArg List.length hwritten
    rwa [List.length_map] at hlength
  have htaken : (taken t).length ≤ 3 := by
    have hnotes := congrArg List.length h.notes
    rw [List.length_map] at hnotes
    have hthree : ((ofConfig { ackWindow := 1 } .json).run pings).notes.length = 3 := by
      decide +kernel
    rw [← hthree, hnotes]
    exact List.length_filterMap_le _ _
  refine ⟨t, h, ?_, h.parses (by decide +kernel) (by omega) (by omega) fun f hf => ?_⟩
  · have hframes := congrArg List.length h.frames
    have hrest : ((ofConfig { ackWindow := 1 } .json).run pings).writer.rest .json 16384 = [] := by
      decide +kernel
    rw [hrest, List.append_nil, List.length_map] at hframes
    exact hframes.trans (by decide +kernel)
  · have hencode : f.encode.length ∈ (written t).map fun f => f.encode.length :=
      List.mem_map_of_mem hf
    rw [hwritten] at hencode
    simp [Frame.encode] at hencode
    have : Frame.maxHeaders = 65536 := rfl
    omega

end Sender
end PeerLink
