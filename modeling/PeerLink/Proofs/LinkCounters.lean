import PeerLink.Proofs.Link
import PeerLink.Proofs.WriterSteps
import PeerLink.Proofs.MessageFrames

/-! # Counters of a link

What one end has counted and what the other will have counted once the frames under way have come
are the same. All that can go wrong with numbers and acknowledgements follows from that.

* `AckWindow.heard`, `AckWindow.counted`: a window after an acknowledgement and after a frame.
* `Course`: frames lead from the counters of the end that reads them to those of the end that wrote
  them.
* `Flight`: the bytes under way are those of frames that do so.
* `Flight.write`, `Flight.tail`: frames are written, a frame is read.
-/

namespace PeerLink
set_option autoImplicit false

/-! ## Windows -/

namespace AckWindow

/-- The window after an acknowledgement of the other peer. -/
def heard (w : AckWindow) (ack : Nat) : AckWindow :=
  { w with peerAck := ack, credit := if w.peerAck < ack then w.credit.ring else w.credit }

/-- The window after a numbered frame of the other peer. -/
def counted (w : AckWindow) (seq : Nat) : AckWindow :=
  { w with
    received := seq
    ackDue :=
      if w.dueAfter ≤ { w with received := seq }.unacked then w.ackDue.ring else w.ackDue }

theorem acceptAck_cases (w : AckWindow) (ack : Nat) :
    (w.peerAck ≤ ack ∧ ack ≤ w.lastSent ∧ w.acceptAck ack = (.ok (), w.heard ack)) ∨
      ((ack < w.peerAck ∨ w.lastSent < ack) ∧
        ∃ e, e.isFatal = true ∧ w.acceptAck ack = (.error e, w)) := by
  unfold acceptAck
  by_cases h1 : ack < w.peerAck
  · exact .inr ⟨.inl h1, _, rfl, if_pos h1⟩
  by_cases h2 : w.lastSent < ack
  · refine .inr ⟨.inr h2, .ackViolation (.unsent ack w.lastSent), rfl, ?_⟩
    rw [if_neg h1, if_pos h2]
  left
  refine ⟨Nat.not_lt.mp h1, Nat.not_lt.mp h2, ?_⟩
  rw [if_neg h1, if_neg h2, heard]
  by_cases h3 : w.peerAck < ack
  · rw [if_pos h3, if_pos h3]
  · have he : ack = w.peerAck := by omega
    rw [if_neg h3, if_neg h3, he]

/-- The next number is taken if the window, or the policy, has room for it. -/
theorem acceptFrame_next {w : AckWindow}
    (h : w.received + 1 ≤ w.receiveLimit ∨ w.policy = .ignore) :
    w.acceptFrame (w.received + 1) = (.ok (), w.counted (w.received + 1)) := by
  have hroom : ¬ (w.receiveLimit < w.received + 1 ∧ w.policy = .disconnect) := by
    rintro ⟨hlimit, hpolicy⟩
    obtain h | h := h
    · exact absurd hlimit (Nat.not_lt.mpr h)
    · exact absurd (h.symm.trans hpolicy) nofun
  unfold acceptFrame counted
  rw [if_neg (not_not_intro rfl), if_neg hroom]
  by_cases hd : max (w.window / 2) 1 ≤ unacked { w with received := w.received + 1 }
  · simp only [dueAfter, hd, if_true]
  · simp only [dueAfter, hd, if_false]

theorem acceptFrame_cases (w : AckWindow) (seq : Nat) :
    (seq = w.received + 1 ∧ (seq ≤ w.receiveLimit ∨ w.policy = .ignore) ∧
        w.acceptFrame seq = (.ok (), w.counted seq)) ∨
      ((seq ≠ w.received + 1 ∨ w.receiveLimit < seq) ∧
        ∃ e, e.isFatal = true ∧ w.acceptFrame seq = (.error e, w)) := by
  by_cases h1 : seq = w.received + 1
  · subst h1
    by_cases h2 : w.receiveLimit < w.received + 1 ∧ w.policy = .disconnect
    · refine .inr ⟨.inr h2.1, .windowViolation (w.received + 1) w.receiveLimit, rfl, ?_⟩
      rw [acceptFrame, if_neg (not_not_intro rfl), if_pos h2]
    · have hroom : w.received + 1 ≤ w.receiveLimit ∨ w.policy = .ignore := by
        cases hp : w.policy with
        | ignore => exact .inr rfl
        | disconnect => exact .inl (Nat.not_lt.mp fun h => h2 ⟨h, hp⟩)
      exact .inl ⟨rfl, hroom, acceptFrame_next hroom⟩
  · exact .inr ⟨.inl h1, .sequenceGap (w.received + 1) seq, rfl, if_pos h1⟩

/-- The counters of one end by themselves. -/
structure Balanced (w : AckWindow) : Prop where
  acked : w.acked ≤ w.received
  next : 1 ≤ w.nextSeq
  limit : w.lastSent ≤ min (w.peerAck + w.window) maxSeq

end AckWindow

/-! ## Accounting -/

/-- The window after all that a frame says about it. -/
def AckWindow.after (w : AckWindow) (f : Frame) : AckWindow :=
  match f.type.consumesCredit, f.headers.seq with
  | true, some seq => (w.heard f.ack).counted seq
  | _, _ => w.heard f.ack

theorem AckWindow.Balanced.after {w : AckWindow} {f : Frame} (h : w.Balanced)
    (hack : w.peerAck ≤ f.ack)
    (hseq : f.type.consumesCredit = true → f.headers.seq = some (w.received + 1)) :
    (w.after f).Balanced := by
  have hlimit : w.lastSent ≤ min (f.ack + w.window) maxSeq := by
    have := h.limit
    omega
  unfold AckWindow.after
  split
  · rename_i seq hc hs
    have he : seq = w.received + 1 := by
      rw [hseq hc] at hs
      exact (Option.some.inj hs).symm
    refine ⟨?_, h.next, hlimit⟩
    change w.acked ≤ seq
    have := h.acked
    omega
  · exact ⟨h.acked, h.next, hlimit⟩

/-- The end that has accounted for a frame, with the bytes behind it. -/
def BinaryEnd.behind (b : BinaryEnd) (g : Frame) (rest : Bytes) : BinaryEnd :=
  { b with buffer := rest, window := b.window.after g }

/-- A frame whose acknowledgement and number are right is accounted for. Any other is a fatal
error. -/
theorem BinaryEnd.accept_cases (b : BinaryEnd) (f : Frame) :
    (b.window.peerAck ≤ f.ack ∧ f.ack ≤ b.window.lastSent ∧
        (f.type.consumesCredit = true → f.headers.seq = some (b.window.received + 1) ∧
          (b.window.received + 1 ≤ b.window.receiveLimit ∨ b.window.policy = .ignore)) ∧
        b.accept f = ({ b with window := b.window.after f } : BinaryEnd).deliver f) ∨
      ((f.ack < b.window.peerAck ∨ b.window.lastSent < f.ack ∨
          f.type.consumesCredit = true ∧ (f.headers.seq ≠ some (b.window.received + 1) ∨
            b.window.receiveLimit < b.window.received + 1)) ∧
        ∃ e b', e.isFatal = true ∧ b.accept f = (some (.error e), b')) := by
  obtain ⟨h1, h2, ha⟩ | ⟨h, e, he, ha⟩ := b.window.acceptAck_cases f.ack
  · cases hc : f.type.consumesCredit with
    | false =>
      left
      refine ⟨h1, h2, nofun, ?_⟩
      simp [accept, account, ha, hc, AckWindow.after]
    | true =>
      cases hs : f.headers.seq with
      | none =>
        right
        refine ⟨.inr (.inr ⟨rfl, .inl nofun⟩), .codec .noSequence,
          { b with window := b.window.heard f.ack }, rfl, ?_⟩
        simp [accept, account, ha, hc, hs]
      | some seq =>
        obtain ⟨hq, hl, hf⟩ | ⟨h, e, he, hf⟩ := (b.window.heard f.ack).acceptFrame_cases seq
        · left
          have hq' : seq = b.window.received + 1 := hq
          subst hq'
          refine ⟨h1, h2, fun _ => ⟨rfl, hl⟩, ?_⟩
          simp [accept, account, ha, hc, hs, hf, AckWindow.after]
        · right
          refine ⟨.inr (.inr ⟨rfl, ?_⟩), e, { b with window := b.window.heard f.ack }, he, ?_⟩
          · by_cases hq : seq = b.window.received + 1
            · subst hq
              exact .inr (h.elim (fun hne => absurd rfl hne) id)
            · exact .inl fun he => hq (Option.some.inj he)
          · simp [accept, account, ha, hc, hs, hf]
  · right
    refine ⟨h.imp id .inl, e, b, he, ?_⟩
    simp [accept, account, ha]

/-! ## Courses -/

/-- Frames that lead a reader from one pair of counters to another: the acknowledgement read last
and the number read last. -/
inductive Course : Nat → Nat → List Frame → Nat → Nat → Prop
  | nil (a r : Nat) : Course a r [] a r
  | ack {a r a' r' : Nat} {f : Frame} {fs : List Frame} (type : f.type = .ack) (le : a ≤ f.ack)
      (rest : Course f.ack r fs a' r') : Course a r (f :: fs) a' r'
  | numbered {a r a' r' : Nat} {f : Frame} {fs : List Frame}
      (type : f.type.consumesCredit = true) (seq : f.headers.seq = some (r + 1)) (le : a ≤ f.ack)
      (rest : Course f.ack (r + 1) fs a' r') : Course a r (f :: fs) a' r'

namespace Course

theorem le {a r a' r' : Nat} {fs : List Frame} (h : Course a r fs a' r') : a ≤ a' ∧ r ≤ r' := by
  induction h with
  | nil a r => exact ⟨Nat.le_refl a, Nat.le_refl r⟩
  | ack _ le _ ih => exact ⟨Nat.le_trans le ih.1, ih.2⟩
  | numbered _ _ le _ ih => exact ⟨Nat.le_trans le ih.1, by omega⟩

theorem of_nil {a r a' r' : Nat} (h : Course a r [] a' r') : a = a' ∧ r = r' := by
  cases h
  exact ⟨rfl, rfl⟩

theorem trans {a r a' r' a'' r'' : Nat} {fs gs : List Frame} (h : Course a r fs a' r')
    (h' : Course a' r' gs a'' r'') : Course a r (fs ++ gs) a'' r'' := by
  induction h with
  | nil => exact h'
  | ack type le _ ih => exact .ack type le (ih h')
  | numbered type seq le _ ih => exact .numbered type seq le (ih h')

/-- A frame on its course is one that a window accounts for; the rest is the course from there. -/
theorem after {w : AckWindow} {f : Frame} {fs : List Frame} {a r : Nat}
    (h : Course w.peerAck w.received (f :: fs) a r) :
    w.peerAck ≤ f.ack ∧
      (f.type.consumesCredit = true → f.headers.seq = some (w.received + 1)) ∧
      Course (w.after f).peerAck (w.after f).received fs a r := by
  cases h with
  | ack type le rest =>
    refine ⟨le, by simp [type, FrameType.consumesCredit], ?_⟩
    simp only [AckWindow.after, type, FrameType.consumesCredit, bne_self_eq_false]
    exact rest
  | numbered type seq le rest =>
    refine ⟨le, fun _ => seq, ?_⟩
    simp only [AckWindow.after, type, seq]
    exact rest

end Course

/-! ## Flights -/

/-- The bytes that `y` has not read of what `x` wrote are those of frames that lead `y` to what `x`
has counted. -/
structure Flight (x y : BinaryEnd) (pipe : Bytes) (fl : List Frame) : Prop where
  wire : y.buffer ++ pipe = fl.flatMap Frame.encode
  words : ∀ f ∈ fl, f.InWords
  course : Course y.window.peerAck y.window.received fl x.window.acked x.window.lastSent

/-- An end read frames, and wrote nothing meanwhile. -/
structure BinaryEnd.Reads (b b' : BinaryEnd) : Prop where
  codec : b'.codec = b.codec
  maxBody : b'.maxBody = b.maxBody
  size : b'.window.window = b.window.window
  policy : b'.window.policy = b.window.policy
  acked : b'.window.acked = b.window.acked
  nextSeq : b'.window.nextSeq = b.window.nextSeq

theorem BinaryEnd.Reads.refl (b : BinaryEnd) : b.Reads b := ⟨rfl, rfl, rfl, rfl, rfl, rfl⟩

theorem BinaryEnd.Reads.trans {b b' b'' : BinaryEnd} (h : b.Reads b') (h' : b'.Reads b'') :
    b.Reads b'' :=
  ⟨h'.codec.trans h.codec, h'.maxBody.trans h.maxBody, h'.size.trans h.size,
    h'.policy.trans h.policy, h'.acked.trans h.acked, h'.nextSeq.trans h.nextSeq⟩

/-- What is delivered changes nothing but the payloads in progress and the streams noted. -/
theorem BinaryEnd.deliver_end (b : BinaryEnd) (g : Frame) :
    (b.deliver g).2 =
      { b with reassembler := (b.deliver g).2.reassembler, closed := [] } := by
  unfold deliver
  split
  · rfl
  · rfl
  · rfl
  · simp only
    split <;> rfl

theorem BinaryEnd.deliver_reads (b : BinaryEnd) (g : Frame) : b.Reads (b.deliver g).2 := by
  rw [deliver_end]
  exact ⟨rfl, rfl, rfl, rfl, rfl, rfl⟩

theorem BinaryEnd.after_reads (b : BinaryEnd) (f : Frame) (rest : Bytes) :
    b.Reads { b with buffer := rest, window := b.window.after f } := by
  unfold AckWindow.after
  split <;> exact ⟨rfl, rfl, rfl, rfl, rfl, rfl⟩

/-- An end wrote frames, and is otherwise the same. -/
structure BinaryEnd.Writes (b b' : BinaryEnd) (out : List Frame) : Prop where
  codec : b'.codec = b.codec
  maxBody : b'.maxBody = b.maxBody
  buffer : b'.buffer = b.buffer
  reassembler : b'.reassembler = b.reassembler
  size : b'.window.window = b.window.window
  policy : b'.window.policy = b.window.policy
  peerAck : b'.window.peerAck = b.window.peerAck
  received : b'.window.received = b.window.received
  balanced : b'.window.Balanced
  course : Course b.window.acked b.window.lastSent out b'.window.acked b'.window.lastSent

namespace Flight

variable {x x' y y' : BinaryEnd} {pipe : Bytes} {f : Frame} {fl out : List Frame}

theorem write (h : Flight x y pipe fl) (hw : x.Writes x' out) (hout : ∀ f ∈ out, f.InWords) :
    Flight x' y (pipe ++ out.flatMap Frame.encode) (fl ++ out) where
  wire := by rw [← List.append_assoc, h.wire, List.flatMap_append]
  words := by
    intro f hf
    rcases List.mem_append.mp hf with hf | hf
    · exact h.words f hf
    · exact hout f hf
  course := h.course.trans hw.course

theorem write_reader (h : Flight x y pipe fl) (hw : y.Writes y' out) : Flight x y' pipe fl where
  wire := by rw [hw.buffer, h.wire]
  words := h.words
  course := by
    rw [hw.peerAck, hw.received]
    exact h.course

theorem deliver (h : Flight x y pipe fl) (n : Nat) :
    Flight x (y.feed (pipe.take n)) (pipe.drop n) fl where
  wire := by rw [BinaryEnd.feed, List.append_assoc, List.take_append_drop, h.wire]
  words := h.words
  course := h.course

theorem read_writer (h : Flight x y pipe fl) (hr : x.Reads x') : Flight x' y pipe fl where
  wire := h.wire
  words := h.words
  course := by
    rw [AckWindow.lastSent, hr.acked, hr.nextSeq]
    exact h.course

theorem feed_writer (h : Flight x y pipe fl) (bs : Bytes) : Flight (x.feed bs) y pipe fl :=
  ⟨h.wire, h.words, h.course⟩

/-- What is made of a frame that was read does not matter to those that follow. -/
theorem deliver_reader (h : Flight x y pipe fl) (g : Frame) : Flight x (y.deliver g).2 pipe fl := by
  rw [BinaryEnd.deliver_end]
  exact ⟨h.wire, h.words, h.course⟩

/-- What a reader finds in front of its buffer is the next frame. -/
theorem decode_some (h : Flight x y pipe fl) {n : Nat} {rest : Bytes}
    (hd : Frame.decode n y.buffer = .ok (some (f, rest))) :
    ∃ fl', fl = f :: fl' ∧ y.buffer = f.encode ++ rest := by
  cases fl with
  | nil =>
    have hnil : y.buffer = [] := (List.append_eq_nil_iff.mp h.wire).1
    rw [hnil] at hd
    cases hd
  | cons g fl =>
    have hwire := h.wire
    rw [List.flatMap_cons] at hwire
    obtain ⟨rfl, hbuf, -⟩ := Frame.decode_prefix (h.words g List.mem_cons_self) hwire hd
    exact ⟨fl, rfl, hbuf⟩

theorem nil_of_empty (h : Flight x y [] fl) (hb : y.buffer = []) : fl = [] := by
  have hw := h.wire
  rw [hb, List.append_nil] at hw
  cases fl with
  | nil => rfl
  | cons f fl =>
    have := congrArg List.length hw
    have := List.length_pos_iff.mpr f.encode_ne_nil
    rw [List.flatMap_cons, List.length_append, List.length_nil] at *
    omega

theorem tail (h : Flight x y pipe (f :: fl)) {rest : Bytes} (hbuf : y.buffer = f.encode ++ rest) :
    Flight x { y with buffer := rest, window := y.window.after f } pipe fl where
  wire := by
    have hw := h.wire
    rw [hbuf, List.append_assoc, List.flatMap_cons] at hw
    exact List.append_cancel_left hw
  words := fun g hg => h.words g (List.mem_cons_of_mem f hg)
  course := h.course.after.2.2

end Flight

/-! ## Writing -/

/-- A frame that waits for its number, of a kind that is numbered. -/
structure Frame.Plain (f : Frame) : Prop where
  type : FrameType.ofCode f.type.code = f.type
  numbered : f.type.consumesCredit = true
  rid : f.rid < 2 ^ 32
  total : ∀ n, f.headers.total = some n → n < 2 ^ 32
  body : f.body.length < 2 ^ 32

theorem Frame.Plain.inWords_stamped {f : Frame} (h : f.Plain) {ack seq : Nat}
    (hack : ack < 2 ^ 32) (hseq : seq < 2 ^ 32)
    (hlen : ({ f.headers with seq := some seq } : Headers).encode.length < 2 ^ 64) :
    (f.stamped ack (some seq)).InWords where
  type := h.type
  rid := h.rid
  ack := hack
  headers := ⟨fun _ hn => Option.some.inj hn ▸ hseq, h.total, hlen⟩
  body := h.body

theorem Frame.inWords_ackOnly {ack : Nat} (hack : ack < 2 ^ 32) : (Frame.ackOnly ack).InWords where
  type := rfl
  rid := Nat.two_pow_pos 32
  ack := hack
  headers := ⟨nofun, nofun, Nat.two_pow_pos 64⟩
  body := Nat.two_pow_pos 32

/-- The headers of the frame that a writer has in hand, with the number that it would get, take less
than a given number of bytes. -/
def Writer.HeadersBelow (bound : Nat) (w : Writer) (b : BinaryEnd) : Prop :=
  ∀ f fs, w.frames = some (f :: fs) →
    ({ f.headers with seq := some b.window.nextSeq } : Headers).encode.length < bound

theorem Frame.split_mem {template f : Frame} {body : Bytes} {maxBody : Nat}
    (h : f ∈ template.split body maxBody) (htotal : template.headers.total = none) :
    f.type = template.type ∧ f.rid = template.rid ∧ ∀ n, f.headers.total = some n → n < 2 ^ 32 := by
  have hmod : body.length % 2 ^ 32 < 2 ^ 32 := Nat.mod_lt _ (Nat.two_pow_pos 32)
  unfold Frame.split at h
  split at h
  · rw [List.mem_singleton.mp h]
    exact ⟨rfl, rfl, fun n hn => by simp [htotal] at hn⟩
  · cases hc : Bytes.chunks maxBody body with
    | nil => simp [hc] at h
    | cons first later =>
      simp only [hc, List.mem_cons, List.mem_map] at h
      rcases h with rfl | ⟨c, -, rfl⟩
      · exact ⟨rfl, rfl, fun n hn => Option.some.inj hn ▸ hmod⟩
      · exact ⟨rfl, rfl, fun n hn => Option.some.inj hn ▸ hmod⟩

/-- A message whose frames can be laid out: its number and the lengths of their bodies fit into
words. -/
structure Message.Writable (codec : BodyCodec) (maxBody : Nat) (m : Message) : Prop where
  rid : m.rid < 2 ^ 32
  bodies : ∀ f ∈ m.frames codec maxBody, f.body.length < 2 ^ 32

theorem Message.Writable.plain {codec : BodyCodec} {maxBody : Nat} {m : Message}
    (h : m.Writable codec maxBody) {f : Frame} (hf : f ∈ m.frames codec maxBody) : f.Plain := by
  have hs := hf
  rw [Message.frames_eq_split] at hs
  obtain ⟨ht, hr, htotal⟩ := Frame.split_mem hs rfl
  refine ⟨?_, ?_, hr ▸ h.rid, htotal, h.bodies f hf⟩
  · rw [ht]
    cases m with
    | ping => rfl
    | response r => rfl
    | request r => cases hm : r.method <;> simp [Message.template, Message.frameType, hm] <;> rfl
  · rw [ht]
    cases m <;> rfl

/-- All that a writer still has to write can be laid out. -/
structure Writer.Plain (codec : BodyCodec) (maxBody : Nat) (w : Writer) : Prop where
  frames : ∀ fs, w.frames = some fs → ∀ f ∈ fs, f.Plain
  queue : ∀ m ∈ w.queue, m.Writable codec maxBody

theorem Writer.Plain.head {codec : BodyCodec} {maxBody : Nat} {w : Writer}
    (h : w.Plain codec maxBody) : ∀ f fs, w.frames = some (f :: fs) → f.Plain :=
  fun f fs hf => h.frames (f :: fs) hf f List.mem_cons_self

namespace BinaryEnd

variable {b : BinaryEnd}

theorem Writes.refl (hb : b.window.Balanced) (credit ackDue : Bell) (closed : List Nat) :
    b.Writes { b.withBells credit ackDue with closed } [] :=
  ⟨rfl, rfl, rfl, rfl, rfl, rfl, rfl, rfl, ⟨hb.acked, hb.next, hb.limit⟩, .nil _ _⟩

theorem Writes.ack (hb : b.window.Balanced) (credit ackDue : Bell) :
    b.Writes (b.withBells credit ackDue).acknowledged [Frame.ackOnly b.window.received] := by
  have hmax : max b.window.acked b.window.received = b.window.received := Nat.max_eq_right hb.acked
  refine ⟨rfl, rfl, rfl, rfl, rfl, rfl, rfl, rfl, ⟨?_, hb.next, hb.limit⟩, ?_⟩
  · simp [acknowledged, withBells, hmax]
  · refine .ack rfl hb.acked ?_
    simp only [acknowledged, withBells, hmax]
    exact .nil _ _

theorem Writes.numbered {f : Frame} (hb : b.window.Balanced) (hf : f.Plain)
    (hc : b.window.nextSeq ≤ b.window.sendLimit) :
    b.Writes b.numbered.acknowledged
      [f.stamped b.window.received (some b.window.nextSeq)] := by
  have hmax : max b.window.acked b.window.received = b.window.received := Nat.max_eq_right hb.acked
  have hlast : b.window.lastSent + 1 = b.window.nextSeq := by
    have := hb.next
    rw [AckWindow.lastSent]
    omega
  refine ⟨rfl, rfl, rfl, rfl, rfl, rfl, rfl, rfl, ⟨?_, Nat.succ_pos _, hc⟩, ?_⟩
  · simp [acknowledged, BinaryEnd.numbered, hmax]
  · refine .numbered hf.numbered (congrArg some hlast.symm) hb.acked ?_
    simp only [acknowledged, BinaryEnd.numbered, hmax, AckWindow.lastSent, Nat.add_sub_cancel]
    have hl : b.window.nextSeq - 1 + 1 = b.window.nextSeq := hlast
    rw [hl]
    exact .nil _ _

/-- An acknowledgement that nobody waits for. -/
theorem Writes.pendingAck (hb : b.window.Balanced) (ackDue : Bell) :
    ∃ out, ((b.withBells b.window.credit ackDue).pendingAck.1 = out.flatMap Frame.encode) ∧
      b.Writes (b.withBells b.window.credit ackDue).pendingAck.2 out ∧
      (out = [] ∨ out = [Frame.ackOnly b.window.received]) := by
  unfold BinaryEnd.pendingAck
  by_cases hp : (b.withBells b.window.credit ackDue).window.ackPending = true
  · rw [if_pos hp, ackFrame_eq]
    exact ⟨_, (List.flatMap_singleton _ _).symm, Writes.ack hb _ _, .inr rfl⟩
  · rw [if_neg hp]
    exact ⟨[], rfl, Writes.refl hb b.window.credit ackDue b.closed, .inl rfl⟩

end BinaryEnd

namespace Writer.Step

variable {w w' : Writer} {b b' : BinaryEnd} {out : List Frame}

theorem writes (h : Step w b out w' b') (hb : b.window.Balanced)
    (hplain : ∀ f fs, w.frames = some (f :: fs) → f.Plain) : b.Writes b' out := by
  cases h with
  | @begins m queue frames queued =>
    rw [b.begin_snd]
    exact .refl hb b.window.credit b.window.ackDue (b.closed ++ m.closing?.toList)
  | ends frames => exact .refl hb b.window.credit b.window.ackDue b.closed
  | sends frames free credit => exact .numbered hb (hplain _ _ frames) credit
  | @retries f fs credit ackDue frames due => exact .refl hb credit ackDue b.closed
  | @answers f fs credit ackDue frames => exact .ack hb credit ackDue
  | @waits f fs credit ackDue frames stuck uncalled listens due =>
    exact .refl hb credit ackDue b.closed

theorem plain (h : Step w b out w' b') (hw : w.Plain b.codec b.maxBody) :
    w'.Plain b.codec b.maxBody := by
  cases h with
  | @begins m queue frames queued =>
    refine ⟨fun fs hfs f hf => ?_, fun m' hm' => hw.queue m' ?_⟩
    · have hm : m.Writable b.codec b.maxBody := hw.queue m (by simp [queued])
      rw [← Option.some.inj hfs, b.begin_fst] at hf
      exact hm.plain hf
    · rw [queued]
      exact List.mem_cons_of_mem m hm'
  | ends frames => exact ⟨nofun, hw.queue⟩
  | @sends f fs frames free credit =>
    refine ⟨fun fs' hfs f' hf' => ?_, hw.queue⟩
    rw [← Option.some.inj hfs] at hf'
    exact hw.frames (f :: fs) frames f' (List.mem_cons_of_mem f hf')
  | retries | answers | waits => exact ⟨hw.frames, hw.queue⟩

theorem words (h : Step w b out w' b') (hreceived : b.window.received < 2 ^ 32)
    (hheaders : w.HeadersBelow (2 ^ 64) b)
    (hplain : ∀ f fs, w.frames = some (f :: fs) → f.Plain) : ∀ f ∈ out, f.InWords := by
  cases h with
  | @sends f fs frames free credit =>
    intro g hg
    rw [List.mem_singleton.mp hg]
    have hseq : b.window.nextSeq < 2 ^ 32 := by
      have := Nat.le_trans credit (Nat.min_le_right _ _)
      simp only [AckWindow.maxSeq] at this
      omega
    exact (hplain f fs frames).inWords_stamped hreceived hseq (hheaders f fs frames)
  | answers frames =>
    intro g hg
    rw [List.mem_singleton.mp hg]
    exact Frame.inWords_ackOnly hreceived
  | begins | ends | retries | waits => exact fun f hf => absurd hf List.not_mem_nil

end Writer.Step

/-! ## Links -/

/-- The counters of both ends are balanced, and each flight leads from one end to the other. -/
structure Link.Counted (l : Link) (fl : Side → List Frame) : Prop where
  balanced : ∀ s, (l.reader s).window.Balanced
  flight : ∀ s, Flight (l.reader s) (l.reader s.other) (l.sent s) (fl s)

namespace Link

variable {l : Link} {fl : Side → List Frame}

theorem Counted.start (c : Side → LinkConfig) (codec : Side → BodyCodec) :
    (ofConfigs c codec).Counted fun _ => [] where
  balanced := by
    intro s
    refine ⟨Nat.le_refl 0, Nat.le_refl 1, ?_⟩
    have h0 : ((ofConfigs c codec).reader s).window.lastSent = 0 := rfl
    rw [h0]
    exact Nat.zero_le _
  flight := by
    intro s
    exact ⟨rfl, fun f hf => absurd hf List.not_mem_nil, .nil 0 0⟩

theorem Counted.received_le (h : l.Counted fl) (s : Side) :
    (l.reader s).window.received ≤ (l.reader s.other).window.lastSent := by
  have hc := (h.flight s.other).course.le.2
  rwa [Side.other_other] at hc

theorem Counted.lastSent_le (h : l.Counted fl) (s : Side) :
    (l.reader s).window.lastSent ≤ AckWindow.maxSeq :=
  Nat.le_trans (h.balanced s).limit (Nat.min_le_right _ _)

/-- What an end has received is never acknowledged in vain: the other has sent it. -/
theorem Counted.received_lt (h : l.Counted fl) (s : Side) :
    (l.reader s).window.received < 2 ^ 32 := by
  have h1 := h.received_le s
  have h2 := h.lastSent_le s.other
  simp only [AckWindow.maxSeq] at h2
  omega

theorem Counted.peerAck_le (h : l.Counted fl) (s : Side) :
    (l.reader s).window.peerAck ≤ (l.reader s.other).window.acked := by
  have hc := (h.flight s.other).course.le.1
  rwa [Side.other_other] at hc

theorem Counted.emit (h : l.Counted fl) {s : Side} {b : BinaryEnd} {out : List Frame}
    (hw : (l.reader s).Writes b out) (hout : ∀ f ∈ out, f.InWords) :
    (l.emit s (out.flatMap Frame.encode, b)).Counted (Function.update fl s (fl s ++ out)) where
  balanced := by
    intro s'
    obtain rfl | rfl := Side.eq_or_eq_other s s'
    · simp [Link.emit, hw.balanced]
    · simp [Link.emit, h.balanced]
  flight := by
    intro s'
    obtain rfl | rfl := Side.eq_or_eq_other s s'
    · have hf := (h.flight s').write hw hout
      simpa [Link.emit] using hf
    · have hf := h.flight s.other
      rw [Side.other_other] at hf
      simpa [Link.emit] using hf.write_reader hw

theorem Counted.read (h : l.Counted fl) {s : Side} {b : BinaryEnd} {fs : List Frame}
    {log : Side → Log}
    (hr : (l.reader s).Reads b) (hb : b.window.Balanced)
    (hf : Flight (l.reader s.other) b (l.sent s.other) fs) :
    ({ l with reader := Function.update l.reader s b, log } : Link).Counted
      (Function.update fl s.other fs) where
  balanced := by
    intro s'
    obtain rfl | rfl := Side.eq_or_eq_other s s'
    · simpa using hb
    · simpa using h.balanced s.other
  flight := by
    intro s'
    obtain rfl | rfl := Side.eq_or_eq_other s s'
    · simpa using (h.flight s').read_writer hr
    · simpa using hf

theorem Counted.deliver (h : l.Counted fl) (s : Side) (n : Nat) :
    (l.after (.deliver s n)).Counted fl where
  balanced := by
    intro s'
    obtain rfl | rfl := Side.eq_or_eq_other s s'
    · simpa [after, BinaryEnd.feed] using h.balanced s'
    · simpa [after] using h.balanced s.other
  flight := by
    intro s'
    obtain rfl | rfl := Side.eq_or_eq_other s s'
    · have hf := (h.flight s').feed_writer ((l.sent s'.other).take n)
      simpa [after] using hf
    · have hf := (h.flight s.other).deliver n
      simpa [after] using hf

end Link
end PeerLink
