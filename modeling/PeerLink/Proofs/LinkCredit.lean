import PeerLink.Proofs.LinkCounters

/-! # Credit never runs dry

An end that has used up its credit waits until the other acknowledges. The other sends an
acknowledgement by itself when half its own window has come, so nobody waits for ever as long as the
window of one is at least half that of the other.

* `Writer.Attentive`: no ring of a bell is lost. When an acknowledgement is due, its bell has rung;
  a writer that waits has no credit, or has been called.
* `Link.Steady`: the invariant of a link without fatal errors.
* `Link.Quiet`: all bytes have been read, and nobody is called by a bell.
-/

namespace PeerLink
set_option autoImplicit false

/-! ## Bells of one end -/

structure Writer.Attentive (w : Writer) (b : BinaryEnd) : Prop where
  due : b.window.dueAfter ≤ b.window.unacked → b.window.ackDue.Rung
  waits : w.waiting = true → (∃ f fs, w.frames = some (f :: fs)) ∧
    (b.window.credit.listener = .called ∨
      b.window.credit.listener = .waiting ∧ b.window.sendLimit < b.window.nextSeq)

theorem AckWindow.unacked_eq {w : AckWindow} (h : w.acked ≤ w.received)
    (hr : w.received < 2 ^ 32) : w.unacked = w.received - w.acked := by
  rw [unacked]
  omega

theorem AckWindow.not_due {w : AckWindow} (h : w.acked = w.received) :
    ¬ w.dueAfter ≤ w.unacked := by
  rw [dueAfter, unacked, h]
  omega

namespace Writer

variable {w w' : Writer} {b b' : BinaryEnd} {out : List Frame}

/-- Once an acknowledgement has gone out that was pending, none is due. -/
theorem Attentive.pendingAck (h : w.Attentive b) (hb : b.window.Balanced) (ackDue : Bell) :
    w.Attentive (b.withBells b.window.credit ackDue).pendingAck.2 := by
  unfold BinaryEnd.pendingAck
  by_cases hp : (b.withBells b.window.credit ackDue).window.ackPending = true
  · rw [if_pos hp]
    exact ⟨fun hd => absurd hd (AckWindow.not_due (Nat.max_eq_right hb.acked)), h.waits⟩
  · rw [if_neg hp]
    refine ⟨fun hd => absurd hd (AckWindow.not_due ?_), h.waits⟩
    have hle : ¬ b.window.acked < b.window.received := fun hlt => hp (decide_eq_true hlt)
    exact Nat.le_antisymm hb.acked (Nat.not_lt.mp hle)

theorem Step.attentive (hs : Step w b out w' b') (h : w.Attentive b) (hb : b.window.Balanced) :
    w'.Attentive b' := by
  cases hs with
  | @begins m queue frames queued =>
    rw [b.begin_snd]
    refine ⟨h.due, fun hw => ?_⟩
    obtain ⟨⟨f, fs, hf⟩, -⟩ := h.waits hw
    rw [frames] at hf
    cases hf
  | ends frames =>
    refine ⟨h.due, fun hw => ?_⟩
    obtain ⟨⟨f, fs, hf⟩, -⟩ := h.waits hw
    rw [frames] at hf
    cases hf
  | sends frames free credit =>
    refine ⟨fun hd => absurd hd (AckWindow.not_due (Nat.max_eq_right hb.acked)), fun hw => ?_⟩
    rw [free] at hw
    cases hw
  | retries frames due => exact ⟨fun hd => due.mpr (h.due hd), nofun⟩
  | answers frames =>
    exact ⟨fun hd => absurd hd (AckWindow.not_due (Nat.max_eq_right hb.acked)), nofun⟩
  | waits frames stuck uncalled listens due =>
    refine ⟨fun hd => due.mpr (h.due hd), fun _ => ⟨⟨_, _, frames⟩, .inr ⟨listens, ?_⟩⟩⟩
    cases hw : w.waiting with
    | false => exact stuck hw
    | true => exact (h.waits hw).2.elim (fun hc => absurd hc uncalled) And.right

/-- An acknowledgement that brings credit calls the writer. -/
theorem Attentive.heard (h : w.Attentive b) {ack : Nat} (hack : b.window.peerAck ≤ ack) :
    w.Attentive { b with window := b.window.heard ack } where
  due := h.due
  waits := by
    intro hw
    obtain ⟨hf, hc⟩ := h.waits hw
    refine ⟨hf, ?_⟩
    by_cases hlt : b.window.peerAck < ack
    · left
      simp only [AckWindow.heard, hlt, if_true]
      obtain hc | ⟨hc, -⟩ := hc <;> simp [Bell.ring, hc]
    · have he : ack = b.window.peerAck := by omega
      subst he
      simp only [AckWindow.heard, Nat.lt_irrefl, if_false]
      exact hc

/-- A frame after which an acknowledgement is due rings for it. -/
theorem Attentive.counted (h : w.Attentive b) (seq : Nat) :
    w.Attentive { b with window := b.window.counted seq } where
  due := by
    intro hd
    have hd' : b.window.dueAfter ≤ AckWindow.unacked { b.window with received := seq } := hd
    simp only [AckWindow.counted, hd', if_true]
    exact Bell.rung_ring _
  waits := h.waits

theorem Attentive.after (h : w.Attentive b) {f : Frame} (hack : b.window.peerAck ≤ f.ack) :
    w.Attentive { b with window := b.window.after f } := by
  have hh := h.heard hack
  unfold AckWindow.after
  split
  · exact hh.counted _
  · exact hh

end Writer
/-! ## Reading -/

/-- What an error that ends the link is not. -/
def Decoding.Goes (r : Decoding) : Prop := ∀ e, r = .error e → e.isFatal = false

/-- Reading keeps the flight, as long as the link goes on. -/
theorem Flight.nextFrom {x : BinaryEnd} {pipe : Bytes} {w : Writer} : ∀ (fuel : Nat) (y : BinaryEnd)
    (fl : List Frame), Flight x y pipe fl → y.window.Balanced → w.Attentive y →
    Decoding.Goes (y.nextFrom fuel).1 →
    ∃ fl', Flight x (y.nextFrom fuel).2 pipe fl' ∧ (y.nextFrom fuel).2.window.Balanced ∧
      w.Attentive (y.nextFrom fuel).2 ∧ y.Reads (y.nextFrom fuel).2
  | 0, y, fl, hf, hb, ha, _ => ⟨fl, hf, hb, ha, .refl y⟩
  | fuel + 1, y, fl, hf, hb, ha, hgo => by
    rw [BinaryEnd.nextFrom] at hgo ⊢
    cases hd : Frame.decode y.maxBody y.buffer with
    | error e =>
      rw [hd] at hgo
      have := hgo e rfl
      rw [Frame.decode_fatal hd] at this
      cases this
    | ok o =>
      cases o with
      | none => exact ⟨fl, hf, hb, ha, .refl y⟩
      | some p =>
        obtain ⟨f, rest⟩ := p
        rw [hd] at hgo
        simp only at hgo ⊢
        obtain ⟨fl', rfl, hbuf⟩ := hf.decode_some hd
        obtain ⟨h1, -, h3, hacc⟩ | ⟨-, e, b', he, hacc⟩ :=
          BinaryEnd.accept_cases { y with buffer := rest } f
        · have hf' := (hf.tail hbuf).deliver_reader f
          have hr' := (y.after_reads f rest).trans (BinaryEnd.deliver_reads _ f)
          have hb' : (BinaryEnd.deliver { y with buffer := rest, window := y.window.after f }
              f).2.window.Balanced := by
            rw [BinaryEnd.deliver_end]
            exact hb.after h1 fun hc => (h3 hc).1
          have ha' : w.Attentive (BinaryEnd.deliver
              { y with buffer := rest, window := y.window.after f } f).2 := by
            rw [BinaryEnd.deliver_end]
            exact ⟨(ha.after h1).due, (ha.after h1).waits⟩
          rw [hacc] at hgo ⊢
          generalize BinaryEnd.deliver { y with buffer := rest, window := y.window.after f } f = r
            at hf' hr' hb' ha' hgo ⊢
          obtain ⟨o, y'⟩ := r
          cases o with
          | none =>
            obtain ⟨fl'', h1, h2, h3, h4⟩ := Flight.nextFrom fuel y' fl' hf' hb' ha' hgo
            exact ⟨fl'', h1, h2, h3, hr'.trans h4⟩
          | some r => exact ⟨fl', hf', hb', ha', hr'⟩
        · rw [hacc] at hgo
          have := hgo e rfl
          rw [he] at this
          cases this

theorem Flight.next {x y : BinaryEnd} {pipe : Bytes} {w : Writer} {fl : List Frame}
    (hf : Flight x y pipe fl) (hb : y.window.Balanced) (ha : w.Attentive y)
    (hgo : Decoding.Goes y.next.1) :
    ∃ fl', Flight x y.next.2 pipe fl' ∧ y.next.2.window.Balanced ∧ w.Attentive y.next.2 ∧
      y.Reads y.next.2 :=
  Flight.nextFrom _ y fl hf hb ha hgo

/-! ## The invariant -/

namespace Link

/-- Messages can be laid out, and no end reads what would end the link. -/
def Unbroken (l : Link) : Move → Prop
  | .queue s m => m.Writable (l.reader s).codec (l.reader s).maxBody
  | .write s _ => (l.writer s).HeadersBelow (2 ^ 64) (l.reader s)
  | .read s => Decoding.Goes (l.reader s).next.1
  | _ => True

/-- What holds of a link as long as it goes on; `size` are the windows of its ends. -/
structure Steady (size : Side → Nat) (l : Link) : Prop where
  counted : ∃ fl, l.Counted fl
  plain : ∀ s, (l.writer s).Plain (l.reader s).codec (l.reader s).maxBody
  attentive : ∀ s, (l.writer s).Attentive (l.reader s)
  size : ∀ s, (l.reader s).window.window = size s

variable {size : Side → Nat} {l : Link}

theorem Steady.emit (h : l.Steady size) {s : Side} {w : Writer} {b : BinaryEnd}
    {out : List Frame} (hw : (l.reader s).Writes b out) (hout : ∀ f ∈ out, f.InWords)
    (hp : w.Plain b.codec b.maxBody) (ha : w.Attentive b) (log : Side → Log) :
    ({ l.emit s (out.flatMap Frame.encode, b) with
        writer := Function.update l.writer s w, log } : Link).Steady size where
  counted := by
    obtain ⟨fl, hc⟩ := h.counted
    have he := hc.emit hw hout
    exact ⟨_, he.balanced, he.flight⟩
  plain := by
    intro s'
    obtain rfl | rfl := Side.eq_or_eq_other s s'
    · simpa [Link.emit] using hp
    · simpa [Link.emit] using h.plain s.other
  attentive := by
    intro s'
    obtain rfl | rfl := Side.eq_or_eq_other s s'
    · simpa [Link.emit] using ha
    · simpa [Link.emit] using h.attentive s.other
  size := by
    intro s'
    obtain rfl | rfl := Side.eq_or_eq_other s s'
    · simpa [Link.emit, hw.size] using h.size s'
    · simpa [Link.emit] using h.size s.other

theorem Steady.acknowledge (h : l.Steady size) (s : Side) (ackDue : Bell) :
    (l.emit s ((l.reader s).withBells (l.reader s).window.credit ackDue).pendingAck).Steady
      size := by
  obtain ⟨fl, hc⟩ := h.counted
  have hb := hc.balanced s
  obtain ⟨out, hbytes, hw, hout⟩ := BinaryEnd.Writes.pendingAck hb ackDue
  have hwords : ∀ f ∈ out, f.InWords := by
    intro f hf
    obtain rfl | rfl := hout
    · cases hf
    · rw [List.mem_singleton.mp hf]
      exact Frame.inWords_ackOnly (hc.received_lt s)
  have hp : (l.writer s).Plain _ _ := h.plain s
  rw [← hw.codec, ← hw.maxBody] at hp
  have he := h.emit hw hwords hp ((h.attentive s).pendingAck hb ackDue) l.log
  rw [← hbytes, Function.update_eq_self] at he
  exact he

theorem Steady.move (h : l.Steady size) (m : Move) (ok : l.Unbroken m) :
    (l.after m).Steady size := by
  obtain ⟨fl, hc⟩ := h.counted
  cases m with
  | queue s m =>
    refine ⟨⟨fl, hc.balanced, hc.flight⟩, ?_, ?_, h.size⟩
    · intro s'
      obtain rfl | rfl := Side.eq_or_eq_other s s'
      · have hp := h.plain s'
        refine ⟨by simpa [after, Writer.push] using hp.frames, ?_⟩
        intro m' hm'
        simp only [after, Function.update_self, Writer.push, List.mem_append,
          List.mem_singleton] at hm'
        exact hm'.elim (hp.queue m') fun he => he ▸ ok
      · simpa [after] using h.plain s.other
    · intro s'
      obtain rfl | rfl := Side.eq_or_eq_other s s'
      · have ha := h.attentive s'
        simp only [after, Function.update_self]
        exact ⟨ha.due, ha.waits⟩
      · simpa [after] using h.attentive s.other
  | write s dueFirst =>
    rw [after]
    cases hs : (l.writer s).step (l.reader s) dueFirst with
    | none => exact h
    | some r =>
      obtain ⟨bytes, w, b⟩ := r
      obtain ⟨out, rfl, hstep⟩ := Writer.step_cases hs
      have hp := hstep.plain (h.plain s)
      have hw := hstep.writes (hc.balanced s) (h.plain s).head
      rw [← hw.codec, ← hw.maxBody] at hp
      exact h.emit hw (hstep.words (hc.received_lt s) ok (h.plain s).head) hp
        (hstep.attentive (h.attentive s) (hc.balanced s)) _
  | acknowledge s => exact h.acknowledge s (l.reader s).window.ackDue
  | answerDue s =>
    rw [after]
    split
    · exact h.acknowledge s (l.reader s).window.ackDue.take.2
    · exact h
  | deliver s n =>
    have hd := hc.deliver s n
    refine ⟨⟨fl, hd⟩, ?_, ?_, ?_⟩ <;> intro s' <;> obtain rfl | rfl := Side.eq_or_eq_other s s'
    · simpa [after, BinaryEnd.feed] using h.plain s'
    · simpa [after] using h.plain s.other
    · have ha := h.attentive s'
      simp only [after, Function.update_self]
      exact ⟨ha.due, ha.waits⟩
    · simpa [after] using h.attentive s.other
    · simpa [after, BinaryEnd.feed] using h.size s'
    · simpa [after] using h.size s.other
  | read s =>
    have hf := hc.flight s.other
    rw [Side.other_other] at hf
    obtain ⟨fl', hf', hb', ha', hr'⟩ :=
      hf.next (hc.balanced s) (h.attentive s) ok
    refine ⟨⟨_, hc.read hr' hb' hf'⟩, ?_, ?_, ?_⟩ <;> intro s' <;>
      obtain rfl | rfl := Side.eq_or_eq_other s s'
    · have hp := h.plain s'
      rw [← hr'.codec, ← hr'.maxBody] at hp
      simpa [after] using hp
    · simpa [after] using h.plain s.other
    · simpa [after] using ha'
    · simpa [after] using h.attentive s.other
    · simpa [after, ← hr'.size] using h.size s'
    · simpa [after] using h.size s.other

/-- The window of an end. -/
def windowOf (c : Side → LinkConfig) (s : Side) : Nat := max (c s).ackWindow 1

theorem Steady.start (c : Side → LinkConfig) (codec : Side → BodyCodec) :
    (ofConfigs c codec).Steady (windowOf c) where
  counted := ⟨fun _ => [], .start c codec⟩
  plain := fun _ => ⟨nofun, nofun⟩
  attentive := fun _ => ⟨fun hd => absurd hd (AckWindow.not_due rfl), nofun⟩
  size := fun _ => rfl

theorem steady_of_reachable {c : Side → LinkConfig} {codec : Side → BodyCodec}
    (h : Reachable Unbroken (ofConfigs c codec) l) : l.Steady (windowOf c) := by
  induction h with
  | start => exact .start c codec
  | move _ m ok ih => exact ih.move m ok

/-! ## Quiet links -/

/-- All that was written has been read; no end keeps a ring for an acknowledgement, and no writer
that waits has been called. -/
structure Quiet (l : Link) : Prop where
  delivered : ∀ s, l.sent s = []
  decoded : ∀ s, (l.reader s).buffer = []
  answered : ∀ s, ¬ (l.reader s).window.ackDue.Rung
  called : ∀ s, (l.writer s).waiting = true → (l.reader s).window.credit.listener ≠ .called

theorem Steady.has_credit (h : l.Steady size) (hq : l.Quiet) {s : Side}
    (hsize : max (size s.other / 2) 1 ≤ size s)
    (hn : (l.reader s).window.nextSeq ≤ AckWindow.maxSeq) :
    (l.reader s).window.nextSeq ≤ (l.reader s).window.sendLimit := by
  obtain ⟨fl, hc⟩ := h.counted
  have course : ∀ s, (l.reader s.other).window.peerAck = (l.reader s).window.acked ∧
      (l.reader s.other).window.received = (l.reader s).window.lastSent := by
    intro s
    have hf := hc.flight s
    rw [hq.delivered s] at hf
    have hcourse := hf.course
    rw [hf.nil_of_empty (hq.decoded s.other)] at hcourse
    exact hcourse.of_nil
  have hreceived := (course s).2
  have hacked := (course s.other).1
  rw [Side.other_other] at hacked
  have hunacked := AckWindow.unacked_eq (hc.balanced s.other).acked (hc.received_lt s.other)
  by_contra hlt
  -- The other end has received a whole window that it has not acknowledged.
  have hdue : (l.reader s.other).window.dueAfter ≤ (l.reader s.other).window.unacked := by
    have hnext := (hc.balanced s).next
    have hs := h.size s
    have ho := h.size s.other
    rw [hunacked, AckWindow.dueAfter, ho, hreceived, ← hacked, AckWindow.lastSent]
    simp only [AckWindow.sendLimit, hs] at hlt
    omega
  exact hq.answered s.other ((h.attentive s.other).due hdue)

theorem Steady.not_waiting (h : l.Steady size) (hq : l.Quiet) {s : Side}
    (hcredit : (l.reader s).window.nextSeq ≤ (l.reader s).window.sendLimit) :
    (l.writer s).waiting = false := by
  cases hw : (l.writer s).waiting with
  | false => rfl
  | true =>
    obtain ⟨-, hc | ⟨-, hc⟩⟩ := (h.attentive s).waits hw
    · exact absurd hc (hq.called s hw)
    · exact absurd hcredit (Nat.not_le.mpr hc)

end Link
end PeerLink
