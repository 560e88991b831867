import PeerLink.Proofs.FrameAnswers
import PeerLink.Proofs.LinkOrder

/-! # Frames within the limits of their reader

Two ends with the same settings. What their codec makes of the bodies does not matter here, only how
long they are.

* `Message.Sendable`: the frames of a message are within the limits of every reader.
* `Gathers`: the invariant of one direction. The numbered frames on the way, and those still to be
  written, are those of the messages that are coming.
* `Link.Tame`: the invariant of a link. Nothing that an end reads makes it give up.
-/

namespace PeerLink
set_option autoImplicit false

/-! ## Messages -/

/-- The number of a message and the length of its body fit into words, its headers are not too long,
and a close request has nothing but its number. -/
structure Message.Sendable (codec : BodyCodec) (maxBody : Nat) (m : Message) : Prop where
  rid : m.rid < 2 ^ 32
  length : (m.bodyBytes codec).length < 2 ^ 32
  headers : ∀ f ∈ m.frames codec maxBody, ∀ n ≤ 2 ^ 32,
    ({ f.headers with seq := some n } : Headers).encode.length ≤ Frame.maxHeaders
  close : ∀ r, m = .request r → r.method = .close → r = .close r.rid

theorem Message.Sendable.splits {codec : BodyCodec} {maxBody : Nat} {m : Message}
    (h : m.Sendable codec maxBody) : m.Splits codec maxBody := by
  refine ⟨h.length, fun hclose => ?_⟩
  cases m with
  | ping => cases hclose
  | response r => cases hclose
  | request r =>
    rw [h.close r rfl (FrameType.request.inj hclose)]
    exact Nat.zero_le maxBody

/-- The answer leaves the reader able to go on. -/
def Decoding.Mild (r : Decoding) : Prop := ∀ e, r = .error e → e.isFatal = false

theorem Inbound.ofFrame_mild {codec : BodyCodec} (hcodec : codec.Mild) (f : Frame) :
    Decoding.Mild ((Inbound.ofFrame codec f).map some) := by
  intro e he
  unfold ofFrame at he
  cases hbody : Envelope.ofBody codec f.body with
  | error e' =>
    rw [hbody] at he
    cases he
    obtain rfl | hdecode := Envelope.ofBody_error hbody
    · rfl
    · exact hcodec f.body e hdecode
  | ok envelope =>
    have hrid : (envelope.inFrame f).rid = some f.rid := rfl
    simp only [hbody, Envelope.toInbound_of_rid hrid] at he
    cases hmethod : (envelope.inFrame f).method with
    | none =>
      rw [hmethod] at he
      cases he
    | some name =>
      simp only [hmethod] at he
      cases hparse : Method.parse name <;> rw [hparse] at he <;> cases he

theorem Message.Comes.mild {codec : BodyCodec} {m : Message} {r : Except FrameError Inbound}
    (h : m.Comes codec r) (hcodec : codec.Mild) : Decoding.Mild (r.map some) := by
  cases h with
  | ping => nofun
  | whole _ _ _ => exact Inbound.ofFrame_mild hcodec _

/-! ## One direction -/

/-- What holds of one direction of a link: `w` writes, `b` reads, and `fl` is on the way. The first
`taken` frames of the messages that are `coming` have been read. -/
structure Gathers (codec : BodyCodec) (maxBody : Nat) (w : Writer) (fl : List Frame)
    (b : BinaryEnd) (coming : List Message) (taken : Nat) : Prop where
  sameCodec : b.codec = codec
  sameLimit : b.maxBody = maxBody
  sendable : ∀ m ∈ coming, m.Sendable codec maxBody
  fits : ∀ f ∈ fl, f.Fits maxBody
  frames : (fl.filter (·.type.consumesCredit)).map Frame.unstamp ++
      (w.frames.getD [] ++ w.queue.flatMap (·.frames codec maxBody)) =
    (coming.flatMap (·.frames codec maxBody)).drop taken
  awaits : ∃ cut, b.Awaits cut coming taken

/-- Streams may be closed at the end that reads; then more is cut off. -/
theorem BinaryEnd.Awaits.same {b b' : BinaryEnd} {cut : Prop} {ms : List Message} {taken : Nat}
    (h : b.Awaits cut ms taken) (hr : b'.reassembler = b.reassembler) (hcodec : b'.codec = b.codec)
    (hmax : b'.maxBody = b.maxBody) : ∃ cut', b'.Awaits cut' ms taken := by
  cases h with
  | between ms h => exact ⟨cut, .between ms (hr.trans h)⟩
  | within h pos lacks frames marked =>
    refine ⟨_, .within (hr.trans h) pos (hcodec ▸ lacks) ?_ Iff.rfl⟩
    rw [hcodec, hmax]
    exact frames

namespace Gathers

variable {codec : BodyCodec} {maxBody : Nat} {w w' : Writer} {fl out : List Frame}
  {coming : List Message} {b b' : BinaryEnd} {taken : Nat}

theorem same (h : Gathers codec maxBody w fl b coming taken) (hcodec : b'.codec = b.codec)
    (hmax : b'.maxBody = b.maxBody) (hr : b'.reassembler = b.reassembler) :
    Gathers codec maxBody w fl b' coming taken where
  sameCodec := hcodec.trans h.sameCodec
  sameLimit := hmax.trans h.sameLimit
  sendable := h.sendable
  fits := h.fits
  frames := h.frames
  awaits := by
    obtain ⟨cut, hawaits⟩ := h.awaits
    exact hawaits.same hr hcodec hmax

theorem queue (h : Gathers codec maxBody w fl b coming taken) {m : Message}
    (hm : m.Sendable codec maxBody) :
    Gathers codec maxBody (w.push m) fl b (coming ++ [m]) taken where
  sameCodec := h.sameCodec
  sameLimit := h.sameLimit
  sendable := by
    intro m' hm'
    rcases List.mem_append.mp hm' with hm' | hm'
    · exact h.sendable m' hm'
    · exact List.mem_singleton.mp hm' ▸ hm
  fits := h.fits
  frames := by
    obtain ⟨cut, hawaits⟩ := h.awaits
    have hle := hawaits.taken_le
    rw [h.sameCodec, h.sameLimit] at hle
    rw [List.flatMap_append, List.drop_append_of_le_length hle, ← h.frames]
    simp [Writer.push, List.append_assoc]
  awaits := by
    obtain ⟨cut, hawaits⟩ := h.awaits
    refine ⟨cut, ?_⟩
    cases hawaits with
    | between ms he => exact .between _ he
    | within he pos lacks frames marked => exact .within he pos lacks frames marked

/-- The frames in hand are those of messages that can be sent. -/
theorem in_hand (h : Gathers codec maxBody w fl b coming taken) (hpos : 0 < maxBody) {f : Frame}
    {fs : List Frame} (hf : w.frames = some fs) (hmem : f ∈ fs) :
    f.Bare maxBody ∧ ∀ n ≤ 2 ^ 32,
      ({ f.headers with seq := some n } : Headers).encode.length ≤ Frame.maxHeaders := by
  have hdrop : f ∈ (coming.flatMap (·.frames codec maxBody)).drop taken := by
    rw [← h.frames, hf]
    simp [hmem]
  obtain ⟨m, hm, hframe⟩ := List.mem_flatMap.mp (List.mem_of_mem_drop hdrop)
  have hsendable := h.sendable m hm
  exact ⟨hsendable.splits.bare hsendable.rid hpos f hframe, hsendable.headers f hframe⟩

theorem step {x x' : BinaryEnd} (h : Gathers codec maxBody w fl b coming taken)
    (hs : w.Step x out w' x') (hcodec : x.codec = codec) (hmax : x.maxBody = maxBody)
    (hout : ∀ f ∈ out, f.Fits maxBody)
    (hplain : ∀ f fs, w.frames = some (f :: fs) → f.unstamp = f ∧ f.type.consumesCredit = true) :
    Gathers codec maxBody w' (fl ++ out) b coming taken where
  sameCodec := h.sameCodec
  sameLimit := h.sameLimit
  sendable := h.sendable
  fits := by
    intro f hf
    rcases List.mem_append.mp hf with hf | hf
    · exact h.fits f hf
    · exact hout f hf
  frames := by
    have hrest := hs.rest hcodec hmax hplain
    rw [← h.frames, List.filter_append, List.map_append, List.append_assoc]
    congr 1
    simpa [Note.numbered, Note.written, Note.written?, Writer.rest, List.filterMap_map,
      Function.comp_def] using hrest
  awaits := h.awaits

theorem acknowledge (h : Gathers codec maxBody w fl b coming taken) {ack : Nat}
    (hout : out = [] ∨ out = [Frame.ackOnly ack]) :
    Gathers codec maxBody w (fl ++ out) b coming taken where
  sameCodec := h.sameCodec
  sameLimit := h.sameLimit
  sendable := h.sendable
  fits := by
    intro f hf
    rcases List.mem_append.mp hf with hf | hf
    · exact h.fits f hf
    · obtain rfl | rfl := hout
      · cases hf
      · rw [List.mem_singleton.mp hf]
        exact ⟨Nat.zero_le _, Nat.zero_le _⟩
  frames := by
    rw [← h.frames]
    obtain rfl | rfl := hout <;> simp [Frame.ackOnly, FrameType.consumesCredit]
  awaits := h.awaits

theorem read_ack {f : Frame} (h : Gathers codec maxBody w (f :: fl) b coming taken)
    (ht : f.type = .ack) :
    (b.deliver f).1 = none ∧ Gathers codec maxBody w fl (b.deliver f).2 coming taken := by
  have hdeliver : b.deliver f = (none, b.abandonClosed) := by
    simp only [BinaryEnd.deliver, ht]
  obtain ⟨cut, hawaits⟩ := h.awaits
  rw [hdeliver]
  refine ⟨rfl, h.sameCodec, h.sameLimit, h.sendable, ?_, ?_, cut, hawaits.abandonClosed⟩
  · exact fun g hg => h.fits g (List.mem_cons_of_mem f hg)
  · simpa [ht, FrameType.consumesCredit] using h.frames

/-- A numbered frame is read. It brings nothing, or what is made of a whole message. -/
theorem read_numbered {f : Frame} (h : Gathers codec maxBody w (f :: fl) b coming taken)
    (hpos : 0 < maxBody) (ht : f.type.consumesCredit = true) (hcodec : codec.Mild) :
    ∃ coming' taken', Gathers codec maxBody w fl (b.deliver f).2 coming' taken' ∧
      ∀ r, (b.deliver f).1 = some r → Decoding.Mild (r.map some) := by
  obtain ⟨cut, hawaits⟩ := h.awaits
  have hframes := h.frames
  rw [List.filter_cons_of_pos (by simpa using ht), List.map_cons, List.cons_append] at hframes
  have hrest := congrArg List.tail hframes
  rw [List.tail_cons, List.tail_drop] at hrest
  have hsplits : ∀ m ∈ coming, m.Splits b.codec b.maxBody := by
    rw [h.sameCodec, h.sameLimit]
    exact fun m hm => (h.sendable m hm).splits
  obtain ⟨m, ms, rfl, hcase⟩ := hawaits.gather (h.sameLimit ▸ hpos) hsplits
    (by rw [h.sameCodec, h.sameLimit]; exact hframes.symm)
  have hend := b.deliver_end f
  have hcodec' : (b.deliver f).2.codec = codec := by rw [hend, h.sameCodec]
  have hmax' : (b.deliver f).2.maxBody = maxBody := by rw [hend, h.sameLimit]
  have hfits : ∀ g ∈ fl, g.Fits maxBody := fun g hg => h.fits g (List.mem_cons_of_mem f hg)
  rw [h.sameCodec, h.sameLimit] at hcase
  obtain ⟨-, hnone, haw⟩ | ⟨hlast, hempty, hcut, hcomes⟩ := hcase
  · refine ⟨m :: ms, taken + 1, ⟨hcodec', hmax', h.sendable, hfits, hrest, _, haw⟩, ?_⟩
    rw [hnone]
    exact nofun
  · refine ⟨ms, 0, ⟨hcodec', hmax', fun m' hm' => h.sendable m' (List.mem_cons_of_mem m hm'), hfits,
      ?_, cut, .between ms hempty⟩, fun r hr => ?_⟩
    · rw [hrest, List.flatMap_cons, List.drop_zero]
      exact List.drop_left' hlast.symm
    · by_cases hoff : 0 < taken ∧ cut
      · rw [hcut hoff] at hr
        cases hr
      · obtain ⟨r', hr', hdeliver⟩ := hcomes hoff
        cases hdeliver.symm.trans hr
        exact hr'.mild hcodec

theorem read {f : Frame} {x y : BinaryEnd} {pipe : Bytes}
    (h : Gathers codec maxBody w (f :: fl) y coming taken) (hpos : 0 < maxBody)
    (hcodec : codec.Mild) (hf : Flight x y pipe (f :: fl)) (rest : Bytes) :
    ∃ coming' taken',
      Gathers codec maxBody w fl
        (({ y with buffer := rest, window := y.window.after f } : BinaryEnd).deliver f).2 coming'
        taken' ∧
      ∀ r, (({ y with buffer := rest, window := y.window.after f } : BinaryEnd).deliver f).1 =
        some r → Decoding.Mild (r.map some) := by
  have h' : Gathers codec maxBody w (f :: fl)
      { y with buffer := rest, window := y.window.after f } coming taken := h.same rfl rfl rfl
  cases hf.course with
  | ack type le _ =>
    obtain ⟨hnone, hrest⟩ := h'.read_ack type
    refine ⟨coming, taken, hrest, fun r hr => ?_⟩
    rw [hnone] at hr
    cases hr
  | numbered type seq le _ => exact h'.read_numbered hpos type hcodec

theorem next {x y : BinaryEnd} {pipe : Bytes} (h : Gathers codec maxBody w fl y coming taken)
    (hpos : 0 < maxBody) (hcodec : codec.Mild) (hf : Flight x y pipe fl) (hfollows : Follows x y)
    (hb : y.window.Balanced) :
    ∃ fl', Flight x y.next.2 pipe fl' ∧ y.next.2.window.Balanced ∧ y.Reads y.next.2 ∧
      y.next.1.Mild ∧ ∃ coming' taken', Gathers codec maxBody w fl' y.next.2 coming' taken' :=
  Flight.nextFrom_keeps
    (P := fun fl y => ∃ coming taken, Gathers codec maxBody w fl y coming taken)
    (Q := fun r fl y => r.Mild ∧ ∃ coming taken, Gathers codec maxBody w fl y coming taken)
    (fun ⟨_, _, h⟩ => h.sameLimit ▸ h.fits) (fun h => ⟨nofun, h⟩)
    (fun ⟨_, _, h⟩ hf rest => by
      obtain ⟨coming', taken', h', hmild⟩ := h.read hpos hcodec hf rest
      exact ⟨_, _, rfl, fun _ => ⟨coming', taken', h'⟩,
        fun a ha => ⟨hmild a ha, coming', taken', h'⟩⟩)
    (y.buffer.length + 1) y fl hf hfollows hb ⟨coming, taken, h⟩

end Gathers

/-! ## Links -/

namespace Link

theorem answers_close (log : Log) (rid : Option Nat) (received : Nat) :
    (log.close rid received).answers = log.answers := by
  cases rid <;> rfl

/-- Only messages that can be sent are queued. -/
def Sends (codec : BodyCodec) (maxBody : Nat) (_ : Link) (move : Move) : Prop :=
  ∀ s m, move = .queue s m → m.Sendable codec maxBody

/-- What holds of a link between two ends with the same settings; `fl` are the frames on the way. -/
structure Tame (c : LinkConfig) (codec : BodyCodec) (fl : Side → List Frame) (l : Link) : Prop where
  counted : l.Counted fl
  size : ∀ s, (l.reader s).window.window = max c.ackWindow 1
  gathers : ∀ s, ∃ coming taken,
    Gathers codec c.maxFrameSize (l.writer s) (fl s) (l.reader s.other) coming taken
  mild : ∀ s, ∀ r ∈ (l.log s).answers, r.Mild

variable {c : LinkConfig} {codec : BodyCodec} {fl : Side → List Frame} {l : Link}

theorem Tame.same (h : l.Tame c codec fl) (s : Side) :
    (l.reader s).codec = codec ∧ (l.reader s).maxBody = c.maxFrameSize := by
  obtain ⟨coming, taken, hg⟩ := h.gathers s.other
  have hcodec := hg.sameCodec
  have hlimit := hg.sameLimit
  rw [Side.other_other] at hcodec hlimit
  exact ⟨hcodec, hlimit⟩

theorem Tame.start (c : LinkConfig) (codec : BodyCodec) :
    (ofConfigs (fun _ => c) fun _ => codec).Tame c codec fun _ => [] where
  counted := .start _ _
  size := fun _ => rfl
  gathers := fun _ => ⟨[], 0, rfl, rfl, fun _ hm => absurd hm List.not_mem_nil,
    fun _ hf => absurd hf List.not_mem_nil, rfl, True, .between [] rfl⟩
  mild := fun _ _ hr => absurd hr List.not_mem_nil

theorem Tame.emit (h : l.Tame c codec fl) {s : Side} {w : Writer} {b : BinaryEnd}
    {out : List Frame} (log : Log) (hw : (l.reader s).Writes b out) (hwords : ∀ f ∈ out, f.InWords)
    (hanswers : log.answers = (l.log s).answers)
    (hthere : ∃ coming taken,
      Gathers codec c.maxFrameSize w (fl s ++ out) (l.reader s.other) coming taken) :
    ({ l.emit s (out.flatMap Frame.encode, b) with
        writer := Function.update l.writer s w
        log := Function.update l.log s log } : Link).Tame c codec
      (Function.update fl s (fl s ++ out)) where
  counted := by
    have he := h.counted.emit hw hwords
    exact ⟨he.balanced, he.flight⟩
  size := by
    intro s'
    obtain rfl | rfl := Side.eq_or_eq_other s s'
    · simpa [Link.emit, hw.size] using h.size s'
    · simpa [Link.emit] using h.size s.other
  gathers := by
    intro s'
    obtain rfl | rfl := Side.eq_or_eq_other s s'
    · simpa [Link.emit] using hthere
    · obtain ⟨coming, taken, hback⟩ := h.gathers s.other
      rw [Side.other_other] at hback
      refine ⟨coming, taken, ?_⟩
      simpa [Link.emit] using hback.same hw.codec hw.maxBody hw.reassembler
  mild := by
    intro s'
    obtain rfl | rfl := Side.eq_or_eq_other s s'
    · simpa [hanswers] using h.mild s'
    · simpa using h.mild s.other

theorem Tame.acknowledge (h : l.Tame c codec fl) (s : Side) (ackDue : Bell) :
    ∃ fl', (l.emit s ((l.reader s).withBells (l.reader s).window.credit ackDue).pendingAck).Tame
      c codec fl' := by
  obtain ⟨out, hbytes, hw, hout⟩ := BinaryEnd.Writes.pendingAck (h.counted.balanced s) ackDue
  have hwords : ∀ f ∈ out, f.InWords := by
    intro f hf
    obtain rfl | rfl := hout
    · cases hf
    · rw [List.mem_singleton.mp hf]
      exact Frame.inWords_ackOnly (h.counted.received_lt s)
  obtain ⟨coming, taken, hthere⟩ := h.gathers s
  have he := h.emit (l.log s) hw hwords rfl ⟨coming, taken, hthere.acknowledge hout⟩
  rw [← hbytes, Function.update_eq_self, Function.update_eq_self] at he
  exact ⟨_, he⟩

theorem Tame.write (h : l.Tame c codec fl) (hpos : 0 < c.maxFrameSize) (s : Side)
    (dueFirst : Bool) : ∃ fl', (l.after (.write s dueFirst)).Tame c codec fl' := by
  rw [after]
  cases hs : (l.writer s).step (l.reader s) dueFirst with
  | none => exact ⟨fl, h⟩
  | some r =>
    obtain ⟨bytes, w, b⟩ := r
    obtain ⟨out, rfl, hstep⟩ := Writer.step_cases hs
    obtain ⟨coming, taken, hthere⟩ := h.gathers s
    obtain ⟨hcodec, hmax⟩ := h.same s
    have hbare : ∀ fs, (l.writer s).frames = some fs → ∀ f ∈ fs, f.Bare c.maxFrameSize :=
      fun fs hf f hmem => (hthere.in_hand hpos hf hmem).1
    have hplain : ∀ f fs, (l.writer s).frames = some (f :: fs) → f.Plain :=
      fun f fs hf => (hbare _ hf f List.mem_cons_self).plain
    have hnumbered : ∀ f fs, (l.writer s).frames = some (f :: fs) →
        f.unstamp = f ∧ f.type.consumesCredit = true :=
      fun f fs hf => ⟨(hbare _ hf f List.mem_cons_self).unstamped, (hplain f fs hf).numbered⟩
    -- The next number may be one more than the last that fits into a word.
    have hseq : (l.reader s).window.nextSeq ≤ 2 ^ 32 := by
      have hlast := h.counted.lastSent_le s
      simp only [AckWindow.lastSent, AckWindow.maxSeq] at hlast
      omega
    have hheaders : (l.writer s).HeadersBelow (Frame.maxHeaders + 1) (l.reader s) :=
      fun f fs hf => Nat.lt_succ_of_le ((hthere.in_hand hpos hf List.mem_cons_self).2 _ hseq)
    have hwide : (l.writer s).HeadersBelow (2 ^ 64) (l.reader s) :=
      fun f fs hf => Nat.lt_of_lt_of_le (hheaders f fs hf) (by decide)
    exact ⟨_, h.emit _ (hstep.writes (h.counted.balanced s) hplain)
      (hstep.words (h.counted.received_lt s) hwide hplain) (answers_close _ _ _)
      ⟨coming, taken, hthere.step hstep hcodec hmax (hstep.fits hbare hheaders) hnumbered⟩⟩

theorem Tame.queued (h : l.Tame c codec fl) (s : Side) {m : Message}
    (hm : m.Sendable codec c.maxFrameSize) : (l.after (.queue s m)).Tame c codec fl where
  counted := ⟨h.counted.balanced, h.counted.flight⟩
  size := h.size
  gathers := by
    intro s'
    obtain rfl | rfl := Side.eq_or_eq_other s s'
    · obtain ⟨coming, taken, hg⟩ := h.gathers s'
      refine ⟨coming ++ [m], taken, ?_⟩
      simpa [after] using hg.queue hm
    · simpa [after] using h.gathers s.other
  mild := by
    intro s'
    obtain rfl | rfl := Side.eq_or_eq_other s s'
    · simpa [after] using h.mild s'
    · simpa [after] using h.mild s.other

theorem Tame.deliver (h : l.Tame c codec fl) (s : Side) (n : Nat) :
    (l.after (.deliver s n)).Tame c codec fl where
  counted := h.counted.deliver s n
  size := by
    intro s'
    obtain rfl | rfl := Side.eq_or_eq_other s s'
    · simpa [after, BinaryEnd.feed] using h.size s'
    · simpa [after] using h.size s.other
  gathers := by
    intro s'
    obtain ⟨coming, taken, hg⟩ := h.gathers s'
    refine ⟨coming, taken, ?_⟩
    obtain rfl | rfl := Side.eq_or_eq_other s s'
    · simpa [after] using hg
    · rw [Side.other_other] at hg
      have hfed : Gathers codec c.maxFrameSize (l.writer s.other) (fl s.other)
          ((l.reader s).feed ((l.sent s.other).take n)) coming taken := hg.same rfl rfl rfl
      simpa [after] using hfed
  mild := h.mild

theorem Tame.read (h : l.Tame c codec fl) (hpos : 0 < c.maxFrameSize) (hcodec : codec.Mild)
    (s : Side) : ∃ fl', (l.after (.read s)).Tame c codec fl' := by
  have hf := h.counted.flight s.other
  have hfollows := h.counted.follows h.size s.other
  obtain ⟨coming, taken, hg⟩ := h.gathers s.other
  rw [Side.other_other] at hf hfollows hg
  obtain ⟨fl', hf', hb', hr', hmild, hg'⟩ :=
    hg.next hpos hcodec hf hfollows (h.counted.balanced s)
  refine ⟨_, h.counted.read hr' hb' hf', ?_, ?_, ?_⟩ <;> intro s' <;>
    obtain rfl | rfl := Side.eq_or_eq_other s s'
  · simpa [after] using hr'.size.trans (h.size s')
  · simpa [after] using h.size s.other
  · simpa [after] using h.gathers s'
  · simpa [after] using hg'
  · intro r hr
    simp only [after, Function.update_self, List.mem_append, List.mem_singleton] at hr
    exact hr.elim (h.mild s' r) fun hr => hr ▸ hmild
  · simpa [after] using h.mild s.other

theorem Tame.move (h : l.Tame c codec fl) (hpos : 0 < c.maxFrameSize) (hcodec : codec.Mild)
    (m : Move) (ok : Sends codec c.maxFrameSize l m) : ∃ fl', (l.after m).Tame c codec fl' := by
  cases m with
  | queue s m => exact ⟨fl, h.queued s (ok s m rfl)⟩
  | write s dueFirst => exact h.write hpos s dueFirst
  | acknowledge s => exact h.acknowledge s (l.reader s).window.ackDue
  | answerDue s =>
    rw [after]
    split
    · exact h.acknowledge s (l.reader s).window.ackDue.take.2
    · exact ⟨fl, h⟩
  | deliver s n => exact ⟨fl, h.deliver s n⟩
  | read s => exact h.read hpos hcodec s

theorem tame_of_reachable (hpos : 0 < c.maxFrameSize) (hcodec : codec.Mild)
    (h : Reachable (Sends codec c.maxFrameSize) (ofConfigs (fun _ => c) fun _ => codec) l) :
    ∃ fl, l.Tame c codec fl := by
  induction h with
  | start => exact ⟨_, .start c codec⟩
  | move _ m ok ih =>
    obtain ⟨fl, h⟩ := ih
    exact h.move hpos hcodec m ok

end Link

end PeerLink
