import PeerLink.Proofs.LinkDelivery
import PeerLink.Config

/-! # A link between two honest ends

Ends with the same settings never make an error of what they read, and each is told what the other
has queued.

* `Follows`: what an end has sent, the other may read.
* `Conveys.nextFrom`: reading goes well as long as frames come, and tells of whole messages only.
* `Link.Orderly`: what may be done with a link. Only messages that can travel are queued, and no
  headers are too long.
* `Link.Sane`: the invariant of such a link.
* `Link.delivers_in_order`: what each end is told.
-/

namespace PeerLink
set_option autoImplicit false

/-! ## Frames of messages that can travel -/

/-- A frame that waits for its number, and is not too long. -/
structure Frame.Bare (maxBody : Nat) (f : Frame) : Prop where
  plain : f.Plain
  unstamped : f.unstamp = f
  body : f.body.length ≤ maxBody

theorem Message.Portable.rid_lt {codec : BodyCodec} {maxBody : Nat} {m : Message}
    (h : m.Portable codec maxBody) : m.rid < 2 ^ 32 := by
  cases m with
  | ping => exact Nat.two_pow_pos 32
  | request r => exact h.words.rid r.rid rfl
  | response r => exact h.words.rid r.rid rfl

theorem Message.sound_ping (codec : BodyCodec) : Message.ping.Sound codec :=
  ⟨⟨nofun, nofun, nofun⟩, Nat.two_pow_pos 32, nofun, nofun⟩

theorem Message.sound_close (codec : BodyCodec) {rid : Nat} (h : rid < 2 ^ 32) :
    (Message.request (.close rid)).Sound codec :=
  ⟨⟨fun _ hn => Option.some.inj hn ▸ h, nofun, nofun⟩, Nat.two_pow_pos 32, nofun,
    fun _ hr _ => Message.request.inj hr ▸ rfl⟩

theorem Message.Splits.bodies {codec : BodyCodec} {maxBody : Nat} {m : Message}
    (h : m.Splits codec maxBody) (hmax : 0 < maxBody) :
    ∀ f ∈ m.frames codec maxBody, f.unstamp = f ∧ f.body.length ≤ maxBody ∧
      f.body.length ≤ (m.bodyBytes codec).length := by
  have htemplate : m.template.unstamp = m.template := rfl
  obtain ⟨hle, hf⟩ | ⟨first, later, hsplit, hf⟩ := Message.frames_cases hmax h.length
  · intro f hmem
    rw [hf, List.mem_singleton] at hmem
    rw [hmem]
    exact ⟨rfl, hle, Nat.le_refl _⟩
  · have hlen : ∀ c ∈ first :: later, c.length ≤ (m.bodyBytes codec).length := by
      intro c hc
      rw [← hsplit.whole, ← List.flatten_cons]
      exact (List.sublist_flatten_of_mem hc).length_le
    intro f hmem
    rw [hf, List.mem_cons, List.mem_map] at hmem
    rcases hmem with rfl | ⟨c, hc, rfl⟩
    · exact ⟨rfl, hsplit.bound first List.mem_cons_self, hlen first List.mem_cons_self⟩
    · have hc' := List.mem_cons_of_mem first hc
      exact ⟨rfl, hsplit.bound c hc', hlen c hc'⟩

theorem Message.Splits.bare {codec : BodyCodec} {maxBody : Nat} {m : Message}
    (h : m.Splits codec maxBody) (hrid : m.rid < 2 ^ 32) (hmax : 0 < maxBody) :
    ∀ f ∈ m.frames codec maxBody, f.Bare maxBody := by
  intro f hf
  have hw : m.Writable codec maxBody := ⟨hrid, fun f hf =>
    Nat.lt_of_le_of_lt (h.bodies hmax f hf).2.2 h.length⟩
  obtain ⟨hunstamp, hbody, -⟩ := h.bodies hmax f hf
  exact ⟨hw.plain hf, hunstamp, hbody⟩

theorem Message.Portable.bare {codec : BodyCodec} {maxBody : Nat} {m : Message}
    (h : m.Portable codec maxBody) (hmax : 0 < maxBody) :
    ∀ f ∈ m.frames codec maxBody, f.Bare maxBody := h.splits.bare h.rid_lt hmax

theorem Message.Portable.frames_pos {codec : BodyCodec} {maxBody : Nat} {m : Message}
    (h : m.Portable codec maxBody) (hmax : 0 < maxBody) : 0 < (m.frames codec maxBody).length := by
  obtain ⟨-, hf⟩ | ⟨first, later, -, hf⟩ := Message.frames_cases hmax h.length
  · rw [hf]
    exact Nat.one_pos
  · rw [hf]
    exact Nat.succ_pos _

/-! ## Reading -/

/-- What `x` has sent and acknowledged, `y` allows and has sent. -/
structure Follows (x y : BinaryEnd) : Prop where
  acked : x.window.acked ≤ y.window.lastSent
  limit : x.window.lastSent ≤ y.window.receiveLimit

theorem Follows.reads {x y y' : BinaryEnd} (h : Follows x y) (hr : y.Reads y') : Follows x y' where
  acked := by
    rw [AckWindow.lastSent, hr.nextSeq]
    exact h.acked
  limit := by
    rw [AckWindow.receiveLimit, hr.acked, hr.size]
    exact h.limit

theorem AckWindow.peerAck_after (w : AckWindow) (f : Frame) : (w.after f).peerAck = f.ack := by
  unfold AckWindow.after
  split <;> rfl

theorem AckWindow.received_after_ack {w : AckWindow} {f : Frame} (ht : f.type = .ack) :
    (w.after f).received = w.received := by
  simp [AckWindow.after, ht, FrameType.consumesCredit, heard]

theorem AckWindow.received_after {w : AckWindow} {f : Frame} (ht : f.type.consumesCredit = true)
    (hs : f.headers.seq = some (w.received + 1)) : (w.after f).received = w.received + 1 := by
  simp [AckWindow.after, ht, hs, counted]

/-- The next frame of a flight is always accepted. -/
theorem Flight.accept {x y : BinaryEnd} {pipe : Bytes} {f : Frame} {fl : List Frame}
    (h : Flight x y pipe (f :: fl)) (hfollows : Follows x y) (rest : Bytes) :
    ({ y with buffer := rest } : BinaryEnd).accept f =
      ({ y with buffer := rest, window := y.window.after f } : BinaryEnd).deliver f := by
  obtain ⟨hack, hseq, hcourse⟩ := h.course.after
  obtain ⟨hacked, hsent⟩ := hcourse.le
  rw [AckWindow.peerAck_after] at hacked
  obtain ⟨-, -, -, hacc⟩ | ⟨hbad, -⟩ := BinaryEnd.accept_cases { y with buffer := rest } f
  · exact hacc
  · exfalso
    obtain hlow | hhigh | ⟨ht, hgap | hover⟩ := hbad
    · exact absurd hack (Nat.not_le.mpr hlow)
    · exact absurd (Nat.le_trans hacked hfollows.acked) (Nat.not_le.mpr hhigh)
    · exact hgap (hseq ht)
    · rw [AckWindow.received_after ht (hseq ht)] at hsent
      exact absurd (Nat.le_trans hsent hfollows.limit) (Nat.not_le.mpr hover)

/-- Frames of a flight are read as long as they bring nothing. `P` holds meanwhile, and `Q` of what
is answered and where reading stops. -/
theorem Flight.nextFrom_keeps {x : BinaryEnd} {pipe : Bytes}
    {P : List Frame → BinaryEnd → Prop} {Q : Decoding → List Frame → BinaryEnd → Prop}
    (hfits : ∀ {fl y}, P fl y → ∀ f ∈ fl, f.Fits y.maxBody)
    (hnone : ∀ {fl y}, P fl y → Q (.ok none) fl y)
    (hread : ∀ {f fl y}, P (f :: fl) y → Flight x y pipe (f :: fl) → ∀ rest : Bytes,
      ∃ r y', ({ y with buffer := rest, window := y.window.after f } : BinaryEnd).deliver f =
        (r, y') ∧ (r = none → P fl y') ∧ ∀ a, r = some a → Q (a.map some) fl y') :
    ∀ (fuel : Nat) (y : BinaryEnd) (fl : List Frame), Flight x y pipe fl → Follows x y →
      y.window.Balanced → P fl y →
      ∃ fl', Flight x (y.nextFrom fuel).2 pipe fl' ∧ (y.nextFrom fuel).2.window.Balanced ∧
        y.Reads (y.nextFrom fuel).2 ∧ Q (y.nextFrom fuel).1 fl' (y.nextFrom fuel).2
  | 0, y, fl, hf, _, hb, h => ⟨fl, hf, hb, .refl y, hnone h⟩
  | fuel + 1, y, fl, hf, hfollows, hb, h => by
    have stop : Frame.decode y.maxBody y.buffer = .ok none →
        ∃ fl', Flight x (y.nextFrom (fuel + 1)).2 pipe fl' ∧
          (y.nextFrom (fuel + 1)).2.window.Balanced ∧ y.Reads (y.nextFrom (fuel + 1)).2 ∧
          Q (y.nextFrom (fuel + 1)).1 fl' (y.nextFrom (fuel + 1)).2 := by
      intro hd
      rw [BinaryEnd.nextFrom, hd]
      exact ⟨fl, hf, hb, .refl y, hnone h⟩
    cases fl with
    | nil =>
      apply stop
      rw [(List.append_eq_nil_iff.mp hf.wire).1]
      rfl
    | cons f fl =>
      have hwire := hf.wire
      rw [List.flatMap_cons] at hwire
      obtain ⟨rest, hbuf, hd⟩ | ⟨-, hd⟩ :=
        Frame.decode_of_fits (hf.words f List.mem_cons_self) (hfits h f List.mem_cons_self) hwire
      · obtain ⟨r, y', hdeliver, hmore, hanswer⟩ := hread h hf rest
        have hacc := hf.accept hfollows rest
        obtain ⟨hack, hseq, -⟩ := hf.course.after
        have hf' := (hf.tail hbuf).deliver_reader f
        have hr' := (y.after_reads f rest).trans (BinaryEnd.deliver_reads _ f)
        have hb' : (BinaryEnd.deliver { y with buffer := rest, window := y.window.after f }
            f).2.window.Balanced := by
          rw [BinaryEnd.deliver_end]
          exact hb.after hack hseq
        rw [BinaryEnd.nextFrom, hd]
        simp only [hacc]
        rw [hdeliver] at hf' hr' hb' ⊢
        cases r with
        | none =>
          obtain ⟨fl', hf'', hb'', hr'', hq⟩ := Flight.nextFrom_keeps hfits hnone hread fuel y' fl
            hf' (hfollows.reads hr') hb' (hmore rfl)
          exact ⟨fl', hf'', hb'', hr'.trans hr'', hq⟩
        | some a => exact ⟨fl, hf', hb', hr', hanswer a rfl⟩
      · exact stop hd

/-- A frame is read. Either it brings nothing, or a message that is now told. -/
theorem Conveys.read {codec : BodyCodec} {maxBody : Nat} {w : Writer} {f : Frame} {fl : List Frame}
    {queued done coming : List Message} {x y : BinaryEnd} {log : Log} {taken : Nat} {pipe : Bytes}
    (h : Conveys codec maxBody w (f :: fl) queued y log done coming taken) (hpos : 0 < maxBody)
    (hf : Flight x y pipe (f :: fl)) (rest : Bytes) :
    ∃ done' coming' taken' y',
      ({ y with buffer := rest, window := y.window.after f } : BinaryEnd).deliver f = (none, y') ∧
          Conveys codec maxBody w fl queued y' log done' coming' taken' ∨
        ∃ m, ({ y with buffer := rest, window := y.window.after f } : BinaryEnd).deliver f =
            (some (.ok (.message m)), y') ∧
          Conveys codec maxBody w fl queued y' (log.answer (.ok (some (.message m)))) done' coming'
            taken' := by
  obtain ⟨-, hseq, -⟩ := hf.course.after
  cases hf.course with
  | ack type le _ =>
    have h' : Conveys codec maxBody w (f :: fl) queued
        { y with buffer := rest, window := y.window.after f } log done coming taken :=
      h.congr rfl rfl rfl rfl (AckWindow.received_after_ack type)
    obtain ⟨hnone, hrest⟩ := h'.read_ack type
    exact ⟨done, coming, taken, _, .inl ⟨Prod.ext hnone rfl, hrest⟩⟩
  | numbered type seq le _ =>
    obtain ⟨done', coming', taken', hcase⟩ := h.read_numbered
      (y := { y with buffer := rest, window := y.window.after f }) hpos type rfl rfl rfl rfl
      (AckWindow.received_after type seq)
    generalize BinaryEnd.deliver { y with buffer := rest, window := y.window.after f } f = r
      at hcase ⊢
    refine ⟨done', coming', taken', r.2, ?_⟩
    obtain ⟨hnone, hrest⟩ | ⟨m, hsome, hrest⟩ := hcase
    · exact .inl ⟨Prod.ext hnone rfl, hrest⟩
    · exact .inr ⟨m, Prod.ext hsome rfl, hrest⟩

/-- Reading goes on until a message is whole, or nothing more has come. -/
theorem Conveys.nextFrom {codec : BodyCodec} {maxBody : Nat} {w : Writer} {queued : List Message}
    {x : BinaryEnd} {log : Log} {pipe : Bytes} (hpos : 0 < maxBody) (fuel : Nat) (y : BinaryEnd)
    (fl : List Frame) (done coming : List Message) (taken : Nat) (hf : Flight x y pipe fl)
    (hfollows : Follows x y) (hb : y.window.Balanced)
    (h : Conveys codec maxBody w fl queued y log done coming taken) :
    ∃ o fl' done' coming' taken', (y.nextFrom fuel).1 = .ok o ∧
      Flight x (y.nextFrom fuel).2 pipe fl' ∧ (y.nextFrom fuel).2.window.Balanced ∧
      y.Reads (y.nextFrom fuel).2 ∧
      Conveys codec maxBody w fl' queued (y.nextFrom fuel).2 (log.answer (.ok o)) done' coming'
        taken' := by
  obtain ⟨fl', hf', hb', hr', done', coming', taken', o, ho, h'⟩ := Flight.nextFrom_keeps
    (P := fun fl y => ∃ done coming taken,
      Conveys codec maxBody w fl queued y log done coming taken)
    (Q := fun r fl y => ∃ done coming taken o, r = .ok o ∧
      Conveys codec maxBody w fl queued y (log.answer (.ok o)) done coming taken)
    (fun ⟨_, _, _, h⟩ => h.sameLimit ▸ h.fits)
    (fun ⟨done, coming, taken, h⟩ => ⟨done, coming, taken, none, rfl, h.answer_none⟩)
    (fun ⟨_, _, _, h⟩ hf rest => by
      obtain ⟨done', coming', taken', y', ⟨hdeliver, h'⟩ | ⟨m, hdeliver, h'⟩⟩ := h.read hpos hf rest
      · exact ⟨none, y', hdeliver, fun _ => ⟨done', coming', taken', h'⟩, nofun⟩
      · refine ⟨some (.ok (.message m)), y', hdeliver, nofun, fun a ha => ?_⟩
        cases ha
        exact ⟨done', coming', taken', some (.message m), rfl, h'⟩)
    fuel y fl hf hfollows hb ⟨done, coming, taken, h⟩
  exact ⟨o, fl', done', coming', taken', ho, hf', hb', hr', h'⟩

theorem Conveys.next {codec : BodyCodec} {maxBody : Nat} {w : Writer} {fl : List Frame}
    {queued done coming : List Message} {x y : BinaryEnd} {log : Log} {taken : Nat} {pipe : Bytes}
    (h : Conveys codec maxBody w fl queued y log done coming taken) (hpos : 0 < maxBody)
    (hf : Flight x y pipe fl) (hfollows : Follows x y) (hb : y.window.Balanced) :
    ∃ o fl' done' coming' taken', y.next.1 = .ok o ∧ Flight x y.next.2 pipe fl' ∧
      y.next.2.window.Balanced ∧ y.Reads y.next.2 ∧
      Conveys codec maxBody w fl' queued y.next.2 (log.answer (.ok o)) done' coming' taken' :=
  Conveys.nextFrom hpos _ y fl done coming taken hf hfollows hb h

/-! ## Writing -/

namespace Writer.Step

variable {w w' : Writer} {b b' : BinaryEnd} {out : List Frame}

theorem closed (h : Step w b out w' b') : b'.closed = b.closed ++ w.closing?.toList := by
  cases h with
  | begins frames queued =>
    rw [b.begin_snd, closing?, frames, queued]
  | ends frames => simp [closing?, frames]
  | sends frames => simp [closing?, frames, BinaryEnd.acknowledged, BinaryEnd.numbered]
  | retries frames => simp [closing?, frames, BinaryEnd.withBells]
  | answers frames => simp [closing?, frames, BinaryEnd.withBells, BinaryEnd.acknowledged]
  | waits frames => simp [closing?, frames, BinaryEnd.withBells]

theorem fits (h : Step w b out w' b') {maxBody : Nat}
    (hbare : ∀ fs, w.frames = some fs → ∀ f ∈ fs, f.Bare maxBody)
    (hheaders : w.HeadersBelow (Frame.maxHeaders + 1) b) : ∀ f ∈ out, f.Fits maxBody := by
  cases h with
  | @sends f fs frames free credit =>
    intro g hg
    rw [List.mem_singleton.mp hg]
    exact ⟨Nat.le_of_lt_succ (hheaders f fs frames),
      (hbare _ frames f List.mem_cons_self).body⟩
  | answers frames =>
    intro g hg
    rw [List.mem_singleton.mp hg]
    exact ⟨Nat.zero_le _, Nat.zero_le _⟩
  | begins | ends | retries | waits => exact fun f hf => absurd hf List.not_mem_nil

/-- What a writer has in hand stays short, and what it still has in its queue can travel. -/
theorem bare (h : Step w b out w' b') {maxBody : Nat} (hmax : b.maxBody = maxBody)
    (hpos : 0 < maxBody) (hqueue : ∀ m ∈ w.queue, m.Sound b.codec)
    (hbare : ∀ fs, w.frames = some fs → ∀ f ∈ fs, f.Bare maxBody) :
    (∀ m ∈ w'.queue, m.Sound b.codec) ∧
      ∀ fs, w'.frames = some fs → ∀ f ∈ fs, f.Bare maxBody := by
  cases h with
  | @begins m queue frames queued =>
    rw [queued] at hqueue
    refine ⟨fun m' hm' => hqueue m' (List.mem_cons_of_mem m hm'), fun fs hfs => ?_⟩
    rw [← Option.some.inj hfs, b.begin_fst, hmax]
    exact ((hqueue m List.mem_cons_self).portable _).bare hpos
  | ends frames => exact ⟨hqueue, nofun⟩
  | @sends f fs frames free credit =>
    refine ⟨hqueue, fun fs' hfs f' hf' => ?_⟩
    rw [← Option.some.inj hfs] at hf'
    exact hbare _ frames f' (List.mem_cons_of_mem f hf')
  | retries | answers | waits => exact ⟨hqueue, hbare⟩

end Writer.Step

/-! ## The invariant -/

namespace Link

/-- The headers that a move may write are not too long. -/
def HeadersFit (l : Link) : Move → Prop
  | .write s _ => (l.writer s).HeadersBelow (Frame.maxHeaders + 1) (l.reader s)
  | _ => True

/-- Only messages that can travel are queued, and no headers are too long. -/
structure Orderly (codec : BodyCodec) (l : Link) (move : Move) : Prop where
  sound : ∀ s m, move = .queue s m → m.Sound codec
  headers : l.HeadersFit move

/-- What holds of a link between two ends with the same settings; `fl` are the frames on the way. -/
structure Sane (c : LinkConfig) (codec : BodyCodec) (fl : Side → List Frame) (l : Link) : Prop where
  counted : l.Counted fl
  size : ∀ s, (l.reader s).window.window = max c.ackWindow 1
  queue : ∀ s, ∀ m ∈ (l.writer s).queue, m.Sound codec
  bare : ∀ s fs, (l.writer s).frames = some fs → ∀ f ∈ fs, f.Bare c.maxFrameSize
  conveys : ∀ s, ∃ done coming taken, Conveys codec c.maxFrameSize (l.writer s) (fl s)
    (l.log s).queued (l.reader s.other) (l.log s.other) done coming taken

variable {c : LinkConfig} {codec : BodyCodec} {fl : Side → List Frame} {l : Link}

theorem Sane.codec_eq (h : l.Sane c codec fl) (s : Side) : (l.reader s).codec = codec := by
  obtain ⟨done, coming, taken, hc⟩ := h.conveys s.other
  have := hc.sameCodec
  rwa [Side.other_other] at this

theorem Sane.maxBody_eq (h : l.Sane c codec fl) (s : Side) :
    (l.reader s).maxBody = c.maxFrameSize := by
  obtain ⟨done, coming, taken, hc⟩ := h.conveys s.other
  have := hc.sameLimit
  rwa [Side.other_other] at this

theorem Counted.follows (h : l.Counted fl) {size : Nat}
    (hsize : ∀ s, (l.reader s).window.window = size) (s : Side) :
    Follows (l.reader s) (l.reader s.other) where
  acked := Nat.le_trans (h.balanced s).acked (h.received_le s)
  limit := by
    have hlimit := (h.balanced s).limit
    have hpeer := h.peerAck_le s
    rw [hsize s] at hlimit
    rw [AckWindow.receiveLimit, hsize s.other]
    omega

theorem Sane.follows (h : l.Sane c codec fl) (s : Side) :
    Follows (l.reader s) (l.reader s.other) := h.counted.follows h.size s

theorem Sane.start (c : LinkConfig) (codec : BodyCodec) :
    (ofConfigs (fun _ => c) fun _ => codec).Sane c codec fun _ => [] where
  counted := .start _ _
  size := fun _ => rfl
  queue := fun _ _ hm => absurd hm List.not_mem_nil
  bare := nofun
  conveys := fun _ => ⟨[], [], 0,
    { sameCodec := rfl
      sameLimit := rfl
      split := rfl
      sound := fun _ hm => absurd hm List.not_mem_nil
      fits := fun _ hf => absurd hf List.not_mem_nil
      frames := rfl
      received := rfl
      awaits := .between [] rfl
      closings := fun _ hc => absurd hc List.not_mem_nil
      sane := fun _ hr => absurd hr List.not_mem_nil
      told := rfl }⟩

theorem Sane.emit (h : l.Sane c codec fl) {s : Side} {w : Writer} {b : BinaryEnd}
    {out : List Frame} (log : Log) (hw : (l.reader s).Writes b out) (hwords : ∀ f ∈ out, f.InWords)
    (hqueue : ∀ m ∈ w.queue, m.Sound codec)
    (hbare : ∀ fs, w.frames = some fs → ∀ f ∈ fs, f.Bare c.maxFrameSize)
    (hqueued : log.queued = (l.log s).queued)
    (hthere : ∃ done coming taken, Conveys codec c.maxFrameSize w (fl s ++ out)
      (l.log s).queued (l.reader s.other) (l.log s.other) done coming taken)
    (hback : ∃ done coming taken, Conveys codec c.maxFrameSize (l.writer s.other) (fl s.other)
      (l.log s.other).queued b log done coming taken) :
    ({ l.emit s (out.flatMap Frame.encode, b) with
        writer := Function.update l.writer s w
        log := Function.update l.log s log } : Link).Sane c codec
      (Function.update fl s (fl s ++ out)) where
  counted := by
    have he := h.counted.emit hw hwords
    exact ⟨he.balanced, he.flight⟩
  size := by
    intro s'
    obtain rfl | rfl := Side.eq_or_eq_other s s'
    · simpa [Link.emit, hw.size] using h.size s'
    · simpa [Link.emit] using h.size s.other
  queue := by
    intro s'
    obtain rfl | rfl := Side.eq_or_eq_other s s'
    · simpa using hqueue
    · simpa using h.queue s.other
  bare := by
    intro s'
    obtain rfl | rfl := Side.eq_or_eq_other s s'
    · simpa using hbare
    · simpa using h.bare s.other
  conveys := by
    intro s'
    obtain rfl | rfl := Side.eq_or_eq_other s s'
    · simpa [Link.emit, hqueued] using hthere
    · simpa [Link.emit] using hback

theorem Sane.acknowledge (h : l.Sane c codec fl) (s : Side) (ackDue : Bell) :
    ∃ fl', (l.emit s ((l.reader s).withBells (l.reader s).window.credit ackDue).pendingAck).Sane
      c codec fl' := by
  obtain ⟨out, hbytes, hw, hout⟩ := BinaryEnd.Writes.pendingAck (h.counted.balanced s) ackDue
  have hwords : ∀ f ∈ out, f.InWords := by
    intro f hf
    obtain rfl | rfl := hout
    · cases hf
    · rw [List.mem_singleton.mp hf]
      exact Frame.inWords_ackOnly (h.counted.received_lt s)
  obtain ⟨done, coming, taken, hthere⟩ := h.conveys s
  obtain ⟨done', coming', taken', hback⟩ := h.conveys s.other
  rw [Side.other_other] at hback
  have hclosed : ((l.reader s).withBells (l.reader s).window.credit ackDue).pendingAck.2.closed =
      (l.reader s).closed ++ (none : Option Nat).toList := by
    rw [Option.toList_none, List.append_nil, BinaryEnd.pendingAck]
    split <;> rfl
  have he := h.emit (l.log s) hw hwords (h.queue s) (h.bare s) rfl
    ⟨done, coming, taken, hthere.acknowledge hout⟩
    ⟨done', coming', taken', hback.writes hw none hclosed⟩
  rw [← hbytes, Function.update_eq_self, Function.update_eq_self] at he
  exact ⟨_, he⟩

theorem queued_close (log : Log) (rid : Option Nat) (received : Nat) :
    (log.close rid received).queued = log.queued := by
  cases rid <;> rfl

theorem Sane.write (h : l.Sane c codec fl) (hpos : 0 < c.maxFrameSize) (s : Side) (dueFirst : Bool)
    (ok : (l.writer s).HeadersBelow (Frame.maxHeaders + 1) (l.reader s)) :
    ∃ fl', (l.after (.write s dueFirst)).Sane c codec fl' := by
  rw [after]
  cases hs : (l.writer s).step (l.reader s) dueFirst with
  | none => exact ⟨fl, h⟩
  | some r =>
    obtain ⟨bytes, w, b⟩ := r
    obtain ⟨out, rfl, hstep⟩ := Writer.step_cases hs
    have hplain : ∀ f fs, (l.writer s).frames = some (f :: fs) → f.Plain :=
      fun f fs hf => (h.bare s _ hf f List.mem_cons_self).plain
    have hnumbered : ∀ f fs, (l.writer s).frames = some (f :: fs) →
        f.unstamp = f ∧ f.type.consumesCredit = true :=
      fun f fs hf => ⟨(h.bare s _ hf f List.mem_cons_self).unstamped, (hplain f fs hf).numbered⟩
    have hheaders : (l.writer s).HeadersBelow (2 ^ 64) (l.reader s) :=
      fun f fs hf => Nat.lt_of_lt_of_le (ok f fs hf) (by decide)
    have hqueue := h.queue s
    rw [← h.codec_eq s] at hqueue
    obtain ⟨hqueue', hbare'⟩ := hstep.bare (h.maxBody_eq s) hpos hqueue (h.bare s)
    rw [h.codec_eq s] at hqueue'
    have hw := hstep.writes (h.counted.balanced s) hplain
    obtain ⟨done, coming, taken, hthere⟩ := h.conveys s
    obtain ⟨done', coming', taken', hback⟩ := h.conveys s.other
    rw [Side.other_other] at hback
    exact ⟨_, h.emit _ hw (hstep.words (h.counted.received_lt s) hheaders hplain) hqueue' hbare'
      (queued_close _ _ _)
      ⟨done, coming, taken, hthere.step hstep (h.codec_eq s) (h.maxBody_eq s)
        (hstep.fits (h.bare s) ok) hnumbered⟩
      ⟨done', coming', taken', hback.writes hw _ hstep.closed⟩⟩

theorem Sane.queued (h : l.Sane c codec fl) (s : Side) {m : Message} (hm : m.Sound codec) :
    (l.after (.queue s m)).Sane c codec fl where
  counted := ⟨h.counted.balanced, h.counted.flight⟩
  size := h.size
  queue := by
    intro s'
    obtain rfl | rfl := Side.eq_or_eq_other s s'
    · intro m' hm'
      simp only [after, Function.update_self, Writer.push, List.mem_append,
        List.mem_singleton] at hm'
      exact hm'.elim (h.queue s' m') fun he => he ▸ hm
    · simpa [after] using h.queue s.other
  bare := by
    intro s'
    obtain rfl | rfl := Side.eq_or_eq_other s s'
    · simpa [after, Writer.push] using h.bare s'
    · simpa [after] using h.bare s.other
  conveys := by
    intro s'
    obtain rfl | rfl := Side.eq_or_eq_other s s'
    · obtain ⟨done, coming, taken, hc⟩ := h.conveys s'
      have hq := hc.queue hm
      refine ⟨done, coming ++ [m], taken, ?_⟩
      simpa [after] using hq
    · obtain ⟨done, coming, taken, hc⟩ := h.conveys s.other
      rw [Side.other_other] at hc
      refine ⟨done, coming, taken, ?_⟩
      simp only [after, Side.other_other, Function.update_self,
        Function.update_of_ne (Side.other_ne s)]
      exact ⟨hc.sameCodec, hc.sameLimit, hc.split, hc.sound, hc.fits, hc.frames, hc.received,
        hc.awaits, hc.closings, hc.sane, hc.told⟩

theorem Sane.deliver (h : l.Sane c codec fl) (s : Side) (n : Nat) :
    (l.after (.deliver s n)).Sane c codec fl where
  counted := h.counted.deliver s n
  size := by
    intro s'
    obtain rfl | rfl := Side.eq_or_eq_other s s'
    · simpa [after, BinaryEnd.feed] using h.size s'
    · simpa [after] using h.size s.other
  queue := h.queue
  bare := h.bare
  conveys := by
    intro s'
    obtain ⟨done, coming, taken, hc⟩ := h.conveys s'
    refine ⟨done, coming, taken, ?_⟩
    obtain rfl | rfl := Side.eq_or_eq_other s s'
    · simpa [after] using hc
    · rw [Side.other_other] at hc
      have hfed : Conveys codec c.maxFrameSize (l.writer s.other) (fl s.other)
          (l.log s.other).queued ((l.reader s).feed ((l.sent s.other).take n)) (l.log s) done coming
          taken := hc.congr rfl rfl rfl rfl rfl
      simpa [after] using hfed

theorem Sane.read (h : l.Sane c codec fl) (hpos : 0 < c.maxFrameSize) (s : Side) :
    ∃ fl', (l.after (.read s)).Sane c codec fl' := by
  have hf := h.counted.flight s.other
  have hfollows := h.follows s.other
  obtain ⟨done, coming, taken, hc⟩ := h.conveys s.other
  rw [Side.other_other] at hf hfollows hc
  obtain ⟨o, fl', done', coming', taken', ho, hf', hb', hr', hc'⟩ :=
    hc.next hpos hf hfollows (h.counted.balanced s)
  refine ⟨_, h.counted.read hr' hb' hf', ?_, h.queue, h.bare, ?_⟩ <;> intro s' <;>
    obtain rfl | rfl := Side.eq_or_eq_other s s'
  · simpa [after] using hr'.size.trans (h.size s')
  · simpa [after] using h.size s.other
  · obtain ⟨done, coming, taken, hc⟩ := h.conveys s'
    refine ⟨done, coming, taken, ?_⟩
    simpa [after] using hc
  · refine ⟨done', coming', taken', ?_⟩
    simp only [after, Side.other_other, Function.update_self,
      Function.update_of_ne (Side.other_ne s), ho]
    exact ⟨hc'.sameCodec, hc'.sameLimit, hc'.split, hc'.sound, hc'.fits, hc'.frames, hc'.received,
      hc'.awaits, hc'.closings, hc'.sane, hc'.told⟩

theorem Sane.move (h : l.Sane c codec fl) (hpos : 0 < c.maxFrameSize) (m : Move)
    (ok : Orderly codec l m) : ∃ fl', (l.after m).Sane c codec fl' := by
  cases m with
  | queue s m => exact ⟨fl, h.queued s (ok.sound s m rfl)⟩
  | write s dueFirst => exact h.write hpos s dueFirst ok.headers
  | acknowledge s => exact h.acknowledge s (l.reader s).window.ackDue
  | answerDue s =>
    rw [after]
    split
    · exact h.acknowledge s (l.reader s).window.ackDue.take.2
    · exact ⟨fl, h⟩
  | deliver s n => exact ⟨fl, h.deliver s n⟩
  | read s => exact h.read hpos s

theorem sane_of_reachable (hpos : 0 < c.maxFrameSize)
    (h : Reachable (Orderly codec) (ofConfigs (fun _ => c) fun _ => codec) l) :
    ∃ fl, l.Sane c codec fl := by
  induction h with
  | start => exact ⟨_, .start c codec⟩
  | move _ m ok ih =>
    obtain ⟨fl, h⟩ := ih
    exact h.move hpos m ok

/-! ## What is told -/

/-- The messages for an end of which all frames have come. -/
def come (l : Link) (s : Side) : List Message :=
  arrived (l.reader s).codec (l.reader s).maxBody (l.reader s).window.received 0
    (l.log s.other).queued

/-- What an end has to be told of those messages. -/
def tale (l : Link) (s : Side) : List Message :=
  heard (l.reader s).codec (l.reader s).maxBody (l.log s).closings 0 (l.come s)

/-- All that was written for an end has been read, and its peer has nothing left to write. -/
structure Done (l : Link) (s : Side) : Prop where
  delivered : l.sent s.other = []
  decoded : (l.reader s).buffer = []
  written : (l.writer s.other).frames = none
  queue : (l.writer s.other).queue = []

end Link

namespace Conveys

variable {codec : BodyCodec} {maxBody : Nat} {w : Writer} {fl : List Frame}
  {queued done coming : List Message} {b : BinaryEnd} {log : Log} {taken : Nat}

/-- The messages that have come are those of which all frames have been counted. -/
theorem arrived_eq (h : Conveys codec maxBody w fl queued b log done coming taken)
    (hpos : 0 < maxBody) :
    arrived codec maxBody b.window.received 0 queued = done := by
  have hreceived := h.received
  cases hc : coming with
  | nil =>
    rw [h.split, hc, List.append_nil, arrived_all done 0 _ (by omega)]
  | cons m ms =>
    have hm := ((h.sound m (hc ▸ List.mem_cons_self)).portable maxBody).frames_pos hpos
    have hlast : taken < (m.frames codec maxBody).length := by
      have ha := h.awaits
      rw [hc] at ha
      cases ha with
      | between ms he => exact hm
      | @within m ms a rest taken he pos lacks frames marked =>
        have hlen := congrArg List.length frames
        have hmore := List.length_pos_iff.mpr lacks.more
        rw [List.length_drop, List.length_map, h.sameCodec, h.sameLimit] at hlen
        omega
    rw [h.split, hc, arrived_append ms done 0 _ (by omega) (by omega)]

/-- Once all has been written and read, all has come. -/
theorem arrived_queued (h : Conveys codec maxBody w [] queued b log done coming taken)
    (hframes : w.frames = none) (hqueue : w.queue = []) :
    arrived codec maxBody b.window.received 0 queued = queued := by
  have hnone := congrArg List.length h.frames
  rw [hframes, hqueue, List.length_drop] at hnone
  have hle : frameCount codec maxBody coming ≤ taken := Nat.le_of_sub_eq_zero hnone.symm
  have hreceived := h.received
  have hcount : frameCount codec maxBody (done ++ coming) = _ := frameCount_append done coming
  rw [← h.split] at hcount
  exact arrived_all queued 0 _ (by omega)

end Conveys

namespace Link

theorem pos_of_check {c : LinkConfig} (h : c.check = .ok ()) : 0 < c.maxFrameSize := by
  unfold LinkConfig.check at h
  split at h
  · cases h
  · omega

/-- Two ends with the same settings, whatever happens between them: nothing that an end reads is an
error, and it is told the messages of the other that have come whole, in order, once each. Only a
response in several frames is left out if its stream was closed here between the first of them and
the last. In the end all has come. -/
theorem delivers_in_order (c : LinkConfig) (codec : BodyCodec) (hc : c.check = .ok ()) {l : Link}
    (h : Reachable (Orderly codec) (ofConfigs (fun _ => c) fun _ => codec) l) (s : Side) :
    (∀ r ∈ (l.log s).answers, ∃ o, r = .ok o) ∧
      (l.log s).told = (l.tale s).map .message ∧
      l.come s <+: (l.log s.other).queued ∧
      (l.Done s → l.come s = (l.log s.other).queued) := by
  have hpos := pos_of_check hc
  obtain ⟨fl, hsane⟩ := sane_of_reachable hpos h
  obtain ⟨done, coming, taken, hconveys⟩ := hsane.conveys s.other
  have hflight := hsane.counted.flight s.other
  rw [Side.other_other] at hconveys hflight
  have hcome : l.come s = done := by
    rw [come, hsane.codec_eq, hsane.maxBody_eq, hconveys.arrived_eq hpos]
  refine ⟨hconveys.sane, ?_, ⟨coming, ?_⟩, fun hdone => ?_⟩
  · rw [tale, hcome, hsane.codec_eq, hsane.maxBody_eq]
    exact hconveys.told
  · rw [hcome]
    exact hconveys.split.symm
  · rw [hdone.delivered] at hflight
    rw [hflight.nil_of_empty hdone.decoded] at hconveys
    rw [come, hsane.codec_eq, hsane.maxBody_eq]
    exact hconveys.arrived_queued hdone.written hdone.queue

/-! ## A stream that is closed between two frames -/

theorem Allows.orderly {codec : BodyCodec} : ∀ {l : Link} {ms : List Move},
    Allows HeadersFit l ms → (∀ s m, .queue s m ∈ ms → m.Sound codec) →
      Allows (Orderly codec) l ms
  | _, [], _, _ => trivial
  | l, move :: ms, h, hs => by
    refine ⟨⟨fun s m hm => hs s m ?_, h.1⟩, h.2.orderly fun s m hm => hs s m ?_⟩
    · rw [hm]
      exact List.mem_cons_self
    · exact List.mem_cons_of_mem move hm

instance (bound : Nat) (w : Writer) (b : BinaryEnd) : Decidable (w.HeadersBelow bound b) :=
  match h : w.frames with
  | none => isTrue fun _ _ hf => by simp [h] at hf
  | some [] => isTrue fun _ _ hf => by simp [h] at hf
  | some (f :: fs) =>
    decidable_of_iff
      (({ f.headers with seq := some b.window.nextSeq } : Headers).encode.length < bound) <| by
      simp [Writer.HeadersBelow, h]

instance (l : Link) : ∀ move : Move, Decidable (l.HeadersFit move)
  | .write s _ =>
    inferInstanceAs (Decidable ((l.writer s).HeadersBelow (Frame.maxHeaders + 1) (l.reader s)))
  | .queue .. | .acknowledge _ | .answerDue _ | .deliver .. | .read _ => isTrue trivial

def raceConfig : LinkConfig := { protocol := .v2, maxFrameSize := 16 }

/-- The body of this response takes two frames of 16 bytes. -/
def twoFrames : Message := .response { rid := 4, updates := [.str "0123456789abcdef"] }

/-- The first of these frames comes to an end that then closes the stream. The second comes after
that, and a ping behind it. -/
def race : List Move :=
  [.queue .b twoFrames, .queue .b .ping, .write .b false, .write .b false, .deliver .a 30, .read .a,
    .queue .a (.request (.close 4)), .write .a false, .write .b false, .write .b false,
    .write .b false, .write .b false, .write .b false, .deliver .a 100, .read .a]

def raced : Link := race.foldl after (ofConfigs (fun _ => raceConfig) fun _ => .json)

def isTwoFramesBody : Except FrameError Json.Value → Bool
  | .ok (.obj [(k, .arr [.str v])]) => k == "updates" && v == "0123456789abcdef"
  | _ => false

theorem twoFrames_body : (Envelope.ofMessage twoFrames).body.toJson.sorted =
    .obj [("updates", .arr [.str "0123456789abcdef"])] := rfl

theorem twoFrames_sound : twoFrames.Sound .json where
  words := ⟨fun n hn => Option.some.inj hn ▸ by decide, nofun, nofun⟩
  length := by decide +kernel
  codec := by
    intro _
    rw [twoFrames_body]
    have hread : isTwoFramesBody (BodyCodec.json.decode (BodyCodec.json.encode
        (.obj [("updates", .arr [.str "0123456789abcdef"])]))) = true := by decide +kernel
    refine ⟨by decide +kernel, ?_⟩
    unfold isTwoFramesBody at hread
    split at hread
    · rename_i k v hv
      simp only [Bool.and_eq_true, beq_iff_eq] at hread
      rw [hv, hread.1, hread.2]
    · cases hread
  close := nofun

theorem reachable_raced :
    Reachable (Orderly .json) (ofConfigs (fun _ => raceConfig) fun _ => .json) raced := by
  have hheaders : Allows HeadersFit (ofConfigs (fun _ => raceConfig) fun _ => .json) race := by
    decide +kernel
  refine Reachable.start.foldl race (hheaders.orderly fun s m hm => ?_)
  simp only [race, List.mem_cons, Move.queue.injEq, reduceCtorEq, false_or, or_false,
    List.not_mem_nil] at hm
  obtain ⟨-, rfl⟩ | ⟨-, rfl⟩ | ⟨-, rfl⟩ := hm
  · exact twoFrames_sound
  · exact Message.sound_ping _
  · exact Message.sound_close _ (by decide)

/-- A response and a ping have been queued, and only the ping is told. -/
def isLost : List Inbound → List Message → Bool
  | [.message .ping], [.response _, .ping] => true
  | _, _ => false

/-- The response has come whole, but only the ping is told. -/
theorem raced_loses_response : raceConfig.check = .ok () ∧
    Reachable (Orderly .json) (ofConfigs (fun _ => raceConfig) fun _ => .json) raced ∧
    ∀ n, (raced.log .a).told ≠ ((raced.log .b).queued.take n).map fun m => .message m.read := by
  refine ⟨rfl, reachable_raced, fun n htold => ?_⟩
  have hrun : isLost (raced.log .a).told (raced.log .b).queued = true := by decide +kernel
  rw [htold] at hrun
  generalize (raced.log .b).queued = queued at hrun
  unfold isLost at hrun
  split at hrun
  · rename_i r hping
    cases n with
    | zero => cases hping
    | succ n => cases hping
  · cases hrun

theorem raced_delivers_in_order : raceConfig.check = .ok () ∧
    (∀ r ∈ (raced.log .a).answers, ∃ o, r = .ok o) ∧
      (raced.log .a).told = (raced.tale .a).map .message :=
  have h := delivers_in_order raceConfig .json rfl reachable_raced .a
  ⟨rfl, h.1, h.2.1⟩

end Link

end PeerLink
