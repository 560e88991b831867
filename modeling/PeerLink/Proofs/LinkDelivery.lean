import PeerLink.Proofs.Assembly
import PeerLink.Proofs.LinkCounters

/-! # What arrives over a link

Each end is told the messages that the other has queued, whole and in order, and nothing else. A
response in several frames is dropped if its stream is closed at the end that reads it, after the
first of these frames has come and before the last.

* `Message.CutOff`: a message is dropped for that reason.
* `Log.told`, `heard`: what an end was told, and what it has to be told.
* `Conveys`: the invariant of one direction of a link. The numbered frames on the way and those
  still to be written are those of the messages that are coming.
-/

namespace PeerLink
set_option autoImplicit false

/-! ## What an end has to be told -/

/-- The frames that messages take. -/
def frameCount (codec : BodyCodec) (maxBody : Nat) (ms : List Message) : Nat :=
  (ms.flatMap (·.frames codec maxBody)).length

/-- The stream of a message was closed when some of its frames had come, but not all. The first has
the number after `start`. Only responses have a stream; a ping takes one frame. -/
def Message.CutOff (codec : BodyCodec) (maxBody : Nat) (closings : List Closing) (start : Nat)
    (m : Message) : Prop :=
  m.frameType.isRequest = false ∧ ∃ c ∈ closings, c.rid = m.rid ∧ start < c.received ∧
    c.received < start + (m.frames codec maxBody).length

instance (codec : BodyCodec) (maxBody : Nat) (closings : List Closing) (start : Nat)
    (m : Message) : Decidable (m.CutOff codec maxBody closings start) :=
  inferInstanceAs (Decidable (_ ∧ ∃ c ∈ closings, _))

theorem Message.cutOff_append {codec : BodyCodec} {maxBody start : Nat} (closings : List Closing)
    (c : Closing) (m : Message) :
    m.CutOff codec maxBody (closings ++ [c]) start ↔
      m.CutOff codec maxBody closings start ∨ m.frameType.isRequest = false ∧ c.rid = m.rid ∧
        start < c.received ∧ c.received < start + (m.frames codec maxBody).length := by
  simp [CutOff, or_and_right, exists_or, and_or_left]

/-- What a reader has of messages that have all come. -/
def heard (codec : BodyCodec) (maxBody : Nat) (closings : List Closing) :
    Nat → List Message → List Message
  | _, [] => []
  | start, m :: ms =>
    (if m.CutOff codec maxBody closings start then [] else [m.read]) ++
      heard codec maxBody closings (start + (m.frames codec maxBody).length) ms

/-- The messages of which all frames have come, when `received` frames have come and the first
message begins after `start` of them. -/
def arrived (codec : BodyCodec) (maxBody received : Nat) : Nat → List Message → List Message
  | _, [] => []
  | start, m :: ms =>
    if received < start + (m.frames codec maxBody).length then []
    else m :: arrived codec maxBody received (start + (m.frames codec maxBody).length) ms

/-- All that an end was told. -/
def Log.told (log : Log) : List Inbound :=
  log.answers.filterMap fun r =>
    match r with
    | .ok o => o
    | .error _ => none

def Log.answer (log : Log) (r : Decoding) : Log := { log with answers := log.answers ++ [r] }

theorem Log.told_answer (log : Log) (o : Option Inbound) :
    (log.answer (.ok o)).told = log.told ++ o.toList := by
  rw [told, answer, List.filterMap_append]
  cases o <;> rfl

/-- An answer that is no error is one more of its kind. -/
theorem Log.sane_answer {log : Log} (h : ∀ r ∈ log.answers, ∃ o, r = .ok o)
    (o : Option Inbound) : ∀ r ∈ (log.answer (.ok o)).answers, ∃ o, r = .ok o := by
  intro r hr
  rcases List.mem_append.mp hr with hr | hr
  · exact h r hr
  · exact ⟨o, List.mem_singleton.mp hr⟩

/-! ## Counting -/

section counting

variable {codec : BodyCodec} {maxBody : Nat} {closings : List Closing}

theorem frameCount_nil : frameCount codec maxBody [] = 0 := rfl

theorem frameCount_cons (m : Message) (ms : List Message) :
    frameCount codec maxBody (m :: ms) =
      (m.frames codec maxBody).length + frameCount codec maxBody ms := by
  rw [frameCount, List.flatMap_cons, List.length_append, frameCount]

theorem frameCount_append (ms ms' : List Message) :
    frameCount codec maxBody (ms ++ ms') =
      frameCount codec maxBody ms + frameCount codec maxBody ms' := by
  rw [frameCount, List.flatMap_append, List.length_append, frameCount, frameCount]

theorem heard_append (ms ms' : List Message) : ∀ start : Nat,
    heard codec maxBody closings start (ms ++ ms') =
      heard codec maxBody closings start ms ++
        heard codec maxBody closings (start + frameCount codec maxBody ms) ms' := by
  induction ms with
  | nil => intro start; rfl
  | cons m ms ih =>
    intro start
    rw [List.cons_append, heard, heard, ih, frameCount_cons, List.append_assoc, Nat.add_assoc]

theorem heard_snoc (ms : List Message) (m : Message) :
    heard codec maxBody closings 0 (ms ++ [m]) =
      heard codec maxBody closings 0 ms ++
        if m.CutOff codec maxBody closings (frameCount codec maxBody ms) then [] else [m.read] := by
  rw [heard_append, Nat.zero_add, heard, heard, List.append_nil]

/-- A stream that is closed after messages have come does not concern them. -/
theorem heard_close {c : Closing} (ms : List Message) : ∀ start : Nat,
    start + frameCount codec maxBody ms ≤ c.received →
      heard codec maxBody (closings ++ [c]) start ms = heard codec maxBody closings start ms := by
  induction ms with
  | nil => intro start _; rfl
  | cons m ms ih =>
    intro start hc
    rw [frameCount_cons] at hc
    have hcut : m.CutOff codec maxBody (closings ++ [c]) start ↔
        m.CutOff codec maxBody closings start := by
      have hlast : ¬ c.received < start + (m.frames codec maxBody).length := by omega
      simp [Message.cutOff_append, hlast]
    rw [heard, heard, ih _ (by omega)]
    simp only [hcut]

/-- Messages that have come, and one of which frames are missing. -/
theorem arrived_append {m : Message} (ms : List Message) (done : List Message) :
    ∀ start received : Nat, start + frameCount codec maxBody done ≤ received →
      received < start + frameCount codec maxBody done + (m.frames codec maxBody).length →
      arrived codec maxBody received start (done ++ m :: ms) = done := by
  induction done with
  | nil =>
    intro start received _ h
    rw [frameCount_nil, Nat.add_zero] at h
    rw [List.nil_append, arrived, if_pos h]
  | cons d done ih =>
    intro start received h1 h2
    rw [frameCount_cons] at h1 h2
    rw [List.cons_append, arrived, if_neg (by omega), ih _ _ (by omega) (by omega)]

theorem arrived_all (done : List Message) : ∀ start received : Nat,
    start + frameCount codec maxBody done ≤ received →
      arrived codec maxBody received start done = done := by
  induction done with
  | nil => intro start received _; rfl
  | cons d done ih =>
    intro start received h
    rw [frameCount_cons] at h
    rw [arrived, if_neg (by omega), ih _ _ (by omega)]

end counting

/-! ## One direction -/

/-- The stream of the message that is coming was closed when some of its frames had come. -/
def CutOffNext (codec : BodyCodec) (maxBody : Nat) (closings : List Closing) (start : Nat)
    (coming : List Message) : Prop :=
  ∃ m ∈ coming.head?, m.CutOff codec maxBody closings start

theorem cutOffNext_cons {codec : BodyCodec} {maxBody start : Nat} {closings : List Closing}
    {m : Message} {ms : List Message} : CutOffNext codec maxBody closings start (m :: ms) ↔
      m.CutOff codec maxBody closings start := by
  rw [CutOffNext, List.head?_cons]
  exact ⟨fun ⟨_, hm, hoff⟩ => Option.some.inj hm ▸ hoff, fun hoff => ⟨m, rfl, hoff⟩⟩

/-- What holds of one direction of a link: `w` writes the messages `queued`, `b` reads them and
keeps `log`, and `fl` is on the way. The messages `done` have come, and so have the first `taken`
frames of those that are `coming`. -/
structure Conveys (codec : BodyCodec) (maxBody : Nat) (w : Writer) (fl : List Frame)
    (queued : List Message) (b : BinaryEnd) (log : Log) (done coming : List Message)
    (taken : Nat) : Prop where
  sameCodec : b.codec = codec
  sameLimit : b.maxBody = maxBody
  split : queued = done ++ coming
  sound : ∀ m ∈ coming, m.Sound codec
  fits : ∀ f ∈ fl, f.Fits maxBody
  frames : (fl.filter (·.type.consumesCredit)).map Frame.unstamp ++
      (w.frames.getD [] ++ w.queue.flatMap (·.frames codec maxBody)) =
    (coming.flatMap (·.frames codec maxBody)).drop taken
  received : b.window.received = frameCount codec maxBody done + taken
  awaits : b.Awaits
    (CutOffNext codec maxBody log.closings (frameCount codec maxBody done) coming) coming taken
  closings : ∀ c ∈ log.closings, c.received ≤ b.window.received
  sane : ∀ r ∈ log.answers, ∃ o, r = .ok o
  told : log.told = (heard codec maxBody log.closings 0 done).map .message

theorem BinaryEnd.Awaits.congr {b b' : BinaryEnd} {cut : Prop} {ms : List Message} {taken : Nat}
    (h : b.Awaits cut ms taken) (hr : b'.reassembler = b.reassembler) (hc : b'.closed = b.closed)
    (hcodec : b'.codec = b.codec) (hmax : b'.maxBody = b.maxBody) : b'.Awaits cut ms taken := by
  cases h with
  | between ms h => exact .between ms (hr.trans h)
  | within h pos lacks frames marked =>
    refine .within (hr.trans h) pos (hcodec ▸ lacks) ?_ (hc ▸ marked)
    rw [hcodec, hmax]
    exact frames

theorem BinaryEnd.Awaits.taken_le {b : BinaryEnd} {cut : Prop} {ms : List Message} {taken : Nat}
    (h : b.Awaits cut ms taken) :
    taken ≤ (ms.flatMap (·.frames b.codec b.maxBody)).length := by
  cases h with
  | between ms h => exact Nat.zero_le _
  | @within m ms a rest taken h pos lacks frames marked =>
    have hlen := congrArg List.length frames
    have hpos := List.length_pos_iff.mpr lacks.more
    rw [List.length_drop, List.length_map] at hlen
    rw [List.flatMap_cons, List.length_append]
    omega

namespace Conveys

variable {codec : BodyCodec} {maxBody : Nat} {w w' : Writer} {fl out : List Frame}
  {queued done coming : List Message} {b b' : BinaryEnd} {log : Log} {taken : Nat}

theorem queue (h : Conveys codec maxBody w fl queued b log done coming taken) {m : Message}
    (hm : m.Sound codec) :
    Conveys codec maxBody (w.push m) fl (queued ++ [m]) b log done (coming ++ [m]) taken where
  sameCodec := h.sameCodec
  sameLimit := h.sameLimit
  split := by rw [h.split, List.append_assoc]
  sound := by
    intro m' hm'
    rcases List.mem_append.mp hm' with hm' | hm'
    · exact h.sound m' hm'
    · exact List.mem_singleton.mp hm' ▸ hm
  fits := h.fits
  frames := by
    have hle := h.awaits.taken_le
    rw [h.sameCodec, h.sameLimit] at hle
    rw [List.flatMap_append, List.drop_append_of_le_length hle, ← h.frames]
    simp [Writer.push, List.append_assoc]
  received := h.received
  awaits := by
    cases hc : coming with
    | nil =>
      have ha := h.awaits
      rw [hc] at ha
      cases ha with
      | between ms he => exact .between _ he
    | cons m' ms =>
      have ha := h.awaits
      rw [hc] at ha
      cases ha with
      | between ms he => exact .between _ he
      | within he pos lacks frames marked => exact .within he pos lacks frames marked
  closings := h.closings
  sane := h.sane
  told := h.told

theorem step {x x' : BinaryEnd} (h : Conveys codec maxBody w fl queued b log done coming taken)
    (hs : w.Step x out w' x') (hcodec : x.codec = codec) (hmax : x.maxBody = maxBody)
    (hout : ∀ f ∈ out, f.Fits maxBody)
    (hplain : ∀ f fs, w.frames = some (f :: fs) → f.unstamp = f ∧ f.type.consumesCredit = true) :
    Conveys codec maxBody w' (fl ++ out) queued b log done coming taken where
  sameCodec := h.sameCodec
  sameLimit := h.sameLimit
  split := h.split
  sound := h.sound
  fits := by
    intro f hf
    rcases List.mem_append.mp hf with hf | hf
    · exact h.fits f hf
    · exact hout f hf
  frames := by
    rw [← h.frames, List.filter_append, List.map_append, List.append_assoc]
    congr 1
    cases hs with
    | begins frames queued => simp [frames, queued, x.begin_fst, hcodec, hmax]
    | ends frames => simp [frames]
    | @sends f fs frames free credit =>
      obtain ⟨hf, ht⟩ := hplain f fs frames
      have ht' : (f.stamped x.window.received (some x.window.nextSeq)).type.consumesCredit =
        true := ht
      have hu : (f.stamped x.window.received (some x.window.nextSeq)).unstamp = f := hf
      simp [frames, ht', hu]
    | retries frames due => simp [frames]
    | answers frames => simp [frames, Frame.ackOnly, FrameType.consumesCredit]
    | waits frames stuck uncalled listens due => simp [frames]
  received := h.received
  awaits := h.awaits
  closings := h.closings
  sane := h.sane
  told := h.told

theorem acknowledge (h : Conveys codec maxBody w fl queued b log done coming taken) {ack : Nat}
    (hout : out = [] ∨ out = [Frame.ackOnly ack]) :
    Conveys codec maxBody w (fl ++ out) queued b log done coming taken where
  sameCodec := h.sameCodec
  sameLimit := h.sameLimit
  split := h.split
  sound := h.sound
  fits := by
    intro f hf
    rcases List.mem_append.mp hf with hf | hf
    · exact h.fits f hf
    · obtain rfl | rfl := hout
      · cases hf
      · rw [List.mem_singleton.mp hf]
        exact ⟨Nat.zero_le _, Nat.zero_le _⟩
  frames := by
    rw [← h.frames]
    obtain rfl | rfl := hout <;> simp [Frame.ackOnly, FrameType.consumesCredit]
  received := h.received
  awaits := h.awaits
  closings := h.closings
  sane := h.sane
  told := h.told

theorem congr (h : Conveys codec maxBody w fl queued b log done coming taken)
    (hcodec : b'.codec = b.codec) (hmax : b'.maxBody = b.maxBody)
    (hr : b'.reassembler = b.reassembler) (hc : b'.closed = b.closed)
    (hreceived : b'.window.received = b.window.received) :
    Conveys codec maxBody w fl queued b' log done coming taken where
  sameCodec := hcodec.trans h.sameCodec
  sameLimit := hmax.trans h.sameLimit
  split := h.split
  sound := h.sound
  fits := h.fits
  frames := h.frames
  received := hreceived.trans h.received
  awaits := h.awaits.congr hr hc hcodec hmax
  closings := by
    rw [hreceived]
    exact h.closings
  sane := h.sane
  told := h.told

theorem close (h : Conveys codec maxBody w fl queued b log done coming taken) (rid : Nat) :
    Conveys codec maxBody w fl queued { b with closed := b.closed ++ [rid] }
      (log.close (some rid) b.window.received) done coming taken where
  sameCodec := h.sameCodec
  sameLimit := h.sameLimit
  split := h.split
  sound := h.sound
  fits := h.fits
  frames := h.frames
  received := h.received
  awaits := by
    have ha := h.awaits
    cases ha with
    | between ms he => exact .between _ he
    | @within m ms a rest taken he pos lacks frames marked =>
      refine .within he pos lacks frames ?_
      have hlen := congrArg List.length frames
      have hmore := List.length_pos_iff.mpr lacks.more
      rw [List.length_drop, List.length_map, h.sameCodec, h.sameLimit] at hlen
      have hreceived := h.received
      have h1 : frameCount codec maxBody done < b.window.received := by omega
      have h2 : b.window.received <
          frameCount codec maxBody done + (m.frames codec maxBody).length := by omega
      have hcut : CutOffNext codec maxBody (log.closings ++ [⟨rid, b.window.received⟩])
          (frameCount codec maxBody done) (m :: ms) ↔
          CutOffNext codec maxBody log.closings (frameCount codec maxBody done) (m :: ms) ∨
            m.frameType.isRequest = false ∧ m.rid = rid := by
        simp [CutOffNext, Message.cutOff_append, h1, h2, @eq_comm Nat rid]
      have hanswers : m.AnswersOn (b.closed ++ [rid]) ↔
          m.AnswersOn b.closed ∨ m.frameType.isRequest = false ∧ m.rid = rid := by
        simp [Message.AnswersOn, and_or_left]
      change CutOffNext codec maxBody (log.closings ++ [⟨rid, b.window.received⟩]) _ _ ↔
        _ ∨ m.AnswersOn (b.closed ++ [rid])
      rw [hcut, marked, hanswers, or_assoc]
  closings := by
    intro c hc
    rcases List.mem_append.mp hc with hc | hc
    · exact h.closings c hc
    · obtain rfl := List.mem_singleton.mp hc
      exact Nat.le_refl b.window.received
  sane := h.sane
  told := by
    have hle : 0 + frameCount codec maxBody done ≤ b.window.received := by
      have := h.received
      omega
    have htold := h.told
    rw [← heard_close (c := ⟨rid, b.window.received⟩) done 0 hle] at htold
    exact htold

theorem writes (h : Conveys codec maxBody w fl queued b log done coming taken)
    (hw : b.Writes b' out) (rid : Option Nat) (hclosed : b'.closed = b.closed ++ rid.toList) :
    Conveys codec maxBody w fl queued b' (log.close rid b.window.received) done coming taken := by
  cases rid with
  | none =>
    rw [Option.toList_none, List.append_nil] at hclosed
    exact h.congr hw.codec hw.maxBody hw.reassembler hclosed hw.received
  | some rid =>
    exact (h.close rid).congr hw.codec hw.maxBody hw.reassembler hclosed hw.received

theorem answer_none (h : Conveys codec maxBody w fl queued b log done coming taken) :
    Conveys codec maxBody w fl queued b (log.answer (.ok none)) done coming taken where
  sameCodec := h.sameCodec
  sameLimit := h.sameLimit
  split := h.split
  sound := h.sound
  fits := h.fits
  frames := h.frames
  received := h.received
  awaits := h.awaits
  closings := h.closings
  sane := Log.sane_answer h.sane none
  told := by
    rw [Log.told_answer, Option.toList_none, List.append_nil]
    exact h.told

theorem read_ack {f : Frame} (h : Conveys codec maxBody w (f :: fl) queued b log done coming taken)
    (ht : f.type = .ack) :
    (b.deliver f).1 = none ∧
      Conveys codec maxBody w fl queued (b.deliver f).2 log done coming taken := by
  have hdeliver : b.deliver f = (none, b.abandonClosed) := by
    simp only [BinaryEnd.deliver, ht]
  rw [hdeliver]
  refine ⟨rfl, h.sameCodec, h.sameLimit, h.split, h.sound, ?_, ?_, h.received,
    h.awaits.abandonClosed,
    h.closings, h.sane, h.told⟩
  · exact fun g hg => h.fits g (List.mem_cons_of_mem f hg)
  · simpa [ht, FrameType.consumesCredit] using h.frames

/-- A numbered frame is read. Either it brings nothing, or a message that is now told. -/
theorem read_numbered {f : Frame} {y : BinaryEnd}
    (h : Conveys codec maxBody w (f :: fl) queued b log done coming taken) (hpos : 0 < maxBody)
    (ht : f.type.consumesCredit = true) (hcodec : y.codec = b.codec)
    (hmax : y.maxBody = b.maxBody) (hr : y.reassembler = b.reassembler)
    (hc : y.closed = b.closed) (hreceived : y.window.received = b.window.received + 1) :
    ∃ done' coming' taken', ((y.deliver f).1 = none ∧
        Conveys codec maxBody w fl queued (y.deliver f).2 log done' coming' taken') ∨
      ∃ m, (y.deliver f).1 = some (.ok (.message m)) ∧
        Conveys codec maxBody w fl queued (y.deliver f).2
          (log.answer (.ok (some (.message m)))) done' coming' taken' := by
  have hcodec' := hcodec.trans h.sameCodec
  have hmax' := hmax.trans h.sameLimit
  have hawaits := h.awaits.congr hr hc hcodec hmax
  have hframes := h.frames
  rw [List.filter_cons_of_pos (by simpa using ht), List.map_cons, List.cons_append] at hframes
  have hrest := congrArg List.tail hframes
  rw [List.tail_cons, List.tail_drop] at hrest
  have hcount := h.received
  have hbound := h.closings
  have hend := y.deliver_end f
  obtain ⟨m, ms, hms, hcase⟩ := hawaits.deliver (hmax' ▸ hpos)
    (fun m hm => hcodec' ▸ (h.sound m hm).portable _)
    (by rw [hcodec', hmax']; exact hframes.symm)
  rw [hcodec', hmax'] at hcase
  subst hms
  -- The stream of a message can have been closed on its way only if one of its frames has come.
  have hearly : CutOffNext codec maxBody log.closings (frameCount codec maxBody done) (m :: ms) →
      0 < taken := by
    rw [cutOffNext_cons]
    rintro ⟨-, c, hc, -, hstart, -⟩
    have := hbound c hc
    omega
  have hcodecD : (y.deliver f).2.codec = codec := by rw [hend, hcodec']
  have hmaxD : (y.deliver f).2.maxBody = maxBody := by rw [hend, hmax']
  have hreceivedD :
      (y.deliver f).2.window.received = frameCount codec maxBody done + taken + 1 := by
    rw [hend, ← hcount, ← hreceived]
  have hboundD : ∀ c ∈ log.closings, c.received ≤ (y.deliver f).2.window.received := by
    intro c hc
    have := hbound c hc
    omega
  have hfits : ∀ g ∈ fl, g.Fits maxBody := fun g hg => h.fits g (List.mem_cons_of_mem f hg)
  obtain ⟨hlen, hnone, haw⟩ | ⟨hlen, hempty, hcut, hwhole⟩ := hcase
  · refine ⟨done, m :: ms, taken + 1, .inl ⟨hnone, hcodecD, hmaxD, h.split, h.sound, hfits,
      hrest, hreceivedD, ?_, hboundD, h.sane, h.told⟩⟩
    rwa [and_iff_right_of_imp hearly] at haw
  · have hsplit : queued = (done ++ [m]) ++ ms := by rw [h.split, List.append_assoc]; rfl
    have hsound : ∀ m' ∈ ms, m'.Sound codec := fun m' hm' => h.sound m' (List.mem_cons_of_mem m hm')
    have hreceived' : (y.deliver f).2.window.received =
        frameCount codec maxBody (done ++ [m]) + 0 := by
      rw [hreceivedD, frameCount_append, frameCount_cons, frameCount_nil]
      omega
    have hframes' : (fl.filter (·.type.consumesCredit)).map Frame.unstamp ++
        (w.frames.getD [] ++ w.queue.flatMap (·.frames codec maxBody)) =
        (ms.flatMap (·.frames codec maxBody)).drop 0 := by
      rw [hrest, List.flatMap_cons, List.drop_zero]
      exact List.drop_left' hlen.symm
    have hheard : heard codec maxBody log.closings 0 (done ++ [m]) = _ := heard_snoc done m
    have haw : (y.deliver f).2.Awaits
        (CutOffNext codec maxBody log.closings (frameCount codec maxBody (done ++ [m])) ms) ms 0 :=
      .between ms hempty
    refine ⟨done ++ [m], ms, 0, ?_⟩
    by_cases hoff : m.CutOff codec maxBody log.closings (frameCount codec maxBody done)
    · have hnext :
          CutOffNext codec maxBody log.closings (frameCount codec maxBody done) (m :: ms) :=
        cutOffNext_cons.mpr hoff
      refine .inl ⟨hcut ⟨hearly hnext, hnext⟩, hcodecD, hmaxD, hsplit, hsound, hfits, hframes',
        hreceived', haw, hboundD, h.sane, ?_⟩
      rw [hheard, if_pos hoff, List.append_nil]
      exact h.told
    · refine .inr ⟨m.read, hwhole fun hnext => hoff (cutOffNext_cons.mp hnext.2), hcodecD, hmaxD,
        hsplit, hsound, hfits, hframes', hreceived', haw, hboundD,
        Log.sane_answer h.sane (some (.message m.read)), ?_⟩
      change (log.answer _).told = (heard codec maxBody log.closings 0 (done ++ [m])).map _
      rw [Log.told_answer, hheard, if_neg hoff, h.told, List.map_append]
      rfl

end Conveys

end PeerLink
