import PeerLink.Proofs.LinkCredit

/-! # Links that stall

If the window of an end is less than half that of the other, the other does not find an
acknowledgement due before the first has used up its credit.

* `Link.Stalled`: a writer waits and nothing will call it.
* `Link.Stalled.lasts`: as long as nobody queues a message or acknowledges unasked, it stays so.
* `Link.reaches_stall`: pings alone lead there.
* `Link.never_stalls`: the exact condition on the windows.
-/

namespace PeerLink
set_option autoImplicit false

namespace Link

/-- Moves that a link makes by itself: no message is queued, and no acknowledgement goes out
unasked. -/
def Move.Prompted : Move → Prop
  | .queue _ _ | .acknowledge _ => False
  | _ => True

/-- The writer of one side waits, the other has nothing to write, and nothing is under way. -/
structure Stalled (l : Link) (s : Side) : Prop where
  delivered : ∀ s, l.sent s = []
  decoded : ∀ s, (l.reader s).buffer = []
  answered : ∀ s, ¬ (l.reader s).window.ackDue.Rung
  waiting : (l.writer s).waiting = true
  frames : ∃ f fs, (l.writer s).frames = some (f :: fs)
  uncalled : (l.reader s).window.credit.listener ≠ .called
  other : l.writer s.other = {}

theorem Stalled.quiet {l : Link} {s : Side} (h : l.Stalled s) : l.Quiet where
  delivered := h.delivered
  decoded := h.decoded
  answered := h.answered
  called := by
    intro s' hw
    obtain rfl | rfl := Side.eq_or_eq_other s s'
    · exact h.uncalled
    · rw [h.other] at hw
      cases hw

/-- A link with the same ends and pipes. -/
structure Same (l l' : Link) : Prop where
  writer : l'.writer = l.writer
  reader : l'.reader = l.reader
  sent : l'.sent = l.sent

theorem Stalled.same {l l' : Link} {s : Side} (h : l.Stalled s) (he : l.Same l') :
    l'.Stalled s := by
  obtain ⟨hw, hr, hs⟩ := he
  constructor
  · rw [hs]
    exact h.delivered
  · rw [hr]
    exact h.decoded
  · rw [hr]
    exact h.answered
  · rw [hw]
    exact h.waiting
  · rw [hw]
    exact h.frames
  · rw [hr]
    exact h.uncalled
  · rw [hw]
    exact h.other

theorem Stalled.move {l : Link} {s : Side} (h : l.Stalled s) {m : Move} (hm : m.Prompted) :
    l.Same (l.after m) := by
  cases m with
  | queue s m => exact hm.elim
  | acknowledge s => exact hm.elim
  | write s' dueFirst =>
    have hstep : (l.writer s').step (l.reader s') dueFirst = none := by
      obtain rfl | rfl := Side.eq_or_eq_other s s'
      · obtain ⟨f, fs, hf⟩ := h.frames
        have hdue : (l.reader s').window.ackDue.listener ≠ .called :=
          fun hc => h.answered s' (.inr hc)
        simp [Writer.step, hf, h.waiting, Writer.isCalled, Bell.isCalled, h.uncalled, hdue]
      · rw [h.other]
        rfl
    rw [after, hstep]
    exact ⟨rfl, rfl, rfl⟩
  | answerDue s' =>
    have hkept : (l.reader s').window.ackDue.take.1 = false :=
      Bool.eq_false_iff.mpr fun hk => h.answered s' (.inl hk)
    rw [after, hkept]
    exact ⟨rfl, rfl, rfl⟩
  | deliver s' n =>
    have hfeed : (l.reader s').feed ((l.sent s'.other).take n) = l.reader s' := by
      rw [h.delivered, List.take_nil, BinaryEnd.feed, List.append_nil]
    have hdrop : (l.sent s'.other).drop n = l.sent s'.other := by
      rw [h.delivered, List.drop_nil]
    rw [after, hfeed, hdrop, Function.update_eq_self, Function.update_eq_self]
    exact ⟨rfl, rfl, rfl⟩
  | read s' =>
    have hnext : (l.reader s').next = (.ok none, l.reader s') := by
      rw [BinaryEnd.next, BinaryEnd.nextFrom, h.decoded]
      rfl
    rw [after, hnext, Function.update_eq_self]
    exact ⟨rfl, rfl, rfl⟩

theorem Stalled.lasts {s : Side} : ∀ {ms : List Move} {l : Link}, l.Stalled s →
    (∀ m ∈ ms, m.Prompted) → (ms.foldl after l).Stalled s
  | [], _, h, _ => h
  | m :: ms, l, h, hms => by
    have hm := h.move (hms m List.mem_cons_self)
    exact (h.same hm).lasts fun m' hm' => hms m' (List.mem_cons_of_mem m hm')

end Link

/-- A number of fewer than `7 * k` bits takes at most `k` bytes. -/
theorem Varint.length_encode_le : ∀ (k n : Nat), n < 128 ^ k → 0 < k → (encode n).length ≤ k
  | 0, _, _, h => absurd h (by omega)
  | k + 1, n, hn, _ => by
    by_cases h : n < 128
    · rw [encode_of_lt h, List.length_singleton]
      omega
    · have hk : 0 < k := by
        cases k with
        | zero => simp at hn; omega
        | succ k => omega
      have hq : n / 128 < 128 ^ k := by
        rw [Nat.div_lt_iff_lt_mul (by decide)]
        rwa [Nat.pow_succ] at hn
      have ih := length_encode_le k (n / 128) hq hk
      rw [encode_of_le (by omega), List.length_cons]
      omega

namespace Link

/-! ## A ping -/

/-- The frame of a ping. -/
def pingFrame : Frame := { type := .ping, rid := 0 }

theorem after_write {l : Link} {s : Side} {dueFirst : Bool} {bytes : Bytes} {w : Writer}
    {b : BinaryEnd} (h : (l.writer s).step (l.reader s) dueFirst = some (bytes, w, b)) :
    ∃ log, l.after (.write s dueFirst) =
      { writer := Function.update l.writer s w
        reader := Function.update l.reader s b
        sent := Function.update l.sent s (l.sent s ++ bytes)
        log } := by
  rw [after, h]
  exact ⟨_, rfl⟩

theorem length_pingHeaders {n : Nat} (h : n ≤ 2 ^ 32) :
    ({ pingFrame.headers with seq := some n } : Headers).encode.length ≤ 7 := by
  have h5 := Varint.length_encode_le 5 n (Nat.lt_of_le_of_lt h (by decide)) (by decide)
  have h1 : (Varint.encode (Varint.encode n).length).length ≤ 1 :=
    Varint.length_encode_le 1 _ (by omega) Nat.one_pos
  simp only [pingFrame, Headers.encode, Headers.optionalField, Headers.field, List.nil_append,
    List.append_nil, List.length_append, List.length_cons, Bool.false_eq_true, if_false]
  omega

theorem reach_ping {start l : Link} {s : Side} (h : Reachable Unbroken start l)
    (hw : l.writer s = {}) :
    ∃ log, Reachable Unbroken start
      { l with writer := Function.update l.writer s { frames := some [pingFrame] }, log } := by
  have h1 := h.move (.queue s .ping) ⟨Nat.two_pow_pos 32, by
    intro f hf
    rw [List.mem_singleton.mp hf]
    exact Nat.two_pow_pos 32⟩
  have hstep : ((l.after (.queue s .ping)).writer s).step ((l.after (.queue s .ping)).reader s)
      false = some ([], { frames := some [pingFrame] }, l.reader s) := by
    simp only [after, Function.update_self, hw, Writer.push, List.nil_append]
    rfl
  obtain ⟨log, h2⟩ := after_write hstep
  have h3 := h1.move (.write s false) (by
    intro f fs hf
    simp [after, hw, Writer.push] at hf)
  rw [h2] at h3
  refine ⟨log, ?_⟩
  simpa [after] using h3

theorem reach_sent {start l : Link} {s : Side} (h : Reachable Unbroken start l)
    (hw : l.writer s = {}) (hc : (l.reader s).window.nextSeq ≤ (l.reader s).window.sendLimit) :
    ∃ log, Reachable Unbroken start
      { l with
        reader := Function.update l.reader s (l.reader s).numbered.acknowledged
        sent := Function.update l.sent s (l.sent s ++
          (pingFrame.stamped (l.reader s).window.received
            (some (l.reader s).window.nextSeq)).encode)
        log } := by
  obtain ⟨log1, h1⟩ := reach_ping h hw
  have hseq : (l.reader s).window.nextSeq < 2 ^ 32 := by
    have := Nat.le_trans hc (Nat.min_le_right _ _)
    simp only [AckWindow.maxSeq] at this
    omega
  have hstep : Writer.step { frames := some [pingFrame] } (l.reader s) = some
      ((pingFrame.stamped (l.reader s).window.received
        (some (l.reader s).window.nextSeq)).encode,
        { frames := some [] }, (l.reader s).numbered.acknowledged) := by
    have hlt : ¬ (l.reader s).window.sendLimit < (l.reader s).window.nextSeq := Nat.not_lt.mpr hc
    simp only [Writer.step, AckWindow.next, hlt, if_false, Bool.false_eq_true]
    rfl
  have h2 := h1.move (.write s false) (by
    intro f fs hf
    simp only [Function.update_self, Option.some.injEq, List.cons.injEq] at hf
    rw [← hf.1]
    exact Nat.lt_of_le_of_lt (length_pingHeaders (Nat.le_of_lt hseq)) (by decide))
  obtain ⟨log2, e2⟩ := after_write (l := { l with
    writer := Function.update l.writer s { frames := some [pingFrame] }, log := log1 })
    (s := s) (by simpa using hstep)
  rw [e2] at h2
  have hends : Writer.step { frames := some [] } (l.reader s).numbered.acknowledged =
      some ([], {}, (l.reader s).numbered.acknowledged) := rfl
  have h3 := h2.move (.write s false) (by
    intro f fs hf
    simp at hf)
  obtain ⟨log3, e3⟩ := after_write (l := { l with
    writer := Function.update (Function.update l.writer s { frames := some [pingFrame] }) s
      { frames := some [] }
    reader := Function.update l.reader s (l.reader s).numbered.acknowledged
    sent := Function.update l.sent s (l.sent s ++
          (pingFrame.stamped (l.reader s).window.received
            (some (l.reader s).window.nextSeq)).encode)
    log := log2 }) (s := s) (by simpa using hends)
  rw [e3] at h3
  refine ⟨log3, ?_⟩
  simpa [← hw] using h3

theorem pingFrame_plain : pingFrame.Plain :=
  ⟨rfl, rfl, Nat.two_pow_pos 32, nofun, Nat.two_pow_pos 32⟩

/-- What a reader makes of a ping that is the next frame. -/
theorem next_ping {b : BinaryEnd} {f : Frame}
    (hf : f = pingFrame.stamped 0 (some (b.window.received + 1))) (hclosed : b.closed = [])
    (hack : b.window.peerAck = 0) (hlimit : b.window.received + 1 ≤ b.window.receiveLimit)
    (hbuf : b.buffer = f.encode) :
    b.next = (.ok (some (.message .ping)),
      { b with buffer := [], window := b.window.after f }) := by
  have hseq : b.window.received + 1 < 2 ^ 32 := by
    have := Nat.le_trans hlimit (Nat.min_le_right _ _)
    simp only [AckWindow.maxSeq] at this
    omega
  have hheaders := length_pingHeaders (Nat.le_of_lt hseq)
  have hwords : f.InWords := by
    rw [hf]
    exact pingFrame_plain.inWords_stamped (Nat.two_pow_pos 32) hseq
      (Nat.lt_of_le_of_lt hheaders (by decide))
  have hfits : f.Fits b.maxBody := by
    rw [hf]
    exact ⟨Nat.le_trans hheaders (by decide), Nat.zero_le _⟩
  have hdecode : Frame.decode b.maxBody b.buffer = .ok (some (f, [])) := by
    have hd := Frame.decode_encode_append hwords hfits []
    rwa [List.append_nil, ← hbuf] at hd
  have htype : f.type = .ping := by
    rw [hf]
    rfl
  rw [BinaryEnd.next, BinaryEnd.nextFrom, hdecode]
  obtain ⟨-, -, -, hacc⟩ | ⟨hbad, -⟩ := BinaryEnd.accept_cases { b with buffer := [] } f
  · simp only [hacc]
    simp only [BinaryEnd.deliver, htype, BinaryEnd.abandonClosed, hclosed, List.foldl_nil]
    rfl
  · exfalso
    simp only [hf, hack, Frame.stamped] at hbad
    obtain h | h | ⟨-, h | h⟩ := hbad
    · exact Nat.not_lt_zero _ h
    · exact Nat.not_lt_zero _ h
    · exact h rfl
    · exact absurd hlimit (Nat.not_le.mpr h)

theorem reach_read {start l : Link} {s : Side} {f : Frame} (h : Reachable Unbroken start l)
    (hf : f = pingFrame.stamped 0 (some ((l.reader s.other).window.received + 1)))
    (hsent : l.sent s = f.encode) (hbuf : (l.reader s.other).buffer = [])
    (hclosed : (l.reader s.other).closed = []) (hack : (l.reader s.other).window.peerAck = 0)
    (hlimit : (l.reader s.other).window.received + 1 ≤
      (l.reader s.other).window.receiveLimit) :
    ∃ log, Reachable Unbroken start
      { l with
        reader := Function.update l.reader s.other
          { l.reader s.other with
            buffer := []
            window := (l.reader s.other).window.after f }
        sent := Function.update l.sent s []
        log } := by
  have h1 := h.move (.deliver s.other f.encode.length) trivial
  have e1 : l.after (.deliver s.other f.encode.length) =
      { l with
        reader := Function.update l.reader s.other { l.reader s.other with buffer := f.encode }
        sent := Function.update l.sent s [] } := by
    simp [after, hsent, BinaryEnd.feed, hbuf]
  rw [e1] at h1
  have hnext := next_ping (b := { l.reader s.other with buffer := f.encode }) hf hclosed hack
    hlimit rfl
  have h2 := h1.move (.read s.other) (by
    intro e he
    simp [hnext] at he)
  simp only [after, Function.update_self, hnext, Function.update_idem] at h2
  exact ⟨_, h2⟩

/-! ## Pings until the credit is used up -/

section stall

variable (c : Side → LinkConfig) (codec : Side → BodyCodec)

/-- A side has sent a number of pings, and the other has read them. -/
structure Pinged (s : Side) (n : Nat) (l : Link) : Prop where
  writer : l.writer = fun _ => {}
  sender : l.reader s =
    { ((c s).binaryEnd (codec s)) with
      window := { ((c s).binaryEnd (codec s)).window with nextSeq := n + 1 } }
  receiver : l.reader s.other =
    { ((c s.other).binaryEnd (codec s.other)) with
      window := { ((c s.other).binaryEnd (codec s.other)).window with received := n } }
  sent : l.sent = fun _ => []

theorem pinged_zero (s : Side) : Pinged c codec s 0 (ofConfigs c codec) :=
  ⟨rfl, rfl, rfl, rfl⟩

variable {c codec}

/-- Before half of the window has come no acknowledgement is due. -/
theorem after_early {b : BinaryEnd} {n : Nat} (hseq : n + 1 < 2 ^ 32)
    (hearly : n + 1 < b.window.window / 2) (hpeer : b.window.peerAck = 0)
    (hacked : b.window.acked = 0) :
    b.window.after (pingFrame.stamped 0 (some (n + 1))) = { b.window with received := n + 1 } := by
  have hundue : ¬ (b.window.heard 0).dueAfter ≤
      AckWindow.unacked { b.window.heard 0 with received := n + 1 } := by
    rw [AckWindow.unacked_eq (by simp [AckWindow.heard, hacked]) hseq]
    simp only [AckWindow.heard, AckWindow.dueAfter, hacked]
    omega
  change (b.window.heard 0).counted (n + 1) = _
  rw [AckWindow.counted, if_neg hundue, AckWindow.heard, hpeer, if_neg (Nat.lt_irrefl 0), ← hpeer]

theorem Pinged.succ {s : Side} {n : Nat} {l : Link} (h : Pinged c codec s n l)
    (hr : Reachable Unbroken (ofConfigs c codec) l)
    (hn : n < min (windowOf c s) AckWindow.maxSeq)
    (hw : windowOf c s < windowOf c s.other / 2) :
    ∃ l', Reachable Unbroken (ofConfigs c codec) l' ∧ Pinged c codec s (n + 1) l' := by
  obtain ⟨hwriter, hsender, hreceiver, hsent⟩ := h
  have hbound : n + 1 ≤ windowOf c s ∧ n + 1 < 2 ^ 32 := by
    simp only [AckWindow.maxSeq] at hn
    omega
  have hcredit : (l.reader s).window.nextSeq ≤ (l.reader s).window.sendLimit := by
    rw [hsender]
    simp only [AckWindow.sendLimit, LinkConfig.binaryEnd, AckWindow.ofSize, windowOf] at hn ⊢
    omega
  obtain ⟨log1, h1⟩ := reach_sent hr (by rw [hwriter]) hcredit
  have hlimit : n + 1 ≤ min (0 + windowOf c s.other) AckWindow.maxSeq := by
    simp only [AckWindow.maxSeq]
    omega
  obtain ⟨log2, h2⟩ := reach_read (s := s) (f := pingFrame.stamped 0 (some (n + 1))) h1
    (by simp [hreceiver]) (by simp [hsent, hsender, LinkConfig.binaryEnd, AckWindow.ofSize])
    (by simp [hreceiver, LinkConfig.binaryEnd]) (by simp [hreceiver, LinkConfig.binaryEnd])
    (by simp [hreceiver, LinkConfig.binaryEnd, AckWindow.ofSize])
    (by simp only [Function.update_of_ne (Side.other_ne s), hreceiver]; exact hlimit)
  refine ⟨_, h2, ⟨hwriter, ?_, ?_, ?_⟩⟩
  · simp [hsender, BinaryEnd.numbered, BinaryEnd.acknowledged, LinkConfig.binaryEnd,
      AckWindow.ofSize]
  · have ha := after_early (b := l.reader s.other) hbound.2
      (by rw [hreceiver]; exact Nat.lt_of_le_of_lt hbound.1 hw) (by rw [hreceiver]; rfl)
      (by rw [hreceiver]; rfl)
    simp only [Function.update_self, Function.update_of_ne (Side.other_ne s), ha]
    rw [hreceiver]
    rfl
  · simp [hsent]

variable (codec) in
/-- All pings that there is credit for. -/
theorem reach_pinged {s : Side} (hw : windowOf c s < windowOf c s.other / 2) :
    ∀ n ≤ min (windowOf c s) AckWindow.maxSeq,
      ∃ l, Reachable Unbroken (ofConfigs c codec) l ∧ Pinged c codec s n l
  | 0, _ => ⟨_, .start, pinged_zero c codec s⟩
  | n + 1, hn => by
    obtain ⟨l, hr, hp⟩ := reach_pinged hw n (Nat.le_of_succ_le hn)
    exact hp.succ hr hn hw

variable (codec) in
/-- The next ping waits, and nothing will call its writer. -/
theorem reaches_stall {s : Side} (hw : windowOf c s < windowOf c s.other / 2) :
    ∃ l, Reachable Unbroken (ofConfigs c codec) l ∧ l.Stalled s := by
  obtain ⟨l, hr, hp⟩ := reach_pinged codec hw _ (Nat.le_refl _)
  obtain ⟨hwriter, hsender, hreceiver, hsent⟩ := hp
  have hstuck : (l.reader s).window.sendLimit < (l.reader s).window.nextSeq := by
    rw [hsender]
    simp only [AckWindow.sendLimit, LinkConfig.binaryEnd, AckWindow.ofSize, windowOf]
    omega
  have hcredit : (l.reader s).window.credit = {} := by
    rw [hsender]
    rfl
  have hdue : ∀ s', (l.reader s').window.ackDue = {} := by
    intro s'
    obtain rfl | rfl := Side.eq_or_eq_other s s'
    · rw [hsender]
      rfl
    · rw [hreceiver]
      rfl
  have hseq : (l.reader s).window.nextSeq ≤ 2 ^ 32 := by
    rw [hsender]
    simp only [AckWindow.maxSeq]
    omega
  obtain ⟨log1, h1⟩ := reach_ping (s := s) hr (by rw [hwriter])
  have hstep : Writer.step { frames := some [pingFrame] } (l.reader s) = some
      ([], { frames := some [pingFrame], waiting := true },
        (l.reader s).withBells ⟨false, .waiting⟩ ⟨false, .waiting⟩) := by
    simp only [Writer.step, AckWindow.next, hstuck, if_true, Bool.false_eq_true, if_false,
      Writer.listen, Writer.askCredit, Writer.askDue, hcredit, hdue s, Bell.listen]
    rfl
  have h2 := h1.move (.write s false) (by
    intro f fs hf
    simp only [Function.update_self, Option.some.injEq, List.cons.injEq] at hf
    rw [← hf.1]
    exact Nat.lt_of_le_of_lt (length_pingHeaders hseq) (by decide))
  obtain ⟨log2, e2⟩ := after_write (l := { l with
    writer := Function.update l.writer s { frames := some [pingFrame] }, log := log1 })
    (s := s) (by simpa using hstep)
  rw [e2] at h2
  refine ⟨_, h2, ?_, ?_, ?_, ?_, ?_, ?_, ?_⟩
  · simp [hsent]
  · intro s'
    obtain rfl | rfl := Side.eq_or_eq_other s s'
    · simp [BinaryEnd.withBells, hsender, LinkConfig.binaryEnd]
    · simp [hreceiver, LinkConfig.binaryEnd]
  · intro s'
    obtain rfl | rfl := Side.eq_or_eq_other s s'
    · simp [BinaryEnd.withBells, Bell.Rung]
    · simp [hdue, Bell.Rung]
  · simp
  · exact ⟨pingFrame, [], by simp⟩
  · simp [BinaryEnd.withBells]
  · simp [hwriter]

end stall

/-! ## The bound -/

theorem quiet_start (c : Side → LinkConfig) (codec : Side → BodyCodec) :
    (ofConfigs c codec).Quiet :=
  ⟨fun _ => rfl, fun _ => rfl, fun _ => by simp [ofConfigs, LinkConfig.binaryEnd, Bell.Rung,
    AckWindow.ofSize], nofun⟩

/-- When a link has come to rest, an end whose window is at least half that of the other has credit,
as long as numbers of 32 bits remain, and its writer does not wait; with equal windows this holds of
both. When the window of an end is less, its writer may come to wait for ever. -/
theorem never_stalls (c : Side → LinkConfig) (codec : Side → BodyCodec) :
    (∀ l, Reachable Unbroken (ofConfigs c codec) l → l.Quiet →
      ∀ s, max (windowOf c s.other / 2) 1 ≤ windowOf c s →
        (l.reader s).window.nextSeq ≤ AckWindow.maxSeq →
        (l.reader s).window.nextSeq ≤ (l.reader s).window.sendLimit ∧
          (l.writer s).waiting = false) ∧
    (windowOf c .a = windowOf c .b →
      ∀ l, Reachable Unbroken (ofConfigs c codec) l → l.Quiet →
        ∀ s, (l.reader s).window.nextSeq ≤ AckWindow.maxSeq → (l.writer s).waiting = false) ∧
    ∀ s, windowOf c s < windowOf c s.other / 2 →
      ∃ l, Reachable Unbroken (ofConfigs c codec) l ∧
        ∀ ms : List Move, (∀ m ∈ ms, m.Prompted) →
          (ms.foldl after l).Quiet ∧ ((ms.foldl after l).writer s).waiting = true := by
  have rests : ∀ l, Reachable Unbroken (ofConfigs c codec) l → l.Quiet →
      ∀ s, max (windowOf c s.other / 2) 1 ≤ windowOf c s →
        (l.reader s).window.nextSeq ≤ AckWindow.maxSeq →
        (l.reader s).window.nextSeq ≤ (l.reader s).window.sendLimit ∧
          (l.writer s).waiting = false := by
    intro l hr hq s hw hn
    have hsteady := steady_of_reachable hr
    have hcredit := hsteady.has_credit hq hw hn
    exact ⟨hcredit, hsteady.not_waiting hq hcredit⟩
  refine ⟨rests, ?_, ?_⟩
  · intro he l hr hq s hn
    have hw : max (windowOf c s.other / 2) 1 ≤ windowOf c s := by
      have hone : 1 ≤ windowOf c s := Nat.le_max_right _ _
      have hsame : windowOf c s.other = windowOf c s := by
        cases s with
        | a => exact he.symm
        | b => exact he
      omega
    exact (rests l hr hq s hw hn).2
  · intro s hw
    obtain ⟨l, hr, hstalled⟩ := reaches_stall codec hw
    refine ⟨l, hr, fun ms hms => ?_⟩
    have hlast := hstalled.lasts hms
    exact ⟨hlast.quiet, hlast.waiting⟩

/-- Two ends with windows of one and four frames: the first may stall, the second does not. -/
theorem never_stalls_one_four :
    ((ofConfigs (fun s => { ackWindow := if s = .a then 1 else 4 }) fun _ => .json).writer
        .b).waiting = false ∧
      ∃ l, Reachable Unbroken
          (ofConfigs (fun s => { ackWindow := if s = .a then 1 else 4 }) fun _ => .json) l ∧
        l.Quiet ∧ (l.writer .a).waiting = true := by
  have h := never_stalls (fun s => { ackWindow := if s = .a then 1 else 4 }) fun _ => .json
  refine ⟨(h.1 _ .start (quiet_start _ _) .b (by decide) (by decide)).2, ?_⟩
  obtain ⟨l, hr, hl⟩ := h.2.2 .a (by decide)
  exact ⟨l, hr, hl [] nofun⟩

end Link
end PeerLink
