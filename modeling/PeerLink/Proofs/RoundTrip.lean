import Mathlib.Algebra.BigOperators.Group.List.Basic
import PeerLink.Proofs.Feed
import PeerLink.Proofs.Decoders
import PeerLink.Proofs.FramePieces
import PeerLink.Proofs.LinkOrder
import PeerLink.Proofs.Lines

/-! # Messages there and back

* `Message.wireFrames`: the frames of a message, numbered from one; a writer with credit for them
  writes them and nothing else.
* `BinaryEnd.Underway`: a reader has taken the first of these frames; it takes the others and then
  has the message.
* `Message.Fits`: a message keeps to the limits of a link, and what is written of it reads back.
* `LinkConfig.exchange`: what a fresh decoder has of what a fresh encoder wrote.
* `Message.round_trips`: it has the message, whatever the form of the link.
-/

namespace PeerLink
set_option autoImplicit false

open Json (Value)

theorem Framer.next_text (d : LineDecoder) :
    Framer.next { wire := .text d } = (d.next.1, { wire := .text d.next.2 }) := rfl

theorem Framer.next_binary (b : BinaryEnd) :
    Framer.next { wire := .binary b } = (b.next.1, { wire := .binary b.next.2 }) := rfl

/-! ## Writing frames -/

/-- The frames as they go out when nothing has come yet. -/
def Frame.numberFrom : Nat → List Frame → List Frame
  | _, [] => []
  | n, f :: fs => f.stamped 0 (some n) :: numberFrom (n + 1) fs

def Message.wireFrames (codec : BodyCodec) (maxBody : Nat) (m : Message) : List Frame :=
  Frame.numberFrom 1 (m.frames codec maxBody)

namespace Writer

theorem step_begin (m : Message) (b : BinaryEnd) :
    step { queue := [m] } b =
      some ([], { frames := some (m.frames b.codec b.maxBody) },
        { b with closed := b.closed ++ m.closing?.toList }) := by
  rw [← b.begin_fst m, ← b.begin_snd m]
  rfl

theorem step_send (f : Frame) (fs : List Frame) {b : BinaryEnd}
    (hfree : b.window.nextSeq ≤ b.window.sendLimit) :
    step { frames := some (f :: fs) } b =
      some ((f.stamped b.window.received (some b.window.nextSeq)).encode, { frames := some fs },
        b.numbered.acknowledged) := by
  simp only [step, AckWindow.next, Nat.not_lt.mpr hfree, if_false]
  rfl

theorem pumpFor_frames : ∀ (fs : List Frame) {fuel : Nat} {b : BinaryEnd},
    b.window.received = 0 → b.window.nextSeq + fs.length ≤ b.window.sendLimit + 1 →
    fs.length < fuel →
    (pumpFor fuel { frames := some fs } b).1 =
      (Frame.numberFrom b.window.nextSeq fs).flatMap Frame.encode
  | _, 0, _, _, _, hfuel => absurd hfuel (Nat.not_lt_zero _)
  | [], fuel + 1, b, _, _, _ => by
    have hend : step { frames := some [] } b = some ([], { frames := none }, b) := rfl
    have hdone : pumpFor fuel { frames := none } b = ([], { frames := none }, b) :=
      Link.pumpFor_of_none rfl fuel
    rw [Link.pumpFor_of_some hend, hdone]
    rfl
  | f :: fs, fuel + 1, b, hreceived, hcredit, hfuel => by
    rw [List.length_cons] at hcredit hfuel
    have hstep := step_send f fs (b := b) (by omega)
    have hcredit' : b.numbered.acknowledged.window.nextSeq + fs.length ≤
        b.numbered.acknowledged.window.sendLimit + 1 := by
      change b.window.nextSeq + 1 + fs.length ≤ b.window.sendLimit + 1
      omega
    have hrest := pumpFor_frames fs (b := b.numbered.acknowledged) hreceived hcredit'
      (Nat.lt_of_succ_lt_succ hfuel)
    rw [Link.pumpFor_of_some hstep, hreceived]
    exact congrArg (Frame.encode _ ++ ·) hrest

theorem pump_one {b : BinaryEnd} {m : Message} (hreceived : b.window.received = 0)
    (hseq : b.window.nextSeq = 1)
    (hcredit : (m.frames b.codec b.maxBody).length ≤ b.window.sendLimit) :
    (pump { queue := [m] } b).1 = (m.wireFrames b.codec b.maxBody).flatMap Frame.encode := by
  have hwork : work { queue := [m] } b = (m.frames b.codec b.maxBody).length + 9 + 1 := by
    simp only [work, Option.getD_none, List.length_nil, List.map_cons, List.map_nil, b.begin_fst,
      List.foldl_cons, List.foldl_nil]
    omega
  have hcredit' : b.window.nextSeq + (m.frames b.codec b.maxBody).length ≤
      b.window.sendLimit + 1 := by omega
  have hrest := pumpFor_frames (m.frames b.codec b.maxBody)
    (b := { b with closed := b.closed ++ m.closing?.toList }) hreceived hcredit'
    (Nat.lt_add_of_pos_right (Nat.zero_lt_succ 8))
  rw [pump, hwork, Link.pumpFor_of_some (step_begin m b), List.nil_append, Message.wireFrames,
    ← hseq]
  exact hrest

end Writer

theorem Message.Portable.frames_length {codec : BodyCodec} {maxBody : Nat} {m : Message}
    (h : m.Portable codec maxBody) (hmax : 0 < maxBody) :
    (m.frames codec maxBody).length < 2 ^ 32 := by
  obtain ⟨-, hframes⟩ | ⟨first, later, hsplit, hframes⟩ := Message.frames_cases hmax h.length
  · rw [hframes]
    exact Nat.one_lt_two_pow (Nat.succ_ne_zero 31)
  · have hle := List.length_le_sum_of_one_le ((first :: later).map List.length) fun n hn => by
      obtain ⟨c, hc, rfl⟩ := List.mem_map.mp hn
      exact List.length_pos_iff.mpr (hsplit.some c hc)
    rw [← List.length_flatten, List.flatten_cons, hsplit.whole, List.length_map] at hle
    rw [hframes, List.length_cons, List.length_map]
    exact Nat.lt_of_le_of_lt hle h.length

/-- Each frame takes some bytes. -/
theorem Frame.length_le_encoded (gs : List Frame) :
    gs.length ≤ (gs.flatMap Frame.encode).length := by
  have hle := List.length_le_sum_of_one_le (gs.map fun g => g.encode.length) fun n hn => by
    obtain ⟨g, -, rfl⟩ := List.mem_map.mp hn
    exact List.length_pos_iff.mpr g.encode_ne_nil
  rw [List.length_map] at hle
  rw [List.length_flatMap]
  exact hle

theorem Frame.length_numberFrom : ∀ (n : Nat) (fs : List Frame),
    (Frame.numberFrom n fs).length = fs.length
  | _, [] => rfl
  | n, _ :: fs => congrArg (· + 1) (length_numberFrom (n + 1) fs)

/-! ## Reading frames -/

namespace BinaryEnd

variable {codec : BodyCodec} {maxBody taken : Nat} {m : Message}

/-- An end that has read the first frames of a message, and may read the others. -/
structure Underway (b : BinaryEnd) (m : Message) (taken : Nat) : Prop where
  awaits : b.Awaits False [m] taken
  peerAck : b.window.peerAck = 0
  received : b.window.received = taken
  limit : (m.frames b.codec b.maxBody).length ≤ b.window.receiveLimit

variable {b : BinaryEnd} {f : Frame} {fs : List Frame}

theorem Underway.accept (h : b.Underway m taken) (f : Frame)
    (htaken : taken < (m.frames b.codec b.maxBody).length) (rest : Bytes) :
    ({ b with buffer := rest } : BinaryEnd).accept (f.stamped 0 (some (taken + 1))) =
      (b.behind (f.stamped 0 (some (taken + 1))) rest).deliver
        (f.stamped 0 (some (taken + 1))) := by
  obtain ⟨-, -, -, haccept⟩ | ⟨hbad, -⟩ :=
    ({ b with buffer := rest } : BinaryEnd).accept_cases (f.stamped 0 (some (taken + 1)))
  · exact haccept
  · exfalso
    obtain hlow | hhigh | ⟨-, hgap | hover⟩ := hbad
    · have hpeer := h.peerAck
      have hlow' : 0 < b.window.peerAck := hlow
      omega
    · exact absurd hhigh (Nat.not_lt_zero _)
    · exact hgap (congrArg some (congrArg (· + 1) h.received.symm))
    · have hlimit := h.limit
      have hreceived := h.received
      have hover' : b.window.receiveLimit < b.window.received + 1 := hover
      omega

/-- The counters after the next frame of a message, whatever comes of it. -/
theorem Underway.deliver {g : Frame} {rest : Bytes} (h : b.Underway m taken)
    (hnumbered : g.type.consumesCredit = true) (hack : g.ack = 0)
    (hseq : g.headers.seq = some (taken + 1))
    (hawaits : ((b.behind g rest).deliver g).2.Awaits False [m] (taken + 1)) :
    ((b.behind g rest).deliver g).2.Underway m (taken + 1) := by
  have hreads := b.after_reads g rest
  rw [← h.received] at hseq
  refine ⟨hawaits, ?_, ?_, ?_⟩
  · rw [deliver_end]
    exact (AckWindow.peerAck_after _ _).trans hack
  · rw [deliver_end]
    exact (AckWindow.received_after hnumbered hseq).trans (congrArg (· + 1) h.received)
  · rw [deliver_end]
    change _ ≤ min ((b.window.after g).acked + (b.window.after g).window) AckWindow.maxSeq
    rw [hreads.acked, hreads.size]
    exact h.limit

/-- The next frame leads on, or it is the last and brings the message. -/
theorem Underway.read (hmax : 0 < b.maxBody) (hm : m.Portable b.codec b.maxBody)
    (h : b.Underway m taken) (hdrop : (m.frames b.codec b.maxBody).drop taken = f :: fs)
    {g : Frame} (hg : g = f.stamped 0 (some (taken + 1))) (rest : Bytes) :
    (fs ≠ [] ∧ ((b.behind g rest).deliver g).1 = none ∧
        ((b.behind g rest).deliver g).2.Underway m (taken + 1)) ∨
      fs = [] ∧ ((b.behind g rest).deliver g).1 = some (.ok (.message m.read)) := by
  have hbare := hm.bare hmax f (List.mem_of_mem_drop (hdrop ▸ List.mem_cons_self))
  have hlen := congrArg List.length hdrop
  rw [List.length_drop, List.length_cons] at hlen
  have hunstamp : g.unstamp = f := by
    rw [hg]
    exact hbare.unstamped
  have hframes : ([m].flatMap (·.frames b.codec b.maxBody)).drop taken = g.unstamp :: fs := by
    rw [List.flatMap_singleton, hdrop, hunstamp]
  have hsound : ∀ m' ∈ [m], m'.Portable b.codec b.maxBody :=
    fun m' hm' => List.mem_singleton.mp hm' ▸ hm
  have hawaits : (b.behind g rest).Awaits False [m] taken := h.awaits.congr rfl rfl rfl rfl
  obtain ⟨m', ms, hms, hcase⟩ := hawaits.deliver (b := b.behind g rest) hmax hsound hframes
  obtain ⟨rfl, rfl⟩ := List.cons.inj hms
  obtain ⟨hmore, hnone, hnext⟩ | ⟨hlast, -, -, hwhole⟩ := hcase
  · refine .inl ⟨?_, hnone, h.deliver (hg ▸ hbare.plain.numbered) (hg ▸ rfl) (hg ▸ rfl) ?_⟩
    · rintro rfl
      have hmore' : taken + 1 < (m.frames b.codec b.maxBody).length := hmore
      rw [List.length_nil] at hlen
      omega
    · simpa only [and_false] using hnext
  · refine .inr ⟨List.length_eq_zero_iff.mp ?_, hwhole fun hcut => hcut.2⟩
    have hlast' : taken + 1 = (m.frames b.codec b.maxBody).length := hlast
    omega

/-- A frame that a reader takes: its headers are not too long, and neither is its body. -/
theorem decode_stamped {seq : Nat} (hf : f.Bare maxBody) (hseq : seq < 2 ^ 32)
    (hheaders : (f.stamped 0 (some seq)).headers.encode.length ≤ Frame.maxHeaders) (rest : Bytes) :
    Frame.decode maxBody ((f.stamped 0 (some seq)).encode ++ rest) =
      .ok (some (f.stamped 0 (some seq), rest)) := by
  have hwords : (f.stamped 0 (some seq)).InWords :=
    hf.plain.inWords_stamped (Nat.two_pow_pos 32) hseq
      (Nat.lt_of_le_of_lt hheaders (by decide))
  exact Frame.decode_encode_append hwords ⟨hheaders, hf.body⟩ rest

theorem Underway.nextFrom_eq (hmax : 0 < maxBody) (hm : m.Portable codec maxBody)
    (h : b.Underway m taken) (hcodec : b.codec = codec) (hmaxBody : b.maxBody = maxBody)
    (hdrop : (m.frames codec maxBody).drop taken = fs) (hne : fs ≠ []) {fuel : Nat}
    (hfuel : fs.length ≤ fuel) (hseq : taken + fs.length < 2 ^ 32)
    (hheaders : ∀ g ∈ Frame.numberFrom (taken + 1) fs, g.headers.encode.length ≤ Frame.maxHeaders)
    (hbuf : b.buffer = (Frame.numberFrom (taken + 1) fs).flatMap Frame.encode) :
    (nextFrom fuel b).1 = .ok (some (.message m.read)) ∧ (nextFrom fuel b).2.buffer = [] := by
  -- By induction on the frames that are still to be read; `taken` grows with each of them.
  induction fs generalizing fuel taken b with
  | nil => exact absurd rfl hne
  | cons f fs ih =>
    cases fuel with
    | zero => exact absurd hfuel (Nat.not_succ_le_zero _)
    | succ fuel =>
      subst hcodec hmaxBody
      have hbare := hm.bare hmax f (List.mem_of_mem_drop (hdrop ▸ List.mem_cons_self))
      rw [List.length_cons] at hfuel hseq
      have htaken : taken < (m.frames b.codec b.maxBody).length := by
        have := congrArg List.length hdrop
        rw [List.length_drop, List.length_cons] at this
        omega
      obtain ⟨g, hg⟩ : ∃ g, g = f.stamped 0 (some (taken + 1)) := ⟨_, rfl⟩
      obtain ⟨rest, hrest⟩ : ∃ rest, rest =
        (Frame.numberFrom (taken + 1 + 1) fs).flatMap Frame.encode := ⟨_, rfl⟩
      have hdecode : Frame.decode b.maxBody b.buffer = .ok (some (g, rest)) := by
        rw [hbuf, hg, hrest]
        exact decode_stamped hbare (by omega) (hheaders _ List.mem_cons_self) _
      have haccept := h.accept f htaken rest
      have hread := h.read hmax hm hdrop hg rest
      have hend := (b.behind g rest).deliver_end g
      rw [← hg] at haccept
      rw [nextFrom, hdecode]
      dsimp only
      rw [haccept]
      generalize (b.behind g rest).deliver g = r at hread hend
      obtain ⟨answer, y⟩ := r
      dsimp only at hread hend
      have hcodec : y.codec = b.codec := by rw [hend]; rfl
      have hmaxBody : y.maxBody = b.maxBody := by rw [hend]; rfl
      have hbuffer : y.buffer = rest := by rw [hend]; rfl
      obtain ⟨hmore, rfl, hnext⟩ | ⟨rfl, rfl⟩ := hread
      · have hdrop' : (m.frames b.codec b.maxBody).drop (taken + 1) = fs := by
          rw [← List.drop_drop, hdrop]
          rfl
        exact ih hnext hcodec hmaxBody hdrop' hmore (Nat.le_of_succ_le_succ hfuel) (by omega)
          (fun g' hg' => hheaders g' (List.mem_cons_of_mem _ hg')) (hbuffer.trans hrest)
      · exact ⟨rfl, hbuffer.trans hrest⟩

theorem Underway.next_eq (hmax : 0 < b.maxBody) (hm : m.Portable b.codec b.maxBody)
    (h : b.Underway m 0)
    (hheaders : ∀ g ∈ m.wireFrames b.codec b.maxBody,
      g.headers.encode.length ≤ Frame.maxHeaders)
    (hbuf : b.buffer = (m.wireFrames b.codec b.maxBody).flatMap Frame.encode) :
    b.next.1 = .ok (some (.message m.read)) ∧ b.next.2.buffer = [] := by
  have hne : m.frames b.codec b.maxBody ≠ [] := List.length_pos_iff.mp (hm.frames_pos hmax)
  have hlength := hm.frames_length hmax
  have hfuel : (m.frames b.codec b.maxBody).length ≤ b.buffer.length + 1 := by
    have hle := Frame.length_le_encoded (m.wireFrames b.codec b.maxBody)
    rw [← hbuf, Message.wireFrames, Frame.length_numberFrom] at hle
    exact Nat.le_succ_of_le hle
  exact h.nextFrom_eq hmax hm rfl rfl List.drop_zero hne hfuel (by omega) hheaders hbuf

end BinaryEnd

/-! ## There and back -/

theorem Decoding.drainFor_one {δ : Type} {next : δ → Decoding × δ} {d d' : δ} {i : Inbound}
    (h : next d = (.ok (some i), d')) (hlast : (next d').1 = .ok none) (fuel : Nat) :
    (Decoding.drainFor next (fuel + 1) d).1 = [.ok (some i)] := by
  have hrest : (Decoding.drainFor next fuel d').1 = [] := by
    cases fuel with
    | zero => rfl
    | succ fuel =>
      rw [drainFor]
      generalize next d' = r at hlast
      obtain ⟨answer, d''⟩ := r
      cases hlast
      rfl
  rw [drainFor, h]
  simp only [isLast, Bool.false_eq_true, if_false, hrest]

namespace Message

/-- The line of a message is not too long, and its document reads back. -/
structure FitsLine (maxLine : Nat) (m : Message) : Prop where
  reads : Encoding.lines.Reads m
  length : m.document.length ≤ maxLine

/-- The frames of a message are within the limits of a reader, and may be sent without an answer. -/
structure FitsFrames (codec : BodyCodec) (maxBody window : Nat) (m : Message) : Prop where
  positive : 0 < maxBody
  portable : m.Portable codec maxBody
  headers : ∀ g ∈ m.wireFrames codec maxBody, g.headers.encode.length ≤ Frame.maxHeaders
  credit : (m.frames codec maxBody).length ≤ window

def Fits (c : LinkConfig) (codec : BodyCodec) (m : Message) : Prop :=
  match c.protocol with
  | .v1 => m.FitsLine c.maxLine
  | .v2 => m.FitsFrames codec c.maxFrameSize c.ackWindow

end Message

namespace LinkConfig

/-- What a decoder has of a message that an encoder with the same settings wrote. -/
def exchange (c : LinkConfig) (codec : BodyCodec) (m : Message) : List Decoding :=
  ((Framer.ofConfig c codec).feed ((Framer.ofConfig c codec).push m).pump.1).drain.1

variable {c : LinkConfig} {codec : BodyCodec} {m : Message}

theorem pump_line (hc : c.protocol = .v1) :
    ((Framer.ofConfig c codec).push m).pump.1 = m.line := by
  rw [Framer.ofConfig, hc]
  simp only [Framer.push, Writer.push, Framer.pump, List.nil_append, List.flatMap_cons,
    List.flatMap_nil, List.append_nil]

theorem feed_line (hc : c.protocol = .v1) (bs : Bytes) :
    (Framer.ofConfig c codec).feed bs =
      { wire := .text { maxLine := c.maxLine, buffer := bs } } := by
  rw [Framer.ofConfig, hc]
  simp only [Framer.feed, LineDecoder.feed, List.nil_append]

theorem exchange_line (hc : c.protocol = .v1) (h : m.FitsLine c.maxLine) :
    c.exchange codec m = [.ok (some (.message m.read))] := by
  have hread : Inbound.ofLine m.document = .ok (.message m.read) := by
    have hcarry := Encoding.carry_lines h.reads
    rwa [Encoding.carry, m.trim_line] at hcarry
  have hline := LineDecoder.next_line (d := { maxLine := c.maxLine, buffer := m.line }) h.length rfl
  rw [hread] at hline
  have hnext : Framer.next { wire := .text { maxLine := c.maxLine, buffer := m.line } } =
      (.ok (some (.message m.read)), { wire := .text { maxLine := c.maxLine } }) := by
    rw [Framer.next_text, hline]
    rfl
  have hlast : (Framer.next { wire := .text { maxLine := c.maxLine } }).1 = .ok none := by
    rw [Framer.next_text, LineDecoder.next_empty rfl]
  rw [exchange, pump_line hc, feed_line hc, Framer.drain]
  exact Decoding.drainFor_one hnext hlast _

theorem exchange_frames (hc : c.protocol = .v2)
    (h : m.FitsFrames codec c.maxFrameSize c.ackWindow) :
    c.exchange codec m = [.ok (some (.message m.read))] := by
  have hlength := h.portable.frames_length h.positive
  have hcredit : (m.frames codec c.maxFrameSize).length ≤
      min (0 + max c.ackWindow 1) AckWindow.maxSeq := by
    have hwindow := h.credit
    rw [AckWindow.maxSeq]
    omega
  have hpump : ((Framer.ofConfig c codec).push m).pump.1 =
      (m.wireFrames codec c.maxFrameSize).flatMap Frame.encode := by
    rw [Framer.ofConfig_binaryEnd codec hc]
    simp only [Framer.push, Writer.push, Framer.pump, List.nil_append]
    exact Writer.pump_one (b := c.binaryEnd codec) rfl rfl hcredit
  have hunderway : ((c.binaryEnd codec).feed
      ((m.wireFrames codec c.maxFrameSize).flatMap Frame.encode)).Underway m 0 :=
    ⟨.between [m] rfl, rfl, rfl, hcredit⟩
  obtain ⟨hread, hempty⟩ := hunderway.next_eq h.positive h.portable h.headers rfl
  have hfeed : (Framer.ofConfig c codec).feed
      ((m.wireFrames codec c.maxFrameSize).flatMap Frame.encode) =
        { wire := .binary ((c.binaryEnd codec).feed
          ((m.wireFrames codec c.maxFrameSize).flatMap Frame.encode)) } := by
    rw [Framer.ofConfig_binaryEnd codec hc]
    rfl
  rw [exchange, hpump, hfeed, Framer.drain]
  refine Decoding.drainFor_one ((Framer.next_binary _).trans (congrArg (·, _) hread)) ?_ _
  rw [Framer.next_binary, BinaryEnd.next_empty hempty]

theorem exchange_reads (h : m.Fits c codec) :
    c.exchange codec m = [.ok (some (.message m.read))] := by
  cases hc : c.protocol with
  | v1 =>
    rw [Message.Fits, hc] at h
    exact exchange_line hc h
  | v2 =>
    rw [Message.Fits, hc] at h
    exact exchange_frames hc h

end LinkConfig

namespace Message

/-- The message without the values that are null. -/
def withoutNulls : Message → Message
  | .request r => .request
    { r with params := r.params.filter (!·.isNull), value := r.value.filter (!·.isNull) }
  | .response r => .response r
  | .ping => .ping

/-- The members of all objects in a message stand in order of their keys. -/
def Ordered : Message → Prop
  | .request r => (∀ v, r.params = some v → v.Ordered) ∧ ∀ v, r.value = some v → v.Ordered
  | .response r => ∀ v ∈ r.updates, v.Ordered
  | .ping => True

theorem bind_present_of_ordered {field : Option Value} (h : ∀ v, field = some v → v.Ordered) :
    field.bind Value.present = field.filter (!·.isNull) := by
  cases field with
  | none => rfl
  | some v =>
    by_cases hnull : v = .null
    · rw [hnull]
      rfl
    · have hpresent := (h v rfl).present_eq hnull
      have hkept : v.isNull = false := by
        cases v with
        | null => exact absurd rfl hnull
        | bool | num | str | arr | obj => rfl
      rw [Option.bind_some, hpresent, Option.filter_some, hkept]
      rfl

theorem Ordered.read_eq {m : Message} (h : m.Ordered) : m.read = m.withoutNulls := by
  cases m with
  | ping => rfl
  | request r =>
    simp only [read, Request.read, withoutNulls, bind_present_of_ordered h.1,
      bind_present_of_ordered h.2]
  | response r =>
    have hupdates : r.updates.map Value.sorted = r.updates := by
      rw [List.map_congr_left fun v hv => (h v hv).sorted_eq, List.map_id']
    simp only [read, Response.read, withoutNulls, hupdates]

/-- A message comes as it went, but for values that are null, and it comes the same over every link.
One that came out of a decoder comes as it is. -/
theorem round_trips {c : LinkConfig} {codec : BodyCodec} {m : Message} (h : m.Fits c codec) :
    (m.Ordered → c.exchange codec m = [.ok (some (.message m.withoutNulls))]) ∧
    (∀ c' codec', m.Fits c' codec' → c'.exchange codec' m = c.exchange codec m) ∧
    ∀ f : Framer, f.Orders → f.next.1 = .ok (some (.message m)) →
      c.exchange codec m = [.ok (some (.message m))] := by
  have hread := LinkConfig.exchange_reads h
  refine ⟨fun hm => ?_, fun c' codec' h' => ?_, fun f hf hnext => ?_⟩
  · rw [hread, hm.read_eq]
  · rw [hread, LinkConfig.exchange_reads h']
  · rw [hread, f.read_of_next hf hnext]

/-- A request with a value that is null. Its body takes two frames of eight bytes. -/
def unsetting : Message :=
  .request { rid := 1, method := .set, path := some "/a", value := some .null }

def smallFrames : LinkConfig := { protocol := .v2, maxFrameSize := 8, ackWindow := 2 }

theorem unsetting_words : (Envelope.ofMessage unsetting).InWords :=
  ⟨fun n hn => Option.some.inj hn ▸ by decide, nofun, nofun⟩

def isUnsettingDocument : Option Value → Bool
  | some (.obj [(a, .str method), (b, .str path), (c, .num (.nat 1)), (d, .null)]) =>
    [a, method, b, path, c, d] == ["method", "set", "path", "/a", "rid", "value"]
  | _ => false

theorem unsetting_document : (Envelope.ofMessage unsetting).toJson.sorted =
    .obj [("method", .str "set"), ("path", .str "/a"), ("rid", .num (.nat 1)),
      ("value", .null)] := by rfl

theorem unsetting_line : unsetting.Fits {} .json where
  reads := by
    refine ⟨unsetting_words, ?_⟩
    have hread : isUnsettingDocument (Envelope.shape.read? unsetting.line.trim) = true := by
      decide +kernel
    unfold isUnsettingDocument at hread
    split at hread
    · rename_i a method b path c d hv
      simp only [beq_iff_eq, List.cons.injEq] at hread
      obtain ⟨rfl, rfl, rfl, rfl, rfl, rfl, -⟩ := hread
      rw [hv, unsetting_document]
    · cases hread
  length := by decide +kernel

def isNullBody : Except FrameError Value → Bool
  | .ok (.obj [(k, .null)]) => k == "value"
  | _ => false

theorem unsetting_body : (Envelope.ofMessage unsetting).body.toJson.sorted =
    .obj [("value", .null)] := by rfl

theorem unsetting_frames : unsetting.Fits smallFrames .json where
  positive := by decide
  portable :=
    { words := unsetting_words
      length := by decide +kernel
      close := nofun
      codec := by
        intro _
        have hread : isNullBody (BodyCodec.json.decode
            (BodyCodec.json.encode (Envelope.ofMessage unsetting).body.toJson.sorted)) = true := by
          decide +kernel
        refine ⟨by decide +kernel, ?_⟩
        unfold isNullBody at hread
        split at hread
        · rename_i k hv
          rw [hv, unsetting_body, beq_iff_eq.mp hread]
        · cases hread }
  headers := by decide +kernel
  credit := by decide +kernel

def unset : Message := .request { rid := 1, method := .set, path := some "/a" }

theorem unset_frames : unset.Fits smallFrames .json where
  positive := by decide
  portable :=
    { words := ⟨fun n hn => Option.some.inj hn ▸ by decide, nofun, nofun⟩
      length := by decide +kernel
      close := nofun
      codec := nofun }
  headers := by decide +kernel
  credit := by decide +kernel

/-- A decoder that a frame has come to. -/
def told : Framer :=
  { wire := .binary { smallFrames.binaryEnd .json with
      buffer := (unset.wireFrames .json smallFrames.maxFrameSize).flatMap Frame.encode } }

theorem told_next : told.next.1 = .ok (some (.message unset)) := by
  have hunderway : BinaryEnd.Underway { smallFrames.binaryEnd .json with
      buffer := (unset.wireFrames .json smallFrames.maxFrameSize).flatMap Frame.encode } unset 0 :=
    ⟨.between [unset] rfl, rfl, rfl, by decide +kernel⟩
  rw [told, Framer.next_binary]
  exact (hunderway.next_eq (by decide) unset_frames.portable unset_frames.headers rfl).1

theorem unsetting_round_trips :
    unsetting.Fits {} .json ∧ unsetting.Fits smallFrames .json ∧
    (unsetting.frames .json smallFrames.maxFrameSize).length = 2 ∧
    LinkConfig.exchange {} .json unsetting = [.ok (some (.message unset))] ∧
    smallFrames.exchange .json unsetting = LinkConfig.exchange {} .json unsetting ∧
    told.next.1 = .ok (some (.message unset)) ∧
    smallFrames.exchange .json unset = [.ok (some (.message unset))] := by
  have hordered : unsetting.Ordered := ⟨nofun, fun v hv => Option.some.inj hv ▸ .null⟩
  have hjson : told.Orders := by
    intro b hb
    cases hb
    exact BodyCodec.json_orders
  have hdropped : unsetting.withoutNulls = unset := rfl
  obtain ⟨hline, hsame, -⟩ := round_trips unsetting_line
  rw [hdropped] at hline
  have hagain := (round_trips unset_frames).2.2 told hjson told_next
  exact ⟨unsetting_line, unsetting_frames, by decide +kernel, hline hordered,
    hsame _ _ unsetting_frames, told_next, hagain⟩

end Message

end PeerLink
