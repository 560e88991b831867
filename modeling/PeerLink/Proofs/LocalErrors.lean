import PeerLink.Proofs.Bundles

/-! # Errors that concern one message only

What comes is well delimited, and some of it cannot be used.

* `Frame.Stream`: the bytes of whole frames, however each of them is laid out.
* `AckWindow.Takes`: each of some frames has a valid acknowledgement and the next number.
* `BinaryEnd.Turn`: frames come, in any pieces, and the end sends frames of its own and acknowledges
  what has come. `Brought` says which frames come in turns.
* `errors_stay_local`: each line and each message has its own answer, in order, whatever the others
  are like.
-/

namespace PeerLink
set_option autoImplicit false

/-! ## Frames that come -/

/-- The bytes of whole frames, one after the other. -/
inductive Frame.Stream (maxBody : Nat) : Bytes → List Frame → Prop
  | nil : Stream maxBody [] []
  | cons {bs rest : Bytes} {f : Frame} {fs : List Frame}
      (decode : Frame.decode maxBody bs = .ok (some (f, rest))) (later : Stream maxBody rest fs) :
      Stream maxBody bs (f :: fs)

/-- Frames that are read back from their layouts are read from these one after the other. -/
theorem Frame.Stream.of_encode {maxBody : Nat} : ∀ {fs : List Frame},
    (∀ f ∈ fs, Frame.decode maxBody f.encode = .ok (some (f, []))) →
      Stream maxBody (fs.map Frame.encode).flatten fs
  | [], _ => .nil
  | f :: fs, h => by
    have hf := h f List.mem_cons_self
    have hmore := Frame.decode_append f.encode (fs.map Frame.encode).flatten (by rw [hf]; nofun)
    rw [hf] at hmore
    exact .cons hmore (.of_encode fun g hg => h g (List.mem_cons_of_mem f hg))

namespace AckWindow

/-- The acknowledgement of a frame is valid. If the frame has to be numbered, its number is the next
one, and there is credit for it or none is asked for. -/
structure Admits (w : AckWindow) (f : Frame) : Prop where
  grows : w.peerAck ≤ f.ack
  sent : f.ack ≤ w.lastSent
  next : f.type.consumesCredit = true → f.headers.seq = some (w.received + 1)
  credit : f.type.consumesCredit = true →
    w.received + 1 ≤ w.receiveLimit ∨ w.policy = .ignore

/-- Frames that are admitted one after the other, with the window before and after. -/
inductive Takes : AckWindow → List Frame → AckWindow → Prop
  | nil (w : AckWindow) : Takes w [] w
  | cons {w w' : AckWindow} {f : Frame} {fs : List Frame} (admits : w.Admits f)
      (later : Takes (w.after f) fs w') : Takes w (f :: fs) w'

theorem Admits.received_after {w : AckWindow} {f : Frame} (h : w.Admits f) :
    (w.after f).received = w.received + if f.type.consumesCredit then 1 else 0 := by
  unfold after
  cases hc : f.type.consumesCredit with
  | false => rfl
  | true =>
    rw [h.next hc]
    rfl

theorem Takes.received_eq {w w' : AckWindow} {fs : List Frame} (h : w.Takes fs w') :
    w'.received = w.received + fs.countP (·.type.consumesCredit) := by
  induction h with
  | nil => rfl
  | cons admits _ ih =>
    rw [ih, admits.received_after, List.countP_cons]
    omega

end AckWindow

namespace BinaryEnd

/-- What happens at an end in the course of time. -/
inductive Turn
  /-- Bytes come in pieces, and after each all that can be had is read. -/
  | read (pieces : List Bytes)
  /-- A frame is sent, if there is credit for it. -/
  | send (f : Frame)
  | acknowledge

def turn (b : BinaryEnd) : Turn → List Decoding × BinaryEnd
  | .read pieces => b.readPieces pieces
  | .send f =>
    match b.window.next with
    | (some seq, window) => ([], ({ b with window }.stamp f (some seq)).2)
    | (none, _) => ([], b)
  | .acknowledge => ([], b.ackFrame.2)

/-- All that is read in turns, with the end after them. -/
def turns : List Turn → BinaryEnd → List Decoding × BinaryEnd
  | [], b => ([], b)
  | t :: ts, b =>
    let (rs, b) := b.turn t
    let (rs', b) := turns ts b
    (rs ++ rs', b)

/-- The window after a frame was sent, if one could be. -/
def windowSending (w : AckWindow) : AckWindow :=
  match w.next with
  | (some _, w) => w.noteAck w.received
  | (none, _) => w

/-- The frames that come in turns. All of them are admitted when they are read, and each turn brings
whole ones. -/
inductive Brought (maxBody : Nat) : AckWindow → List Turn → List Frame → AckWindow → Prop
  | nil (w : AckWindow) : Brought maxBody w [] [] w
  | read {w w' w'' : AckWindow} {pieces : List Bytes} {ts : List Turn} {fs fs' : List Frame}
      (stream : Frame.Stream maxBody pieces.flatten fs) (takes : w.Takes fs w')
      (later : Brought maxBody w' ts fs' w'') :
      Brought maxBody w (.read pieces :: ts) (fs ++ fs') w''
  | send {w w' : AckWindow} {f : Frame} {ts : List Turn} {fs : List Frame}
      (later : Brought maxBody (windowSending w) ts fs w') : Brought maxBody w (.send f :: ts) fs w'
  | acknowledge {w w' : AckWindow} {ts : List Turn} {fs : List Frame}
      (later : Brought maxBody (w.noteAck w.received) ts fs w') :
      Brought maxBody w (.acknowledge :: ts) fs w'

theorem received_windowSending (w : AckWindow) : (windowSending w).received = w.received := by
  unfold windowSending AckWindow.next
  by_cases h : w.sendLimit < w.nextSeq
  · simp only [h, if_true]
  · simp only [h, if_false, AckWindow.noteAck]

theorem Brought.received_eq {maxBody : Nat} {w w' : AckWindow} {ts : List Turn} {fs : List Frame}
    (h : Brought maxBody w ts fs w') :
    w'.received = w.received + fs.countP (·.type.consumesCredit) := by
  induction h with
  | nil => rfl
  | read _ takes _ ih =>
    rw [ih, takes.received_eq, List.countP_append]
    omega
  | send _ ih => rw [ih, received_windowSending]
  | acknowledge _ ih => exact ih

/-! ## Reading -/

variable {b : BinaryEnd} {f : Frame} {fs more : List Frame} {rs : List Decoding} {w : AckWindow}

theorem accept_of_admits (h : b.window.Admits f) (rest : Bytes) :
    ({ b with buffer := rest } : BinaryEnd).accept f = (b.behind f rest).deliver f := by
  obtain ⟨-, -, hack⟩ | ⟨hbad, -⟩ := b.window.acceptAck_cases f.ack
  · cases hc : f.type.consumesCredit with
    | false =>
      simp only [accept, account, hack, hc, behind, AckWindow.after, Bool.false_eq_true, if_false]
    | true =>
      have hframe := AckWindow.acceptFrame_next (w := b.window.heard f.ack) (h.credit hc)
      have hseq := h.next hc
      have hreceived : (b.window.heard f.ack).received = b.window.received := rfl
      rw [hreceived] at hframe
      simp only [accept, account, hack, hc, hseq, hframe, behind, AckWindow.after, if_true]
  · have := h.grows
    have := h.sent
    omega

/-- An end that has read all that came. -/
structure Idle (b b' : BinaryEnd) (w : AckWindow) : Prop where
  buffer : b'.buffer = []
  window : b'.window = w
  codec : b'.codec = b.codec
  maxBody : b'.maxBody = b.maxBody

/-- Of frames that are not acknowledgements. -/
def payloads (fs : List Frame) : List Frame := fs.filter (·.type ≠ .ack)

theorem payloads_append (fs fs' : List Frame) :
    payloads (fs ++ fs') = payloads fs ++ payloads fs' :=
  List.filter_append ..

theorem Expects.step (h : b.Expects (payloads (f :: fs) ++ more) rs) :
    (b.deliver f).2.Advances (payloads fs ++ more) rs (b.deliver f).1 := by
  by_cases hf : f.type = .ack
  · have hskip : payloads (f :: fs) = payloads fs := List.filter_cons_of_neg (by simpa using hf)
    rw [hskip] at h
    exact h.deliver_ack hf
  · have hkeep : payloads (f :: fs) = f :: payloads fs :=
      List.filter_cons_of_pos (by simpa using hf)
    rw [hkeep] at h
    exact h.deliver

/-- Whole frames are read one after the other, and of what was expected the rest is expected
still. -/
theorem reads_stream {maxBody : Nat} {bs : Bytes} (hstream : Frame.Stream maxBody bs fs) :
    ∀ {b : BinaryEnd} {rs : List Decoding}, b.maxBody = maxBody → b.buffer = bs →
      b.window.Takes fs w → b.Expects (payloads fs ++ more) rs → (∀ r ∈ rs, r.isLast = false) →
      ∃ rs1 rs2 d b', rs = rs1 ++ rs2 ∧ decoder.Reads b rs1 d ∧
        decoder.next d = (.ok none, b') ∧ Idle b b' w ∧ b'.Expects more rs2 := by
  induction hstream with
  | nil =>
    intro b rs hmax hbuffer htakes hexpects _
    cases htakes
    exact ⟨[], rs, b, b, rfl, .nil b, next_empty hbuffer, ⟨hbuffer, rfl, rfl, rfl⟩, hexpects⟩
  | @cons bs rest f fs decode later ih =>
    intro b rs hmax hbuffer htakes hexpects hgoes
    subst hmax hbuffer
    cases htakes with
    | cons admits htakes =>
      have hnext := next_eq b
      rw [decode] at hnext
      dsimp only at hnext
      rw [accept_of_admits admits] at hnext
      have hbehind : (b.behind f rest).Expects _ _ := hexpects.congr rfl rfl rfl
      have hstep := Expects.step hbehind
      have hend := (b.behind f rest).deliver_end f
      generalize (b.behind f rest).deliver f = r at hnext hstep hend
      obtain ⟨o, b1⟩ := r
      dsimp only at hnext hstep hend
      have hmax1 : b1.maxBody = b.maxBody := by rw [hend]; rfl
      have hbuffer1 : b1.buffer = rest := by rw [hend]; rfl
      have hcodec1 : b1.codec = b.codec := by rw [hend]; rfl
      have hwindow1 : b1.window = b.window.after f := by rw [hend]; rfl
      rw [← hwindow1] at htakes
      obtain ⟨rfl, hexpects1⟩ | ⟨r, rs', rfl, rfl, hexpects1⟩ := hstep
      · obtain ⟨rs1, rs2, d, b', hrs, hreads, hlast, hidle, hexpects'⟩ :=
          ih hmax1 hbuffer1 htakes hexpects1 hgoes
        obtain ⟨d', hreads', hlast'⟩ := Decoder.Patient.reads_congr hnext hreads
        exact ⟨rs1, rs2, d', b', hrs, hreads', hlast'.trans hlast,
          ⟨hidle.buffer, hidle.window, hidle.codec.trans hcodec1, hidle.maxBody.trans hmax1⟩,
          hexpects'⟩
      · obtain ⟨rs1, rs2, d, b', hrs, hreads, hlast, hidle, hexpects'⟩ :=
          ih hmax1 hbuffer1 htakes hexpects1 fun r' hr' => hgoes r' (List.mem_cons_of_mem _ hr')
        refine ⟨r.map some :: rs1, rs2, d, b', ?_, .cons hnext (hgoes _ List.mem_cons_self) hreads,
          hlast, ⟨hidle.buffer, hidle.window, hidle.codec.trans hcodec1,
            hidle.maxBody.trans hmax1⟩, hexpects'⟩
        rw [hrs]
        rfl

/-- However whole frames are cut, they are answered as expected. -/
theorem readPieces_stream {pieces : List Bytes} (hbuffer : b.buffer = [])
    (hstream : Frame.Stream b.maxBody pieces.flatten fs) (htakes : b.window.Takes fs w)
    (hexpects : b.Expects (payloads fs ++ more) rs) (hgoes : ∀ r ∈ rs, r.isLast = false) :
    ∃ rs1 rs2 b', rs = rs1 ++ rs2 ∧ b.readPieces pieces = (rs1, b') ∧ Idle b b' w ∧
      b'.Expects more rs2 := by
  obtain ⟨rs1, rs2, d, b', hrs, hreads, hlast, hidle, hexpects'⟩ :=
    reads_stream (b := b.feed pieces.flatten) hstream rfl
      (by rw [feed, hbuffer, List.nil_append]) htakes (hexpects.congr rfl rfl rfl) hgoes
  refine ⟨rs1, rs2, b', hrs, ?_, ⟨hidle.buffer, hidle.window, hidle.codec, hidle.maxBody⟩,
    hexpects'⟩
  exact decoder_patient.inPieces_eq (fun x h _ => decoder_refuses x h) (next_empty hbuffer) hreads
    hlast

theorem turn_send (b : BinaryEnd) (f : Frame) :
    b.turn (.send f) = ([], { b with window := windowSending b.window }) := by
  unfold turn windowSending
  obtain ⟨seq | seq, window⟩ := b.window.next <;> rfl

theorem turn_acknowledge (b : BinaryEnd) :
    b.turn .acknowledge = ([], { b with window := b.window.noteAck b.window.received }) := rfl

theorem turns_cons {b' : BinaryEnd} {t : Turn} {rs : List Decoding} (ts : List Turn)
    (h : b.turn t = (rs, b')) : turns (t :: ts) b = (rs ++ (turns ts b').1, (turns ts b').2) := by
  rw [turns, h]

/-- An end that expects some frames, and gets them in turns, is left with nothing. -/
theorem turns_brought {maxBody : Nat} {w w' : AckWindow} {ts : List Turn}
    (h : Brought maxBody w ts fs w') :
    ∀ {b : BinaryEnd} {rs : List Decoding}, b.maxBody = maxBody → b.window = w → b.buffer = [] →
      b.Expects (payloads fs) rs → (∀ r ∈ rs, r.isLast = false) →
      (turns ts b).1 = rs ∧ Idle b (turns ts b).2 w' ∧ (turns ts b).2.reassembler = {} := by
  induction h with
  | nil =>
    intro b rs _ hwindow hbuffer hexpects _
    obtain ⟨rfl, hfree⟩ := hexpects.of_nil
    exact ⟨rfl, ⟨hbuffer, hwindow, rfl, rfl⟩, hfree⟩
  | @read w w1 w' pieces ts fs fs' stream takes later ih =>
    intro b rs hmax hwindow hbuffer hexpects hgoes
    subst hmax hwindow
    rw [payloads_append] at hexpects
    obtain ⟨rs1, rs2, b1, rfl, hread, hidle, hexpects1⟩ :=
      readPieces_stream hbuffer stream takes hexpects hgoes
    obtain ⟨hanswers, hidle', hfree⟩ := ih hidle.maxBody hidle.window hidle.buffer hexpects1
      fun r hr => hgoes r (List.mem_append_right rs1 hr)
    rw [turns_cons (t := .read pieces) ts hread, hanswers]
    exact ⟨rfl, ⟨hidle'.buffer, hidle'.window, hidle'.codec.trans hidle.codec,
      hidle'.maxBody.trans hidle.maxBody⟩, hfree⟩
  | @send w w' f ts fs later ih =>
    intro b rs hmax hwindow hbuffer hexpects hgoes
    subst hwindow
    obtain ⟨hanswers, hidle, hfree⟩ := ih (b := { b with window := windowSending b.window }) hmax
      rfl hbuffer (hexpects.congr rfl rfl rfl) hgoes
    rw [turns_cons ts (turn_send b f), hanswers]
    exact ⟨rfl, ⟨hidle.buffer, hidle.window, hidle.codec, hidle.maxBody⟩, hfree⟩
  | @acknowledge w w' ts fs later ih =>
    intro b rs hmax hwindow hbuffer hexpects hgoes
    subst hwindow
    obtain ⟨hanswers, hidle, hfree⟩ :=
      ih (b := { b with window := b.window.noteAck b.window.received }) hmax rfl hbuffer
        (hexpects.congr rfl rfl rfl) hgoes
    rw [turns_cons ts (turn_acknowledge b), hanswers]
    exact ⟨rfl, ⟨hidle.buffer, hidle.window, hidle.codec, hidle.maxBody⟩, hfree⟩

theorem length_payloads (fs : List Frame) :
    (payloads fs).length = fs.countP (·.type.consumesCredit) := by
  rw [payloads, List.countP_eq_length_filter]
  congr 1
  exact List.filter_congr fun f _ => decide_not

/-- Messages that come to an end that is idle are answered one by one. -/
theorem turns_bundles {w' : AckWindow} {ts : List Turn} {ps : List Bundle} (hcodec : b.codec.Mild)
    (hbuffer : b.buffer = []) (hfree : b.reassembler = {})
    (hbrought : Brought b.maxBody b.window ts fs w')
    (hframes : payloads fs = ps.flatMap Bundle.frames) (heach : ∀ p ∈ ps, p.Delimited) :
    (turns ts b).1 = ps.map (Bundle.answer b.codec) ∧ Idle b (turns ts b).2 w' ∧
      (turns ts b).2.reassembler = {} := by
  refine turns_brought hbrought rfl rfl hbuffer ?_ fun r hr => ?_
  · rw [hframes]
    exact .between hfree heach
  · obtain ⟨p, hp, rfl⟩ := List.mem_map.mp hr
    exact (Bundle.answer_tells hcodec (heach p hp)).more

end BinaryEnd

/-! ## Errors -/

/-- What is wrong with a line or a message concerns it alone. Of lines that come whole and are not
too long, each that is not blank has one answer, the one that it has by itself. Of messages whose
frames are admitted, each has one answer, the one that it has by itself wherever it is admitted;
all their frames are counted, and no payload is left in progress. What can be used is told as a
message, and anything else is rejected or an error after which reading goes on. -/
theorem errors_stay_local :
    (∀ (maxLine : Nat) (chunks : List (List Bytes)),
      (∀ line ∈ chunks.flatten, LineDecoder.Delimited maxLine line) →
      LineDecoder.readPieces maxLine (chunks.map Bytes.ofLines) =
        chunks.flatten.filterMap LineDecoder.answer? ∧
      ∀ line ∈ chunks.flatten,
        LineDecoder.readPieces maxLine [Bytes.ofLines [line]] = (LineDecoder.answer? line).toList ∧
        (LineDecoder.answer? line = none ↔ line.trim = []) ∧
        ∀ r, LineDecoder.answer? line = some r → Decoding.Tells line.trim.UsableLine r) ∧
    ∀ (b : BinaryEnd) (ts : List BinaryEnd.Turn) (fs : List Frame) (w : AckWindow)
      (ps : List Bundle), b.codec.Mild → b.buffer = [] → b.reassembler = {} →
      BinaryEnd.Brought b.maxBody b.window ts fs w →
      BinaryEnd.payloads fs = ps.flatMap Bundle.frames → (∀ p ∈ ps, p.Delimited) →
      (BinaryEnd.turns ts b).1 = ps.map (Bundle.answer b.codec) ∧
      (BinaryEnd.turns ts b).2.buffer = [] ∧ (BinaryEnd.turns ts b).2.reassembler = {} ∧
      (BinaryEnd.turns ts b).2.window.received =
        b.window.received + (ps.flatMap Bundle.frames).length ∧
      ∀ p ∈ ps, Decoding.Tells (p.Usable b.codec) (p.answer b.codec) ∧
        ∀ (b' : BinaryEnd) (ts' : List BinaryEnd.Turn) (fs' : List Frame) (w' : AckWindow),
          b'.codec = b.codec → b'.buffer = [] → b'.reassembler = {} →
          BinaryEnd.Brought b'.maxBody b'.window ts' fs' w' →
          BinaryEnd.payloads fs' = p.frames →
          (BinaryEnd.turns ts' b').1 = [p.answer b.codec] := by
  constructor
  · intro maxLine chunks hlines
    have hread := LineDecoder.inPieces_lines maxLine chunks hlines
    refine ⟨congrArg Prod.fst hread, fun line hline => ⟨?_, LineDecoder.answer?_eq_none,
      fun r hr => LineDecoder.answer?_tells hr⟩⟩
    have halone := LineDecoder.inPieces_lines maxLine [[line]] fun l hl => by
      obtain rfl := List.mem_singleton.mp hl
      exact hlines l hline
    refine (congrArg Prod.fst halone).trans ?_
    cases hanswer : LineDecoder.answer? line with
    | none => exact List.filterMap_cons_none hanswer
    | some r => exact List.filterMap_cons_some hanswer
  · intro b ts fs w ps hcodec hbuffer hfree hbrought hframes heach
    obtain ⟨hanswers, hidle, hfree'⟩ :=
      BinaryEnd.turns_bundles hcodec hbuffer hfree hbrought hframes heach
    refine ⟨hanswers, hidle.buffer, hfree', ?_, fun p hp =>
      ⟨Bundle.answer_tells hcodec (heach p hp),
        fun b' ts' fs' w' hsame hbuffer' hfree' hbrought' hframes' => ?_⟩⟩
    · rw [hidle.window, hbrought.received_eq, ← BinaryEnd.length_payloads, hframes]
    · have halone : BinaryEnd.payloads fs' = [p].flatMap Bundle.frames := by
        rw [hframes', List.flatMap_singleton]
      have hone := (BinaryEnd.turns_bundles (hsame ▸ hcodec) hbuffer' hfree' hbrought' halone
        fun q hq => List.mem_singleton.mp hq ▸ heach p hp).1
      rw [hone, hsame]
      rfl

/-! ### Some that can be used and some that cannot -/

/-- The number of a message or a rejection, or the error. -/
def Decoding.brief : Decoding → Except FrameError (Option Nat)
  | .error e => .error e
  | .ok none => .ok none
  | .ok (some (.message m)) => .ok (some m.rid)
  | .ok (some (.rejected rid _)) => .ok (some rid)

/-- A ping, a line that is no JSON, a blank one, and a response. -/
def spoiltLines : List Bytes :=
  ["\x7b\x7d", "\x7bx", " ", " \x7b\x22rid\x22:7\x7d"].map Bytes.ofString

/-- A frame of unknown type, a request whose body is no JSON, and a response. The request comes in
two frames. -/
def spoiltBundles : List Bundle :=
  [{ first := { type := .unknown 0x55, rid := 0, headers := { seq := some 1 } } },
    { first :=
        { type := .request .set, rid := 4, headers := { seq := some 2, total := some 2 }
          body := Bytes.ofString "\x7b" }
      later :=
        [{ type := .request .set, rid := 4
           headers := { seq := some 3, total := some 2, continuation := true }
           body := Bytes.ofString "x" }] },
    { first :=
        { type := .response, rid := 7, headers := { seq := some 4 }
          body := Bytes.ofString "\x7b\x7d" } }]

/-- The other end has credit for two frames only. -/
def narrowEnd : BinaryEnd := ({ ackWindow := 2 } : LinkConfig).binaryEnd .json

/-- Two frames, an acknowledgement each way, and the others. -/
def spoiltTurns : List BinaryEnd.Turn :=
  let frames := spoiltBundles.flatMap Bundle.frames
  [.read ((frames.take 2).map Frame.encode), .acknowledge,
    .read ((({ type := .ack, rid := 0 } : Frame) :: frames.drop 2).map Frame.encode)]

theorem spoilt_answered :
    (LineDecoder.readPieces 256 [Bytes.ofLines spoiltLines]).map Decoding.brief =
      [.ok (some 0), .error .malformed, .ok (some 7)] ∧
    (BinaryEnd.turns spoiltTurns narrowEnd).1.map Decoding.brief =
      [.error (.unknownType 0x55), .error .malformed, .ok (some 7)] ∧
    (BinaryEnd.turns spoiltTurns narrowEnd).2.window.received = 4 := by
  obtain ⟨hlines, hframes⟩ := errors_stay_local
  have hdelimited : ∀ line ∈ [spoiltLines].flatten, LineDecoder.Delimited 256 line := by
    have hall : ∀ line ∈ spoiltLines, newline ∉ line ∧ line.trim.length ≤ 256 := by decide +kernel
    exact fun line hline => ⟨(hall line hline).1, (hall line hline).2⟩
  have hbrought : BinaryEnd.Brought 16384 narrowEnd.window spoiltTurns _ _ :=
    .read (.of_encode (by decide +kernel))
      (.cons ⟨by decide, by decide, fun _ => rfl, fun _ => .inl (by decide)⟩
        (.cons ⟨by decide, by decide, fun _ => rfl, fun _ => .inl (by decide)⟩ (.nil _)))
      (.acknowledge (.read (.of_encode (by decide +kernel))
        (.cons ⟨by decide, by decide, nofun, nofun⟩
          (.cons ⟨by decide, by decide, fun _ => rfl, fun _ => .inl (by decide)⟩
            (.cons ⟨by decide, by decide, fun _ => rfl, fun _ => .inl (by decide)⟩ (.nil _))))
        (.nil _)))
  have heach : ∀ p ∈ spoiltBundles, p.Delimited := by
    intro p hp
    simp only [spoiltBundles, List.mem_cons, List.not_mem_nil, or_false] at hp
    obtain rfl | rfl | rfl := hp
    · exact .unknown rfl
    · refine .split ⟨.inr ⟨_, rfl⟩, nofun, rfl, rfl, fun g hg => ?_, ?_⟩
      · obtain rfl := List.mem_singleton.mp hg
        exact ⟨rfl, rfl, rfl, rfl⟩
      · have hlengths : (Bytes.ofString "\x7b").length = 1 ∧ (Bytes.ofString "x").length = 1 := by
          decide +kernel
        simp [Bundle.Fills, hlengths]
    · exact .single (.inl rfl) rfl
  obtain ⟨hanswers, -, -, hreceived, -⟩ := hframes narrowEnd spoiltTurns _ _ spoiltBundles
    BodyCodec.json_mild rfl rfl hbrought (by decide +kernel) heach
  refine ⟨?_, ?_, hreceived.trans (by decide +kernel)⟩
  · obtain ⟨hread, -⟩ := hlines 256 [spoiltLines] hdelimited
    exact (congrArg (List.map Decoding.brief) hread).trans (by decide +kernel)
  · exact (congrArg (List.map Decoding.brief) hanswers).trans (by decide +kernel)

/-! ### A ping in two frames -/

def pingHead : Frame :=
  { type := .ping, rid := 3, headers := { seq := some 1, total := some 2 }, body := [0x61] }

def pingTail : Frame :=
  { type := .ping, rid := 3, headers := { seq := some 2, total := some 2, continuation := true }
    body := [0x62] }

/-- The members of a split payload make up a ping each if they are of that type. -/
theorem split_ping_answered_twice :
    pingHead.Continues 2 pingTail ∧ Bundle.Fills 2 pingHead.body.length [pingTail] ∧
    ∃ w, (({} : LinkConfig).binaryEnd .json).window.Takes [pingHead, pingTail] w ∧
    ((({} : LinkConfig).binaryEnd .json).readPieces
      [pingHead.encode, pingTail.encode]).1.map Decoding.brief = [.ok (some 0), .ok (some 0)] := by
  refine ⟨⟨rfl, rfl, rfl, rfl⟩, ⟨by decide, rfl⟩, _, .cons ?_ (.cons ?_ (.nil _)), ?_⟩
  · exact ⟨by decide, by decide, fun _ => rfl, fun _ => .inl (by decide)⟩
  · exact ⟨by decide, by decide, fun _ => rfl, fun _ => .inl (by decide)⟩
  · decide +kernel

end PeerLink
