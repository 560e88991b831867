import PeerLink.Proofs.FramePieces
import PeerLink.Proofs.LineLimits
import PeerLink.Proofs.LinkLimits
import PeerLink.Proofs.LinkStall
import PeerLink.Proofs.RoundTrip

/-! # What a reader with the same settings refuses

* `LinkConfig.exchange_refuses_line`: a line that is too long is refused.
* `Message.Sendable.of_path`: a message whose path is not too long can be sent in frames.
* `LinkConfig.exchange_refuses`: headers that are too long are refused.
* `LinkConfig.refuses_only_overlong`: only what is too long is refused, over either form of link.
-/

namespace PeerLink
set_option autoImplicit false

/-! ## Lines -/

namespace Json.Value

theorem length_le_flatMap {α β : Type} {f : α → List β} (h : ∀ a, 1 ≤ (f a).length) :
    ∀ as : List α, as.length ≤ (as.flatMap f).length
  | [] => Nat.le_refl 0
  | a :: as => by
    have hfirst := h a
    have hrest := length_le_flatMap h as
    rw [List.length_cons, List.flatMap_cons, List.length_append]
    omega

theorem length_escapeChar (c : Char) : 1 ≤ (escapeChar c).length := by
  unfold escapeChar
  split_ifs <;> exact Nat.succ_le_succ (Nat.zero_le _)

theorem length_le_quote (s : String) : s.toList.length ≤ (quote s).length := by
  have hbody := length_le_flatMap length_escapeChar s.toList
  rw [quote, List.length_append, List.length_cons]
  omega

theorem length_le_memberChars {k : String} {v : Value} : ∀ {ms : List (String × Value)},
    (k, v) ∈ ms → v.chars.length ≤ (memberChars ms).length
  | [], h => absurd h List.not_mem_nil
  | [(k', v')], h => by
    obtain ⟨rfl, rfl⟩ := Prod.mk.inj (List.mem_singleton.mp h)
    simp only [memberChars, List.length_append, List.length_cons]
    omega
  | (k', v') :: m :: ms, h => by
    simp only [memberChars, List.length_append, List.length_cons]
    obtain heq | hlater := List.mem_cons.mp h
    · obtain ⟨rfl, rfl⟩ := Prod.mk.inj heq
      omega
    · have hrest := length_le_memberChars hlater
      omega

theorem length_chars_le (v : Value) : v.chars.length ≤ v.bytes.length := by
  rw [bytes_eq_flatMap]
  refine length_le_flatMap (fun c => ?_) v.chars
  rw [String.length_utf8EncodeChar]
  exact c.utf8Size_pos

end Json.Value

/-- A line is longer than the path in it. -/
theorem Message.length_path_lt {m : Message} {p : String}
    (hp : (Envelope.ofMessage m).path = some p) : p.toList.length < m.document.length := by
  obtain ⟨ms, hobject, hmember⟩ : ∃ ms, (Envelope.ofMessage m).toJson = .obj ms ∧
      ("path", Json.Value.str p) ∈ ms := by
    refine ⟨_, rfl, ?_⟩
    simp only [optionalMember, hp, List.mem_append, List.mem_singleton, true_or, or_true]
  have hquote := Json.Value.length_le_quote p
  have hmembers := Json.Value.length_le_memberChars hmember
  have hbytes := (Envelope.ofMessage m).toJson.length_chars_le
  rw [hobject] at hbytes
  simp only [Json.Value.chars, List.length_append, List.length_cons] at hmembers hbytes
  rw [document, hobject]
  omega

namespace LinkConfig

variable {c : LinkConfig} {codec : BodyCodec} {m : Message}

theorem exchange_refuses_line (hc : c.protocol = .v1) (hlong : c.maxLine < m.document.length) :
    c.exchange codec m = [.error (.tooLarge m.document.length c.maxLine)] := by
  have hbuf : ({ maxLine := c.maxLine, buffer := m.line } : LineDecoder).buffer =
      [m].flatMap Message.line := (List.flatMap_singleton _ _).symm
  have hnext := LineDecoder.next_of_stream hbuf
  rw [if_pos hlong] at hnext
  rw [exchange, pump_line hc, feed_line hc, Framer.drain, Decoding.drainFor, Framer.next_text,
    hnext]
  rfl

end LinkConfig

/-! ## Headers -/

theorem Headers.length_field_le {tag : UInt8} {value : Bytes} {k : Nat} (h : value.length ≤ k)
    (hk : k < 128) : (field tag value).length ≤ k + 2 := by
  have hlen := Varint.length_encode_le 1 value.length (by omega) Nat.one_pos
  simp only [field, List.length_cons, List.length_append]
  omega

theorem Headers.length_optionalField_le {α : Type} (tag : UInt8) (a : Option α)
    (write : α → Bytes) (k : Nat) (h : ∀ x, a = some x → (write x).length ≤ k) (hk : k < 128) :
    (optionalField tag a write).length ≤ k + 2 := by
  cases a with
  | none => exact Nat.zero_le _
  | some x => exact length_field_le (h x rfl) hk

/-- Headers are short but for the path. -/
theorem Headers.length_encode_le {h : Headers}
    (hpath : ∀ p, h.path = some p → (Bytes.ofString p).length ≤ 65500)
    (hseq : ∀ n, h.seq = some n → n ≤ 2 ^ 32) (htotal : ∀ n, h.total = some n → n < 2 ^ 32) :
    h.encode.length ≤ Frame.maxHeaders := by
  have hword : ∀ n, n ≤ 2 ^ 32 → (Varint.encode n).length ≤ 5 := fun n hn =>
    Varint.length_encode_le 5 n (Nat.lt_of_le_of_lt hn (by decide)) (by decide)
  have hpathField : (optionalField pathTag h.path Bytes.ofString).length ≤ 65504 := by
    cases hp : h.path with
    | none => exact Nat.zero_le _
    | some p =>
      have hlen := hpath p hp
      have hwide := Varint.length_encode_le 3 (Bytes.ofString p).length (by omega) (by decide)
      simp only [optionalField, field, List.length_cons, List.length_append]
      omega
  have hqos := length_optionalField_le qosTag h.qos (fun q => [q]) 1
    (fun _ _ => Nat.le_refl 1) (by decide)
  have hstatus := length_optionalField_le statusTag h.status (fun s => [statusByte s]) 1
    (fun _ _ => Nat.le_refl 1) (by decide)
  have hpermit := length_optionalField_le permitTag h.permit (fun p => [UInt8.ofNat p.code]) 1
    (fun _ _ => Nat.le_refl 1) (by decide)
  have hseqField := length_optionalField_le seqTag h.seq Varint.encode 5
    (fun n hn => hword n (hseq n hn)) (by decide)
  have htotalField := length_optionalField_le totalTag h.total Varint.encode 5
    (fun n hn => hword n (Nat.le_of_lt (htotal n hn))) (by decide)
  have hlast : (if h.continuation then field continuationTag [] else []).length ≤ 2 := by
    split
    · exact length_field_le (k := 0) (Nat.le_refl 0) (by decide)
    · exact Nat.zero_le 2
  rw [Frame.maxHeaders, encode]
  simp only [List.length_append]
  omega

/-- A path of up to 65500 bytes leaves room for all other headers. -/
theorem Message.Sendable.of_path {codec : BodyCodec} {maxBody : Nat} {m : Message}
    (hmax : 0 < maxBody) (rid : m.rid < 2 ^ 32) (length : (m.bodyBytes codec).length < 2 ^ 32)
    (path : ∀ p, (Envelope.ofMessage m).path = some p → (Bytes.ofString p).length ≤ 65500)
    (close : ∀ r, m = .request r → r.method = .close → r = .close r.rid) :
    m.Sendable codec maxBody := by
  refine ⟨rid, length, fun f hf n hn => ?_, close⟩
  have htotal : ∀ k, f.headers.total = some k → k < 2 ^ 32 := by
    rw [Message.frames_eq_split] at hf
    exact (Frame.split_mem hf rfl).2.2
  refine Headers.length_encode_le (fun p hp => ?_) (fun k hk => Option.some.inj hk ▸ hn) htotal
  change f.headers.path = some p at hp
  obtain ⟨-, hframes⟩ | ⟨first, later, -, hframes⟩ := Message.frames_cases hmax length
  · rw [hframes, List.mem_singleton] at hf
    rw [hf] at hp
    exact path p hp
  · rw [hframes, List.mem_cons, List.mem_map] at hf
    obtain rfl | ⟨c, -, rfl⟩ := hf
    · exact path p hp
    · cases hp

/-! ## Own limits -/

theorem Writer.pump_head {b : BinaryEnd} {m : Message} {f : Frame} {fs : List Frame}
    (hreceived : b.window.received = 0) (hseq : b.window.nextSeq = 1)
    (hcredit : 1 ≤ b.window.sendLimit) (hframes : m.frames b.codec b.maxBody = f :: fs) :
    ∃ rest, (pump { queue := [m] } b).1 = (f.stamped 0 (some 1)).encode ++ rest := by
  have hwork : ∃ fuel, work { queue := [m] } b = fuel + 1 + 1 := ⟨_, rfl⟩
  obtain ⟨fuel, hfuel⟩ := hwork
  have hsend := step_send f fs (b := { b with closed := b.closed ++ m.closing?.toList })
    (hseq ▸ hcredit)
  rw [pump, hfuel, Link.pumpFor_of_some (step_begin m b), hframes, Link.pumpFor_of_some hsend,
    List.nil_append, hreceived, hseq]
  exact ⟨_, rfl⟩

namespace LinkConfig

theorem pump_lines {c : LinkConfig} (codec : BodyCodec) (hc : c.protocol = .v1)
    (ms : List Message) :
    (ms.foldl Framer.push (Framer.ofConfig c codec)).pump.1 = ms.flatMap Message.line := by
  have hpushed : ∀ (ms : List Message) (f : Framer), (ms.foldl Framer.push f).wire = f.wire ∧
      (ms.foldl Framer.push f).writer.queue = f.writer.queue ++ ms := by
    intro ms
    induction ms with
    | nil => exact fun f => ⟨rfl, (List.append_nil _).symm⟩
    | cons m ms ih =>
      intro f
      obtain ⟨hwire, hqueue⟩ := ih (f.push m)
      refine ⟨hwire, ?_⟩
      rw [List.foldl_cons, hqueue]
      simp only [Framer.push, Writer.push, List.append_assoc, List.singleton_append]
  obtain ⟨hwire, hqueue⟩ := hpushed ms (Framer.ofConfig c codec)
  have htext : (Framer.ofConfig c codec).wire = .text { maxLine := c.maxLine } := by
    rw [Framer.ofConfig, hc]
  have hempty : (Framer.ofConfig c codec).writer.queue = [] := by
    rw [Framer.ofConfig, hc]
  rw [htext] at hwire
  rw [hempty, List.nil_append] at hqueue
  rw [Framer.pump, hwire]
  dsimp only
  rw [hqueue]

theorem exchange_refuses {c : LinkConfig} {codec : BodyCodec} {m : Message} {f : Frame}
    {fs : List Frame} (hc : c.protocol = .v2) (hframes : m.frames codec c.maxFrameSize = f :: fs)
    (hwords : (f.stamped 0 (some 1)).InWords)
    (hlong : Frame.maxHeaders < (f.stamped 0 (some 1)).headers.encode.length) :
    ∃ e, e.isFatal = true ∧ c.exchange codec m = [.error e] := by
  have hcredit : 1 ≤ (c.binaryEnd codec).window.sendLimit := by
    change 1 ≤ min (0 + max c.ackWindow 1) AckWindow.maxSeq
    rw [AckWindow.maxSeq]
    omega
  obtain ⟨rest, hpump⟩ := Writer.pump_head (b := c.binaryEnd codec) rfl rfl hcredit hframes
  have hunfit : ¬ (f.stamped 0 (some 1)).Fits c.maxFrameSize :=
    fun hfits => absurd hfits.headers (Nat.not_le.mpr hlong)
  obtain ⟨e, hdecode⟩ := Frame.decode_encode_append_of_not_fits hwords hunfit rest
  have hfatal := Frame.decode_fatal hdecode
  have hsent : ((Framer.ofConfig c codec).push m).pump.1 =
      (f.stamped 0 (some 1)).encode ++ rest := by
    rw [Framer.ofConfig_binaryEnd codec hc]
    exact hpump
  obtain ⟨b, hb⟩ : ∃ b, b = (c.binaryEnd codec).feed ((f.stamped 0 (some 1)).encode ++ rest) :=
    ⟨_, rfl⟩
  have hfed : (Framer.ofConfig c codec).feed ((f.stamped 0 (some 1)).encode ++ rest) =
      { wire := .binary b } := by
    rw [Framer.ofConfig_binaryEnd codec hc, hb]
    rfl
  have hnext : b.next = (.error e, b) := by
    have hfront : Frame.decode b.maxBody b.buffer = .error e := by
      rw [hb]
      exact hdecode
    rw [BinaryEnd.next_eq, hfront]
  refine ⟨e, hfatal, ?_⟩
  rw [exchange, hsent, hfed, Framer.drain, Decoding.drainFor, Framer.next_binary, hnext]
  simp only [Decoding.isLast, hfatal, if_true]

/-- What a writer sends is refused by a reader with the same settings only if a line is too long, or
the headers of a frame are, or a body is too long for its length to be told. A line or headers that
are too long are always refused. -/
theorem refuses_only_overlong (c : LinkConfig) (codec : BodyCodec) (hc : c.check = .ok ()) :
    (c.protocol = .v1 → ∀ (ms : List Message) (cs : List Bytes) (later : Bytes),
      cs.flatten ++ later = (ms.foldl Framer.push (Framer.ofConfig c codec)).pump.1 →
      (Decoding.failed (LineDecoder.readPieces c.maxLine cs) = true →
        ∃ m ∈ ms, c.maxLine < m.document.length) ∧
      (later = [] → (∃ m ∈ ms, c.maxLine < m.document.length) →
        Decoding.failed (LineDecoder.readPieces c.maxLine cs) = true)) ∧
    (codec.Mild → ∀ l,
      Link.Reachable (Link.Sends codec c.maxFrameSize)
        (Link.ofConfigs (fun _ => c) fun _ => codec) l →
      ∀ s, ∀ r ∈ (l.log s).answers, r.Mild) ∧
    (c.protocol = .v2 → ∀ (m : Message) (f : Frame) (fs : List Frame), m.rid < 2 ^ 32 →
      m.Splits codec c.maxFrameSize → m.frames codec c.maxFrameSize = f :: fs →
      Frame.maxHeaders < (f.stamped 0 (some 1)).headers.encode.length →
      (f.stamped 0 (some 1)).headers.encode.length < 2 ^ 64 →
      ∃ e, e.isFatal = true ∧ c.exchange codec m = [.error e]) := by
  have hpos := Link.pos_of_check hc
  refine ⟨fun hv1 ms cs later h => ?_, fun hcodec l h s => ?_,
    fun hv2 m f fs hrid hsplits hframes hlong hwide => ?_⟩
  · rw [pump_lines codec hv1] at h
    exact LineDecoder.refuses_iff c.maxLine h
  · obtain ⟨fl, htame⟩ := Link.tame_of_reachable hpos hcodec h
    exact htame.mild s
  · have hbare := hsplits.bare hrid hpos f (hframes ▸ List.mem_cons_self)
    exact exchange_refuses hv2 hframes
      (hbare.plain.inWords_stamped (Nat.two_pow_pos 32) (by decide) hwide) hlong

/-- Lines of up to 256 bytes. -/
def smallLines : LinkConfig := { maxFrameSize := 16 }

/-- A request whose path alone is longer than that. -/
def longListing : Message :=
  .request
    { rid := 1, method := .list, path := some (String.ofList ('/' :: List.replicate 300 'a')) }

theorem longListing_overlong : smallLines.maxLine < longListing.document.length := by
  have hpath := Message.length_path_lt (m := longListing) rfl
  have hlimit : smallLines.maxLine = 256 := by decide
  rw [String.toList_ofList, List.length_cons, List.length_replicate] at hpath
  omega

/-- It is written, and the reader of the same link gives up. -/
theorem refuses_own_listing :
    smallLines.check = .ok () ∧ ∃ e, e.isFatal = true ∧
      smallLines.exchange .json longListing = [.error e] :=
  ⟨rfl, _, rfl, exchange_refuses_line rfl longListing_overlong⟩

end LinkConfig

namespace Link

theorem Allows.sends {codec : BodyCodec} {maxBody : Nat} : ∀ {l : Link} (ms : List Move),
    (∀ s m, .queue s m ∈ ms → m.Sendable codec maxBody) → Allows (Sends codec maxBody) l ms
  | _, [], _ => trivial
  | _, move :: ms, h =>
    ⟨fun s m hm => h s m (hm ▸ List.mem_cons_self),
      Allows.sends ms fun s m hm => h s m (List.mem_cons_of_mem move hm)⟩

theorem reachable_raced_sends :
    Reachable (Sends .json raceConfig.maxFrameSize)
      (ofConfigs (fun _ => raceConfig) fun _ => .json) raced := by
  refine Reachable.start.foldl race (Allows.sends race fun s m hm => ?_)
  have hpos : 0 < raceConfig.maxFrameSize := by decide
  simp only [race, List.mem_cons, Move.queue.injEq, reduceCtorEq, false_or, or_false,
    List.not_mem_nil] at hm
  obtain ⟨-, rfl⟩ | ⟨-, rfl⟩ | ⟨-, rfl⟩ := hm
  · refine .of_path hpos (by decide) twoFrames_sound.length (fun p hp => ?_) fun r hr => ?_
    · cases hp
    · cases hr
  · refine .of_path hpos (by decide) (by decide) (fun p hp => ?_) fun r hr => ?_
    · cases hp
    · cases hr
  · refine .of_path hpos (by decide) (by decide) (fun p hp => ?_) fun r hr _ => ?_
    · cases hp
    · exact Message.request.inj hr ▸ rfl

end Link

namespace LinkConfig

/-- An overlong line, and a link over which messages go in lines of no kind. -/
theorem refuses_only_overlong_listing :
    smallLines.check = .ok () ∧ Link.raceConfig.check = .ok () ∧
    Decoding.failed (LineDecoder.readPieces smallLines.maxLine [longListing.line]) = true ∧
    (Link.raced.log .a).answers.length = 2 ∧ ∀ r ∈ (Link.raced.log .a).answers, r.Mild := by
  obtain ⟨hlines, -, -⟩ := refuses_only_overlong smallLines .json rfl
  obtain ⟨-, hframes, -⟩ := refuses_only_overlong Link.raceConfig .json rfl
  refine ⟨rfl, rfl, ?_, by decide +kernel,
    hframes BodyCodec.json_mild _ Link.reachable_raced_sends .a⟩
  obtain ⟨-, hfails⟩ := hlines rfl [longListing] [longListing.line] []
    (by rw [pump_lines .json rfl]; simp)
  exact hfails rfl ⟨longListing, List.mem_singleton_self _, longListing_overlong⟩

end LinkConfig
end PeerLink
