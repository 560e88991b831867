import PeerLink.Proofs.EnvelopeJson
import PeerLink.Proofs.FrameLayout

/-! # Messages read back from frames

* `Message.read`: what a reader has of a message.
* `Message.Portable`: what has to hold of a message so that it can travel in frames: its numbers fit
  into words, the codec reads its body back, and a close request fits one frame.
* `Message.Sound`: besides, a close request says nothing but its number.
* `Inbound.ofFrame_headed`: the frame that carries the body of a message, with the headers of the
  message, is read as that message.
-/

namespace PeerLink
set_option autoImplicit false

open Json (Value)

/-! ## Bodies -/

/-- What was written reads back. A body of no bytes stands for no body, so there is at least one. -/
structure BodyCodec.RoundTrips (codec : BodyCodec) (v : Value) : Prop where
  some : codec.encode v ≠ []
  same : codec.decode (codec.encode v) = .ok v

namespace Envelope

theorem eq_empty_of_isEmpty {e : Envelope} (h : e.isEmpty = true) : e = {} := by
  obtain ⟨rid, method, path, params, value, permit, stream, updates, paths, sids, error⟩ := e
  simp only [isEmpty, Bool.and_eq_true, Option.isNone_iff_eq_none] at h
  simp [h]

theorem ofBody_bodyBytes {codec : BodyCodec} {e : Envelope} (hw : e.body.InWords)
    (hc : e.body.isEmpty = false → codec.RoundTrips e.body.toJson.sorted) :
    ofBody codec (e.bodyBytes codec) = .ok e.body.read := by
  unfold bodyBytes
  cases h : e.body.isEmpty with
  | true =>
    rw [eq_empty_of_isEmpty h]
    rfl
  | false =>
    have hne : (codec.encode e.body.toJson.sorted).isEmpty = false := by
      simpa using (hc h).some
    simp [ofBody, hne, (hc h).same, ofJson?_toJson hw]

end Envelope

/-! ## Qualities -/

/-- A quality that all entries share is put back into all of them. -/
theorem sharedQos_put_back {ps : List SubscribePath} {q : Nat} (h : sharedQos ps = some q)
    (hw : ∀ p ∈ ps, p.InWords) :
    ((ps.map fun p => { p with qos := 0 }).map
      fun p => { p with qos := (UInt8.ofNat q).toNat }) = ps := by
  have hall : ∀ p ∈ ps, p.qos = q ∧ q < 256 := by
    intro p hp
    cases ps with
    | nil => cases h
    | cons p0 ps =>
      simp only [sharedQos] at h
      split at h
      · cases h
      · rename_i hno
        have hq : p0.qos = q := Option.some.inj h
        simp only [List.any_eq_true, not_or, not_exists, not_and, decide_eq_true_eq, ne_eq,
          Decidable.not_not] at hno
        have hlt := (hw p0 List.mem_cons_self).qos
        exact ⟨(hno.2 p hp).trans hq, hq ▸ hlt⟩
  rw [List.map_map]
  conv_rhs => rw [← List.map_id ps]
  refine List.map_congr_left fun p hp => ?_
  obtain ⟨hq, hlt⟩ := hall p hp
  have hb : (UInt8.ofNat q).toNat = p.qos := by
    rw [UInt8.toNat_ofNat', hq]
    omega
  simp only [Function.comp_apply, hb, id_eq]

/-! ## Messages -/

/-- What a reader has of a request. -/
def Request.read (r : Request) : Request :=
  { r with params := r.params.bind Value.present, value := r.value.bind Value.present }

/-- What a reader has of a response. -/
def Response.read (r : Response) : Response := { r with updates := r.updates.map Value.sorted }

/-- What a reader has of a message: a value that is null counts as missing, and the members of
objects stand in order of their keys. -/
def Message.read : Message → Message
  | .request r => .request r.read
  | .response r => .response r.read
  | .ping => .ping

/-- The bytes of the body of a message. -/
def Message.bodyBytes (codec : BodyCodec) (m : Message) : Bytes :=
  (Envelope.ofMessage m).bodyBytes codec

structure Message.Sound (codec : BodyCodec) (m : Message) : Prop where
  words : (Envelope.ofMessage m).InWords
  length : (m.bodyBytes codec).length < 2 ^ 32
  codec : (Envelope.ofMessage m).body.isEmpty = false →
    codec.RoundTrips (Envelope.ofMessage m).body.toJson.sorted
  close : ∀ r, m = .request r → r.method = .close → r = .close r.rid

theorem Envelope.body_inWords {e : Envelope} (h : e.InWords) : e.body.InWords := by
  refine ⟨by simp [body], ?_, h.sids⟩
  intro ps hps p hp
  simp only [body, Option.map_eq_some_iff] at hps
  obtain ⟨ps0, h0, rfl⟩ := hps
  split at hp
  · obtain ⟨p0, hp0, rfl⟩ := List.mem_map.mp hp
    have h' := h.paths ps0 h0 p0 hp0
    exact ⟨h'.sid, Nat.zero_lt_succ 255⟩
  · exact h.paths ps0 h0 p hp

/-- The headers and the body together hold all entries of a batch. -/
theorem Envelope.paths_inFrame {e : Envelope} {f : Frame} (h : e.InWords)
    (hqos : f.headers.qos = e.headers.qos) : (e.body.read.inFrame f).paths = e.paths := by
  simp only [inFrame, read, hqos, headers, body]
  cases hp : e.paths with
  | none => rfl
  | some ps =>
    simp only [Option.bind_some, Option.map_some]
    cases hs : sharedQos ps with
    | none => simp
    | some q =>
      simp only [Option.map_some, Option.isSome_some, if_true]
      rw [sharedQos_put_back hs (h.paths ps hp)]

theorem getD_listed {α : Type} (xs : List α) : (Envelope.listed xs).getD [] = xs := by
  cases xs <;> rfl

theorem getD_map_listed {α β : Type} (f : α → β) (xs : List α) :
    ((Envelope.listed xs).map fun ys => ys.map f).getD [] = xs.map f := by
  cases xs <;> rfl

/-- The type of the frames of a message. -/
def Message.frameType : Message → FrameType
  | .request r => .request r.method
  | .response _ => .response
  | .ping => .ping

def Message.rid : Message → Nat
  | .request r => r.rid
  | .response r => r.rid
  | .ping => 0

/-- The frame of a message before its body is put in. -/
def Message.template (m : Message) : Frame :=
  { type := m.frameType, rid := m.rid, headers := (Envelope.ofMessage m).headers }

theorem Message.frames_eq_split (codec : BodyCodec) (maxBody : Nat) (m : Message) :
    m.frames codec maxBody = m.template.split (m.bodyBytes codec) maxBody := by
  cases m with
  | ping =>
    have h : (Message.ping.bodyBytes codec).length ≤ maxBody := Nat.zero_le maxBody
    rw [Frame.split, if_pos h]
    rfl
  | request r => rfl
  | response r => rfl

/-- A close request stands in one frame: a second one would end what the first has begun. -/
structure Message.Portable (codec : BodyCodec) (maxBody : Nat) (m : Message) : Prop where
  words : (Envelope.ofMessage m).InWords
  length : (m.bodyBytes codec).length < 2 ^ 32
  close : m.frameType = .request .close → (m.bodyBytes codec).length ≤ maxBody
  codec : (Envelope.ofMessage m).body.isEmpty = false →
    codec.RoundTrips (Envelope.ofMessage m).body.toJson.sorted

theorem Message.Sound.bodyBytes_close {codec : BodyCodec} {m : Message} (hm : m.Sound codec)
    (h : m.frameType = .request .close) : m.bodyBytes codec = [] := by
  cases m with
  | ping => cases h
  | response r => cases h
  | request r =>
    rw [hm.close r rfl (FrameType.request.inj h)]
    rfl

theorem Message.Sound.portable {codec : BodyCodec} {m : Message} (hm : m.Sound codec)
    (maxBody : Nat) : m.Portable codec maxBody where
  words := hm.words
  length := hm.length
  codec := hm.codec
  close := by
    intro h
    rw [hm.bodyBytes_close h]
    exact Nat.zero_le maxBody

/-- A frame says of its message what the headers can say. -/
structure Frame.HeadedBy (f : Frame) (m : Message) : Prop where
  type : f.type = m.frameType
  rid : f.rid = m.rid
  path : f.headers.path = (Envelope.ofMessage m).headers.path
  permit : f.headers.permit = (Envelope.ofMessage m).headers.permit
  status : f.headers.status = (Envelope.ofMessage m).headers.status
  qos : f.headers.qos = (Envelope.ofMessage m).headers.qos

theorem Frame.HeadedBy.withBody {f : Frame} {m : Message} (h : f.HeadedBy m) (body : Bytes) :
    ({ f with body } : Frame).HeadedBy m :=
  ⟨h.type, h.rid, h.path, h.permit, h.status, h.qos⟩

/-- A frame with the headers of a message and its whole body is read as the message. -/
theorem Inbound.ofFrame_headed {codec : BodyCodec} {m : Message} {f : Frame}
    (hwords : (Envelope.ofMessage m).InWords)
    (hcodec : (Envelope.ofMessage m).body.isEmpty = false →
      codec.RoundTrips (Envelope.ofMessage m).body.toJson.sorted)
    (hping : m ≠ .ping) (hf : f.HeadedBy m) (hbody : f.body = m.bodyBytes codec) :
    Inbound.ofFrame codec f = .ok (.message m.read) := by
  obtain ⟨htype, hrid, hpath, hpermit, hstatus, hqos⟩ := hf
  have hpaths := Envelope.paths_inFrame hwords hqos
  have hread := Envelope.ofBody_bodyBytes (Envelope.body_inWords hwords) hcodec
  rw [Inbound.ofFrame, hbody, Message.bodyBytes, hread]
  change ((Envelope.ofMessage m).body.read.inFrame f).toInbound = _
  cases m with
  | ping => exact absurd rfl hping
  | request r =>
    simp only [Message.frameType] at htype
    have hmethod : (((Envelope.ofMessage (.request r)).body.read).inFrame f).method =
        some r.method.name := by rw [Envelope.inFrame, htype]
    have hrid' : (((Envelope.ofMessage (.request r)).body.read).inFrame f).rid = some r.rid := by
      rw [Envelope.inFrame, hrid]
      rfl
    rw [Envelope.toInbound, hrid', hmethod, hpaths]
    simp [Envelope.isEmpty, Method.parse_name, Envelope.inFrame, Envelope.read,
      Envelope.ofMessage, Envelope.body, Envelope.headers, hpath, hpermit, Message.read,
      Request.read, getD_listed]
  | response r =>
    simp only [Message.frameType] at htype
    have hmethod : (((Envelope.ofMessage (.response r)).body.read).inFrame f).method = none := by
      rw [Envelope.inFrame, htype]
      rfl
    have hrid' : (((Envelope.ofMessage (.response r)).body.read).inFrame f).rid = some r.rid := by
      rw [Envelope.inFrame, hrid]
      rfl
    rw [Envelope.toInbound, hrid', hmethod]
    simp [Envelope.isEmpty, Envelope.inFrame, Envelope.read, Envelope.ofMessage,
      Envelope.body, Envelope.headers, hstatus, Message.read, Response.read, getD_map_listed]

end PeerLink
