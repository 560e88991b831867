import PeerLink.Proofs.Tables
import PeerLink.Proofs.WireRuns

/-! # Answers and their frames

What an end answers is made of a whole frame: one that came alone, or the first member of a split
payload with the bytes of all.

* `Frame.Says`: what the answer has to be. Number, method, path, permission and stream state are
  those of the headers. Only the method of a response is looked for in its body.
* `Reassembler.BegunIn`: what is in progress was begun by a frame that was taken.
* `Sender.answers_from_frames`: whatever comes, each answer is what its frame says.
-/

namespace PeerLink
set_option autoImplicit false

open Note

/-! ## Whole frames -/

/-- Frames of this type carry messages. -/
def FrameType.Carries (t : FrameType) : Prop := t = .response ∨ ∃ m, t = .request m

/-- A codec whose errors spoil only the body that they are in. -/
def BodyCodec.Mild (codec : BodyCodec) : Prop :=
  ∀ bs e, codec.decode bs = .error e → e.isFatal = false

theorem BodyCodec.json_mild : BodyCodec.json.Mild := by
  intro bs e h
  simp only [json] at h
  split at h <;> cases h
  rfl

/-- The answer is an error in the body of the frame, and what follows can be read. -/
def Frame.Refused (codec : BodyCodec) (f : Frame) (r : Decoding) : Prop :=
  ∃ e, r = .error e ∧ (e = .malformed ∨ codec.decode f.body = .error e) ∧
    (codec.Mild → e.isFatal = false)

/-- A request with the number, path and permission of a frame. -/
structure Request.Under (f : Frame) (m : Method) (q : Request) : Prop where
  method : q.method = m
  rid : q.rid = f.rid
  path : q.path = f.headers.path
  permit : q.permit = f.headers.permit

/-- What the answer to a whole frame has to be. -/
structure Frame.Says (codec : BodyCodec) (f : Frame) (r : Decoding) : Prop where
  type : f.type.Carries
  request : ∀ m, f.type = .request m →
    f.Refused codec r ∨ ∃ q, r = .ok (some (.message (.request q))) ∧ q.Under f m
  response : f.type = .response →
    (∀ e, Envelope.ofBody codec f.body = .ok e → e.method = none) →
    f.Refused codec r ∨ ∃ q : Response, r = .ok (some (.message (.response q))) ∧
      q.rid = f.rid ∧ q.stream = f.headers.status
  /-- A method in the body of a response is taken for that of a request. -/
  misled : ∀ e name, f.type = .response → Envelope.ofBody codec f.body = .ok e →
    e.method = some name →
    (∃ err, Method.parse name = .error err ∧ r = .ok (some (.rejected f.rid err))) ∨
      ∃ m q, Method.parse name = .ok m ∧ r = .ok (some (.message (.request q))) ∧ q.Under f m

theorem Envelope.ofBody_error {codec : BodyCodec} {body : Bytes} {e : FrameError}
    (h : ofBody codec body = .error e) : e = .malformed ∨ codec.decode body = .error e := by
  unfold ofBody at h
  split_ifs at h
  split at h
  · rename_i hd
    cases h
    exact .inr hd
  · split at h <;> cases h
    exact .inl rfl

theorem Envelope.toInbound_of_rid {e : Envelope} {rid : Nat} (h : e.rid = some rid) :
    e.toInbound =
      match e.method with
      | none => .ok (.message (.response
          { rid, stream := e.stream, updates := e.updates.getD [], error := e.error }))
      | some name =>
        match Method.parse name with
        | .error err => .ok (.rejected rid err)
        | .ok method => .ok (.message (.request
            { rid, method, path := e.path, params := e.params, value := e.value,
              permit := e.permit, paths := e.paths.getD [], sids := e.sids.getD [] })) := by
  cases e
  cases h
  rfl

theorem Frame.says_ofFrame {codec : BodyCodec} {f : Frame} (htype : f.type.Carries) :
    f.Says codec ((Inbound.ofFrame codec f).map some) := by
  unfold Inbound.ofFrame
  cases hbody : Envelope.ofBody codec f.body with
  | error e =>
    have hwhy := Envelope.ofBody_error hbody
    have hrefused : f.Refused codec (.error e) := by
      refine ⟨e, rfl, hwhy, fun hcodec => ?_⟩
      obtain rfl | hdecode := hwhy
      · rfl
      · exact hcodec f.body e hdecode
    exact ⟨htype, fun _ _ => .inl hrefused, fun _ _ => .inl hrefused,
      fun _ _ _ h _ => absurd (hbody.symm.trans h) nofun⟩
  | ok e =>
    have hrid : (e.inFrame f).rid = some f.rid := rfl
    have hinbound := Envelope.toInbound_of_rid hrid
    refine ⟨htype, fun m hm => .inr ?_, fun hf hnone => .inr ?_, fun e' name hf he hname => ?_⟩
    · have hmethod : (e.inFrame f).method = some m.name := by rw [Envelope.inFrame, hm]
      simp only [hinbound, hmethod, Method.parse_name]
      exact ⟨_, rfl, rfl, rfl, rfl, rfl⟩
    · have hmethod : (e.inFrame f).method = none := by
        rw [Envelope.inFrame, hf]
        exact hnone e hbody
      simp only [hinbound, hmethod]
      exact ⟨_, rfl, rfl, rfl⟩
    · cases hbody.symm.trans he
      have hmethod : (e.inFrame f).method = some name := by
        rw [Envelope.inFrame, hf]
        exact hname
      simp only [hinbound, hmethod]
      cases hparse : Method.parse name with
      | error err => exact .inl ⟨err, rfl, rfl⟩
      | ok m => exact .inr ⟨m, _, rfl, rfl, rfl, rfl, rfl, rfl⟩

/-! ## Payloads in progress -/

/-- A whole frame has the headers of the frame that began it. -/
structure Frame.Begins (g whole : Frame) : Prop where
  type : whole.type = g.type
  rid : whole.rid = g.rid
  path : whole.headers.path = g.headers.path
  permit : whole.headers.permit = g.headers.permit
  status : whole.headers.status = g.headers.status
  qos : whole.headers.qos = g.headers.qos

theorem Frame.Begins.refl (g : Frame) : g.Begins g := ⟨rfl, rfl, rfl, rfl, rfl, rfl⟩

theorem Frame.Begins.withBody {g whole : Frame} (h : g.Begins whole) (body : Bytes) :
    g.Begins { whole with body } := ⟨h.type, h.rid, h.path, h.permit, h.status, h.qos⟩

theorem Assembly.begins_finish {g : Frame} {a : Assembly} (h : g.Begins a.primary) :
    g.Begins a.finish := ⟨h.type, h.rid, h.path, h.permit, h.status, h.qos⟩

theorem Assembly.primary_extend (a : Assembly) (c : Bytes) :
    ∃ body, (a.extend c).primary = { a.primary with body } := by
  unfold extend
  split
  · exact ⟨a.primary.body, rfl⟩
  · exact ⟨a.primary.body ++ c, rfl⟩

namespace Reassembler

/-- One of the frames has begun each payload in progress, which stands under its own number. -/
def BegunIn (gs : List Frame) (r : Reassembler) : Prop :=
  ∀ k a, r.assemblies.get? k = some a →
    a.primary.assemblyKey = k ∧ a.primary.type.Carries ∧ ∃ g ∈ gs, g.Begins a.primary

variable {r : Reassembler} {gs : List Frame}

theorem BegunIn.more (h : r.BegunIn gs) (gs' : List Frame) : r.BegunIn (gs ++ gs') := by
  intro k a hk
  obtain ⟨hkey, htype, g, hg, hbegins⟩ := h k a hk
  exact ⟨hkey, htype, g, List.mem_append_left gs' hg, hbegins⟩

/-- Taking bytes out, or putting some in, leaves the headers alone. -/
theorem BegunIn.modify (h : r.BegunIn gs) (key : AssemblyKey) {f : Assembly → Assembly}
    (hf : ∀ a, r.assemblies.get? key = some a → ∃ body, (f a).primary = { a.primary with body }) :
    BegunIn gs ⟨r.assemblies.modify key f⟩ := by
  intro k a hk
  rw [Table.get?_modify] at hk
  split_ifs at hk with hkey
  · obtain ⟨a0, h0, rfl⟩ := Option.map_eq_some_iff.mp hk
    obtain ⟨body, hbody⟩ := hf a0 (hkey ▸ h0)
    obtain ⟨hk0, htype, g, hg, hbegins⟩ := h k a0 h0
    rw [hbody]
    exact ⟨hk0, htype, g, hg, hbegins.withBody body⟩
  · exact h k a hk

theorem BegunIn.discard (h : r.BegunIn gs) (key : AssemblyKey) : (r.discard key).BegunIn gs :=
  fun k a hk => h k a (Table.get?_erase_eq_some.mp hk).2

theorem BegunIn.abandonAll (h : r.BegunIn gs) (closed : List Nat) :
    (closed.foldl (fun r rid => r.abandon ⟨false, rid⟩) r).BegunIn gs := by
  induction closed generalizing r with
  | nil => exact h
  | cons rid closed ih => exact ih (h.modify ⟨false, rid⟩ fun _ _ => ⟨[], rfl⟩)

/-- The last of the frames completes a whole one that one of them has begun. -/
def Completed (gs : List Frame) (f whole : Frame) : Prop :=
  whole.assemblyKey = f.assemblyKey ∧ whole.type.Carries ∧ ∃ g ∈ gs ++ [f], g.Begins whole

variable {f : Frame}

theorem BegunIn.pushContinuation (h : r.BegunIn gs) (f : Frame) :
    (r.pushContinuation f).2.BegunIn gs ∧
      ∀ whole, (r.pushContinuation f).1 = .ok (some whole) → Completed gs f whole := by
  unfold Reassembler.pushContinuation
  dsimp only
  split
  · refine ⟨h, fun whole hwhole => ?_⟩
    cases hwhole
  · rename_i a ha
    obtain ⟨body, hbody⟩ := a.primary_extend f.body
    split_ifs
    · refine ⟨h, fun whole hwhole => ?_⟩
      cases hwhole
    · refine ⟨h, fun whole hwhole => ?_⟩
      cases hwhole
    · refine ⟨h.discard f.assemblyKey, fun whole hwhole => ?_⟩
      cases hwhole
    · refine ⟨h.discard f.assemblyKey, fun whole hwhole => ?_⟩
      cases hwhole
      obtain ⟨hkey, htype, g, hg, hbegins⟩ := h _ a ha
      have hbegins' : g.Begins (a.extend f.body).primary := by
        rw [hbody]
        exact hbegins.withBody body
      refine ⟨?_, ?_, g, List.mem_append_left [f] hg, Assembly.begins_finish hbegins'⟩
      · rw [← hkey]
        simp only [Assembly.finish, Frame.assemblyKey, hbody]
      · simpa only [Assembly.finish, hbody] using htype
    · refine ⟨h.modify f.assemblyKey fun a' ha' => ?_, fun whole hwhole => ?_⟩
      · cases ha.symm.trans ha'
        exact ⟨body, hbody⟩
      · cases hwhole

theorem BegunIn.insert (h : r.BegunIn gs) (hf : f.type.Carries) (total received : Nat) :
    BegunIn (gs ++ [f]) ⟨r.assemblies.insert f.assemblyKey { primary := f, total, received }⟩ := by
  intro k a hk
  rw [Table.get?_insert] at hk
  split_ifs at hk with hkey
  · cases hk
    exact ⟨hkey.symm, hf, f, List.mem_append_right gs (List.mem_singleton_self f), .refl f⟩
  · exact h.more [f] k a hk

theorem BegunIn.pushPrimary (h : r.BegunIn gs) (hf : f.type.Carries) (total : Nat) :
    (r.pushPrimary f total).2.BegunIn (gs ++ [f]) ∧
      ∀ whole, (r.pushPrimary f total).1 = .ok (some whole) → Completed gs f whole := by
  unfold Reassembler.pushPrimary
  dsimp only
  have hleft : (if (r.assemblies.get? f.assemblyKey).any (·.abandoned) then
      r.discard f.assemblyKey else r).BegunIn gs := by
    split
    · exact h.discard f.assemblyKey
    · exact h
  generalize (if (r.assemblies.get? f.assemblyKey).any (·.abandoned) then
      r.discard f.assemblyKey else r) = r' at hleft
  split_ifs
  · refine ⟨hleft.more [f], fun whole hwhole => ?_⟩
    cases hwhole
  · refine ⟨hleft.more [f], fun whole hwhole => ?_⟩
    cases hwhole
  · refine ⟨hleft.more [f], fun whole hwhole => ?_⟩
    cases hwhole
    exact ⟨rfl, hf, f, List.mem_append_right gs (List.mem_singleton_self f),
      Assembly.begins_finish (.refl f)⟩
  · refine ⟨hleft.insert hf total f.body.length, fun whole hwhole => ?_⟩
    cases hwhole

theorem BegunIn.push (h : r.BegunIn gs) (hf : f.type.Carries) :
    (r.push f).2.BegunIn (gs ++ [f]) ∧
      ∀ whole, (r.push f).1 = .ok (some whole) → Completed gs f whole := by
  unfold Reassembler.push
  split
  · obtain ⟨hbegun, hwhole⟩ := h.pushContinuation f
    exact ⟨hbegun.more [f], hwhole⟩
  · split
    · refine ⟨h.more [f], fun whole hwhole => ?_⟩
      cases hwhole
      exact ⟨rfl, hf, f, List.mem_append_right gs (List.mem_singleton_self f), .refl f⟩
    · exact h.pushPrimary hf _

end Reassembler

/-! ## Reading -/

/-- A frame that was read and accounted for. -/
def Note.accepted? {α : Type} : Note α → Option Frame
  | .read f (.ok ()) => some f
  | _ => none

def Note.accepted {α : Type} (t : List (Note α)) : List Frame := t.filterMap accepted?

theorem Note.accepted_append {α : Type} (t t' : List (Note α)) :
    accepted (t ++ t') = accepted t ++ accepted t' := List.filterMap_append

/-- An answer that was made of a whole frame, or of none: then it is no request and no response. -/
def Decoding.From (codec : BodyCodec) (gs : List Frame) (r : Decoding) : Option Frame → Prop
  | none => r = .ok none ∨ r = .ok (some (.message .ping)) ∨ ∃ e, r = .error e
  | some whole =>
    whole.Says codec r ∧ (∃ g ∈ gs, g.Begins whole) ∧
      ∃ f, gs.getLast? = some f ∧ f.assemblyKey = whole.assemblyKey

namespace BinaryEnd

/-- What becomes of a frame that carries a message, or a part of one. -/
def gather (b : BinaryEnd) (f : Frame) : Reassembler.Outcome × Reassembler :=
  let r := b.abandonClosed.reassembler
  (if f.type = .request .close then r.discard ⟨true, f.rid⟩ else r).push f

/-- The whole frame that a frame completes. -/
def completes? (b : BinaryEnd) (f : Frame) : Option Frame :=
  match f.type, (b.gather f).1 with
  | .request _, .ok whole | .response, .ok whole => whole
  | _, _ => none

/-- The whole frame of which the answer of `nextFrom` is made. -/
def wholeFor : Nat → BinaryEnd → Option Frame
  | 0, _ => none
  | fuel + 1, b =>
    match Frame.decode b.maxBody b.buffer with
    | .ok (some (f, rest)) =>
      let b := { b with buffer := rest }
      match b.accept f with
      | (none, b) => wholeFor fuel b
      | (some _, _) =>
        match b.account f with
        | (.error _, _) => none
        | (.ok (), b) => b.completes? f
    | _ => none

/-- The notes of what `nextFrom` reads. -/
def noteFor (fuel : Nat) (b : BinaryEnd) : List (Note Bytes) :=
  (b.readsFor fuel).map fun p => .read p.1 p.2

theorem deliver_carries {b : BinaryEnd} {f : Frame} (hf : f.type.Carries) :
    (b.deliver f).2.reassembler = (b.gather f).2 ∧
      b.completes? f = (b.gather f).1.toOption.join ∧
      (∀ e, (b.gather f).1 = .error e → (b.deliver f).1 = some (.error e)) ∧
      ∀ whole, (b.gather f).1 = .ok whole →
        (b.deliver f).1 = whole.map (Inbound.ofFrame b.codec) := by
  generalize hgather : b.gather f = answer
  have hpush := hgather
  unfold gather at hpush
  unfold deliver completes?
  obtain htype | ⟨m, htype⟩ := hf
  all_goals
    simp only [htype] at hpush ⊢
    rw [hpush, hgather]
    obtain ⟨(e | (_ | whole)), r⟩ := answer
    all_goals
      refine ⟨rfl, rfl, fun e' he => ?_, fun whole' he => ?_⟩
      · cases he <;> rfl
      · cases he <;> rfl

variable {b : BinaryEnd} {gs : List Frame}

theorem gather_begun (h : b.reassembler.BegunIn gs) {f : Frame} (hf : f.type.Carries) :
    (b.gather f).2.BegunIn (gs ++ [f]) ∧
      ∀ whole, (b.gather f).1 = .ok (some whole) → Reassembler.Completed gs f whole := by
  have habandoned : b.abandonClosed.reassembler.BegunIn gs := h.abandonAll b.closed
  unfold gather
  dsimp only
  split
  · exact (habandoned.discard _).push hf
  · exact habandoned.push hf

theorem deliver_from (h : b.reassembler.BegunIn gs) (f : Frame) :
    (b.deliver f).2.reassembler.BegunIn (gs ++ [f]) ∧
      ∀ r, (b.deliver f).1 = some r →
        Decoding.From b.codec (gs ++ [f]) (r.map some) (b.completes? f) := by
  by_cases hf : f.type.Carries
  · obtain ⟨hreassembler, hcompletes, herror, hok⟩ := deliver_carries (b := b) hf
    obtain ⟨hbegun, hwhole⟩ := gather_begun h hf
    rw [hreassembler, hcompletes]
    refine ⟨hbegun, fun r hr => ?_⟩
    cases hgather : (b.gather f).1 with
    | error e =>
      obtain rfl := Option.some.inj ((herror e hgather).symm.trans hr)
      exact .inr (.inr ⟨e, rfl⟩)
    | ok answer =>
      have hdeliver := (hok answer hgather).symm.trans hr
      cases answer with
      | none => cases hdeliver
      | some whole =>
        obtain rfl := Option.some.inj hdeliver
        obtain ⟨hkey, htype, hbegins⟩ := hwhole whole hgather
        exact ⟨Frame.says_ofFrame htype, hbegins, f, List.getLast?_concat, hkey.symm⟩
  · have hnone : b.completes? f = none := by
      unfold completes?
      split
      · rename_i m _ htype _
        exact absurd (.inr ⟨m, htype⟩) hf
      · rename_i htype _
        exact absurd (.inl htype) hf
      · rfl
    have hstays := (h.abandonAll b.closed).more [f]
    rw [hnone]
    unfold deliver
    dsimp only
    split
    · exact ⟨hstays, nofun⟩
    · exact ⟨hstays, fun r hr => Option.some.inj hr ▸ .inr (.inl rfl)⟩
    · exact ⟨hstays, fun r hr => Option.some.inj hr ▸ .inr (.inr ⟨_, rfl⟩)⟩
    · rename_i t hack hping hunknown
      exfalso
      cases ht : f.type with
      | request m => exact hf (.inr ⟨m, ht⟩)
      | response => exact hf (.inl ht)
      | ack => exact hack ht
      | ping => exact hping ht
      | unknown code => exact hunknown code ht

theorem account_end (b : BinaryEnd) (f : Frame) :
    (b.account f).2 = { b with window := (b.account f).2.window } := by
  obtain ⟨-, -, ⟨-, h⟩ | ⟨e, -, h⟩⟩ | ⟨fault, h⟩ := b.account_cases f <;> rw [h]

theorem accept_from (h : b.reassembler.BegunIn gs) (f : Frame) :
    (b.accept f).2.reassembler.BegunIn (gs ++ accepted [(.read f (b.account f).1 : Note Bytes)]) ∧
      (b.accept f).2.codec = b.codec ∧
      ∀ r, (b.accept f).1 = some r →
        Decoding.From b.codec (gs ++ accepted [(.read f (b.account f).1 : Note Bytes)])
          (r.map some)
          (match b.account f with
            | (.error _, _) => none
            | (.ok (), b) => b.completes? f) := by
  have hend := b.account_end f
  unfold accept
  generalize b.account f = p at hend
  obtain ⟨e | u, b'⟩ := p
  · dsimp only at hend ⊢
    rw [hend]
    refine ⟨h.more _, rfl, fun r hr => ?_⟩
    cases hr
    exact .inr (.inr ⟨e, rfl⟩)
  · dsimp only at hend ⊢
    have hbegun : b'.reassembler.BegunIn gs := by rwa [hend]
    have hcodec : b'.codec = b.codec := by rw [hend]
    obtain ⟨hdelivered, hanswer⟩ := deliver_from hbegun f
    rw [hcodec] at hanswer
    refine ⟨hdelivered, ?_, hanswer⟩
    rw [b'.deliver_end f]
    exact hcodec

theorem nextFrom_from : ∀ (fuel : Nat) {b : BinaryEnd} {gs : List Frame},
    b.reassembler.BegunIn gs →
    (b.nextFrom fuel).2.reassembler.BegunIn (gs ++ accepted (b.noteFor fuel)) ∧
      (b.nextFrom fuel).2.codec = b.codec ∧
      Decoding.From b.codec (gs ++ accepted (b.noteFor fuel)) (b.nextFrom fuel).1 (b.wholeFor fuel)
  | 0, b, gs, h => by
    rw [nextFrom, noteFor, readsFor, wholeFor]
    exact ⟨h.more _, rfl, .inl rfl⟩
  | fuel + 1, b, gs, h => by
    rw [nextFrom, noteFor, readsFor, wholeFor]
    cases hd : Frame.decode b.maxBody b.buffer with
    | error e => exact ⟨h.more _, rfl, .inr (.inr ⟨e, rfl⟩)⟩
    | ok o =>
      cases o with
      | none => exact ⟨h.more _, rfl, .inl rfl⟩
      | some p =>
        obtain ⟨f, rest⟩ := p
        have hbehind : ({ b with buffer := rest } : BinaryEnd).reassembler.BegunIn gs := h
        obtain ⟨hbegun, hcodec, hanswer⟩ := accept_from hbehind f
        dsimp only
        generalize BinaryEnd.accept { b with buffer := rest } f = q at hbegun hcodec hanswer
        obtain ⟨_ | r, b'⟩ := q
        · -- A frame that brings nothing is passed over; what it began is kept in the notes.
          obtain ⟨hbegun', hcodec', hanswer'⟩ := nextFrom_from fuel hbegun
          rw [hcodec] at hanswer'
          rw [List.append_assoc, ← accepted_append] at hbegun' hanswer'
          exact ⟨hbegun', hcodec'.trans hcodec, hanswer'⟩
        · exact ⟨hbegun, hcodec, hanswer r rfl⟩

def whole? (b : BinaryEnd) : Option Frame := b.wholeFor (b.buffer.length + 1)

end BinaryEnd

theorem Writer.Step.keeps {w w' : Writer} {b b' : BinaryEnd} {out : List Frame}
    (hs : Step w b out w' b') : b'.codec = b.codec ∧ b'.reassembler = b.reassembler := by
  cases hs with
  | begins frames queued =>
    rw [b.begin_snd]
    exact ⟨rfl, rfl⟩
  | ends | sends | retries | answers | waits => exact ⟨rfl, rfl⟩

namespace Sender

theorem accepted_emit (s : Sender) (r : Bytes × BinaryEnd) :
    accepted (s.emit r).notes = accepted s.notes := by
  rw [emit, accepted_append]
  split <;> exact List.append_nil _

/-- All that is in progress was begun by a frame in the notes. -/
structure Begun (codec : BodyCodec) (s : Sender) : Prop where
  codec : s.port.codec = codec
  begun : s.port.reassembler.BegunIn (accepted s.notes)

variable {codec : BodyCodec} {s : Sender}

theorem Begun.emit (h : s.Begun codec) {bytes : Bytes} {b : BinaryEnd} (w : Writer)
    (hcodec : b.codec = s.port.codec) (hsame : b.reassembler = s.port.reassembler) :
    ({ s.emit (bytes, b) with writer := w } : Sender).Begun codec := by
  refine ⟨hcodec.trans h.codec, ?_⟩
  have hnotes := s.accepted_emit (bytes, b)
  change b.reassembler.BegunIn (accepted (s.emit (bytes, b)).notes)
  rw [hnotes, hsame]
  exact h.begun

theorem pendingAck_keeps (b : BinaryEnd) :
    b.pendingAck.2.codec = b.codec ∧ b.pendingAck.2.reassembler = b.reassembler := by
  unfold BinaryEnd.pendingAck
  split <;> exact ⟨rfl, rfl⟩

theorem Begun.read (h : s.Begun codec) :
    (s.after .read).Begun codec ∧
      Decoding.From codec (accepted (s.after .read).notes) s.port.next.1 s.port.whole? := by
  obtain ⟨hbegun, hcodec, hanswer⟩ :=
    BinaryEnd.nextFrom_from (s.port.buffer.length + 1) h.begun
  rw [← accepted_append] at hbegun hanswer
  rw [h.codec] at hanswer hcodec
  exact ⟨⟨hcodec, hbegun⟩, hanswer⟩

theorem Begun.after (h : s.Begun codec) (m : Move) : (s.after m).Begun codec := by
  cases m with
  | queue m => exact ⟨h.codec, h.begun⟩
  | write dueFirst =>
    rw [Sender.after]
    cases hs : s.writer.step s.port dueFirst with
    | none => exact h
    | some r =>
      obtain ⟨bytes, w, b⟩ := r
      obtain ⟨out, rfl, hstep⟩ := Writer.step_cases hs
      exact h.emit w hstep.keeps.1 hstep.keeps.2
  | acknowledge =>
    obtain ⟨hcodec, hsame⟩ := pendingAck_keeps s.port
    exact h.emit s.writer hcodec hsame
  | answerDue =>
    rw [Sender.after]
    split
    · obtain ⟨hcodec, hsame⟩ := pendingAck_keeps (Link.quiet s.port)
      exact h.emit s.writer hcodec hsame
    · exact h
  | feed bytes => exact ⟨h.codec, h.begun⟩
  | read => exact h.read.1

theorem Begun.run : ∀ (ms : List Move) {s : Sender}, s.Begun codec → (s.run ms).Begun codec
  | [], _, h => h
  | m :: ms, _, h => Begun.run ms (h.after m)

theorem begun_ofConfig (c : LinkConfig) (codec : BodyCodec) : (ofConfig c codec).Begun codec :=
  ⟨rfl, fun _ _ h => absurd h Table.get?_empty_ne⟩

/-- Whatever has happened before, the next answer is what its frame says, and its frame has the
headers of one that came. -/
theorem answers_from_frames (c : LinkConfig) (codec : BodyCodec) (ms : List Move) :
    Decoding.From codec (accepted ((ofConfig c codec).run (ms ++ [.read])).notes)
      ((ofConfig c codec).run ms).port.next.1 ((ofConfig c codec).run ms).port.whole? := by
  have hrun : (ofConfig c codec).run (ms ++ [.read]) =
      ((ofConfig c codec).run ms).after .read := List.foldl_append
  rw [hrun]
  exact ((begun_ofConfig c codec).run ms).read.2

/-- A response whose body names a method. -/
def misleading : Frame :=
  { type := .response, rid := 5, headers := { seq := some 1 }
    body := Bytes.ofString "\x7b\"method\":\"list\"\x7d" }

def isListing : Decoding → Bool
  | .ok (some (.message (.request q))) => q.method = .list && q.rid = 5
  | _ => false

/-- It is taken for a request, which is not what its frame says. -/
theorem response_taken_for_request :
    ((ofConfig {} .json).run [.feed misleading.encode]).port.whole? = some misleading ∧
      ∃ q, ((ofConfig {} .json).run [.feed misleading.encode]).port.next.1 =
        .ok (some (.message (.request q))) ∧ q.method = .list ∧ q.rid = 5 := by
  refine ⟨by decide +kernel, ?_⟩
  have hread :
      isListing ((ofConfig {} .json).run [.feed misleading.encode]).port.next.1 = true := by
    decide +kernel
  unfold isListing at hread
  split at hread
  · rename_i q hq
    simp only [Bool.and_eq_true, decide_eq_true_eq] at hread
    exact ⟨q, hq, hread⟩
  · cases hread

end Sender
end PeerLink
