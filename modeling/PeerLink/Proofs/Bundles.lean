import PeerLink.Proofs.FramePieces
import PeerLink.Proofs.Usable

/-! # Messages that cannot be used, between others

A message comes in one frame or in several, and what is wrong with its contents is found when all of
it has come.

* `Bundle`: the frames of one message; `Bundle.answer` is what is made of them by themselves.
* `BinaryEnd.Expects`: what an end that has read some of the frames will answer to the others.
* `BinaryEnd.Expects.deliver`: when the next of these frames has come, the end answers as expected,
  and what it expects of the rest has not changed.
-/

namespace PeerLink
set_option autoImplicit false

/-! ## Messages in frames -/

/-- A message as it comes: one frame, or the first of several and those that continue it. -/
structure Bundle where
  first : Frame
  later : List Frame := []
deriving DecidableEq

/-- A later member of a payload of `total` bytes that has begun with `first`. -/
structure Frame.Continues (first : Frame) (total : Nat) (g : Frame) : Prop where
  type : g.type = first.type
  rid : g.rid = first.rid
  declares : g.headers.total = some total
  continuation : g.headers.continuation = true

namespace Bundle

def frames (p : Bundle) : List Frame := p.first :: p.later

/-- The frame that the message would have come in if it had not been split. -/
def whole (p : Bundle) : Frame :=
  { p.first with
    headers := { p.first.headers with total := none, continuation := false }
    body := p.first.body ++ p.later.flatMap Frame.body }

/-- What is made of a message by itself. -/
def answer (codec : BodyCodec) (p : Bundle) : Decoding :=
  match p.first.type with
  | .ping => .ok (some (.message .ping))
  | .unknown code => .error (.unknownType code)
  | _ => (Inbound.ofFrame codec p.whole).map some

/-- A ping, or a request or response whose contents can be used. -/
def Usable (codec : BodyCodec) (p : Bundle) : Prop :=
  p.first.type = .ping ∨ p.first.type.Carries ∧ p.whole.Usable codec

/-- After `received` bytes of `total`, the frames bring the others; the last byte comes in the last
of them. -/
def Fills (total : Nat) : Nat → List Frame → Prop
  | received, [] => received = total
  | received, g :: gs => received < total ∧ Fills total (received + g.body.length) gs

/-- All members of one split payload. A close request is not among them, for each of its frames
begins anew. -/
structure Split (total : Nat) (p : Bundle) : Prop where
  carries : p.first.type.Carries
  holds : p.first.type ≠ .request .close
  primary : p.first.headers.continuation = false
  declares : p.first.headers.total = some total
  later : ∀ g ∈ p.later, p.first.Continues total g
  fills : Fills total p.first.body.length p.later

/-- A single frame, or a split payload that comes whole. Pings and frames of unknown type come one
by one, whatever their headers say. -/
inductive Delimited : Bundle → Prop
  | ping {f : Frame} (type : f.type = .ping) : Delimited ⟨f, []⟩
  | unknown {f : Frame} {code : UInt8} (type : f.type = .unknown code) : Delimited ⟨f, []⟩
  | single {f : Frame} (carries : f.type.Carries) (alone : f.isMultipart = false) :
      Delimited ⟨f, []⟩
  | split {p : Bundle} {total : Nat} (h : p.Split total) : Delimited p

variable {p : Bundle} {codec : BodyCodec} {f g : Frame} {gs : List Frame} {total : Nat}

theorem answer_of_carries (h : p.first.type.Carries) :
    p.answer codec = (Inbound.ofFrame codec p.whole).map some := by
  unfold answer
  obtain htype | ⟨m, htype⟩ := h <;> rw [htype]

/-- A message of one frame that was not split is that frame. -/
theorem whole_single (h : f.isMultipart = false) : (⟨f, []⟩ : Bundle).whole = f := by
  obtain ⟨hcontinuation, htotal⟩ := Bool.or_eq_false_iff.mp h
  obtain ⟨type, rid, ack, ⟨path, qos, status, permit, seq, total, continuation⟩, body⟩ := f
  obtain rfl : continuation = false := hcontinuation
  obtain rfl : total = none := Option.isSome_eq_false_iff.mp htotal |> Option.isNone_iff_eq_none.mp
  simp only [whole, List.flatMap_nil, List.append_nil]

/-- What has come can be put into the first member. -/
theorem whole_cons (f g : Frame) (gs : List Frame) :
    (⟨{ f with body := f.body ++ g.body }, gs⟩ : Bundle).whole =
      (⟨f, g :: gs⟩ : Bundle).whole := by
  simp only [whole, List.flatMap_cons, List.append_assoc]

theorem answer_tells (hcodec : codec.Mild) (h : p.Delimited) :
    Decoding.Tells (p.Usable codec) (p.answer codec) := by
  by_cases hcarries : p.first.type.Carries
  · have htells := Inbound.ofFrame_tells hcodec p.whole
    rw [answer_of_carries hcarries]
    refine ⟨fun hu => htells.brings ?_, fun hu => htells.refuses fun hw => hu (.inr ⟨hcarries, hw⟩)⟩
    obtain hping | ⟨-, hw⟩ := hu
    · obtain hr | ⟨m, hm⟩ := hcarries
      · exact absurd (hping.symm.trans hr) nofun
      · exact absurd (hping.symm.trans hm) nofun
    · exact hw
  · cases h with
    | ping type =>
      unfold answer
      rw [type]
      exact Decoding.tells_message (.inl type) .ping
    | unknown type =>
      unfold answer
      rw [type]
      refine Decoding.tells_error ?_ rfl
      rintro (hping | ⟨hc, -⟩)
      · exact absurd (type.symm.trans hping) nofun
      · exact hcarries hc
    | single carries => exact absurd carries hcarries
    | split h => exact absurd h.carries hcarries

end Bundle

/-! ## Members -/

namespace Reassembler

variable {f g : Frame} {total : Nat} {gs : List Frame}

/-- A payload of which nothing has come but what is in the body of `f`. -/
def holding (f : Frame) (total : Nat) : Reassembler :=
  .one f.assemblyKey { primary := f, total, received := f.body.length }

theorem push_alone (r : Reassembler) (h : f.isMultipart = false) :
    r.push f = (.ok (some f), r) := by
  obtain ⟨hcontinuation, htotal⟩ := Bool.or_eq_false_iff.mp h
  have hnone : f.headers.total = none := by simpa using htotal
  simp only [push, hcontinuation, hnone, Bool.false_eq_true, if_false]

theorem push_begins (hp : Bundle.Split total ⟨f, gs⟩) :
    ({} : Reassembler).push f =
      if gs = [] then (.ok (some (Bundle.whole ⟨f, gs⟩)), {}) else (.ok none, holding f total) := by
  have hcontinuation : f.headers.continuation = false := hp.primary
  have htotal : f.headers.total = some total := hp.declares
  have hfills := hp.fills
  cases gs with
  | nil =>
    have hlen : f.body.length = total := hfills
    simp only [push, pushPrimary, hcontinuation, htotal, Bool.false_eq_true, if_false, if_true,
      Table.get?_nil, Table.contains, Option.any_none, Option.isSome_none, hlen,
      Nat.lt_irrefl, Assembly.isComplete, beq_self_eq_true, Assembly.finish, Bundle.whole,
      List.flatMap_nil, List.append_nil]
  | cons g gs =>
    have hlen : f.body.length < total := hfills.1
    have hfits : ¬ total < f.body.length := Nat.not_lt.mpr (Nat.le_of_lt hlen)
    have hmore : ¬ f.body.length = total := Nat.ne_of_lt hlen
    simp only [push, pushPrimary, hcontinuation, htotal, Bool.false_eq_true, if_false,
      Table.get?_nil, Table.contains, Option.any_none, Option.isSome_none, hfits,
      Assembly.isComplete, beq_iff_eq, hmore, reduceCtorEq]
    rfl

theorem push_continues (hp : Bundle.Split total ⟨f, g :: gs⟩) :
    (holding f total).push g =
      if gs = [] then (.ok (some (Bundle.whole ⟨f, [g]⟩)), {})
      else (.ok none, holding { f with body := f.body ++ g.body } total) := by
  obtain ⟨htype, hrid, htotal, hcontinuation⟩ := hp.later g List.mem_cons_self
  have hkey : g.assemblyKey = f.assemblyKey := by
    rw [Frame.assemblyKey, htype, hrid]
    rfl
  have hfills : Bundle.Fills total (f.body.length + g.body.length) gs := hp.fills.2
  have hsame : ¬ g.headers.total ≠ some total := not_not_intro htotal
  cases gs with
  | nil =>
    have hlen : f.body.length + g.body.length = total := hfills
    simp only [push, pushContinuation, holding, hcontinuation, if_true, hkey, get?_one, hsame,
      if_false, hlen, Nat.lt_irrefl, Assembly.extend, Assembly.isComplete, beq_self_eq_true,
      Bool.false_eq_true, discard_one, Assembly.finish, Bundle.whole, List.flatMap_cons,
      List.flatMap_nil, List.append_nil]
  | cons g' gs =>
    have hlen : f.body.length + g.body.length < total := hfills.1
    have hfits : ¬ total < f.body.length + g.body.length := Nat.not_lt.mpr (Nat.le_of_lt hlen)
    have hmore : ¬ f.body.length + g.body.length = total := Nat.ne_of_lt hlen
    simp only [push, pushContinuation, holding, hcontinuation, if_true, hkey, get?_one, hsame,
      if_false, hfits, Assembly.extend, Assembly.isComplete, beq_iff_eq, hmore,
      Bool.false_eq_true, modify_one, reduceCtorEq, List.length_append]
    rfl

end Reassembler

theorem Bundle.Split.next {f g : Frame} {gs : List Frame} {total : Nat}
    (h : Bundle.Split total ⟨f, g :: gs⟩) :
    Bundle.Split total ⟨{ f with body := f.body ++ g.body }, gs⟩ where
  carries := h.carries
  holds := h.holds
  primary := h.primary
  declares := h.declares
  later g' hg' :=
    have hmember := h.later g' (List.mem_cons_of_mem g hg')
    ⟨hmember.type, hmember.rid, hmember.declares, hmember.continuation⟩
  fills := by
    have hfills : Fills total (f.body.length + g.body.length) gs := h.fills.2
    simpa only [List.length_append] using hfills

/-! ## One frame after the other -/

namespace BinaryEnd

/-- An end that has read some frames of the messages that are coming will give these answers to the
others. What has come of a split one is as if it had come in the first member. -/
inductive Expects (b : BinaryEnd) : List Frame → List Decoding → Prop
  | between {ps : List Bundle} (free : b.reassembler = {}) (each : ∀ p ∈ ps, p.Delimited) :
      Expects b (ps.flatMap Bundle.frames) (ps.map (Bundle.answer b.codec))
  | within {f g : Frame} {gs : List Frame} {total : Nat} {ps : List Bundle}
      (held : b.reassembler = .holding f total) (closed : b.closed = [])
      (split : Bundle.Split total ⟨f, g :: gs⟩) (each : ∀ p ∈ ps, p.Delimited) :
      Expects b (g :: gs ++ ps.flatMap Bundle.frames)
        (Bundle.answer b.codec ⟨f, g :: gs⟩ :: ps.map (Bundle.answer b.codec))

variable {b : BinaryEnd} {f : Frame} {fs : List Frame} {rs : List Decoding}

theorem Expects.congr {b' : BinaryEnd} (h : b.Expects fs rs)
    (hreassembler : b'.reassembler = b.reassembler) (hclosed : b'.closed = b.closed)
    (hcodec : b'.codec = b.codec) : b'.Expects fs rs := by
  cases h with
  | between free each =>
    rw [← hcodec]
    exact .between (hreassembler.trans free) each
  | within held closed split each =>
    rw [← hcodec]
    exact .within (hreassembler.trans held) (hclosed.trans closed) split each

/-- At the end nothing is left over. -/
theorem Expects.of_nil (h : b.Expects [] rs) : rs = [] ∧ b.reassembler = {} := by
  generalize hfs : ([] : List Frame) = fs at h
  cases h with
  | @between ps free each =>
    cases ps with
    | nil => exact ⟨rfl, free⟩
    | cons p ps => cases hfs
  | within => cases hfs

/-- A frame brings nothing, or the next answer. -/
def Advances (b : BinaryEnd) (fs : List Frame) (rs : List Decoding)
    (o : Option (Except FrameError Inbound)) : Prop :=
  (o = none ∧ b.Expects fs rs) ∨ ∃ r rs', rs = r.map some :: rs' ∧ o = some r ∧ b.Expects fs rs'

theorem Expects.abandonClosed (h : b.Expects fs rs) : b.abandonClosed.Expects fs rs := by
  cases h with
  | between free each => exact .between (abandonClosed_empty free) each
  | within held closed split each =>
    refine .within ?_ rfl split each
    rw [BinaryEnd.abandonClosed, closed]
    exact held

theorem Expects.deliver_ack (h : b.Expects fs rs) (hf : f.type = .ack) :
    (b.deliver f).2.Advances fs rs (b.deliver f).1 := by
  unfold deliver
  rw [hf]
  exact .inl ⟨rfl, h.abandonClosed⟩

theorem gather_free (h : b.reassembler = {}) (f : Frame) :
    b.gather f = ({} : Reassembler).push f := by
  unfold gather
  rw [abandonClosed_empty h]
  dsimp only
  split <;> rfl

theorem gather_held {r : Reassembler} (h : b.reassembler = r) (hclosed : b.closed = [])
    (hf : f.type ≠ .request .close) : b.gather f = r.push f := by
  unfold gather
  dsimp only
  rw [if_neg hf, abandonClosed, hclosed, ← h]
  rfl

/-- What a member of a payload leads to is what its reassembler makes of it. -/
theorem deliver_of_gather {r : Reassembler} {whole : Option Frame} (hf : f.type.Carries)
    (h : b.gather f = (.ok whole, r)) :
    b.deliver f =
      (whole.map (Inbound.ofFrame b.codec), { b with reassembler := r, closed := [] }) := by
  obtain ⟨hreassembler, -, -, hok⟩ := deliver_carries (b := b) hf
  refine Prod.ext (hok whole (by rw [h])) ?_
  rw [deliver_end, hreassembler, h]

theorem deliver_ping (hf : f.type = .ping) :
    b.deliver f = (some (.ok (.message .ping)), b.abandonClosed) := by
  simp only [deliver, hf]

theorem deliver_unknown {code : UInt8} (hf : f.type = .unknown code) :
    b.deliver f = (some (.error (.unknownType code)), b.abandonClosed) := by
  simp only [deliver, hf]

theorem Expects.deliver_first {p : Bundle} {ps : List Bundle} (hfree : b.reassembler = {})
    (hp : p.Delimited) (heach : ∀ q ∈ ps, q.Delimited) :
    (b.deliver p.first).2.Advances (p.later ++ ps.flatMap Bundle.frames)
      (p.answer b.codec :: ps.map (Bundle.answer b.codec)) (b.deliver p.first).1 := by
  have hrest : ∀ {b' : BinaryEnd}, b'.reassembler = {} → b'.codec = b.codec →
      b'.Expects (ps.flatMap Bundle.frames) (ps.map (Bundle.answer b.codec)) := by
    intro b' hb hcodec
    rw [← hcodec]
    exact .between hb heach
  cases hp with
  | @ping f type =>
    rw [deliver_ping type]
    refine .inr ⟨.ok (.message .ping), ps.map (Bundle.answer b.codec), ?_, rfl,
      hrest (abandonClosed_empty hfree) rfl⟩
    rw [Bundle.answer, type]
    rfl
  | @unknown f code type =>
    rw [deliver_unknown type]
    refine .inr ⟨.error (.unknownType code), ps.map (Bundle.answer b.codec), ?_, rfl,
      hrest (abandonClosed_empty hfree) rfl⟩
    rw [Bundle.answer, type]
    rfl
  | @single f carries alone =>
    have hgather : b.gather f = (.ok (some f), {}) :=
      (gather_free hfree f).trans (Reassembler.push_alone {} alone)
    rw [deliver_of_gather carries hgather]
    refine .inr ⟨Inbound.ofFrame b.codec f, ps.map (Bundle.answer b.codec), ?_, rfl, hrest rfl rfl⟩
    rw [Bundle.answer_of_carries carries, Bundle.whole_single alone]
  | @split p total h =>
    obtain ⟨f, gs⟩ := p
    have hgather := (gather_free hfree f).trans (Reassembler.push_begins h)
    cases gs with
    | nil =>
      rw [if_pos rfl] at hgather
      rw [deliver_of_gather h.carries hgather]
      refine .inr ⟨Inbound.ofFrame b.codec _, ps.map (Bundle.answer b.codec), ?_, rfl,
        hrest rfl rfl⟩
      rw [Bundle.answer_of_carries h.carries]
    | cons g gs =>
      rw [if_neg (List.cons_ne_nil g gs)] at hgather
      rw [deliver_of_gather h.carries hgather]
      exact .inl ⟨rfl, .within rfl rfl h heach⟩

theorem Expects.deliver_later {g : Frame} {gs : List Frame} {total : Nat} {ps : List Bundle}
    (hheld : b.reassembler = .holding f total) (hclosed : b.closed = [])
    (hsplit : Bundle.Split total ⟨f, g :: gs⟩) (heach : ∀ q ∈ ps, q.Delimited) :
    (b.deliver g).2.Advances (gs ++ ps.flatMap Bundle.frames)
      (Bundle.answer b.codec ⟨f, g :: gs⟩ :: ps.map (Bundle.answer b.codec)) (b.deliver g).1 := by
  have htype := (hsplit.later g List.mem_cons_self).type
  have hcarries : g.type.Carries := htype ▸ hsplit.carries
  have hholds : g.type ≠ .request .close := htype ▸ hsplit.holds
  have hgather := (gather_held hheld hclosed hholds).trans (Reassembler.push_continues hsplit)
  cases gs with
  | nil =>
    rw [if_pos rfl] at hgather
    rw [deliver_of_gather hcarries hgather]
    refine .inr ⟨Inbound.ofFrame b.codec _, ps.map (Bundle.answer b.codec), ?_, rfl,
      .between rfl heach⟩
    rw [Bundle.answer_of_carries hsplit.carries]
  | cons g' gs =>
    rw [if_neg (List.cons_ne_nil g' gs)] at hgather
    rw [deliver_of_gather hcarries hgather]
    refine .inl ⟨rfl, ?_⟩
    have hanswer : Bundle.answer b.codec ⟨f, g :: g' :: gs⟩ =
        Bundle.answer b.codec ⟨{ f with body := f.body ++ g.body }, g' :: gs⟩ := by
      rw [Bundle.answer_of_carries hsplit.carries, Bundle.answer_of_carries hsplit.next.carries,
        Bundle.whole_cons]
    rw [hanswer]
    exact .within rfl rfl hsplit.next heach

/-- The next frame of a message leads on to the rest. -/
theorem Expects.deliver (h : b.Expects (f :: fs) rs) :
    (b.deliver f).2.Advances fs rs (b.deliver f).1 := by
  generalize hfs : f :: fs = all at h
  cases h with
  | @between ps free each =>
    cases ps with
    | nil => cases hfs
    | cons p ps =>
      obtain ⟨rfl, rfl⟩ := List.cons.inj hfs
      exact deliver_first free (each p List.mem_cons_self)
        fun q hq => each q (List.mem_cons_of_mem p hq)
  | within held closed split each =>
    obtain ⟨rfl, rfl⟩ := List.cons.inj hfs
    exact deliver_later held closed split each

end BinaryEnd
end PeerLink
