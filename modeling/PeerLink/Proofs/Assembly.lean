import PeerLink.Proofs.MessageFrames
import PeerLink.Framing.Binary

/-! # Split payloads put together

One peer writes its messages one after another, so of what comes from it at most one payload is in
progress.

* `Message.Split`: the pieces of a payload that is too long for one frame.
* `Assembly.Lacks`: what an assembly holds of a message, and which pieces it still lacks.
* `BinaryEnd.Awaits`: an end has read some frames of the first of the messages that are coming.
* `BinaryEnd.Awaits.gather`: the next frame leads on to the next piece, or to the whole message; if
  its stream has been closed meanwhile, the message is dropped.
-/

namespace PeerLink
set_option autoImplicit false

/-! ## Pieces -/

namespace Bytes

theorem chunks_nil (size : Nat) : chunks size [] = [] := by rw [chunks]; rfl

theorem chunks_of_ne_nil {size : Nat} {bs : Bytes} (h : bs ≠ []) :
    chunks size bs = bs.take (max size 1) :: chunks size (bs.drop (max size 1)) := by
  rw [chunks, if_neg (by simpa using h)]

theorem flatten_chunks (size : Nat) (bs : Bytes) : (chunks size bs).flatten = bs := by
  induction bs using chunks.induct size with
  | case1 bs h =>
    have hb : bs = [] := by simpa using h
    rw [hb, chunks_nil, List.flatten_nil]
  | case2 bs h ih =>
    have hb : bs ≠ [] := by simpa using h
    rw [chunks_of_ne_nil hb, List.flatten_cons, ih, List.take_append_drop]

theorem length_of_mem_chunks {size : Nat} {bs : Bytes} (c : Bytes) (hc : c ∈ chunks size bs) :
    0 < c.length ∧ c.length ≤ max size 1 := by
  induction bs using chunks.induct size with
  | case1 bs h =>
    have hb : bs = [] := by simpa using h
    rw [hb, chunks_nil] at hc
    cases hc
  | case2 bs h ih =>
    have hb : bs ≠ [] := by simpa using h
    rw [chunks_of_ne_nil hb, List.mem_cons] at hc
    cases hc with
    | inl hc =>
      have := List.length_pos_iff.mpr hb
      rw [hc, List.length_take]
      omega
    | inr hc => exact ih hc

end Bytes

/-- A body travels whole in one frame, or in several with a piece each. -/
theorem Frame.split_cases (template : Frame) {body : Bytes} {maxBody : Nat} (hmax : 0 < maxBody)
    (hlen : body.length < 2 ^ 32) :
    (body.length ≤ maxBody ∧ template.split body maxBody = [{ template with body }]) ∨
    ∃ first later, first ++ later.flatten = body ∧ later ≠ [] ∧
      (∀ c ∈ first :: later, c ≠ [] ∧ c.length ≤ maxBody) ∧
      template.split body maxBody =
        { template with
          headers := { template.headers with total := some body.length }, body := first } ::
          later.map (template.continuation body.length) := by
  rw [Frame.split]
  by_cases hb : body.length ≤ maxBody
  · exact .inl ⟨hb, if_pos hb⟩
  right
  have hflat := Bytes.flatten_chunks maxBody body
  have hmem : ∀ c ∈ Bytes.chunks maxBody body, _ := Bytes.length_of_mem_chunks
  cases hc : Bytes.chunks maxBody body with
  | nil =>
    rw [hc] at hflat
    rw [← hflat] at hb
    exact absurd (Nat.zero_le maxBody) hb
  | cons first later =>
    rw [hc] at hflat hmem
    refine ⟨first, later, by simpa using hflat, ?_, ?_, ?_⟩
    · rintro rfl
      have hfirst := (hmem first List.mem_cons_self).2
      rw [← hflat] at hb
      simp only [List.flatten_cons, List.flatten_nil, List.append_nil] at hb
      omega
    · intro c hcm
      have := hmem c hcm
      exact ⟨List.length_pos_iff.mp this.1, by omega⟩
    · rw [if_neg hb, Nat.mod_eq_of_lt hlen]

/-- The pieces of a body that is too long for one frame. -/
structure Message.Split (codec : BodyCodec) (maxBody : Nat) (m : Message) (first : Bytes)
    (later : List Bytes) : Prop where
  whole : first ++ later.flatten = m.bodyBytes codec
  more : later ≠ []
  some : ∀ c ∈ first :: later, c ≠ []
  bound : ∀ c ∈ first :: later, c.length ≤ maxBody

/-- A later member of a split message. -/
def Message.laterFrame (codec : BodyCodec) (m : Message) (body : Bytes) : Frame :=
  m.template.continuation (m.bodyBytes codec).length body

/-- The first member of a split message. -/
def Message.firstFrame (codec : BodyCodec) (m : Message) (body : Bytes) : Frame :=
  { m.template with
    headers := { m.template.headers with total := some (m.bodyBytes codec).length }
    body }

/-- A message travels in one frame with its whole body, or in several with a piece each. -/
theorem Message.frames_cases {codec : BodyCodec} {maxBody : Nat} {m : Message}
    (hmax : 0 < maxBody) (hlen : (m.bodyBytes codec).length < 2 ^ 32) :
    ((m.bodyBytes codec).length ≤ maxBody ∧
      m.frames codec maxBody = [{ m.template with body := m.bodyBytes codec }]) ∨
    ∃ first later, m.Split codec maxBody first later ∧
      m.frames codec maxBody = m.firstFrame codec first :: later.map (m.laterFrame codec) := by
  rw [frames_eq_split]
  obtain hone | ⟨first, later, hwhole, hmore, hpieces, hframes⟩ := m.template.split_cases hmax hlen
  · exact .inl hone
  · refine .inr ⟨first, later, ⟨hwhole, hmore, fun c hc => ?_, fun c hc => ?_⟩, hframes⟩
    · exact (hpieces c hc).1
    · exact (hpieces c hc).2

/-! ## Assemblies -/

namespace Reassembler

/-- A reassembler with one payload in progress, and with none. -/
def one (key : AssemblyKey) (a : Assembly) : Reassembler := ⟨⟨[(key, a)]⟩⟩

theorem get?_one (key : AssemblyKey) (a : Assembly) :
    (one key a).assemblies.get? key = some a := by
  rw [one, Table.get?_cons, if_pos rfl]

theorem modify_one (key key' : AssemblyKey) (a : Assembly) (f : Assembly → Assembly) :
    Reassembler.mk ((one key a).assemblies.modify key' f) =
      one key (if key = key' then f a else a) := by
  by_cases h : key = key' <;> simp [one, Table.modify, h]

theorem discard_one (key : AssemblyKey) (a : Assembly) : (one key a).discard key = {} := by
  simp [one, discard, Table.erase]

theorem foldl_abandon_one (key : AssemblyKey) (closed : List Nat) : ∀ a : Assembly,
    closed.foldl (fun r rid => r.abandon ⟨false, rid⟩) (one key a) =
      one key (if ∃ rid ∈ closed, key = ⟨false, rid⟩ then a.abandon else a) := by
  induction closed with
  | nil => intro a; simp
  | cons rid closed ih =>
    intro a
    rw [List.foldl_cons, abandon, modify_one, ih]
    by_cases hk : key = ⟨false, rid⟩
    · simp only [hk, if_true, List.mem_cons, exists_eq_or_imp, true_or]
      split <;> rfl
    · simp only [hk, if_false, List.mem_cons, exists_eq_or_imp, false_or]

theorem foldl_abandon_nil (closed : List Nat) :
    closed.foldl (fun r rid => r.abandon ⟨false, rid⟩) ({} : Reassembler) = {} := by
  induction closed with
  | nil => rfl
  | cons rid closed ih =>
    rw [List.foldl_cons]
    exact ih

end Reassembler

namespace Message

/-- Under which key the pieces of a message are gathered. -/
def key (m : Message) : AssemblyKey := ⟨m.frameType.isRequest, m.rid⟩

/-- Whether a message answers on one of the given streams. -/
def AnswersOn (m : Message) (closed : List Nat) : Prop :=
  m.frameType.isRequest = false ∧ m.rid ∈ closed

instance (m : Message) (closed : List Nat) : Decidable (m.AnswersOn closed) :=
  inferInstanceAs (Decidable (_ ∧ _))

theorem answersOn_iff (m : Message) (closed : List Nat) :
    (∃ rid ∈ closed, m.key = ⟨false, rid⟩) ↔ m.AnswersOn closed := by
  constructor
  · rintro ⟨rid, hrid, hk⟩
    obtain ⟨ht, hr⟩ := AssemblyKey.mk.inj hk
    exact ⟨ht, hr ▸ hrid⟩
  · rintro ⟨ht, hr⟩
    exact ⟨m.rid, hr, by rw [key, ht]⟩

end Message

/-- An assembly is complete once the last of the pieces that it lacks has come. -/
theorem Assembly.isComplete_extend {a : Assembly} {c : Bytes} {rest : List Bytes}
    (hlen : a.received + (c :: rest).flatten.length = a.total) (hsome : ∀ d ∈ rest, d ≠ []) :
    (a.extend c).isComplete = rest.isEmpty := by
  simp only [List.flatten_cons, List.length_append] at hlen
  cases rest with
  | nil =>
    simp only [List.flatten_nil, List.length_nil, Nat.add_zero] at hlen
    simp [isComplete, Assembly.extend, hlen]
  | cons d rest =>
    have := List.length_pos_iff.mpr (hsome d List.mem_cons_self)
    simp only [List.flatten_cons, List.length_append] at hlen
    simp only [isComplete, Assembly.extend, List.isEmpty_cons, beq_eq_false_iff_ne, ne_eq]
    omega

/-- An assembly holds a message up to the pieces that it lacks. Of an abandoned one only the lengths
are known. -/
structure Assembly.Lacks (codec : BodyCodec) (m : Message) (a : Assembly) (rest : List Bytes) :
    Prop where
  headed : a.primary.HeadedBy m
  total : a.total = (m.bodyBytes codec).length
  more : rest ≠ []
  some : ∀ c ∈ rest, c ≠ []
  length : a.received + rest.flatten.length = a.total
  body : a.abandoned = false → a.primary.body ++ rest.flatten = m.bodyBytes codec

namespace Assembly
variable {codec : BodyCodec} {m : Message} {a : Assembly} {c : Bytes} {rest : List Bytes}

theorem Lacks.abandon (h : a.Lacks codec m rest) : a.abandon.Lacks codec m rest where
  headed := h.headed.withBody []
  total := h.total
  more := h.more
  some := h.some
  length := h.length
  body := by simp [Assembly.abandon]

theorem Lacks.extend (h : a.Lacks codec m (c :: rest)) (hne : rest ≠ []) :
    (a.extend c).Lacks codec m rest where
  headed := by
    unfold Assembly.extend
    split
    · exact h.headed
    · exact h.headed.withBody _
  total := h.total
  more := hne
  some := fun d hd => h.some d (List.mem_cons_of_mem c hd)
  length := by
    have := h.length
    simp only [List.flatten_cons, List.length_append, Assembly.extend] at this ⊢
    omega
  body := by
    intro hab
    have hb := h.body hab
    rw [List.flatten_cons, ← List.append_assoc] at hb
    have hab' : a.abandoned = false := hab
    simp [Assembly.extend, hab', hb]

theorem Lacks.finish (h : a.Lacks codec m [c]) (hab : a.abandoned = false) :
    (a.extend c).finish.HeadedBy m ∧ (a.extend c).finish.body = m.bodyBytes codec := by
  have hb := h.body hab
  rw [List.flatten_singleton] at hb
  simp only [Assembly.finish, Assembly.extend, hab, Bool.false_eq_true, if_false]
  exact ⟨⟨h.headed.type, h.headed.rid, h.headed.path, h.headed.permit, h.headed.status,
    h.headed.qos⟩, hb⟩

end Assembly

/-! ## Frames of one message -/

/-- A frame as it was before it was numbered. -/
def Frame.unstamp (g : Frame) : Frame :=
  { g with ack := 0, headers := { g.headers with seq := none } }

namespace BinaryEnd

/-- An end has read the first frames of the messages that are coming, as many as `taken`, and all of
them belong to the first message. Whether the stream of that message was closed since is `cut`. -/
inductive Awaits (b : BinaryEnd) (cut : Prop) : List Message → Nat → Prop
  | between (ms : List Message) (h : b.reassembler = {}) : Awaits b cut ms 0
  | within {m : Message} {ms : List Message} {a : Assembly} {rest : List Bytes} {taken : Nat}
      (h : b.reassembler = .one m.key a) (pos : 0 < taken) (lacks : a.Lacks b.codec m rest)
      (frames : (m.frames b.codec b.maxBody).drop taken = rest.map (m.laterFrame b.codec))
      (marked : cut ↔ a.abandoned = true ∨ m.AnswersOn b.closed) : Awaits b cut (m :: ms) taken

theorem abandonClosed_one {b : BinaryEnd} {m : Message} {a : Assembly} {rest : List Bytes}
    (h : b.reassembler = .one m.key a) (hlacks : a.Lacks b.codec m rest) :
    ∃ a', b.abandonClosed.reassembler = .one m.key a' ∧ a'.Lacks b.codec m rest ∧
      (a'.abandoned = true ↔ a.abandoned = true ∨ m.AnswersOn b.closed) := by
  refine ⟨if m.AnswersOn b.closed then a.abandon else a, ?_, ?_, ?_⟩
  · simp only [abandonClosed, h, Reassembler.foldl_abandon_one, m.answersOn_iff]
  · split
    · exact hlacks.abandon
    · exact hlacks
  · by_cases hm : m.AnswersOn b.closed <;> simp [hm, Assembly.abandon]

theorem abandonClosed_empty {b : BinaryEnd} (h : b.reassembler = {}) :
    b.abandonClosed.reassembler = {} := by
  rw [abandonClosed, h]
  exact Reassembler.foldl_abandon_nil b.closed

theorem not_answersOn_nil (m : Message) : ¬ m.AnswersOn [] := by simp [Message.AnswersOn]

theorem Awaits.abandonClosed {b : BinaryEnd} {cut : Prop} {ms : List Message} {taken : Nat}
    (h : b.Awaits cut ms taken) : b.abandonClosed.Awaits cut ms taken := by
  cases h with
  | between ms h => exact .between ms (abandonClosed_empty h)
  | @within m ms a rest taken h pos lacks frames marked =>
    obtain ⟨a', hr, hlacks, hmark⟩ := abandonClosed_one h lacks
    refine .within hr pos hlacks frames ?_
    rw [marked, ← hmark]
    exact ⟨Or.inl, fun h => h.elim id fun h => absurd h (not_answersOn_nil m)⟩

/-- A frame that is neither an acknowledgement nor a ping goes to the reassembler. -/
theorem deliver_eq {b : BinaryEnd} {g : Frame} {m : Message} {r : Reassembler}
    (hg : g.type = m.frameType) (hping : m ≠ .ping)
    (hr : (if g.type = .request .close then b.abandonClosed.reassembler.discard ⟨true, g.rid⟩
      else b.abandonClosed.reassembler) = r) :
    b.deliver g =
      match r.push g with
      | (.error e, r) => (some (.error e), { b.abandonClosed with reassembler := r })
      | (.ok none, r) => (none, { b.abandonClosed with reassembler := r })
      | (.ok (some whole), r) =>
        (some (Inbound.ofFrame b.codec whole), { b.abandonClosed with reassembler := r }) := by
  subst hr
  cases m with
  | ping => exact absurd rfl hping
  | request r =>
    simp only [Message.frameType] at hg
    simp only [deliver, hg]
    rfl
  | response r =>
    simp only [Message.frameType] at hg
    simp only [deliver, hg]
    rfl

end BinaryEnd

/-! ## Members -/

section members

variable {codec : BodyCodec} {maxBody : Nat} {m : Message} {g : Frame}

theorem Frame.headedBy_of_unstamp {headers : Headers} {body : Bytes}
    (hg : g.unstamp = { m.template with headers, body })
    (hpath : headers.path = (Envelope.ofMessage m).headers.path)
    (hpermit : headers.permit = (Envelope.ofMessage m).headers.permit)
    (hstatus : headers.status = (Envelope.ofMessage m).headers.status)
    (hqos : headers.qos = (Envelope.ofMessage m).headers.qos) : g.HeadedBy m := by
  have hh : { g.headers with seq := none } = headers := congrArg Frame.headers hg
  subst hh
  exact ⟨congrArg Frame.type hg, congrArg Frame.rid hg, hpath, hpermit, hstatus, hqos⟩

theorem Frame.assemblyKey_eq (ht : g.type = m.frameType) (hr : g.rid = m.rid) :
    g.assemblyKey = m.key := by
  rw [Frame.assemblyKey, ht, hr, Message.key]

theorem Reassembler.push_only (r : Reassembler)
    (hg : g.unstamp = { m.template with body := m.bodyBytes codec }) :
    r.push g = (.ok (some g), r) ∧ g.HeadedBy m ∧ g.body = m.bodyBytes codec := by
  have hh : { g.headers with seq := none } = m.template.headers := congrArg Frame.headers hg
  have hcont : g.headers.continuation = false := congrArg Headers.continuation hh
  have htotal : g.headers.total = none := congrArg Headers.total hh
  refine ⟨?_, Frame.headedBy_of_unstamp hg rfl rfl rfl rfl, congrArg Frame.body hg⟩
  simp only [push, hcont, htotal, Bool.false_eq_true, if_false]

theorem Reassembler.push_first {first : Bytes} {later : List Bytes}
    (hsplit : m.Split codec maxBody first later) (hg : g.unstamp = m.firstFrame codec first) :
    ∃ a : Assembly, ({} : Reassembler).push g = (.ok none, .one m.key a) ∧ a.abandoned = false ∧
      a.Lacks codec m later := by
  have hh : { g.headers with seq := none } =
      { m.template.headers with total := some (m.bodyBytes codec).length } :=
    congrArg Frame.headers hg
  have hcont : g.headers.continuation = false := congrArg Headers.continuation hh
  have htotal : g.headers.total = some (m.bodyBytes codec).length := congrArg Headers.total hh
  have hbody : g.body = first := congrArg Frame.body hg
  have hhead := Frame.headedBy_of_unstamp hg rfl rfl rfl rfl
  have hkey := Frame.assemblyKey_eq hhead.type hhead.rid
  have hlen : first.length + later.flatten.length = (m.bodyBytes codec).length := by
    rw [← List.length_append, hsplit.whole]
  obtain ⟨c, hc⟩ := List.exists_mem_of_ne_nil later hsplit.more
  have hpos : 0 < later.flatten.length := by
    have hle := (List.sublist_flatten_of_mem hc).length_le
    have := List.length_pos_iff.mpr (hsplit.some c (List.mem_cons_of_mem first hc))
    omega
  refine ⟨{ primary := g, total := (m.bodyBytes codec).length, received := first.length }, ?_, rfl,
    ⟨hhead, rfl, hsplit.more, fun d hd => hsplit.some d (List.mem_cons_of_mem first hd), hlen, ?_⟩⟩
  · have hshort : ¬ (m.bodyBytes codec).length < first.length := by omega
    have hmore : ¬ first.length = (m.bodyBytes codec).length := by omega
    simp only [push, hcont, htotal, Bool.false_eq_true, if_false, pushPrimary, hkey, hbody,
      Table.get?_nil, Table.contains, Option.any_none, Option.isSome_none, hshort,
      Assembly.isComplete, beq_iff_eq, hmore]
    rfl
  · intro _
    rw [hbody]
    exact hsplit.whole

theorem Reassembler.push_later {a : Assembly} {c : Bytes} {rest : List Bytes}
    (hlacks : a.Lacks codec m (c :: rest)) (hg : g.unstamp = m.laterFrame codec c) :
    (Reassembler.one m.key a).push g =
      if rest = [] then
        (.ok (if a.abandoned then none else some (a.extend c).finish), {})
      else (.ok none, .one m.key (a.extend c)) := by
  have hh : { g.headers with seq := none } =
      { total := some (m.bodyBytes codec).length, continuation := true } :=
    congrArg Frame.headers hg
  have hcont : g.headers.continuation = true := congrArg Headers.continuation hh
  have htotal : g.headers.total = some (m.bodyBytes codec).length := congrArg Headers.total hh
  have hbody : g.body = c := congrArg Frame.body hg
  have hkey : g.assemblyKey = m.key :=
    Frame.assemblyKey_eq (congrArg Frame.type hg) (congrArg Frame.rid hg)
  have hlen := hlacks.length
  rw [List.flatten_cons, List.length_append] at hlen
  have hfit : ¬ a.total < a.received + c.length := by omega
  have hsame : ¬ g.headers.total ≠ some a.total := by rw [htotal, hlacks.total]; simp
  have hdone := Assembly.isComplete_extend hlacks.length fun d hd =>
    hlacks.some d (List.mem_cons_of_mem c hd)
  simp only [push, hcont, if_true, pushContinuation, hkey, get?_one, hsame, if_false, hbody, hfit,
    hdone, List.isEmpty_iff, discard_one, modify_one]
  rfl

end members

/-! ## The next frame -/

/-- The body of a message can be put together from the frames that it travels in. -/
structure Message.Splits (codec : BodyCodec) (maxBody : Nat) (m : Message) : Prop where
  length : (m.bodyBytes codec).length < 2 ^ 32
  close : m.frameType = .request .close → (m.bodyBytes codec).length ≤ maxBody

theorem Message.Portable.splits {codec : BodyCodec} {maxBody : Nat} {m : Message}
    (h : m.Portable codec maxBody) : m.Splits codec maxBody := ⟨h.length, h.close⟩

/-- What a reader makes of a message that has come whole. -/
inductive Message.Comes (codec : BodyCodec) (m : Message) : Except FrameError Inbound → Prop
  | ping (h : m = .ping) : Comes codec m (.ok (.message .ping))
  | whole {f : Frame} (ping : m ≠ .ping) (headed : f.HeadedBy m)
      (body : f.body = m.bodyBytes codec) : Comes codec m (Inbound.ofFrame codec f)

theorem Message.Portable.comes {codec : BodyCodec} {maxBody : Nat} {m : Message}
    {r : Except FrameError Inbound} (hm : m.Portable codec maxBody) (h : m.Comes codec r) :
    r = .ok (.message m.read) := by
  cases h with
  | ping h =>
    subst h
    rfl
  | whole hping headed body => exact Inbound.ofFrame_headed hm.words hm.codec hping headed body

namespace BinaryEnd

variable {b : BinaryEnd} {cut : Prop} {m : Message} {ms : List Message} {g : Frame}

/-- A close request does not touch what is in progress, for nothing is when it comes. -/
theorem deliver_between (h : b.reassembler = {}) (hg : g.type = m.frameType) (hping : m ≠ .ping) :
    b.deliver g =
      match ({} : Reassembler).push g with
      | (.error e, r) => (some (.error e), { b.abandonClosed with reassembler := r })
      | (.ok none, r) => (none, { b.abandonClosed with reassembler := r })
      | (.ok (some whole), r) =>
        (some (Inbound.ofFrame b.codec whole), { b.abandonClosed with reassembler := r }) := by
  refine deliver_eq hg hping ?_
  rw [abandonClosed_empty h]
  split <;> rfl

theorem deliver_only (h : b.reassembler = {})
    (hg : g.unstamp = { m.template with body := m.bodyBytes b.codec }) :
    (∃ r, m.Comes b.codec r ∧ (b.deliver g).1 = some r) ∧ (b.deliver g).2.reassembler = {} := by
  have ht : g.type = m.frameType := congrArg Frame.type hg
  by_cases hping : m = .ping
  · subst hping
    simp only [Message.frameType] at ht
    simp only [deliver, ht]
    exact ⟨⟨_, .ping rfl, rfl⟩, abandonClosed_empty h⟩
  · obtain ⟨hpush, hhead, hbody⟩ := Reassembler.push_only {} hg
    rw [deliver_between h ht hping, hpush]
    exact ⟨⟨_, .whole hping hhead hbody, rfl⟩, rfl⟩

theorem deliver_first (ms : List Message) {first : Bytes} {later : List Bytes}
    (h : b.reassembler = {}) (hsplit : m.Split b.codec b.maxBody first later)
    (hframes : m.frames b.codec b.maxBody =
      m.firstFrame b.codec first :: later.map (m.laterFrame b.codec))
    (hg : g.unstamp = m.firstFrame b.codec first) :
    (b.deliver g).1 = none ∧ (b.deliver g).2.Awaits False (m :: ms) 1 := by
  have ht : g.type = m.frameType := congrArg Frame.type hg
  have hne : m.bodyBytes b.codec ≠ [] := by
    rw [← hsplit.whole]
    simp [hsplit.some first List.mem_cons_self]
  have hping : m ≠ .ping := by
    rintro rfl
    exact hne rfl
  obtain ⟨a, hpush, hopen, hlacks⟩ := Reassembler.push_first hsplit hg
  rw [deliver_between h ht hping, hpush]
  refine ⟨rfl, .within rfl Nat.one_pos hlacks ?_ ?_⟩
  · change (m.frames b.codec b.maxBody).drop 1 = _
    rw [hframes]
    rfl
  · simp [hopen, Message.AnswersOn, BinaryEnd.abandonClosed]

theorem deliver_later (ms : List Message) {a : Assembly} {c : Bytes} {rest : List Bytes}
    {taken : Nat} (hm : m.Splits b.codec b.maxBody) (h : b.reassembler = .one m.key a)
    (pos : 0 < taken)
    (hlacks : a.Lacks b.codec m (c :: rest))
    (hframes : (m.frames b.codec b.maxBody).drop taken =
      (c :: rest).map (m.laterFrame b.codec))
    (hcut : cut ↔ a.abandoned = true ∨ m.AnswersOn b.closed)
    (hg : g.unstamp = m.laterFrame b.codec c) :
    (rest = [] ∧ (b.deliver g).2.reassembler = {} ∧ (cut → (b.deliver g).1 = none) ∧
      (¬ cut → ∃ r, m.Comes b.codec r ∧ (b.deliver g).1 = some r)) ∨
    (rest ≠ [] ∧ (b.deliver g).1 = none ∧ (b.deliver g).2.Awaits cut (m :: ms) (taken + 1)) := by
  have ht : g.type = m.frameType := congrArg Frame.type hg
  have hne : m.bodyBytes b.codec ≠ [] := by
    have hlen := hlacks.length
    have hc := List.length_pos_iff.mpr (hlacks.some c List.mem_cons_self)
    rw [List.flatten_cons, List.length_append, hlacks.total] at hlen
    rw [← List.length_pos_iff]
    omega
  have hping : m ≠ .ping := by
    rintro rfl
    exact hne rfl
  have hclose : ¬ g.type = .request .close := by
    intro hclose
    have hone := hm.close (ht.symm.trans hclose)
    rw [Message.frames_eq_split, Frame.split, if_pos hone] at hframes
    have hlen := congrArg List.length hframes
    simp only [List.length_drop, List.length_map, List.length_cons, List.length_nil] at hlen
    omega
  obtain ⟨a', hr, hlacks', hmark⟩ := abandonClosed_one h hlacks
  rw [← hcut] at hmark
  rw [deliver_eq ht hping (if_neg hclose), hr, Reassembler.push_later hlacks' hg]
  by_cases hrest : rest = []
  · left
    rw [if_pos hrest]
    by_cases hab : a'.abandoned = true
    · rw [if_pos hab]
      exact ⟨hrest, rfl, fun _ => rfl, fun hn => absurd (hmark.mp hab) hn⟩
    · subst hrest
      obtain ⟨hhead, hbody⟩ := hlacks'.finish (Bool.eq_false_iff.mpr hab)
      rw [if_neg hab]
      exact ⟨rfl, rfl, fun hc => absurd (hmark.mpr hc) hab,
        fun _ => ⟨_, .whole hping hhead hbody, rfl⟩⟩
  · right
    rw [if_neg hrest]
    refine ⟨hrest, rfl, .within rfl (Nat.succ_pos taken) (hlacks'.extend hrest) ?_ ?_⟩
    · change (m.frames b.codec b.maxBody).drop (taken + 1) = _
      rw [← List.drop_drop, hframes]
      rfl
    · exact hmark.symm.trans ⟨Or.inl, fun h => h.elim id fun h => absurd h (not_answersOn_nil m)⟩

/-- What the next frame of the first message brings: nothing before it is the last, and then the
message, unless its stream was closed on the way. -/
theorem Awaits.gather {taken : Nat} {fs : List Frame} (hmax : 0 < b.maxBody)
    (hs : ∀ m ∈ ms, m.Splits b.codec b.maxBody) (h : b.Awaits cut ms taken)
    (hg : (ms.flatMap (·.frames b.codec b.maxBody)).drop taken = g.unstamp :: fs) :
    ∃ m ms', ms = m :: ms' ∧
      ((taken + 1 < (m.frames b.codec b.maxBody).length ∧ (b.deliver g).1 = none ∧
          (b.deliver g).2.Awaits (0 < taken ∧ cut) ms (taken + 1)) ∨
        (taken + 1 = (m.frames b.codec b.maxBody).length ∧ (b.deliver g).2.reassembler = {} ∧
          (0 < taken ∧ cut → (b.deliver g).1 = none) ∧
          (¬ (0 < taken ∧ cut) → ∃ r, m.Comes b.codec r ∧ (b.deliver g).1 = some r))) := by
  cases h with
  | between ms h =>
    cases ms with
    | nil => simp at hg
    | cons m ms =>
      refine ⟨m, ms, rfl, ?_⟩
      have hm := hs m List.mem_cons_self
      rw [List.drop_zero, List.flatMap_cons] at hg
      obtain ⟨-, hf⟩ | ⟨first, later, hsplit, hf⟩ := Message.frames_cases hmax hm.length
      · right
        rw [hf] at hg ⊢
        obtain ⟨h1, h2⟩ := deliver_only h (List.cons.inj hg).1.symm
        exact ⟨rfl, h2, fun h0 => absurd h0.1 (Nat.lt_irrefl 0), fun _ => h1⟩
      · left
        rw [hf] at hg
        obtain ⟨h1, h2⟩ := deliver_first ms h hsplit hf (List.cons.inj hg).1.symm
        have hlen := List.length_pos_iff.mpr hsplit.more
        refine ⟨?_, h1, by simpa using h2⟩
        rw [hf, List.length_cons, List.length_map]
        omega
  | @within m ms a rest taken h pos lacks frames marked =>
    refine ⟨m, ms, rfl, ?_⟩
    have hm := hs m List.mem_cons_self
    cases rest with
    | nil => exact absurd rfl lacks.more
    | cons c rest =>
      have hlen : (m.frames b.codec b.maxBody).length = taken + (rest.length + 1) := by
        have := congrArg List.length frames
        rw [List.length_drop, List.length_map, List.length_cons] at this
        omega
      rw [List.flatMap_cons, List.drop_append_of_le_length (by omega), frames] at hg
      obtain ⟨hrest, h1, h2, h3⟩ | ⟨hrest, h1, h2⟩ :=
        deliver_later ms hm h pos lacks frames marked (List.cons.inj hg).1.symm
      · right
        subst hrest
        exact ⟨by rw [hlen]; rfl, h1, fun hc => h2 hc.2, fun hc => h3 fun hcut => hc ⟨pos, hcut⟩⟩
      · left
        have := List.length_pos_iff.mpr hrest
        exact ⟨by omega, h1, by simpa [pos] using h2⟩

/-- A message that can travel is read as it was written. -/
theorem Awaits.deliver {taken : Nat} {fs : List Frame} (hmax : 0 < b.maxBody)
    (hs : ∀ m ∈ ms, m.Portable b.codec b.maxBody) (h : b.Awaits cut ms taken)
    (hg : (ms.flatMap (·.frames b.codec b.maxBody)).drop taken = g.unstamp :: fs) :
    ∃ m ms', ms = m :: ms' ∧
      ((taken + 1 < (m.frames b.codec b.maxBody).length ∧ (b.deliver g).1 = none ∧
          (b.deliver g).2.Awaits (0 < taken ∧ cut) ms (taken + 1)) ∨
        (taken + 1 = (m.frames b.codec b.maxBody).length ∧ (b.deliver g).2.reassembler = {} ∧
          (0 < taken ∧ cut → (b.deliver g).1 = none) ∧
          (¬ (0 < taken ∧ cut) → (b.deliver g).1 = some (.ok (.message m.read))))) := by
  obtain ⟨m, ms', rfl, hcase⟩ := h.gather hmax (fun m hm => (hs m hm).splits) hg
  refine ⟨m, ms', rfl, hcase.imp id ?_⟩
  rintro ⟨hlast, hempty, hcut, hcomes⟩
  refine ⟨hlast, hempty, hcut, fun hopen => ?_⟩
  obtain ⟨r, hr, hdeliver⟩ := hcomes hopen
  rw [hdeliver, (hs m List.mem_cons_self).comes hr]

end BinaryEnd
end PeerLink
