import PeerLink.Proofs.FrameAnswers
import PeerLink.Proofs.LinePieces

/-! # Contents that cannot be used

A line or a frame may be well delimited and yet bring no message: what is in it is no JSON, its
fields have other types, it has no number, or its method is not known.

* `Envelope.Usable`: a message can be made of the fields.
* `Decoding.Tells`: what is usable is told as a message, anything else as a rejection or as an error
  after which reading goes on.
* `LineDecoder.reads_lines`: whole lines are answered one by one, each as if it were alone.
-/

namespace PeerLink
set_option autoImplicit false

/-! ## Answers -/

namespace Decoding

def Brings (r : Decoding) : Prop := ∃ m, r = .ok (some (.message m))

/-- A request that is to be answered with an error, or an error after which reading goes on. -/
def Refuses (r : Decoding) : Prop :=
  (∃ rid e, r = .ok (some (.rejected rid e))) ∨ ∃ e, r = .error e ∧ e.isFatal = false

/-- The answer to contents that are usable, or are not. -/
structure Tells (usable : Prop) (r : Decoding) : Prop where
  brings : usable → r.Brings
  refuses : ¬ usable → r.Refuses

variable {usable : Prop} {r : Decoding}

theorem Tells.more (h : Tells usable r) : r.isLast = false := by
  by_cases hu : usable
  · obtain ⟨m, rfl⟩ := h.brings hu
    rfl
  · obtain ⟨rid, e, rfl⟩ | ⟨e, rfl, he⟩ := h.refuses hu
    · rfl
    · exact he

theorem tells_message (h : usable) (m : Message) : Tells usable (.ok (some (.message m))) :=
  ⟨fun _ => ⟨m, rfl⟩, fun hn => absurd h hn⟩

theorem tells_rejected (h : ¬ usable) (rid : Nat) (e : LinkError) :
    Tells usable (.ok (some (.rejected rid e))) :=
  ⟨fun hu => absurd hu h, fun _ => .inl ⟨rid, e, rfl⟩⟩

theorem tells_error (h : ¬ usable) {e : FrameError} (he : e.isFatal = false) :
    Tells usable (.error e) :=
  ⟨fun hu => absurd hu h, fun _ => .inr ⟨e, rfl, he⟩⟩

end Decoding

/-! ## Contents -/

/-- An envelope without fields is a ping. Any other has to have a number, and a method only if it is
a known one. -/
def Envelope.Usable (e : Envelope) : Prop :=
  e.isEmpty = true ∨
    e.rid ≠ none ∧ ∀ name, e.method = some name → ∃ m, Method.ofName? name = some m

/-- A line from which an envelope can be read that is usable. -/
def Bytes.UsableLine (line : Bytes) : Prop := ∃ e, Envelope.read? line = some e ∧ e.Usable

/-- A frame from whose body an envelope can be read that is usable under the headers. -/
def Frame.Usable (codec : BodyCodec) (f : Frame) : Prop :=
  ∃ e, Envelope.ofBody codec f.body = .ok e ∧ (e.inFrame f).Usable

theorem Envelope.toInbound_tells (e : Envelope) :
    Decoding.Tells e.Usable (e.toInbound.map some) := by
  unfold toInbound
  by_cases hempty : e.isEmpty = true
  · rw [if_pos hempty]
    exact Decoding.tells_message (.inl hempty) .ping
  rw [if_neg hempty]
  cases hrid : e.rid with
  | none =>
    refine Decoding.tells_error ?_ rfl
    rintro (h | ⟨h, -⟩)
    · exact hempty h
    · exact h hrid
  | some rid =>
    have hnumber : e.rid ≠ none := by rw [hrid]; nofun
    cases hmethod : e.method with
    | none =>
      exact Decoding.tells_message
        (.inr ⟨hnumber, fun _ h => absurd (hmethod.symm.trans h) nofun⟩) _
    | some name =>
      dsimp only
      unfold Method.parse
      cases hname : Method.ofName? name with
      | none =>
        refine Decoding.tells_rejected ?_ rid _
        rintro (h | ⟨-, h⟩)
        · exact hempty h
        · obtain ⟨m, hm⟩ := h name hmethod
          rw [hname] at hm
          cases hm
      | some m =>
        refine Decoding.tells_message (.inr ⟨hnumber, fun name' h => ?_⟩) _
        cases hmethod.symm.trans h
        exact ⟨m, hname⟩

theorem Inbound.ofLine_tells (line : Bytes) :
    Decoding.Tells line.UsableLine ((ofLine line).map some) := by
  unfold ofLine ofEnvelope
  cases hread : Envelope.read? line with
  | none =>
    refine Decoding.tells_error ?_ rfl
    rintro ⟨e, he, -⟩
    rw [hread] at he
    cases he
  | some e =>
    have htells := e.toInbound_tells
    refine ⟨fun ⟨e', he, hu⟩ => ?_, fun hn => htells.refuses fun hu => hn ⟨e, hread, hu⟩⟩
    cases hread.symm.trans he
    exact htells.brings hu

theorem Inbound.ofFrame_tells {codec : BodyCodec} (hcodec : codec.Mild) (f : Frame) :
    Decoding.Tells (f.Usable codec) ((ofFrame codec f).map some) := by
  unfold ofFrame
  cases hbody : Envelope.ofBody codec f.body with
  | error e =>
    refine Decoding.tells_error ?_ ?_
    · rintro ⟨e', he, -⟩
      rw [hbody] at he
      cases he
    · obtain rfl | hdecode := Envelope.ofBody_error hbody
      · rfl
      · exact hcodec f.body e hdecode
  | ok e =>
    have htells := (e.inFrame f).toInbound_tells
    refine ⟨fun ⟨e', he, hu⟩ => ?_, fun hn => htells.refuses fun hu => hn ⟨e, hbody, hu⟩⟩
    cases hbody.symm.trans he
    exact htells.brings hu

/-! ## Lines -/

/-- Lines one after the other, each with its end. -/
def Bytes.ofLines (lines : List Bytes) : Bytes := lines.flatMap (· ++ [newline])

theorem Bytes.ofLines_cons (line : Bytes) (lines : List Bytes) :
    ofLines (line :: lines) = line ++ newline :: ofLines lines := by
  rw [ofLines, List.flatMap_cons, List.append_assoc]
  rfl

namespace LineDecoder

/-- What is made of a line by itself. -/
def answer? (line : Bytes) : Option Decoding :=
  if line.trim = [] then none else some ((Inbound.ofLine line.trim).map some)

/-- A line that ends where the next one begins, and whose text is not too long. -/
structure Delimited (maxLine : Nat) (line : Bytes) : Prop where
  single : newline ∉ line
  short : line.trim.length ≤ maxLine

theorem answer?_tells {line : Bytes} {r : Decoding} (h : answer? line = some r) :
    Decoding.Tells line.trim.UsableLine r := by
  unfold answer? at h
  split_ifs at h
  cases h
  exact Inbound.ofLine_tells line.trim

theorem answer?_eq_none {line : Bytes} : answer? line = none ↔ line.trim = [] := by
  unfold answer?
  split_ifs with h
  · exact iff_of_true rfl h
  · exact iff_of_false nofun h

variable {d : LineDecoder} {line rest : Bytes} {lines : List Bytes}

/-- A blank line is passed over, any other is answered and used up. -/
theorem next_of_delimited (hline : Delimited d.maxLine line)
    (hbuf : d.buffer = line ++ newline :: rest) :
    d.next =
      match answer? line with
      | none => { d with buffer := rest }.next
      | some r => (r, { d with buffer := rest }) := by
  have hshort := Nat.not_lt.mpr hline.short
  rw [next_of_line hline.single hbuf]
  by_cases hblank : line.trim = []
  · simp only [readLine?, answer?, hblank, List.isEmpty_nil, if_true]
  · simp only [readLine?, answer?, List.isEmpty_iff, hblank, hshort, if_false]

/-- All lines that have come are read, each as if it were alone. -/
theorem reads_lines (d : LineDecoder) : ∀ lines : List Bytes,
    (∀ line ∈ lines, Delimited d.maxLine line) →
    ∃ d0, decoder.Reads { d with buffer := Bytes.ofLines lines } (lines.filterMap answer?) d0 ∧
      decoder.next d0 = (.ok none, { d with buffer := [] })
  | [], _ => ⟨{ d with buffer := [] }, .nil _, next_empty (d := { d with buffer := [] }) rfl⟩
  | line :: lines, h => by
    obtain ⟨d0, hreads, hlast⟩ := reads_lines d lines fun l hl => h l (List.mem_cons_of_mem line hl)
    have hnext := next_of_delimited (d := { d with buffer := Bytes.ofLines (line :: lines) })
      (h line List.mem_cons_self) (Bytes.ofLines_cons line lines)
    cases hanswer : answer? line with
    | none =>
      rw [hanswer] at hnext
      obtain ⟨d0', hreads', hlast'⟩ := Decoder.Patient.reads_congr hnext hreads
      rw [List.filterMap_cons_none hanswer]
      exact ⟨d0', hreads', hlast'.trans hlast⟩
    | some r =>
      rw [hanswer] at hnext
      rw [List.filterMap_cons_some hanswer]
      exact ⟨d0, .cons hnext (answer?_tells hanswer).more hreads, hlast⟩

/-- Lines that come whole, any number of them at once, are answered in their order. -/
theorem inPieces_lines (maxLine : Nat) : ∀ chunks : List (List Bytes),
    (∀ line ∈ chunks.flatten, Delimited maxLine line) →
    decoder.inPieces (chunks.map Bytes.ofLines) { maxLine } =
      (chunks.flatten.filterMap answer?, { maxLine })
  | [], _ => rfl
  | lines :: chunks, h => by
    have hlines : ∀ line ∈ lines, Delimited maxLine line := fun line hl =>
      h line (List.mem_append_left _ hl)
    have ih := inPieces_lines maxLine chunks fun line hl => h line (List.mem_append_right _ hl)
    obtain ⟨d0, hreads, hlast⟩ := reads_lines { maxLine } lines hlines
    have hdrain := Decoder.drain_eq decoder_patient.shrinks hreads hlast
    have hcons := Decoder.inPieces_cons (c := Bytes.ofLines lines) (chunks.map Bytes.ofLines) hdrain
      hreads.not_last
    rw [List.map_cons, hcons, ih, List.flatten_cons, List.filterMap_append]

end LineDecoder
end PeerLink
