import PeerLink.Proofs.LinePieces

/-! # Lines that are too long

A writer of lines has no limit, its reader has one.

* `LineDecoder.refuses_iff`: however the bytes of a writer are cut, reading them fails if and only
  if one of the messages is too long for a line.
-/

namespace PeerLink
set_option autoImplicit false

theorem Inbound.ofLine_mild {line : Bytes} {e : FrameError} (h : ofLine line = .error e) :
    e.isFatal = false := by
  unfold ofLine ofEnvelope at h
  split at h
  · cases h
    rfl
  · unfold Envelope.toInbound at h
    split_ifs at h
    split at h
    · cases h
      rfl
    · split at h
      · cases h
      · split at h <;> cases h

namespace LineDecoder
open Decoding

variable {d d' : LineDecoder} {m : Message} {ms : List Message} {later : Bytes}

theorem line_append (m : Message) (bs : Bytes) : m.line ++ bs = m.document ++ newline :: bs := by
  rw [m.line_eq, List.append_assoc]
  rfl

/-- The next line of a writer is all that is looked at. -/
theorem next_of_stream (h : d.buffer = (m :: ms).flatMap Message.line) :
    d.next =
      (if d.maxLine < m.document.length then
          .error (.tooLarge m.document.length d.maxLine)
        else (Inbound.ofLine m.document).map some,
      { d with buffer := ms.flatMap Message.line }) := by
  rw [List.flatMap_cons, line_append] at h
  rw [next_of_line m.newline_not_mem h]
  split_ifs with hlong
  · have htrimmed : d.maxLine < m.document.trim.length := by rwa [m.trim_document]
    rw [readLine?_too_long htrimmed, m.trim_document]
    rfl
  · rw [readLine?_document (Nat.not_lt.mp hlong)]

theorem map_ofLine_more (line : Bytes) : isLast ((Inbound.ofLine line).map some) = false := by
  cases h : Inbound.ofLine line with
  | ok i => rfl
  | error e => exact Inbound.ofLine_mild h

/-- Bytes that a writer has begun with. Nothing is found in front of them, or the next message. -/
theorem next_of_begun (hshort : ∀ m ∈ ms, m.document.length ≤ d.maxLine)
    (h : d.buffer ++ later = ms.flatMap Message.line) :
    d.next = (.ok none, d) ∨
      ∃ m ms' rest, ms = m :: ms' ∧ rest ++ later = ms'.flatMap Message.line ∧
        d.next = ((Inbound.ofLine m.document).map some, { d with buffer := rest }) := by
  cases ms with
  | nil =>
    left
    exact next_empty (List.append_eq_nil_iff.mp h).1
  | cons m ms =>
    have hm := hshort m List.mem_cons_self
    rw [List.flatMap_cons, line_append] at h
    obtain ⟨hopen, -⟩ | ⟨line, rest, hline, hbuf, -⟩ := d.buffer.cutLine?_cases
    · left
      have hlen : d.buffer.length ≤ m.document.length := by
        by_contra hlonger
        have hfront : (m.document ++ [newline]) <+: d.buffer :=
          List.prefix_of_prefix_length_le ⟨ms.flatMap Message.line, by simp⟩ ⟨later, h⟩
            (by rw [List.length_append, List.length_singleton]; omega)
        exact hopen (hfront.subset (by simp))
      rw [next_of_open hopen, if_neg (by omega)]
    · right
      have hcut := Bytes.cutLine?_append hline (rest ++ later)
      rw [← List.cons_append, ← List.append_assoc, ← hbuf, h,
        Bytes.cutLine?_append m.newline_not_mem] at hcut
      obtain ⟨rfl, hrest⟩ := Prod.mk.inj (Option.some.inj hcut)
      refine ⟨m, ms, rest, rfl, hrest.symm, ?_⟩
      rw [next_of_line hline hbuf, readLine?_document hm]

theorem reads_begun {rs : List Decoding} (hreads : decoder.Reads d rs d') :
    ∀ {ms : List Message}, (∀ m ∈ ms, m.document.length ≤ d.maxLine) →
      d.buffer ++ later = ms.flatMap Message.line →
      ∃ ms' : List Message, (∀ m ∈ ms', m.document.length ≤ d'.maxLine) ∧
        d'.buffer ++ later = ms'.flatMap Message.line := by
  induction hreads with
  | nil => exact fun hshort h => ⟨_, hshort, h⟩
  | @cons d d1 d2 r rs next more _ ih =>
    intro ms hshort h
    have hstep : d.next = (r, d1) := next
    obtain hnone | ⟨m, ms', rest, rfl, hrest, hnext⟩ := next_of_begun hshort h
    · rw [hstep] at hnone
      cases hnone
      cases more
    · rw [hstep] at hnext
      obtain ⟨-, rfl⟩ := Prod.mk.inj hnext
      exact ih (fun m' hm' => hshort m' (List.mem_cons_of_mem m hm')) hrest

/-- A message that is too long is never passed over. -/
theorem reads_overlong {rs : List Decoding} (hreads : decoder.Reads d rs d') :
    ∀ {ms : List Message}, (∃ m ∈ ms, d.maxLine < m.document.length) →
      d.buffer = ms.flatMap Message.line → d'.next.1 ≠ .ok none := by
  induction hreads with
  | nil d =>
    rintro ms ⟨m, hm, -⟩ h
    obtain ⟨m', ms, rfl⟩ := List.exists_cons_of_ne_nil (List.ne_nil_of_mem hm)
    rw [next_of_stream h]
    have hmore := map_ofLine_more m'.document
    split_ifs
    · exact fun hnone => by cases hnone
    · intro hnone
      dsimp only at hnone
      rw [hnone] at hmore
      cases hmore
  | @cons d d1 d2 r rs next more _ ih =>
    rintro ms ⟨m, hm, hlong⟩ h
    have hstep : d.next = (r, d1) := next
    obtain ⟨m', ms, rfl⟩ := List.exists_cons_of_ne_nil (List.ne_nil_of_mem hm)
    rw [next_of_stream h] at hstep
    split_ifs at hstep with hfirst
    · obtain ⟨rfl, -⟩ := Prod.mk.inj hstep
      cases more
    · obtain ⟨-, rfl⟩ := Prod.mk.inj hstep
      obtain rfl | hlater := List.mem_cons.mp hm
      · exact absurd hlong hfirst
      · exact ih ⟨m, hlater, hlong⟩ rfl

/-- However the bytes of a writer are cut, and wherever they end, a reader fails only at a message
that is too long; it does fail if all of such a message has come. -/
theorem refuses_iff (maxLine : Nat) {cs : List Bytes}
    (h : cs.flatten ++ later = ms.flatMap Message.line) :
    (failed (readPieces maxLine cs) = true → ∃ m ∈ ms, maxLine < m.document.length) ∧
      (later = [] → (∃ m ∈ ms, maxLine < m.document.length) →
        failed (readPieces maxLine cs) = true) := by
  have hidle : decoder.next ({ maxLine } : LineDecoder) = (.ok none, { maxLine }) :=
    next_empty (d := { maxLine }) rfl
  obtain ⟨come, uncome, rs, d0, r, hflat, hreads, hends, heq⟩ :=
    decoder_patient.inPieces_spec cs { maxLine } hidle
  have heq : readPieces maxLine cs = rs ++ r.listed := heq
  have hfailed := failed_listed hreads hends.last
  rw [← heq] at hfailed
  rw [hflat, List.append_assoc] at h
  have hnext : d0.next = (r, _) := hends.next
  rw [hfailed]
  refine ⟨fun hr => ?_, fun hall hlong hnone => ?_⟩
  · by_contra hshort
    have hshort : ∀ m ∈ ms, m.document.length ≤ maxLine := fun m hm =>
      Nat.not_lt.mp fun hlong => hshort ⟨m, hm, hlong⟩
    obtain ⟨ms', hshort', h'⟩ := reads_begun hreads hshort h
    obtain hnone | ⟨m, ms'', rest, -, -, hfound⟩ := next_of_begun hshort' h'
    · rw [hnext] at hnone
      exact hr (congrArg Prod.fst hnone)
    · have hmore := map_ofLine_more m.document
      rw [hnext] at hfound
      rw [← (Prod.mk.inj hfound).1] at hmore
      exact absurd hends.last (Bool.eq_false_iff.mp hmore)
  · rw [hends.all hnone, hall, List.append_nil, List.append_nil] at h
    exact reads_overlong hreads hlong h (by rw [hnext, hnone])

end LineDecoder
end PeerLink
