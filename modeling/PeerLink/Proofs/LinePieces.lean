import PeerLink.Proofs.Lines
import PeerLink.Proofs.Pieces

/-! # Lines in pieces

The limit for a line is one for its text when all of it has come, and one for all of its bytes
before that. So blanks at the ends of a line matter, or do not, by how the stream is cut.

* `LineDecoder.Unpadded`: no line is too long only because of blanks at its ends.
* `LineDecoder.cut_lines_agree`: what is read of such a stream does not depend on how it is cut. Of
  any other a cut can only make reading stop too early.
-/

namespace PeerLink
set_option autoImplicit false

/-! ## Cutting off a line -/

namespace Bytes

theorem cutLine?_cases (bs : Bytes) : (newline ∉ bs ∧ cutLine? bs = none) ∨
    ∃ line rest, newline ∉ line ∧ bs = line ++ newline :: rest ∧
      cutLine? bs = some (line, rest) := by
  by_cases h : newline ∈ bs
  · obtain ⟨line, rest, rfl, hline⟩ := List.eq_append_cons_of_mem h
    exact .inr ⟨line, rest, hline, rfl, cutLine?_append hline rest⟩
  · have hall : ∀ b ∈ bs, (b != newline) = true := fun b hb =>
      bne_iff_ne.mpr (ne_of_mem_of_not_mem hb h)
    have hdrop : (bs ++ []).dropWhile (· != newline) = [] := List.dropWhile_append_of_pos hall
    rw [List.append_nil] at hdrop
    exact .inl ⟨h, by rw [cutLine?, hdrop]⟩

end Bytes

namespace LineDecoder

/-! ## Reading -/

theorem nextFrom_fuel {maxLine : Nat} : ∀ {fuel fuel' : Nat} {bs : Bytes}, bs.length < fuel →
    bs.length < fuel' → nextFrom maxLine fuel bs = nextFrom maxLine fuel' bs
  | 0, _, _, h, _ => absurd h (Nat.not_lt_zero _)
  | _, 0, _, _, h => absurd h (Nat.not_lt_zero _)
  | fuel + 1, fuel' + 1, bs, h, h' => by
    rw [nextFrom, nextFrom]
    obtain ⟨-, hc⟩ | ⟨line, rest, -, rfl, hc⟩ := bs.cutLine?_cases
    · rw [hc]
    · simp only [List.length_append, List.length_cons] at h h'
      rw [hc]
      dsimp only
      cases readLine? maxLine line with
      | some r => rfl
      | none => exact nextFrom_fuel (by omega) (by omega)

variable {d : LineDecoder} {line rest : Bytes}

theorem next_of_open (h : newline ∉ d.buffer) : d.next =
    (if d.maxLine < d.buffer.length then .error (.tooLarge d.buffer.length d.maxLine)
      else .ok none, d) := by
  have hc : d.buffer.cutLine? = none := by
    obtain ⟨-, hc⟩ | ⟨line, rest, -, hbuf, -⟩ := d.buffer.cutLine?_cases
    · exact hc
    · exact absurd (hbuf ▸ by simp) h
  rw [next, nextFrom, hc]

/-- A line that brings nothing is passed over, without a bound on how many. -/
theorem next_of_line (hline : newline ∉ line) (hbuf : d.buffer = line ++ newline :: rest) :
    d.next =
      match readLine? d.maxLine line with
      | none => { d with buffer := rest }.next
      | some r => (r.map some, { d with buffer := rest }) := by
  have hlen : rest.length < d.buffer.length := by
    rw [hbuf, List.length_append, List.length_cons]
    omega
  rw [next, nextFrom, hbuf, Bytes.cutLine?_append hline, ← hbuf]
  dsimp only
  cases readLine? d.maxLine line with
  | some r => rfl
  | none =>
    dsimp only [next]
    rw [nextFrom_fuel hlen (Nat.lt_succ_self _)]

/-! ## Padding -/

/-- No line of a stream is too long only because of blanks at its ends. -/
inductive Unpadded (maxLine : Nat) : Bytes → Prop
  | tail {bs : Bytes} (unended : newline ∉ bs) : Unpadded maxLine bs
  | line {line rest : Bytes} (single : newline ∉ line)
      (length : line.length ≤ maxLine ∨ maxLine < line.trim.length)
      (more : Unpadded maxLine rest) : Unpadded maxLine (line ++ newline :: rest)

theorem Unpadded.cut {maxLine : Nat} {line rest : Bytes}
    (h : Unpadded maxLine (line ++ newline :: rest)) (hline : newline ∉ line) :
    (line.length ≤ maxLine ∨ maxLine < line.trim.length) ∧ Unpadded maxLine rest := by
  generalize hbs : line ++ newline :: rest = bs at h
  cases h with
  | tail unended => exact absurd (hbs ▸ by simp) unended
  | line single length more =>
    have hcut := Bytes.cutLine?_append hline rest
    rw [hbs, Bytes.cutLine?_append single] at hcut
    cases hcut
    exact ⟨length, more⟩

theorem readLine?_too_long {maxLine : Nat} {line : Bytes} (h : maxLine < line.trim.length) :
    readLine? maxLine line = some (.error (.tooLarge line.trim.length maxLine)) := by
  have hne : line.trim.isEmpty = false := by
    cases ht : line.trim with
    | nil => simp [ht] at h
    | cons b bs => rfl
  simp only [readLine?, hne, Bool.false_eq_true, if_false, if_pos h]

/-- Bytes that are too many for a line are still too many when more come. -/
theorem next_of_overrun {bs x : Bytes} (hopen : newline ∉ bs) (hbuf : d.buffer = bs ++ x)
    (hlen : d.maxLine < bs.length) (h : Unpadded d.maxLine d.buffer) :
    ∃ e d', e.isFatal = true ∧ d.next = (.error e, d') := by
  obtain ⟨hnone, -⟩ | ⟨line, rest, hline, hsplit, -⟩ := d.buffer.cutLine?_cases
  · have hlong : d.maxLine < d.buffer.length := by
      rw [hbuf, List.length_append]
      omega
    exact ⟨_, _, rfl, by rw [next_of_open hnone, if_pos hlong]⟩
  · -- The line begins with all that had come of it.
    have hlonger : bs.length ≤ line.length := by
      by_contra hshort
      have hfront : (line ++ [newline]) <+: bs :=
        List.prefix_of_prefix_length_le ⟨rest, by simp [hsplit]⟩ ⟨x, hbuf.symm⟩
          (by rw [List.length_append, List.length_singleton]; omega)
      exact hopen (hfront.subset (by simp))
    have hlong : d.maxLine < line.trim.length :=
      (Unpadded.cut (hsplit ▸ h) hline).1.resolve_left (by omega)
    refine ⟨.tooLarge line.trim.length d.maxLine, { d with buffer := rest }, rfl, ?_⟩
    rw [next_of_line hline hsplit, readLine?_too_long hlong]
    rfl

/-! ## Bytes that come later -/

/-- What is found in whole lines is found whatever follows them; blank lines are put away. -/
theorem next_feed (x : Bytes) (d : LineDecoder) :
    (d.next.1.isLast = false → (d.feed x).next = (d.next.1, d.next.2.feed x) ∧
      d.next.2.buffer.length < d.buffer.length) ∧
    (d.next.1 = .ok none → (d.feed x).next = (d.next.2.feed x).next) ∧
    (d.next.1.isLast = true → d.next.1 ≠ .ok none → Unpadded d.maxLine (d.buffer ++ x) →
      ∃ e d', e.isFatal = true ∧ (d.feed x).next = (.error e, d')) := by
  obtain ⟨hnone, -⟩ | ⟨line, rest, hline, hsplit, -⟩ := d.buffer.cutLine?_cases
  · rw [next_of_open hnone]
    by_cases hlong : d.maxLine < d.buffer.length
    · rw [if_pos hlong]
      exact ⟨nofun, nofun, fun _ _ h => next_of_overrun hnone rfl hlong h⟩
    · rw [if_neg hlong]
      exact ⟨nofun, fun _ => rfl, fun _ h => absurd rfl h⟩
  · have hmore : (d.feed x).buffer = line ++ newline :: (rest ++ x) := by simp [feed, hsplit]
    have hlen : rest.length < d.buffer.length := by
      rw [hsplit, List.length_append, List.length_cons]
      omega
    rw [next_of_line hline hsplit, next_of_line hline hmore]
    change _ ∧ _ ∧ (_ → _ → Unpadded d.maxLine (d.feed x).buffer → _)
    rw [hmore]
    simp only [feed]
    cases readLine? d.maxLine line with
    | none =>
      obtain ⟨h1, h2, h3⟩ := next_feed x { d with buffer := rest }
      refine ⟨fun h => ?_, h2, fun hlast hne h => h3 hlast hne (h.cut hline).2⟩
      obtain ⟨hfound, hshort⟩ := h1 h
      exact ⟨hfound, Nat.lt_trans hshort hlen⟩
    | some r =>
      refine ⟨fun _ => ⟨rfl, hlen⟩, fun h => ?_, fun hlast _ _ => ?_⟩
      · cases r <;> cases h
      · cases r with
        | error e => exact ⟨e, _, hlast, rfl⟩
        | ok i => cases hlast
termination_by d.buffer.length
decreasing_by exact hlen

theorem unpadded_next (d : LineDecoder) :
    d.next.2.maxLine = d.maxLine ∧
      (Unpadded d.maxLine d.buffer → Unpadded d.maxLine d.next.2.buffer) := by
  obtain ⟨hnone, -⟩ | ⟨line, rest, hline, hsplit, -⟩ := d.buffer.cutLine?_cases
  · rw [next_of_open hnone]
    exact ⟨rfl, id⟩
  · have hlen : rest.length < d.buffer.length := by
      rw [hsplit, List.length_append, List.length_cons]
      omega
    rw [next_of_line hline hsplit, hsplit]
    cases readLine? d.maxLine line with
    | none =>
      obtain ⟨hmax, hrest⟩ := unpadded_next { d with buffer := rest }
      exact ⟨hmax, fun h => hrest (h.cut hline).2⟩
    | some r => exact ⟨rfl, fun h => (h.cut hline).2⟩
termination_by d.buffer.length
decreasing_by exact hlen

def decoder : Decoder LineDecoder := ⟨feed, next, fun d => d.buffer.length⟩

theorem decoder_patient : decoder.Patient where
  feed_nil d := by simp [decoder, feed]
  feed_feed d x y := by simp [decoder, feed]
  found := by
    intro d d' r x hnext hmore
    have hfeed := (next_feed x d).1
    rw [show d.next = (r, d') from hnext] at hfeed
    exact (hfeed hmore).1
  missing := by
    intro d d' x hnext
    have hfeed := (next_feed x d).2.1
    rw [show d.next = (.ok none, d') from hnext] at hfeed
    exact hfeed rfl
  shrinks := by
    intro d d' r hnext hmore
    have hfeed := (next_feed [] d).1
    rw [show d.next = (r, d') from hnext] at hfeed
    exact (hfeed hmore).2

theorem unpadded_reads {d d' : LineDecoder} {rs : List Decoding} (h : decoder.Reads d rs d') :
    d'.maxLine = d.maxLine ∧
      (Unpadded d.maxLine d.buffer → Unpadded d.maxLine d'.buffer) := by
  induction h with
  | nil => exact ⟨rfl, id⟩
  | @cons d d' d'' r rs next _ _ ih =>
    have hnext := d.unpadded_next
    rw [show d.next = (r, d') from next] at hnext
    obtain ⟨hmax, hrest⟩ := ih
    rw [hnext.1] at hmax hrest
    exact ⟨hmax, fun hd => hrest (hnext.2 hd)⟩

/-! ## Streams -/

/-- The last answer of a reading stays the last when the rest of the stream comes. -/
theorem last_feed {d d' : LineDecoder} {later : Bytes} {r : Decoding}
    (hends : decoder.Ends d later r d') (h : Unpadded d.maxLine (d.buffer ++ later)) :
    (d.feed later).next.1.isLast = true ∧ ((d.feed later).next.1 = .ok none ↔ r = .ok none) := by
  have hnext : d.next = (r, d') := hends.next
  by_cases hr : r = .ok none
  · have hsame : d.feed later = d := by
      rw [hends.all hr]
      exact decoder_patient.feed_nil d
    rw [hsame, hnext]
    exact ⟨hends.last, Iff.rfl⟩
  · obtain ⟨e, d'', he, hfeed⟩ := (next_feed later d).2.2 (by rw [hnext]; exact hends.last)
      (by rw [hnext]; exact hr) h
    rw [hfeed]
    exact ⟨he, iff_of_false nofun hr⟩

def readPieces (maxLine : Nat) (cs : List Bytes) : List Decoding :=
  (decoder.inPieces cs { maxLine }).1

end LineDecoder

namespace Decoding

/-- Messages, rejections, and errors after which reading goes on. -/
def told (rs : List Decoding) : List Decoding := rs.filter (!·.isLast)

def failed (rs : List Decoding) : Bool := rs.any isLast

theorem told_listed {δ : Type} {D : Decoder δ} {d d' : δ} {rs : List Decoding} {r : Decoding}
    (h : D.Reads d rs d') (hlast : r.isLast = true) : told (rs ++ r.listed) = rs := by
  have hrs : rs.filter (!·.isLast) = rs := by
    refine List.filter_eq_self.mpr fun r' hr' => ?_
    simpa using List.any_eq_false.mp h.not_last r' hr'
  rw [told, List.filter_append, hrs]
  have hnil : r.listed.filter (!·.isLast) = [] := by
    obtain rfl | ⟨e, rfl, -⟩ := isLast_cases hlast
    · rfl
    · simp only [listed, List.filter_cons, hlast, Bool.not_true, Bool.false_eq_true, if_false,
        List.filter_nil]
  rw [hnil, List.append_nil]

theorem failed_listed {δ : Type} {D : Decoder δ} {d d' : δ} {rs : List Decoding} {r : Decoding}
    (h : D.Reads d rs d') (hlast : r.isLast = true) :
    failed (rs ++ r.listed) = true ↔ r ≠ .ok none := by
  rw [failed, List.any_append, h.not_last, Bool.false_or, Decoder.any_listed hlast]

end Decoding

namespace LineDecoder
open Decoding

/-- A cut never changes a message, only whether reading stops before the end of a line. It does not
do that either unless a line is too long because of blanks at its ends. -/
theorem cut_lines_agree (maxLine : Nat) (cs : List Bytes) :
    told (readPieces maxLine cs) <+: told (readPieces maxLine [cs.flatten]) ∧
    (failed (readPieces maxLine cs) = false →
      readPieces maxLine cs = readPieces maxLine [cs.flatten]) ∧
    (Unpadded maxLine cs.flatten → ∀ cs' : List Bytes, cs'.flatten = cs.flatten →
      told (readPieces maxLine cs) = told (readPieces maxLine cs') ∧
      failed (readPieces maxLine cs) = failed (readPieces maxLine cs')) := by
  have hidle : decoder.next ({ maxLine } : LineDecoder) = (.ok none, { maxLine }) :=
    next_empty (d := { maxLine }) rfl
  obtain ⟨later, rs, d0, r, hreads, hends, heq⟩ := decoder_patient.inPieces_reads cs hidle
  have heq : readPieces maxLine cs = rs ++ r.listed := heq
  obtain ⟨rs1, d1, r1, hreads1, hends1, heq1⟩ :=
    decoder_patient.whole_reads cs.flatten ({ maxLine } : LineDecoder)
  have heq1 : readPieces maxLine [cs.flatten] = rs1 ++ r1.listed := heq1
  have hlast1 : (decoder.next d1).1.isLast = true := by rw [hends1.next]; exact hends1.last
  refine ⟨?_, fun hnot => ?_, fun hpad cs' hflat => ?_⟩
  · rw [heq, heq1, told_listed hreads hends.last, told_listed hreads1 hends1.last]
    obtain ⟨rs2, hmore, -⟩ := hreads.rest hreads1 hlast1
    exact ⟨rs2, hmore.symm⟩
  · rw [heq] at hnot ⊢
    have hr : r = .ok none := by
      by_contra hne
      rw [(failed_listed hreads hends.last).mpr hne] at hnot
      cases hnot
    rw [hends.all hr, decoder_patient.feed_nil] at hreads
    obtain ⟨rfl, rfl⟩ := hreads.unique hreads1 (by rw [hends.next]; exact hends.last) hlast1
    have hsame : r = r1 := congrArg Prod.fst (hends.next.symm.trans hends1.next)
    rw [heq1, hsame]
  · obtain ⟨later', rs', d0', r', hreads', hends', heq'⟩ := decoder_patient.inPieces_reads cs' hidle
    have heq' : readPieces maxLine cs' = rs' ++ r'.listed := heq'
    rw [hflat] at hreads'
    -- Whatever is left of the stream where a reading has ended has no padded line either.
    have hpad0 := (unpadded_reads hreads).2 hpad
    have hpad0' := (unpadded_reads hreads').2 hpad
    rw [← (unpadded_reads hreads).1] at hpad0
    rw [← (unpadded_reads hreads').1] at hpad0'
    obtain ⟨hlast, hnone⟩ := last_feed hends hpad0
    obtain ⟨hlast', hnone'⟩ := last_feed hends' hpad0'
    obtain ⟨rfl, hstate⟩ := hreads.unique hreads' hlast hlast'
    have hsame : r = .ok none ↔ r' = .ok none := by
      rw [← hnone, ← hnone']
      exact iff_of_eq (congrArg (fun d => (decoder.next d).1 = .ok none) hstate)
    rw [heq, heq', told_listed hreads hends.last, told_listed hreads' hends'.last]
    refine ⟨rfl, Bool.eq_iff_iff.mpr ?_⟩
    rw [failed_listed hreads hends.last, failed_listed hreads' hends'.last]
    exact not_congr hsame

/-- An object padded to the limit, with a carriage return behind it. -/
def paddedLine : Bytes := 0x7b :: List.replicate 254 32 ++ [0x7d, 13]

/-- A short message is read the same byte by byte, and with a carriage return behind it. -/
theorem cut_ping_agrees :
    Unpadded 256 [0x7b, 0x7d, 13, newline] ∧
    told (readPieces 256 [[0x7b], [0x7d], [13], [newline]]) =
      told (readPieces 256 [[0x7b, 0x7d, 13, newline]]) ∧
    failed (readPieces 256 [[0x7b], [0x7d], [13], [newline]]) = false := by
  have hpad : Unpadded 256 [0x7b, 0x7d, 13, newline] :=
    @Unpadded.line 256 [0x7b, 0x7d, 13] [] (by decide) (.inl (by decide)) (.tail (by decide))
  obtain ⟨-, -, h⟩ := cut_lines_agree 256 [[0x7b], [0x7d], [13], [newline]]
  obtain ⟨htold, hfailed⟩ := h hpad [[0x7b, 0x7d, 13, newline]] rfl
  exact ⟨hpad, htold, by rw [hfailed]; decide +kernel⟩

set_option maxRecDepth 2000 in
/-- The line is read when it comes whole, and is too long when its end comes later. -/
theorem padded_line_cut :
    ¬ ∀ (maxLine : Nat) (cs cs' : List Bytes), cs.flatten = cs'.flatten →
      told (readPieces maxLine cs) = told (readPieces maxLine cs') ∧
      failed (readPieces maxLine cs) = failed (readPieces maxLine cs') := by
  intro h
  have hfailed := (h 256 [paddedLine, [newline]] [paddedLine ++ [newline]] rfl).2
  have hcut : failed (readPieces 256 [paddedLine, [newline]]) = true := by decide +kernel
  have hwhole : failed (readPieces 256 [paddedLine ++ [newline]]) = false := by decide +kernel
  rw [hcut, hwhole] at hfailed
  cases hfailed

end LineDecoder
end PeerLink
